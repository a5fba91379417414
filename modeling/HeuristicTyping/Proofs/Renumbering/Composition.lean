import HeuristicTyping.Proofs.Renumbering.Inquiries
import Mathlib.Tactic.Tauto

/-!
# Renumbering by parts

How renumberings act on program elements: the identity changes nothing, two renumberings that agree
on the numbers in a node do the same to it, and two in a row are one.
-/

set_option autoImplicit false

namespace HeuristicTyping

/-! ### Numbers as they are -/

theorem HashKey.renumber_identity (key : HashKey) : key.renumber .identity = key := by
  cases key <;> rfl

theorem LiteralValue.renumber_identity (value : LiteralValue) :
    value.renumber .identity = value := by
  cases value with
  | plain => rfl
  | symbol name => rfl
  | array elements => simp [renumber, Renumbering.identity]
  | hash entries =>
      have single : (fun entry : HashKey × NodeId =>
          (entry.1.renumber .identity, Renumbering.identity.node entry.2)) = id := by
        funext entry
        rw [HashKey.renumber_identity]
        rfl
      rw [renumber, single, List.map_id]

theorem Block.renumber_identity (block : Block) : block.renumber .identity = block := by
  simp [renumber, Renumbering.identity]

theorem Call.renumber_identity (call : Call) : call.renumber .identity = call := by
  have blocks : Block.renumber .identity = id := funext Block.renumber_identity
  rw [renumber, blocks]
  simp [Renumbering.identity]

theorem Definition.renumber_identity (method : Definition) :
    method.renumber .identity = method := by
  simp [renumber, Renumbering.identity]

theorem NodeKind.renumber_identity (kind : NodeKind) : kind.renumber .identity = kind := by
  cases kind with
  | literal type value => rw [renumber, value.renumber_identity]
  | call site => rw [renumber, site.renumber_identity]
  | definition method => rw [renumber, method.renumber_identity]
  | _ => simp [renumber, Renumbering.identity]

/-! ### Numbers that a node holds -/

/-- All numbers of nodes in a node, also those that its type does not depend on. -/
def NodeKind.mentions : NodeKind → List NodeId
  | .call site =>
      site.receiver.toList ++ site.arguments ++
        site.block.toList.flatMap fun block => block.params ++ block.body ++ block.result.toList
  | .definition method => method.params ++ method.body ++ method.result.toList
  | kind => kind.edges

theorem NodeKind.edges_mentioned {kind : NodeKind} :
    ∀ target ∈ kind.edges ++ kind.params, target ∈ kind.mentions := by
  intro target member
  cases kind with
  | call site =>
      simp only [edges, params, List.append_nil] at member
      simp only [mentions]
      cases held : site.block with
      | none => simp_all
      | some block =>
          simp only [held, Option.bind_some, List.mem_append] at member
          simp only [Option.toList_some, List.flatMap_singleton, List.mem_append]
          tauto
  | definition method =>
      simp only [edges, params, List.mem_append] at member
      simp only [mentions, List.mem_append]
      tauto
  | _ => simpa [mentions, params] using member

theorem NodeKind.mentions_renumber (numbers : Renumbering) (kind : NodeKind) :
    (kind.renumber numbers).mentions = kind.mentions.map numbers.node := by
  cases kind with
  | literal type value =>
      cases value with
      | hash entries =>
          have single : ∀ entry : HashKey × NodeId,
              entryEdges (entry.1.renumber numbers, numbers.node entry.2) =
                (entryEdges entry).map numbers.node := by
            rintro ⟨_ | _, _⟩ <;> rfl
          simp [mentions, edges, renumber, LiteralValue.renumber, List.flatMap_map,
            List.map_flatMap, single]
      | _ => simp [mentions, edges, renumber, LiteralValue.renumber]
  | call site =>
      cases held : site.block <;>
        simp [mentions, renumber, Call.renumber, Block.renumber, held, Option.toList_map]
  | definition method => simp [mentions, renumber, Definition.renumber, Option.toList_map]
  | _ => simp [mentions, edges, renumber, Option.toList_map]

theorem NodeKind.vars_renumber (numbers : Renumbering) (kind : NodeKind) :
    (kind.renumber numbers).vars = kind.vars.map numbers.var := by
  cases kind <;> rfl

section Congruence

variable {numbers other : Renumbering}

theorem map_node_congr {ids : List NodeId}
    (same : ∀ id ∈ ids, numbers.node id = other.node id) :
    ids.map numbers.node = ids.map other.node :=
  List.map_congr_left same

theorem option_node_congr {id : Option NodeId}
    (same : ∀ target ∈ id.toList, numbers.node target = other.node target) :
    id.map numbers.node = id.map other.node := by
  cases id with
  | none => rfl
  | some target => exact congrArg some (same target List.mem_cons_self)

theorem HashKey.renumber_congr {entries : List (HashKey × NodeId)}
    (same : ∀ id ∈ entries.flatMap NodeKind.entryEdges, numbers.node id = other.node id) :
    (entries.map fun entry => (entry.1.renumber numbers, numbers.node entry.2)) =
      entries.map fun entry => (entry.1.renumber other, other.node entry.2) := by
  apply List.map_congr_left
  rintro ⟨key, value⟩ member
  have stored : ∀ id ∈ NodeKind.entryEdges (key, value), numbers.node id = other.node id :=
    fun id edge => same id (List.mem_flatMap.mpr ⟨_, member, edge⟩)
  cases key with
  | symbol name =>
      have valued := stored value List.mem_cons_self
      simp only [HashKey.renumber, valued]
  | expression node =>
      have keyed := stored node List.mem_cons_self
      have valued := stored value (List.mem_cons_of_mem _ List.mem_cons_self)
      simp only [HashKey.renumber, keyed, valued]

theorem Block.renumber_congr {block : Block}
    (same : ∀ id ∈ block.params ++ block.body ++ block.result.toList,
      numbers.node id = other.node id) : block.renumber numbers = block.renumber other := by
  simp only [List.mem_append] at same
  have params := map_node_congr fun id member => same id (Or.inl (Or.inl member))
  have body := map_node_congr fun id member => same id (Or.inl (Or.inr member))
  have result := option_node_congr fun id member => same id (Or.inr member)
  simp only [Block.renumber, params, body, result]

theorem NodeKind.renumber_congr {kind : NodeKind}
    (nodes : ∀ id ∈ kind.mentions, numbers.node id = other.node id)
    (vars : ∀ var ∈ kind.vars, numbers.var var = other.var var) :
    kind.renumber numbers = kind.renumber other := by
  cases kind with
  | literal type value =>
      cases value with
      | plain => rfl
      | symbol name => rfl
      | array elements =>
          exact congrArg (fun ids => literal type (.array ids)) (map_node_congr nodes)
      | hash entries =>
          exact congrArg (fun held => literal type (.hash held)) (HashKey.renumber_congr nodes)
  | localWrite name var value =>
      simp only [renumber, vars var List.mem_cons_self, option_node_congr nodes]
  | localRead name var write =>
      simp only [renumber, vars var List.mem_cons_self, option_node_congr nodes]
  | fieldWrite scope owner name value => simp only [renumber, option_node_congr nodes]
  | fieldRead scope owner name write => simp only [renumber, option_node_congr nodes]
  | param name paramKind default var =>
      simp only [renumber, vars var List.mem_cons_self, option_node_congr nodes]
  | constant name target => simp only [renumber, option_node_congr nodes]
  | call site =>
      simp only [mentions, List.mem_append] at nodes
      have receiver := option_node_congr fun id member => nodes id (Or.inl (Or.inl member))
      have arguments := map_node_congr fun id member => nodes id (Or.inl (Or.inr member))
      have block : site.block.map (Block.renumber numbers) =
          site.block.map (Block.renumber other) := by
        cases held : site.block with
        | none => rfl
        | some block =>
            refine congrArg some (Block.renumber_congr fun id member => nodes id (Or.inr ?_))
            simpa [held] using member
      simp only [renumber, Call.renumber, receiver, arguments, block]
  | blockParam index site => simp only [renumber, nodes site List.mem_cons_self]
  | merge branches => exact congrArg merge (map_node_congr nodes)
  | definition method =>
      simp only [mentions, List.mem_append] at nodes
      have params := map_node_congr fun id member => nodes id (Or.inl (Or.inl member))
      have body := map_node_congr fun id member => nodes id (Or.inl (Or.inr member))
      have result := option_node_congr fun id member => nodes id (Or.inr member)
      simp only [renumber, Definition.renumber, params, body, result]
  | selfReference owner typeLevel => rfl
  | explicitReturn value => simp only [renumber, option_node_congr nodes]

end Congruence

/-- First one renumbering, then another. -/
def Renumbering.andThen (numbers later : Renumbering) : Renumbering where
  node := later.node ∘ numbers.node
  var := later.var ∘ numbers.var

section Composition

variable (numbers later : Renumbering)

theorem HashKey.renumber_andThen (key : HashKey) :
    (key.renumber numbers).renumber later = key.renumber (numbers.andThen later) := by
  cases key <;> rfl

theorem LiteralValue.renumber_andThen (value : LiteralValue) :
    (value.renumber numbers).renumber later = value.renumber (numbers.andThen later) := by
  cases value <;> simp [renumber, HashKey.renumber_andThen, Renumbering.andThen, Function.comp_def]

theorem Block.renumber_andThen (block : Block) :
    (block.renumber numbers).renumber later = block.renumber (numbers.andThen later) := by
  simp [renumber, Renumbering.andThen]

theorem Call.renumber_andThen (call : Call) :
    (call.renumber numbers).renumber later = call.renumber (numbers.andThen later) := by
  have blocks : Block.renumber later ∘ Block.renumber numbers =
      Block.renumber (numbers.andThen later) := funext (Block.renumber_andThen numbers later)
  simp [renumber, blocks, Renumbering.andThen]

theorem Definition.renumber_andThen (method : Definition) :
    (method.renumber numbers).renumber later = method.renumber (numbers.andThen later) := by
  simp [renumber, Renumbering.andThen]

theorem NodeKind.renumber_andThen (kind : NodeKind) :
    (kind.renumber numbers).renumber later = kind.renumber (numbers.andThen later) := by
  cases kind with
  | literal type value => simp only [renumber, LiteralValue.renumber_andThen]
  | call site => simp only [renumber, Call.renumber_andThen]
  | definition method => simp only [renumber, Definition.renumber_andThen]
  | _ => simp [renumber, Renumbering.andThen]

end Composition

end HeuristicTyping
