import HeuristicTyping.Proofs.Renumbering.Calls
import HeuristicTyping.Proofs.Rules.Kinds

/-!
# Rules under new numbers

The rule of every kind of node asks under new numbers for the renumbered nodes and finds the same.
-/

set_option autoImplicit false

namespace HeuristicTyping

namespace Project.Carries

variable {numbers : Renumbering} {within : NodeId → Prop} {project other : Project}

theorem follow_corresponds {target : Option NodeId} {otherwise : Reason}
    (asked : ∀ node ∈ target, within node) (own : otherwise.renumber numbers = otherwise) :
    Inquiry.Corresponds numbers within (fun found other => found.renumber numbers = other)
      (Rule.follow target otherwise) (Rule.follow (target.map numbers.node) otherwise) := by
  cases target with
  | none =>
      refine .done ?_
      simp [Inference.renumber, Inference.unknown, own]
  | some node => exact Inquiry.corresponds_inferNode (asked node rfl)

theorem symbolEntries_renumber (entries : List (HashKey × NodeId)) :
    Rule.symbolEntries?
        (entries.map fun entry => (entry.1.renumber numbers, numbers.node entry.2)) =
      (Rule.symbolEntries? entries).map
        (List.map fun entry => (entry.1, numbers.node entry.2)) := by
  induction entries with
  | nil => rfl
  | cons entry entries ih =>
      obtain ⟨key, value⟩ := entry
      cases key with
      | symbol name =>
          rw [List.map_cons, HashKey.renumber, Rule.symbolEntries?, Rule.symbolEntries?, ih]
          cases Rule.symbolEntries? entries <;> rfl
      | expression node => rfl

theorem hash_corresponds {entries : List (HashKey × NodeId)}
    (asked : ∀ target ∈ entries.flatMap NodeKind.entryEdges, within target) :
    Inquiry.Corresponds numbers within Eq (Rule.hash entries)
      (Rule.hash (entries.map fun entry => (entry.1.renumber numbers, numbers.node entry.2))) := by
  unfold Rule.hash
  rw [symbolEntries_renumber]
  cases symbols : Rule.symbolEntries? entries with
  | some named =>
      have single : ∀ field ∈ named, Inquiry.Corresponds numbers within Eq (Rule.field field)
          (Rule.field (field.1, numbers.node field.2)) := by
        intro field member
        have inside := asked _ (Rule.symbolEntries_values symbols field member)
        refine Inquiry.corresponds_bind (Inquiry.corresponds_typeOf inside) ?_
        rintro type _ rfl
        exact .done rfl
      refine Inquiry.corresponds_bind (Inquiry.corresponds_each_same single) ?_
      rintro fields _ rfl
      exact .done rfl
  | none =>
      have single : ∀ pair ∈ entries, Inquiry.Corresponds numbers within Eq (Rule.entry pair)
          (Rule.entry (pair.1.renumber numbers, numbers.node pair.2)) := by
        rintro ⟨key, value⟩ member
        have stored : ∀ target ∈ NodeKind.entryEdges (key, value), within target :=
          fun target edge => asked target (List.mem_flatMap.mpr ⟨_, member, edge⟩)
        cases key with
        | symbol name =>
            have inside := stored value List.mem_cons_self
            refine Inquiry.corresponds_bind (Inquiry.corresponds_typeOf inside) ?_
            rintro type _ rfl
            exact .done rfl
        | expression node =>
            have keyInside := stored node List.mem_cons_self
            have inside := stored value (List.mem_cons_of_mem _ List.mem_cons_self)
            refine Inquiry.corresponds_bind (Inquiry.corresponds_typeOf keyInside) ?_
            rintro keyType _ rfl
            refine Inquiry.corresponds_bind (Inquiry.corresponds_typeOf inside) ?_
            rintro type _ rfl
            exact .done rfl
      refine Inquiry.corresponds_bind (Inquiry.corresponds_each_same single) ?_
      rintro types _ rfl
      exact .done rfl

theorem literal_corresponds (type : Ty) {value : LiteralValue}
    (asked : ∀ target ∈ (NodeKind.literal type value).edges, within target) :
    Inquiry.Corresponds numbers within (fun found other => found.renumber numbers = other)
      (Rule.literal type value) (Rule.literal type (value.renumber numbers)) := by
  rcases value with _ | _ | (_ | ⟨first, rest⟩) | (_ | ⟨first, rest⟩)
  · exact .done rfl
  · exact .done rfl
  · exact .done rfl
  · refine Inquiry.corresponds_bind (Inquiry.corresponds_typesOf asked) ?_
    rintro types _ rfl
    exact .done rfl
  · exact .done rfl
  · refine Inquiry.corresponds_bind (hash_corresponds asked) ?_
    rintro hashType _ rfl
    exact .done rfl

theorem localRead_corresponds (carries : project.Carries numbers within other) (name : String)
    {var : VarId} {write : Option NodeId} (asked : ∀ node ∈ write, within node)
    (calls : other.graph.calledMethods (numbers.var var) = project.graph.calledMethods var) :
    Inquiry.Corresponds numbers within (fun found other => found.renumber numbers = other)
      (Rule.localRead project name var write)
      (Rule.localRead other name (numbers.var var) (write.map numbers.node)) := by
  unfold Rule.localRead
  refine Inquiry.corresponds_bind (follow_corresponds asked rfl) ?_
  rintro written _ rfl
  simp only [calls, Inference.renumber_isUnknown]
  split
  · exact .done rfl
  · refine Inquiry.corresponds_bind (carries.guess_corresponds _) ?_
    rintro guess _ rfl
    rw [Inference.renumber_isUnknown]
    refine .done ?_
    split <;> rfl

theorem openParam_corresponds (carries : project.Carries numbers within other) (name : String)
    {default : Option NodeId} {var : VarId} (asked : ∀ node ∈ default, within node)
    (calls : other.graph.calledMethods (numbers.var var) = project.graph.calledMethods var) :
    Inquiry.Corresponds numbers within (fun found other => found.renumber numbers = other)
      (Rule.openParam project name default var)
      (Rule.openParam other name (default.map numbers.node) (numbers.var var)) := by
  have defaulted : Inquiry.Corresponds numbers within (Inference.RenumberedTo numbers)
      (Rule.defaultValue default) (Rule.defaultValue (default.map numbers.node)) := by
    cases default with
    | none => exact .done rfl
    | some node =>
        refine Inquiry.corresponds_bind (Inquiry.corresponds_inferNode (asked node rfl)) ?_
        rintro found _ rfl
        exact .done rfl
  unfold Rule.openParam
  refine Inquiry.corresponds_bind defaulted ?_
  rintro found _ rfl
  have otherwise : (found.map (·.renumber numbers)).getD (.unknown (.untypedParam name)) =
      (found.getD (.unknown (.untypedParam name))).renumber numbers := by
    cases found <;> rfl
  simp only [calls, otherwise, Inference.renumber_isUnknown, Option.isSome_map]
  split
  · exact .done rfl
  · refine Inquiry.corresponds_bind (carries.guess_corresponds _) ?_
    rintro guess _ rfl
    rw [Inference.renumber_isUnknown]
    refine .done ?_
    split <;> rfl

theorem commonProvenance_renumber (found : List Inference) :
    Rule.commonProvenance (found.map (·.renumber numbers)) = Rule.commonProvenance found := by
  cases found with
  | nil => rfl
  | cons first rest => simp [Rule.commonProvenance, List.all_map, Function.comp_def]

theorem merge_corresponds {branches : List NodeId} (asked : ∀ target ∈ branches, within target) :
    Inquiry.Corresponds numbers within (fun found other => found.renumber numbers = other)
      (Rule.merge branches) (Rule.merge (branches.map numbers.node)) := by
  rcases branches with _ | ⟨first, _ | ⟨second, rest⟩⟩
  · exact .done rfl
  · exact Inquiry.corresponds_inferNode (asked first List.mem_cons_self)
  · refine Inquiry.corresponds_bind
      (Inquiry.corresponds_each fun id member => Inquiry.corresponds_inferNode (asked id member)) ?_
    rintro found _ rfl
    refine .done ?_
    simp [Inference.renumber, Reason.renumber, commonProvenance_renumber, Function.comp_def]

theorem definition_corresponds (carries : project.Carries numbers within other)
    {method : Definition} (asked : ∀ node ∈ method.result, within node) :
    Inquiry.Corresponds numbers within (fun found other => found.renumber numbers = other)
      (Rule.definition project method) (Rule.definition other (method.renumber numbers)) := by
  unfold Rule.definition
  simp only [carries.settings, Definition.renumber, List.isEmpty_map]
  split
  · exact .done rfl
  split
  · exact .done rfl
  · exact follow_corresponds asked rfl

theorem blockParam_corresponds (carries : project.Carries numbers within other) (index : Nat)
    {site : NodeId} (inside : within site) :
    Inquiry.Corresponds numbers within (fun found other => found.renumber numbers = other)
      (Rule.blockParam project index site) (Rule.blockParam other index (numbers.node site)) := by
  unfold Rule.blockParam
  rw [carries.kinds inside]
  cases held : project.graph.kind? site with
  | none => exact .done rfl
  | some kind =>
      cases kind with
      | call call =>
          apply carries.inquireBlockParam_corresponds index
          intro receiver received
          apply carries.edge inside held
          simp [NodeKind.edges, Option.mem_def.mp received]
      | _ => exact .done rfl

/-- The rule of a node within the part corresponds to the rule of the renumbered node. -/
theorem rule_corresponds (carries : project.Carries numbers within other) {id : NodeId}
    {kind : NodeKind} (inside : within id) (held : project.graph.kind? id = some kind) :
    Inquiry.Corresponds numbers within (fun found other => found.renumber numbers = other)
      (project.rule kind) (other.rule (kind.renumber numbers)) := by
  have stored : ∀ target ∈ kind.edges, within target := fun target =>
    carries.edge inside held
  have single {node : Option NodeId} (edges : kind.edges = node.toList) :
      ∀ target ∈ node, within target := by
    intro target member
    apply stored
    rw [edges]
    exact Option.mem_toList.mpr member
  have calls := carries.calls inside held
  cases kind with
  | literal type value => exact literal_corresponds type stored
  | localWrite name var value => exact follow_corresponds (single rfl) rfl
  | localRead name var write =>
      exact carries.localRead_corresponds name (single rfl) (calls var List.mem_cons_self)
  | fieldWrite scope owner name value => exact follow_corresponds (single rfl) rfl
  | fieldRead scope owner name write =>
      cases write with
      | some writer => exact Inquiry.corresponds_inferNode (stored writer List.mem_cons_self)
      | none =>
          refine Inquiry.corresponds_bind (carries.find_corresponds (.fields scope) owner name) ?_
          rintro writer _ ⟨rfl, asked⟩
          exact follow_corresponds asked rfl
  | param name paramKind default var =>
      simp only [Project.rule, NodeKind.renumber, Rule.param]
      split
      · exact .done rfl
      · exact carries.openParam_corresponds name (single rfl) (calls var List.mem_cons_self)
  | constant name target =>
      cases target with
      | some target => exact Inquiry.corresponds_inferNode (stored target List.mem_cons_self)
      | none =>
          refine .consult fun found => .done ?_
          split <;> rfl
  | call site => exact carries.inquire_corresponds inside held
  | blockParam index site =>
      exact carries.blockParam_corresponds index (stored site List.mem_cons_self)
  | merge branches => exact merge_corresponds stored
  | definition method => exact carries.definition_corresponds (single rfl)
  | selfReference owner typeLevel => exact .done rfl
  | explicitReturn value =>
      cases value with
      | none => exact .done rfl
      | some node => exact Inquiry.corresponds_inferNode (stored node List.mem_cons_self)

end Project.Carries

end HeuristicTyping
