import HeuristicTyping.Proofs.Session.Building
import Mathlib.Data.List.Induction

/-!
# Graphs as maps by number

A graph is changed by adding nodes and variables, by noting calls and by removing files. What it
holds after a list of changes is read off the list: a node is there if it was added and no later
change removed its file, and a variable has the calls that were noted since it was added.

Every change keeps the numbers in ascending order, so looking a number up by bisection finds
what a search from the front finds, and nothing else. Counters of 32 bits would hand out the same
numbers, as long as there are no more than `2 ^ 32` of a kind.
-/

set_option autoImplicit false

namespace HeuristicTyping

/-! ### Looking up a number -/

section Numbers

variable {α : Type} {number : α → Nat}

/-- Looks for the element with a number: the one in the middle tells in which half to go on. -/
def bisect (number : α → Nat) (wanted : Nat) (elements : List α) : Option α :=
  match found : elements.drop (elements.length / 2) with
  | [] => none
  | middle :: above =>
      if number middle = wanted then some middle
      else if number middle < wanted then bisect number wanted above
      else bisect number wanted (elements.take (elements.length / 2))
termination_by elements.length
decreasing_by
  all_goals
    have filled := congrArg List.length found
    simp only [List.length_drop, List.length_cons, List.length_take] at filled ⊢
    omega

theorem find?_eq_none_of_apart {elements : List α} {wanted : Nat}
    (apart : ∀ element ∈ elements, number element ≠ wanted) :
    elements.find? (fun element => number element == wanted) = none := by
  rw [List.find?_eq_none]
  intro element listed
  simpa using apart element listed

/-- Where numbers ascend, an element tells on which side of it a number can be. -/
theorem find?_around {elements above : List α} {middle : α} {place : Nat} (wanted : Nat)
    (found : elements.drop place = middle :: above)
    (ascending : elements.Pairwise fun first second => number first < number second) :
    elements.find? (fun element => number element == wanted) =
      if number middle = wanted then some middle
      else if number middle < wanted then
        above.find? fun element => number element == wanted
      else (elements.take place).find? fun element => number element == wanted := by
  have whole : elements = elements.take place ++ middle :: above := by
    rw [← found, List.take_append_drop]
  have sorted := ascending
  rw [whole, List.pairwise_append, List.pairwise_cons] at sorted
  obtain ⟨_, ⟨more, _⟩, across⟩ := sorted
  have early : number middle ≤ wanted →
      (elements.take place).find? (fun element => number element == wanted) = none := by
    intro reached
    apply find?_eq_none_of_apart
    intro element listed
    have less := across element listed middle List.mem_cons_self
    omega
  have late : wanted < number middle →
      above.find? (fun element => number element == wanted) = none := by
    intro short
    apply find?_eq_none_of_apart
    intro element listed
    have greater := more element listed
    omega
  conv_lhs => rw [whole, List.find?_append]
  split_ifs with same lower
  · rw [early (by omega), List.find?_cons_of_pos (by simpa using same), Option.none_or]
  · rw [early (by omega), List.find?_cons_of_neg (by simpa using same), Option.none_or]
  · rw [List.find?_cons_of_neg (by simpa using same), late (by omega), Option.or_none]

/-- In a list with ascending numbers, bisection finds what a search from the front finds. -/
theorem bisect_eq_find? {elements : List α} (wanted : Nat)
    (ascending : elements.Pairwise fun first second => number first < number second) :
    bisect number wanted elements = elements.find? fun element => number element == wanted := by
  fun_induction bisect number wanted elements with
  | case1 elements found =>
      have empty : elements = [] := by
        have length := congrArg List.length found
        simp only [List.length_drop, List.length_nil] at length
        exact List.eq_nil_of_length_eq_zero (by omega)
      rw [empty]
      rfl
  | case2 elements middle above found same =>
      rw [find?_around wanted found ascending, if_pos same]
  | case3 elements middle above found differs lower ih =>
      have rest : (middle :: above).Sublist elements := found ▸ List.drop_sublist _ _
      rw [find?_around wanted found ascending, if_neg differs, if_pos lower]
      exact ih (ascending.sublist ((List.sublist_cons_self middle above).trans rest))
  | case4 elements middle above found differs notLower ih =>
      rw [find?_around wanted found ascending, if_neg differs, if_neg notLower]
      exact ih (ascending.sublist (List.take_sublist _ _))

/-- Where numbers differ, a search finds exactly the element with the number. -/
theorem find?_eq_some_iff_of_nodup {elements : List α} {wanted : Nat} {element : α}
    (nodup : (elements.map number).Nodup) :
    elements.find? (fun element => number element == wanted) = some element ↔
      element ∈ elements ∧ number element = wanted := by
  constructor
  · intro found
    exact ⟨List.mem_of_find?_eq_some found, by simpa using List.find?_some found⟩
  · rintro ⟨listed, rfl⟩
    cases found : elements.find? fun other => number other == number element with
    | none =>
        have missed := List.find?_eq_none.mp found element listed
        simp at missed
    | some other =>
        have same : number other = number element := by simpa using List.find?_some found
        rw [List.inj_on_of_nodup_map nodup (List.mem_of_find?_eq_some found) listed same]

end Numbers

/-! ### Changes -/

namespace Graph

/-- What may happen to a graph. -/
inductive Change where
  | addNode (kind : NodeKind) (file : Option FileId) (span : Option Span)
  | addVariable (name : String) (file : Option FileId)
  | recordCall (var : VarId) (call : CalledMethod)
  | removeFile (file : FileId)

/-- The graph after a change. -/
def change (graph : Graph) : Change → Graph
  | .addNode kind file span => (graph.add kind file span).2
  | .addVariable name file => (graph.addVariable name file).2
  | .recordCall var call => graph.recordCall var call
  | .removeFile file => (graph.removeFile file).2

/-- The graph after changes that began with an empty one. -/
def after (changes : List Change) : Graph :=
  changes.foldl change {}

theorem after_concat (changes : List Change) (last : Change) :
    after (changes ++ [last]) = (after changes).change last := by
  rw [after, List.foldl_append]
  rfl

namespace Change

/-- Whether a change leaves alone what was added from a file before it. -/
def spares (file : Option FileId) : Change → Bool
  | .removeFile removed => file != some removed
  | _ => true

/-- The call that a change notes on a variable. -/
def callOn? (var : VarId) : Change → Option CalledMethod
  | .recordCall noted call => if noted = var then some call else none
  | _ => none

/-- A live variable after a change. -/
def noted (live : Variable) : Change → Variable
  | .recordCall var call => if live.id = var then live.record call else live
  | _ => live

end Change

/-- The calls that changes note on a variable, in the order of time. -/
def callsOn (var : VarId) (changes : List Change) : List CalledMethod :=
  changes.filterMap (Change.callOn? var)

/-- The node was added by one of the changes, under its number, and no later one removed its
file. -/
def HoldsNode (changes : List Change) (node : Node) : Prop :=
  ∃ earlier later, changes = earlier ++ .addNode node.kind node.file node.span :: later ∧
    ((after earlier).add node.kind node.file node.span).1 = node.id ∧
    later.all (Change.spares node.file) = true

/-- The variable with this number was added right before the later changes, and none of them removed
its file. -/
def HoldsVariable (changes : List Change) (var : VarId) (later : List Change) : Prop :=
  ∃ earlier name file, changes = earlier ++ .addVariable name file :: later ∧
    ((after earlier).addVariable name file).1 = var ∧ later.all (Change.spares file) = true

/-- The number that a change hands out, of a node or of a variable. -/
def handsOut? (graph : Graph) : Change → Option (NodeId ⊕ VarId)
  | .addNode kind file span => some (.inl (graph.add kind file span).1)
  | .addVariable name file => some (.inr (graph.addVariable name file).1)
  | _ => none

/-- The numbers that changes hand out, in the order of time. -/
def handedOut : Graph → List Change → List (NodeId ⊕ VarId)
  | _, [] => []
  | graph, change :: later =>
      (graph.handsOut? change).toList ++ handedOut (graph.change change) later

/-! ### Numbers -/

/-- The number was not handed out yet. -/
def IsNew (graph : Graph) : NodeId ⊕ VarId → Prop
  | .inl id => graph.nextNode ≤ id
  | .inr var => graph.nextVar ≤ var

theorem isNew_of_change {graph : Graph} {change : Change} {number : NodeId ⊕ VarId}
    (later : (graph.change change).IsNew number) : graph.IsNew number := by
  cases change with
  | addNode kind file span =>
      cases number with
      | inl id => exact Nat.le_of_succ_le later
      | inr var => exact later
  | addVariable name file =>
      cases number with
      | inl id => exact later
      | inr var => exact Nat.le_of_succ_le later
  | recordCall var call => cases number <;> exact later
  | removeFile file => cases number <;> exact later

theorem isNew_of_handsOut {graph : Graph} {change : Change} {number : NodeId ⊕ VarId}
    (handed : graph.handsOut? change = some number) :
    graph.IsNew number ∧ ¬ (graph.change change).IsNew number := by
  cases change with
  | addNode kind file span =>
      obtain rfl := Option.some.inj handed
      exact ⟨Nat.le_refl _, Nat.not_succ_le_self _⟩
  | addVariable name file =>
      obtain rfl := Option.some.inj handed
      exact ⟨Nat.le_refl _, Nat.not_succ_le_self _⟩
  | recordCall var call => cases handed
  | removeFile file => cases handed

theorem isNew_of_handedOut {graph : Graph} {changes : List Change} {number : NodeId ⊕ VarId}
    (handed : number ∈ handedOut graph changes) : graph.IsNew number := by
  induction changes generalizing graph with
  | nil => cases handed
  | cons change later ih =>
      rcases List.mem_append.mp handed with own | rest
      · exact (isNew_of_handsOut (Option.mem_toList.mp own)).1
      · exact isNew_of_change (ih rest)

/-- No number is handed out twice. -/
theorem handedOut_nodup (graph : Graph) (changes : List Change) :
    (handedOut graph changes).Nodup := by
  induction changes generalizing graph with
  | nil => exact List.nodup_nil
  | cons change later ih =>
      rw [handedOut]
      cases handed : graph.handsOut? change with
      | none => exact ih (graph.change change)
      | some number =>
          refine List.nodup_cons.mpr ⟨?_, ih (graph.change change)⟩
          exact fun again => (isNew_of_handsOut handed).2 (isNew_of_handedOut again)

theorem not_isNew_of_handedOut {graph : Graph} {changes : List Change}
    {number : NodeId ⊕ VarId} (handed : number ∈ handedOut graph changes) :
    ¬ (changes.foldl change graph).IsNew number := by
  have earlier : ∀ {start : Graph} {later : List Change},
      (later.foldl Graph.change start).IsNew number → start.IsNew number := by
    intro start later
    induction later generalizing start with
    | nil => exact id
    | cons change later ih => exact fun new => isNew_of_change (ih new)
  induction changes generalizing graph with
  | nil => cases handed
  | cons change later ih =>
      rcases List.mem_append.mp handed with own | rest
      · exact fun new => (isNew_of_handsOut (Option.mem_toList.mp own)).2 (earlier new)
      · exact ih rest

/-! ### Counters of 32 bits -/

/-- The counters of a graph in 32 bits. After the largest number they begin again. -/
structure Counters where
  nextNode : UInt32 := 0
  nextVar : UInt32 := 0

namespace Counters

def change (counters : Counters) : Change → Counters
  | .addNode _ _ _ => { counters with nextNode := counters.nextNode + 1 }
  | .addVariable _ _ => { counters with nextVar := counters.nextVar + 1 }
  | _ => counters

def handsOut? (counters : Counters) : Change → Option (UInt32 ⊕ UInt32)
  | .addNode _ _ _ => some (.inl counters.nextNode)
  | .addVariable _ _ => some (.inr counters.nextVar)
  | _ => none

/-- The numbers that changes hand out, in the order of time. -/
def handedOut : Counters → List Change → List (UInt32 ⊕ UInt32)
  | _, [] => []
  | counters, change :: later =>
      (counters.handsOut? change).toList ++ handedOut (counters.change change) later

/-- The counters are those of the graph, cut to 32 bits. -/
structure Mirrors (counters : Counters) (graph : Graph) : Prop where
  nextNode : counters.nextNode = UInt32.ofNat graph.nextNode
  nextVar : counters.nextVar = UInt32.ofNat graph.nextVar

theorem Mirrors.change {counters : Counters} {graph : Graph} (mirrors : counters.Mirrors graph)
    (change : Change) : (counters.change change).Mirrors (graph.change change) := by
  cases change with
  | addNode kind file span =>
      refine ⟨?_, mirrors.nextVar⟩
      simp [Counters.change, Graph.change, Graph.add, mirrors.nextNode, UInt32.ofNat_add]
  | addVariable name file =>
      refine ⟨mirrors.nextNode, ?_⟩
      simp [Counters.change, Graph.change, Graph.addVariable, mirrors.nextVar, UInt32.ofNat_add]
  | recordCall var call => exact ⟨mirrors.nextNode, mirrors.nextVar⟩
  | removeFile file => exact ⟨mirrors.nextNode, mirrors.nextVar⟩

theorem Mirrors.handedOut {counters : Counters} {graph : Graph}
    (mirrors : counters.Mirrors graph) (changes : List Change) :
    counters.handedOut changes =
      (Graph.handedOut graph changes).map (Sum.map UInt32.ofNat UInt32.ofNat) := by
  induction changes generalizing counters graph with
  | nil => rfl
  | cons change later ih =>
      have own : counters.handsOut? change =
          (graph.handsOut? change).map (Sum.map UInt32.ofNat UInt32.ofNat) := by
        cases change <;>
          simp [Counters.handsOut?, Graph.handsOut?, Graph.add, Graph.addVariable,
            mirrors.nextNode, mirrors.nextVar]
      rw [Counters.handedOut, Graph.handedOut, List.map_append, own, ih (mirrors.change change)]
      cases graph.handsOut? change <;> rfl

/-- As long as no counter passes `2 ^ 32`, counters of 32 bits hand out the same numbers. -/
theorem handedOut_of_small {changes : List Change} (nodes : (after changes).nextNode ≤ UInt32.size)
    (vars : (after changes).nextVar ≤ UInt32.size) :
    (handedOut {} changes).map (Sum.map UInt32.toNat UInt32.toNat) =
      Graph.handedOut {} changes := by
  have mirrors : Mirrors {} {} := ⟨rfl, rfl⟩
  rw [mirrors.handedOut changes, List.map_map]
  conv_rhs => rw [← List.map_id (Graph.handedOut {} changes)]
  apply List.map_congr_left
  intro number handed
  have old := not_isNew_of_handedOut handed
  cases number with
  | inl id =>
      have small : id < UInt32.size := Nat.lt_of_lt_of_le (Nat.lt_of_not_le old) nodes
      exact congrArg Sum.inl (UInt32.toNat_ofNat_of_lt' small)
  | inr var =>
      have small : var < UInt32.size := Nat.lt_of_lt_of_le (Nat.lt_of_not_le old) vars
      exact congrArg Sum.inr (UInt32.toNat_ofNat_of_lt' small)

end Counters

/-- Numbers are distinct and were handed out, and both lists are in their order. -/
structure Ascending (graph : Graph) : Prop extends graph.Sound where
  nodes : graph.nodes.Pairwise fun first second => first.id < second.id
  vars : graph.vars.Pairwise fun first second => first.id < second.id

theorem Ascending.change {graph : Graph} (ascending : graph.Ascending) (change : Change) :
    (graph.change change).Ascending := by
  cases change with
  | addNode kind file span =>
      refine ⟨ascending.toSound.add kind file span, ?_, ascending.vars⟩
      refine List.pairwise_append.mpr ⟨ascending.nodes, List.pairwise_singleton _ _, ?_⟩
      intro node held added only
      rw [List.mem_singleton.mp only]
      exact ascending.nodes_lt node held
  | addVariable name file =>
      refine ⟨ascending.toSound.addVariable name file, ascending.nodes, ?_⟩
      refine List.pairwise_append.mpr ⟨ascending.vars, List.pairwise_singleton _ _, ?_⟩
      intro live held added only
      rw [List.mem_singleton.mp only]
      exact ascending.vars_lt live held
  | recordCall var call =>
      refine ⟨ascending.toSound.recordCall var call, ascending.nodes, ?_⟩
      refine List.pairwise_map.mpr (ascending.vars.imp fun {first second} less => ?_)
      split_ifs <;> simpa using less
  | removeFile file =>
      exact ⟨ascending.toSound.removeFile file, ascending.nodes.filter _, ascending.vars.filter _⟩

theorem Ascending.after (changes : List Change) : (Graph.after changes).Ascending := by
  induction changes using List.reverseRecOn with
  | nil => exact ⟨Sound.empty, List.Pairwise.nil, List.Pairwise.nil⟩
  | append_singleton changes last ih =>
      rw [after_concat]
      exact ih.change last

/-! ### Nodes -/

/-- An occurrence in a list with one more element is the last element or an earlier occurrence. -/
theorem concat_eq_append_cons_iff {α : Type} {elements earlier later : List α} {last element : α} :
    elements ++ [last] = earlier ++ element :: later ↔
      (later = [] ∧ elements = earlier ∧ last = element) ∨
        ∃ rest, later = rest ++ [last] ∧ elements = earlier ++ element :: rest := by
  constructor
  · intro split
    rcases List.eq_nil_or_concat later with rfl | ⟨rest, final, rfl⟩
    · obtain ⟨same, ends⟩ := List.append_inj' split rfl
      exact Or.inl ⟨rfl, same, List.cons.inj ends |>.1⟩
    · have regrouped : elements ++ [last] = (earlier ++ element :: rest) ++ [final] := by
        simpa using split
      obtain ⟨same, ends⟩ := List.append_inj' regrouped rfl
      exact Or.inr ⟨rest, by simp [(List.cons.inj ends).1], same⟩
  · rintro (⟨rfl, rfl, rfl⟩ | ⟨rest, rfl, rfl⟩)
    · rfl
    · simp

theorem holdsNode_concat {changes : List Change} {last : Change} {node : Node} :
    HoldsNode (changes ++ [last]) node ↔
      (HoldsNode changes node ∧ last.spares node.file = true) ∨
        (last = .addNode node.kind node.file node.span ∧ (after changes).nextNode = node.id) := by
  constructor
  · rintro ⟨earlier, later, split, number, kept⟩
    rcases concat_eq_append_cons_iff.mp split with ⟨-, rfl, added⟩ | ⟨rest, rfl, before⟩
    · exact Or.inr ⟨added, number⟩
    · rw [List.all_append, Bool.and_eq_true, List.all_cons, List.all_nil, Bool.and_true] at kept
      exact Or.inl ⟨⟨earlier, rest, before, number, kept.1⟩, kept.2⟩
  · rintro (⟨⟨earlier, rest, before, number, kept⟩, spared⟩ | ⟨rfl, number⟩)
    · refine ⟨earlier, rest ++ [last], ?_, number, ?_⟩
      · exact concat_eq_append_cons_iff.mpr (Or.inr ⟨rest, rfl, before⟩)
      · simp [List.all_append, kept, spared]
    · exact ⟨changes, [], rfl, number, rfl⟩

theorem mem_nodes_change {graph : Graph} {change : Change} {node : Node} :
    node ∈ (graph.change change).nodes ↔
      (node ∈ graph.nodes ∧ change.spares node.file = true) ∨
        (change = .addNode node.kind node.file node.span ∧ graph.nextNode = node.id) := by
  cases change with
  | addNode kind file span =>
      have added : node = { id := graph.nextNode, file, span, kind } ↔
          Change.addNode kind file span = .addNode node.kind node.file node.span ∧
            graph.nextNode = node.id := by
        cases node
        simp only [Node.mk.injEq, Change.addNode.injEq]
        tauto
      simp only [Graph.change, Graph.add, List.mem_append, List.mem_singleton, Change.spares,
        and_true, added]
  | addVariable name file => simp [Graph.change, Graph.addVariable, Change.spares]
  | recordCall var call => simp [Graph.change, Graph.recordCall, Change.spares]
  | removeFile file => simp [Graph.change, Graph.removeFile, Change.spares]

/-- The graph holds the nodes that were added and whose files were not removed since. -/
theorem mem_nodes_after {changes : List Change} {node : Node} :
    node ∈ (after changes).nodes ↔ HoldsNode changes node := by
  induction changes using List.reverseRecOn with
  | nil => simp [after, HoldsNode]
  | append_singleton changes last ih =>
      rw [after_concat, mem_nodes_change, ih, holdsNode_concat]

/-! ### Variables -/

/-- The variable as the changes tell of it: its name and file when it was added, and the calls that
were noted since. -/
def TellsOf (changes : List Change) (live : Variable) : Prop :=
  ∃ earlier later, changes = earlier ++ .addVariable live.name live.file :: later ∧
    (after earlier).nextVar = live.id ∧ later.all (Change.spares live.file) = true ∧
    live.called = (callsOn live.id later).eraseDups

theorem eraseDups_concat (calls : List CalledMethod) (call : CalledMethod) :
    (calls ++ [call]).eraseDups =
      if call ∈ calls then calls.eraseDups else calls.eraseDups ++ [call] := by
  rw [List.eraseDups_append]
  split_ifs with known
  · simp [List.removeAll, known]
  · have new : [call].removeAll calls = [call] := by simp [List.removeAll, known]
    rw [new]
    rfl

theorem noted_eq {live : Variable} {calls : List CalledMethod} (change : Change)
    (called : live.called = calls.eraseDups) :
    change.noted live =
      { live with called := (calls ++ (change.callOn? live.id).toList).eraseDups } := by
  obtain ⟨id, name, file, own⟩ := live
  obtain rfl : own = calls.eraseDups := called
  cases change with
  | recordCall var call =>
      by_cases same : id = var
      · subst same
        by_cases known : call ∈ calls <;>
          simp [Change.noted, Change.callOn?, Variable.record, eraseDups_concat, known]
      · simp [Change.noted, Change.callOn?, same, Ne.symm same]
  | addNode kind file span => simp [Change.noted, Change.callOn?]
  | addVariable name file => simp [Change.noted, Change.callOn?]
  | removeFile file => simp [Change.noted, Change.callOn?]

theorem callsOn_concat (var : VarId) (changes : List Change) (last : Change) :
    callsOn var (changes ++ [last]) = callsOn var changes ++ (last.callOn? var).toList := by
  rw [callsOn, List.filterMap_append, callsOn]
  cases noted : last.callOn? var <;> simp [noted]

theorem tellsOf_concat {changes : List Change} {last : Change} {live : Variable} :
    TellsOf (changes ++ [last]) live ↔
      (∃ before, TellsOf changes before ∧ last.spares before.file = true ∧
          last.noted before = live) ∨
        (last = .addVariable live.name live.file ∧ (after changes).nextVar = live.id ∧
          live.called = []) := by
  constructor
  · rintro ⟨earlier, later, split, number, kept, called⟩
    rcases concat_eq_append_cons_iff.mp split with ⟨rfl, rfl, added⟩ | ⟨rest, rfl, before⟩
    · exact Or.inr ⟨added, number, called⟩
    · rw [List.all_append, Bool.and_eq_true, List.all_cons, List.all_nil, Bool.and_true] at kept
      refine Or.inl ⟨{ live with called := (callsOn live.id rest).eraseDups },
        ⟨earlier, rest, before, number, kept.1, rfl⟩, kept.2, ?_⟩
      rw [noted_eq last rfl, ← callsOn_concat, ← called]
  · rintro (⟨before, ⟨earlier, rest, split, number, kept, called⟩, spared, rfl⟩ |
      ⟨rfl, number, called⟩)
    · rw [noted_eq last called, ← callsOn_concat]
      refine ⟨earlier, rest ++ [last], ?_, number, ?_, rfl⟩
      · exact concat_eq_append_cons_iff.mpr (Or.inr ⟨rest, rfl, split⟩)
      · simp [List.all_append, kept, spared]
    · exact ⟨changes, [], rfl, number, rfl, called⟩

theorem mem_vars_change {graph : Graph} {change : Change} {live : Variable} :
    live ∈ (graph.change change).vars ↔
      (∃ before, before ∈ graph.vars ∧ change.spares before.file = true ∧
          change.noted before = live) ∨
        (change = .addVariable live.name live.file ∧ graph.nextVar = live.id ∧
          live.called = []) := by
  cases change with
  | addNode kind file span => simp [Graph.change, Graph.add, Change.spares, Change.noted]
  | addVariable name file =>
      have added : live = { id := graph.nextVar, name, file } ↔
          Change.addVariable name file = .addVariable live.name live.file ∧
            graph.nextVar = live.id ∧ live.called = [] := by
        cases live
        simp only [Variable.mk.injEq, Change.addVariable.injEq]
        tauto
      simp only [Graph.change, Graph.addVariable, List.mem_append, List.mem_singleton,
        Change.spares, Change.noted, true_and, exists_eq_right, added]
  | recordCall var call => simp [Graph.change, Graph.recordCall, Change.spares, Change.noted]
  | removeFile file => simp [Graph.change, Graph.removeFile, Change.spares, Change.noted]

theorem mem_vars_after {changes : List Change} {live : Variable} :
    live ∈ (after changes).vars ↔ TellsOf changes live := by
  induction changes using List.reverseRecOn generalizing live with
  | nil => simp [after, TellsOf]
  | append_singleton changes last ih =>
      rw [after_concat, mem_vars_change, tellsOf_concat]
      simp only [ih]

/-! ### Look-ups -/

theorem getVariable?_after {changes : List Change} {var : VarId} {live : Variable} :
    (after changes).getVariable? var = some live ↔ TellsOf changes live ∧ live.id = var := by
  rw [getVariable?, find?_eq_some_iff_of_nodup (Ascending.after changes).vars_nodup,
    mem_vars_after]

theorem calledMethods_of_holds {changes later : List Change} {var : VarId}
    (holds : HoldsVariable changes var later) :
    (after changes).calledMethods var = (callsOn var later).eraseDups := by
  obtain ⟨earlier, name, file, split, number, kept⟩ := holds
  have live : (after changes).getVariable? var =
      some { id := var, name, file, called := (callsOn var later).eraseDups } :=
    getVariable?_after.mpr ⟨⟨earlier, later, split, number, kept, rfl⟩, rfl⟩
  rw [calledMethods, live]

theorem calledMethods_of_gone {changes : List Change} {var : VarId}
    (gone : ∀ later, ¬ HoldsVariable changes var later) :
    (after changes).calledMethods var = [] := by
  rw [calledMethods]
  cases found : (after changes).getVariable? var with
  | none => rfl
  | some live =>
      obtain ⟨⟨earlier, later, split, number, kept, _⟩, rfl⟩ := getVariable?_after.mp found
      exact absurd ⟨earlier, live.name, live.file, split, number, kept⟩ (gone later)

theorem get?_after {changes : List Change} {id : NodeId} {node : Node} :
    (after changes).get? id = some node ↔ node.id = id ∧ HoldsNode changes node := by
  rw [get?, find?_eq_some_iff_of_nodup (Ascending.after changes).nodes_nodup, mem_nodes_after,
    and_comm]

/-- Removing a file answers how many numbers of nodes name nothing any more. -/
theorem Ascending.removed_eq {graph : Graph} (ascending : graph.Ascending) (file : FileId) :
    (graph.removeFile file).1 =
      graph.ids.countP fun id => ((graph.removeFile file).2.get? id).isNone := by
  have stays : ∀ node ∈ graph.nodes,
      ((graph.removeFile file).2.get? node.id).isSome ↔ node.file ≠ some file := by
    intro node held
    rw [Option.isSome_iff_exists]
    simp only [get?, find?_eq_some_iff_of_nodup (ascending.toSound.removeFile file).nodes_nodup]
    constructor
    · rintro ⟨other, listed, same⟩
      obtain ⟨inside, kept⟩ := List.mem_filter.mp listed
      rw [List.inj_on_of_nodup_map ascending.nodes_nodup inside held same] at kept
      simpa using kept
    · intro kept
      exact ⟨node, List.mem_filter.mpr ⟨held, by simpa using kept⟩, rfl⟩
  rw [ids, List.countP_map]
  change (graph.nodesIn file).length = _
  rw [nodesIn, ← List.countP_eq_length_filter]
  apply List.countP_congr
  intro node held
  have kept := stays node held
  simp only [Function.comp_apply, ← Option.not_isSome, Bool.not_eq_true', beq_iff_eq]
  rw [← Bool.not_eq_true, kept, not_not]

end Graph

/-- A graph is a map by number. After any changes, numbers ascend and are below the counters, and
none was handed out twice. A number names the node that was added under it, found by bisection too,
until its file is removed, and then nothing. The calls of a variable are the distinct ones noted
since it was added, as long as it is there, and removing a file counts the nodes that go. -/
theorem graph_is_a_map_by_number (changes : List Graph.Change) :
    ((Graph.after changes).nodes.map Node.id).Pairwise (· < ·) ∧
    ((Graph.after changes).vars.map Variable.id).Pairwise (· < ·) ∧
    (∀ node ∈ (Graph.after changes).nodes, node.id < (Graph.after changes).nextNode) ∧
    (∀ live ∈ (Graph.after changes).vars, live.id < (Graph.after changes).nextVar) ∧
    (Graph.handedOut {} changes).Nodup ∧
    (∀ id node, (Graph.after changes).get? id = some node ↔
      node.id = id ∧ Graph.HoldsNode changes node) ∧
    (∀ id, bisect Node.id id (Graph.after changes).nodes = (Graph.after changes).get? id) ∧
    (∀ var, bisect Variable.id var (Graph.after changes).vars =
      (Graph.after changes).getVariable? var) ∧
    (∀ var later, Graph.HoldsVariable changes var later →
      (Graph.after changes).calledMethods var = (Graph.callsOn var later).eraseDups) ∧
    (∀ var, (∀ later, ¬ Graph.HoldsVariable changes var later) →
      (Graph.after changes).calledMethods var = []) ∧
    ∀ file, ((Graph.after changes).removeFile file).1 =
      (Graph.after changes).ids.countP fun id =>
        (((Graph.after changes).removeFile file).2.get? id).isNone := by
  have ascending := Graph.Ascending.after changes
  exact ⟨List.pairwise_map.mpr ascending.nodes, List.pairwise_map.mpr ascending.vars,
    ascending.nodes_lt, ascending.vars_lt, Graph.handedOut_nodup {} changes,
    fun _ _ => Graph.get?_after, fun id => bisect_eq_find? id ascending.nodes,
    fun var => bisect_eq_find? var ascending.vars, fun _ _ => Graph.calledMethods_of_holds,
    fun _ => Graph.calledMethods_of_gone, ascending.removed_eq⟩

end HeuristicTyping
