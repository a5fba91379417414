import Mathlib.Logic.Relation
import HeuristicTyping.Proofs.Resolver.Chains

/-!
# Requests

While the resolver finds a node, the rules of nodes are run, and they ask for further nodes.
`Env.Asks` bounds what they ask for by what is known of a node beforehand: a call may ask for every
method of its name. What a node really asks for depends on what it has been answered, and a call
whose receiver is known asks for the method of that receiver only. A `Demand` is one such request,
together with what comes of it.

The requests of a run account for all that the run touches.
-/

set_option autoImplicit false

namespace HeuristicTyping

/-- One node leads to another in any number of steps. -/
abbrev Reaches (leads : NodeId → NodeId → Prop) : NodeId → NodeId → Prop :=
  Relation.ReflTransGen leads

/-- While the rule of the caller is run, it asks for the target. Either the rule of the target is
run then, or it is told at once what the target is: because that was found before, or because the
target is being worked on, or because there is no such node. -/
structure Demand where
  caller : NodeId
  target : NodeId
  /-- Whether the rule of the target is run. -/
  runs : Bool
deriving DecidableEq, Repr

namespace Inquiry

variable {α : Type} (surroundings : Surroundings) (find : NodeId → Resolution Inference)

/-- What an inquiry asks for while it is answered, each with the moment. -/
def requests : Inquiry α → Progress → List (NodeId × Progress)
  | .done _, _ => []
  | .infer id next, progress =>
      (id, progress) :: requests (next (find id progress).1) (find id progress).2
  | .consult question next, progress =>
      requests (next (surroundings.answer question)) (progress.ask question)

variable {surroundings find}

theorem mem_requests {inquiry : Inquiry α} {start moment : Progress} {id : NodeId} :
    (id, moment) ∈ inquiry.requests surroundings find start ↔
      inquiry.AsksAt surroundings find start id moment := by
  constructor
  · intro listed
    induction inquiry generalizing start with
    | done result => cases listed
    | consult question next ih => exact (ih _ listed).answered
    | infer asked next ih =>
        rcases List.mem_cons.mp listed with same | later
        · obtain ⟨rfl, rfl⟩ := Prod.mk.inj same
          exact AsksAt.first
        · exact (ih _ later).found
  · intro asked
    induction asked with
    | first => exact List.mem_cons_self
    | found later ih => exact List.mem_cons_of_mem _ ih
    | answered later ih => exact ih

end Inquiry

namespace Env

/-- Whether the rule of the node is run if it is asked for. -/
def awaits (env : Env) (progress : Progress) (id : NodeId) : Bool :=
  match progress.memo.slot id, env.project.graph.get? id with
  | .notStarted, some _ => true
  | _, _ => false

theorem awaits_iff {env : Env} {progress : Progress} {id : NodeId} :
    env.awaits progress id = true ↔
      progress.memo.slot id = .notStarted ∧ (env.project.graph.get? id).isSome := by
  unfold awaits
  split
  · simp_all
  · rename_i apart
    simp only [Bool.false_eq_true, false_iff, not_and, Option.isSome_iff_exists, not_exists]
    exact fun held node live => apart node held live

/-- The requests that are made while a node is found, in order: of each node whose rule is run,
those for the nodes that it asks for. -/
def requests (env : Env) : (depth : Nat) → NodeId → Progress → List Demand
  | 0, _, _ => []
  | depth + 1, id, progress =>
      match progress.memo.slot id, env.project.graph.get? id with
      | .notStarted, some node =>
          ((env.project.rule node.kind).requests env.surroundings (env.find depth)
            (progress.set id .inProgress)).flatMap fun (target, moment) =>
              { caller := id, target, runs := env.awaits moment target } ::
                env.requests depth target moment
      | _, _ => []

section Requests

variable {env : Env} {depth : Nat} {id : NodeId} {progress : Progress}

theorem requests_of_started (started : progress.memo.slot id ≠ .notStarted) :
    env.requests depth id progress = [] := by
  cases depth with
  | zero => rfl
  | succ depth =>
      unfold requests
      split
      · exact absurd ‹_› started
      · rfl

theorem requests_of_dangling (gone : env.project.graph.get? id = none) :
    env.requests depth id progress = [] := by
  cases depth with
  | zero => rfl
  | succ depth =>
      unfold requests
      rw [gone]
      split
      · cases ‹none = some _›
      · rfl

/-- A live node that was not started makes the requests of its rule, and what is asked for makes
its own. -/
theorem mem_requests_of_live {node : Node} {request : Demand}
    (held : progress.memo.slot id = .notStarted)
    (live : env.project.graph.get? id = some node) :
    request ∈ env.requests (depth + 1) id progress ↔
      ∃ target moment, (env.project.rule node.kind).AsksAt env.surroundings (env.find depth)
        (progress.set id .inProgress) target moment ∧
        (request = { caller := id, target, runs := env.awaits moment target } ∨
          request ∈ env.requests depth target moment) := by
  simp only [requests, held, live, List.mem_flatMap, Prod.exists, Inquiry.mem_requests,
    List.mem_cons]

end Requests

/-- The requests that are made while a node is found all go along the relation. -/
def Along (env : Env) (leads : NodeId → NodeId → Prop) (depth : Nat) (id : NodeId)
    (progress : Progress) : Prop :=
  ∀ request ∈ env.requests depth id progress, leads request.caller request.target

section Along

variable {env : Env} {leads : NodeId → NodeId → Prop} {depth : Nat} {id : NodeId}
  {progress : Progress}

theorem along_of_started (started : progress.memo.slot id ≠ .notStarted) :
    env.Along leads depth id progress := by
  intro request requested
  rw [requests_of_started started] at requested
  cases requested

theorem along_of_dangling (gone : env.project.graph.get? id = none) :
    env.Along leads depth id progress := by
  intro request requested
  rw [requests_of_dangling gone] at requested
  cases requested

theorem along_of_live {node : Node} (held : progress.memo.slot id = .notStarted)
    (live : env.project.graph.get? id = some node) :
    env.Along leads (depth + 1) id progress ↔
      ∀ target moment, (env.project.rule node.kind).AsksAt env.surroundings (env.find depth)
        (progress.set id .inProgress) target moment →
        leads id target ∧ env.Along leads depth target moment := by
  constructor
  · intro along target moment asked
    refine ⟨along _ ((mem_requests_of_live held live).mpr ⟨target, moment, asked, Or.inl rfl⟩),
      fun request later => along request ?_⟩
    exact (mem_requests_of_live held live).mpr ⟨target, moment, asked, Or.inr later⟩
  · intro along request requested
    obtain ⟨target, moment, asked, rfl | later⟩ := (mem_requests_of_live held live).mp requested
    · exact (along target moment asked).1
    · exact (along target moment asked).2 request later

end Along

/-- Every request is one that `Asks` allows for. -/
theorem along_asks (env : Env) (depth : Nat) (id : NodeId) (progress : Progress) :
    env.Along env.Asks depth id progress := by
  apply env.find_induct fun depth id before _ => env.Along env.Asks depth id before
  · intro _ id before inference held
    exact along_of_started (by simp [held])
  · intro _ id before held
    exact along_of_started (by simp [held])
  · intro _ _ _ _ gone
    exact along_of_dangling gone
  · intro _ _ _ _ _ _ requested
    cases requested
  · intro depth id before node held live inner
    refine (along_of_live held live).mpr fun target moment asked => ?_
    exact ⟨Inquiry.may_of_asksAt (rule_asks live) asked, inner target moment⟩

/-- The resolver touches only the slots of nodes that the requests lead to. -/
theorem find_frame {env : Env} {leads : NodeId → NodeId → Prop} {depth : Nat} {id other : NodeId}
    {progress : Progress} (along : env.Along leads depth id progress)
    (unreached : ¬ Reaches leads id other) :
    (env.find depth id progress).2.memo.slot other = progress.memo.slot other := by
  revert along unreached
  apply env.find_induct fun depth id before result => env.Along leads depth id before →
    ¬ Reaches leads id other → result.2.memo.slot other = before.memo.slot other
  · intro _ _ _ _ _ _ _
    rfl
  · intro _ _ _ _ _ _
    rfl
  · intro _ _ _ _ _ _ _
    rfl
  · intro _ _ _ _ _ _ _
    rfl
  · intro depth id before node held live inner along unreached
    have steps := (along_of_live held live).mp along
    have apart : other ≠ id := by
      rintro rfl
      exact unreached Relation.ReflTransGen.refl
    have ran : (env.dispatch depth id node before).2.memo.slot other =
        (before.set id .inProgress).memo.slot other := by
      refine (Inquiry.run_kept
        (fun now => now.memo.slot other = (before.set id .inProgress).memo.slot other)
        (fun _ _ same => same) ?_ rfl).1
      intro target moment asked same
      obtain ⟨step, rest⟩ := steps target moment asked
      have beyond : ¬ Reaches leads target other := fun reaches =>
        unreached (Relation.ReflTransGen.head step reaches)
      exact (inner target moment rest beyond).trans same
    simpa [settle, apart] using ran

end Env

end HeuristicTyping
