import HeuristicTyping.Inference.Rules
import HeuristicTyping.Inference.Memo

/-!
# The resolver

The resolver answers inquiries. It remembers what it finds, so that no node is worked on twice. A
node that is asked for while it is being worked on depends on itself and is not known, and a chain
of dependencies that gets too long is cut off. What was found after a cut-off depends on where the
question came from, so it is not remembered.
-/

set_option autoImplicit false

namespace HeuristicTyping

/-- A project in its surroundings: all that findings depend on. -/
structure Env where
  project : Project
  surroundings : Surroundings

/-- What the resolver keeps while it works. -/
structure Progress where
  memo : Memo := {}
  /-- How often a chain was cut off. -/
  cutoffs : Nat := 0
  /-- The questions put to the surroundings, latest first. -/
  asked : List Question := []
deriving Inhabited

namespace Progress

/-- Notes a question. -/
def ask (progress : Progress) (question : Question) : Progress :=
  { progress with asked := question :: progress.asked }

/-- Notes a cut-off. -/
def cutOff (progress : Progress) : Progress :=
  { progress with cutoffs := progress.cutoffs + 1 }

/-- Sets the slot of a node. -/
def set (progress : Progress) (id : NodeId) (slot : Slot) : Progress :=
  { progress with memo := progress.memo.set id slot }

end Progress

/-- A computation that the resolver performs. -/
abbrev Resolution (α : Type) := Progress → α × Progress

namespace Inquiry

/-- Answers an inquiry, given how to find the types of nodes. -/
def run {α : Type} (surroundings : Surroundings) (find : NodeId → Resolution Inference) :
    Inquiry α → Resolution α
  | .done result, progress => (result, progress)
  | .infer id next, progress =>
      let (inference, progress) := find id progress
      (next inference).run surroundings find progress
  | .consult question next, progress =>
      (next (surroundings.answer question)).run surroundings find (progress.ask question)

/-- Answering one inquiry after the other is answering both in turn. -/
theorem run_bind {α β : Type} (surroundings : Surroundings)
    (find : NodeId → Resolution Inference) (inquiry : Inquiry α) (next : α → Inquiry β)
    (progress : Progress) :
    (inquiry >>= next).run surroundings find progress =
      (next (inquiry.run surroundings find progress).1).run surroundings find
        (inquiry.run surroundings find progress).2 := by
  induction inquiry generalizing progress with
  | done result => rfl
  | infer id rest ih => exact ih (find id progress).1 (find id progress).2
  | consult question rest ih =>
      exact ih (surroundings.answer question) (progress.ask question)

end Inquiry

namespace Env

/-- The finding of a node's rule, with its type simplified. -/
def simplified (env : Env) (found : Inference) : Inference :=
  { found with type := env.surroundings.simplifier.simplify found.type }

/-- What is found for a node, on a chain of dependencies that may go `depth` nodes further. -/
def find (env : Env) : (depth : Nat) → NodeId → Resolution Inference
  | depth, id, progress =>
      match progress.memo.slot id with
      | .done inference => (inference, progress)
      | .inProgress => (.unknown .circularReference, progress)
      | .notStarted =>
          match env.project.graph.get? id with
          | none => (.unknown (.danglingNode id), progress)
          | some node =>
              match depth with
              | 0 => (.unknown .depthLimit, progress.cutOff)
              | depth + 1 =>
                  let (found, after) :=
                    (env.project.rule node.kind).run env.surroundings (env.find depth)
                      (progress.set id .inProgress)
                  let inference := env.simplified found
                  let slot :=
                    if after.cutoffs = progress.cutoffs then Slot.done inference
                    else Slot.notStarted
                  (inference, (after.ask (.simplify found.type)).set id slot)

/-! ### What is found, case by case -/

/-- What was found before is found again, and nothing changes. -/
theorem find_of_done (env : Env) (depth : Nat) {id : NodeId} {progress : Progress}
    {inference : Inference} (held : progress.memo.slot id = .done inference) :
    env.find depth id progress = (inference, progress) := by
  unfold find
  rw [held]

/-- A node that is being worked on depends on itself. -/
theorem find_of_inProgress (env : Env) (depth : Nat) {id : NodeId} {progress : Progress}
    (held : progress.memo.slot id = .inProgress) :
    env.find depth id progress = (.unknown .circularReference, progress) := by
  unfold find
  rw [held]

/-- A number without a live node behind it is not known. -/
theorem find_of_dangling (env : Env) (depth : Nat) {id : NodeId} {progress : Progress}
    (held : progress.memo.slot id = .notStarted) (gone : env.project.graph.get? id = none) :
    env.find depth id progress = (.unknown (.danglingNode id), progress) := by
  unfold find
  rw [held]
  simp only [gone]

/-- At the end of the depth, a node that was not started is cut off. -/
theorem find_of_exhausted (env : Env) {id : NodeId} {progress : Progress} {node : Node}
    (held : progress.memo.slot id = .notStarted) (live : env.project.graph.get? id = some node) :
    env.find 0 id progress = (.unknown .depthLimit, progress.cutOff) := by
  unfold find
  rw [held]
  simp only [live]

/-- Answers an inquiry with the full depth that the settings allow. -/
def resolve {α : Type} (env : Env) (inquiry : Inquiry α) : Resolution α :=
  inquiry.run env.surroundings (env.find env.project.settings.maxDepth)

end Env

end HeuristicTyping
