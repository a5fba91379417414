import HeuristicTyping.Proofs.Resolver.Slots

/-!
# The depth as a count

`Env.find` is told how much further it may go. A resolver can as well keep the number of nodes that
it is in the middle of, raise it before a rule is run, lower it afterwards, and compare it with the
limit. Nothing bounds such a resolver beforehand. It ends all the same, it answers the same, and
afterwards its count is what it was.
-/

set_option autoImplicit false

namespace HeuristicTyping

/-- A resolver that counts how deep it is. -/
structure Resolver where
  progress : Progress := {}
  depth : Nat := 0

namespace Env

/-- Answers an inquiry, counting the depth. -/
def count (env : Env) {α : Type} (inquiry : Inquiry α) (resolver : Resolver) :
    Option (α × Resolver) :=
  match inquiry with
  | .done result => some (result, resolver)
  | .consult question next =>
      env |>.count (next (env.surroundings.answer question))
        { resolver with progress := resolver.progress.ask question }
  | .infer id next =>
      match resolver.progress.memo.slot id with
      | .done inference => env |>.count (next inference) resolver
      | .inProgress => env |>.count (next (.unknown .circularReference)) resolver
      | .notStarted =>
          match env.project.graph.get? id with
          | none => env |>.count (next (.unknown (.danglingNode id))) resolver
          | some node =>
              if env.project.settings.maxDepth ≤ resolver.depth then
                env |>.count (next (.unknown .depthLimit))
                  { resolver with progress := resolver.progress.cutOff }
              else do
                let (found, inner) ← env |>.count (env.project.rule node.kind)
                  { progress := resolver.progress.set id .inProgress
                    depth := resolver.depth + 1 }
                env |>.count (next (env.simplified found))
                  { progress := env.settle id resolver.progress inner.progress found
                    depth := inner.depth - 1 }
partial_fixpoint

/-- Counting the depth answers as going down to the limit does, and ends at the same depth. -/
theorem count_eq_run (env : Env) {α : Type} (inquiry : Inquiry α) (progress : Progress)
    (depth : Nat) :
    env.count inquiry { progress, depth } =
      some ((inquiry.run env.surroundings
          (env.find (env.project.settings.maxDepth - depth)) progress).1,
        { progress := (inquiry.run env.surroundings
            (env.find (env.project.settings.maxDepth - depth)) progress).2, depth }) := by
  -- The rule of a node is run one level further down, with less depth left; what comes after it
  -- is run at the same depth, but is a smaller inquiry.
  generalize left : env.project.settings.maxDepth - depth = remaining
  induction remaining using Nat.strongRecOn generalizing α inquiry progress depth with
  | ind remaining deeper =>
      induction inquiry generalizing progress with
      | done result =>
          rw [count]
          rfl
      | consult question next ih =>
          rw [count]
          exact ih _ _
      | infer id next ih =>
          rw [count, Inquiry.run]
          cases held : progress.memo.slot id with
          | done inference => simp only [env.find_of_done remaining held, ih]
          | inProgress => simp only [env.find_of_inProgress remaining held, ih]
          | notStarted =>
              cases live : env.project.graph.get? id with
              | none => simp only [env.find_of_dangling remaining held live, ih]
              | some node =>
                  cases remaining with
                  | zero =>
                      have reached : env.project.settings.maxDepth ≤ depth := by omega
                      simp only [env.find_of_exhausted held live, if_pos reached, ih]
                  | succ remaining =>
                      have within : ¬ env.project.settings.maxDepth ≤ depth := by omega
                      have below := deeper remaining (by omega) (env.project.rule node.kind)
                        (progress.set id .inProgress) (depth + 1) (by omega)
                      simp only [env.find_of_live remaining held live, if_neg within, below]
                      exact ih _ _

end Env

end HeuristicTyping
