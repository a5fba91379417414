import HeuristicTyping.Proofs.Rules.Kinds

/-!
# The slots of a memo while the resolver works

A slot is opened before the rule of its node is run, and it is settled afterwards; in between any
other node may be worked on, and the same node may be met again. `find_induct` is the induction
over all of this: what the opening and the settling of one slot keep, every finding keeps. From it
follow the facts that `Env.Grows` collects, and that no finding is remembered whose reason is the
depth limit.
-/

set_option autoImplicit false

namespace HeuristicTyping

namespace Progress

@[simp] theorem ask_memo (progress : Progress) (question : Question) :
    (progress.ask question).memo = progress.memo := rfl

@[simp] theorem ask_cutoffs (progress : Progress) (question : Question) :
    (progress.ask question).cutoffs = progress.cutoffs := rfl

@[simp] theorem set_memo (progress : Progress) (id : NodeId) (slot : Slot) :
    (progress.set id slot).memo = progress.memo.set id slot := rfl

@[simp] theorem set_cutoffs (progress : Progress) (id : NodeId) (slot : Slot) :
    (progress.set id slot).cutoffs = progress.cutoffs := rfl

@[simp] theorem cutOff_memo (progress : Progress) : progress.cutOff.memo = progress.memo := rfl

@[simp] theorem cutOff_cutoffs (progress : Progress) :
    progress.cutOff.cutoffs = progress.cutoffs + 1 := rfl

/-- No node is being worked on. -/
def Idle (progress : Progress) : Prop :=
  ∀ id, progress.memo.slot id ≠ .inProgress

/-- No finding is remembered that a depth limit brought about. -/
def Untruncated (progress : Progress) : Prop :=
  ∀ id inference, progress.memo.slot id = .done inference → inference.reason ≠ .depthLimit

theorem idle_empty : ({} : Progress).Idle := fun _ => Slot.noConfusion

theorem untruncated_empty : ({} : Progress).Untruncated := fun _ _ => Slot.noConfusion

end Progress

namespace Env

/-- The slot of a node once its rule has been run: what was found, unless there was a cut-off on
the way. -/
def settled (env : Env) (before after : Progress) (found : Inference) : Slot :=
  if after.cutoffs = before.cutoffs then .done (env.simplified found) else .notStarted

/-- Closes the slot of a node after its rule has been run. -/
def settle (env : Env) (id : NodeId) (before after : Progress) (found : Inference) : Progress :=
  (after.ask (.simplify found.type)).set id (env.settled before after found)

theorem settle_of_uncut {env : Env} {id : NodeId} {before after : Progress} {found : Inference}
    (uncut : after.cutoffs = before.cutoffs) :
    env.settle id before after found =
      (after.ask (.simplify found.type)).set id (.done (env.simplified found)) := by
  simp only [settle, settled, if_pos uncut]

theorem kind_of_live {env : Env} {id : NodeId} {node : Node}
    (live : env.project.graph.get? id = some node) :
    env.project.graph.kind? id = some node.kind := by
  unfold Graph.kind?
  rw [live]
  rfl

theorem rule_asks {env : Env} {id : NodeId} {node : Node}
    (live : env.project.graph.get? id = some node) :
    (env.project.rule node.kind).Meets env.surroundings (env.Asks id) (fun _ => True)
      fun _ => True :=
  rule_meets (kind_of_live live) fun _ _ => trivial

theorem mem_ids_of_live {env : Env} {id : NodeId} (live : (env.project.graph.get? id).isSome) :
    id ∈ env.project.graph.ids := by
  obtain ⟨node, found⟩ := Option.isSome_iff_exists.mp live
  have named : node.id = id := by simpa using List.find?_some found
  exact List.mem_map.mpr ⟨node, List.mem_of_find?_eq_some found, named⟩

/-- Runs the rule of a node whose slot was opened. -/
def dispatch (env : Env) (depth : Nat) (id : NodeId) (node : Node) (progress : Progress) :
    Inference × Progress :=
  (env.project.rule node.kind).run env.surroundings (env.find depth) (progress.set id .inProgress)

/-- A live node that was not started is worked on, as long as there is depth left. -/
theorem find_of_live (env : Env) (depth : Nat) {id : NodeId} {progress : Progress} {node : Node}
    (held : progress.memo.slot id = .notStarted) (live : env.project.graph.get? id = some node) :
    env.find (depth + 1) id progress =
      (env.simplified (env.dispatch depth id node progress).1,
        env.settle id progress (env.dispatch depth id node progress).2
          (env.dispatch depth id node progress).1) := by
  rw [find]
  simp only [held, live]
  rfl

/-- The induction over everything the resolver does for a node, case by case. The last case is the
run of a rule, whose questions are answered one level further down. -/
theorem find_induct (env : Env) (Holds : Nat → NodeId → Progress → Inference × Progress → Prop)
    (remembered : ∀ depth id progress inference, progress.memo.slot id = .done inference →
      Holds depth id progress (inference, progress))
    (circular : ∀ depth id progress, progress.memo.slot id = .inProgress →
      Holds depth id progress (.unknown .circularReference, progress))
    (dangling : ∀ depth id progress, progress.memo.slot id = .notStarted →
      env.project.graph.get? id = none →
      Holds depth id progress (.unknown (.danglingNode id), progress))
    (exhausted : ∀ id progress node, progress.memo.slot id = .notStarted →
      env.project.graph.get? id = some node →
      Holds 0 id progress (.unknown .depthLimit, progress.cutOff))
    (worked : ∀ depth id progress node, progress.memo.slot id = .notStarted →
      env.project.graph.get? id = some node →
      (∀ inner now, Holds depth inner now (env.find depth inner now)) →
      Holds (depth + 1) id progress
        (env.simplified (env.dispatch depth id node progress).1,
          env.settle id progress (env.dispatch depth id node progress).2
            (env.dispatch depth id node progress).1))
    (depth : Nat) (id : NodeId) (progress : Progress) :
    Holds depth id progress (env.find depth id progress) := by
  induction depth generalizing id progress with
  | zero =>
      cases held : progress.memo.slot id with
      | done inference =>
          rw [env.find_of_done 0 held]
          exact remembered 0 id progress inference held
      | inProgress =>
          rw [env.find_of_inProgress 0 held]
          exact circular 0 id progress held
      | notStarted =>
          cases live : env.project.graph.get? id with
          | none =>
              rw [env.find_of_dangling 0 held live]
              exact dangling 0 id progress held live
          | some node =>
              rw [env.find_of_exhausted held live]
              exact exhausted id progress node held live
  | succ depth ih =>
      cases held : progress.memo.slot id with
      | done inference =>
          rw [env.find_of_done (depth + 1) held]
          exact remembered (depth + 1) id progress inference held
      | inProgress =>
          rw [env.find_of_inProgress (depth + 1) held]
          exact circular (depth + 1) id progress held
      | notStarted =>
          cases live : env.project.graph.get? id with
          | none =>
              rw [env.find_of_dangling (depth + 1) held live]
              exact dangling (depth + 1) id progress held live
          | some node =>
              rw [env.find_of_live depth held live]
              exact worked depth id progress node held live ih

/-! ### What every finding keeps -/

/-- How a memo may change while the resolver works: the same nodes are being worked on, findings
stay as they are, and new ones are those of live nodes. -/
structure Grows (env : Env) (before after : Memo) : Prop where
  working : ∀ id, after.slot id = .inProgress ↔ before.slot id = .inProgress
  kept : ∀ id inference, before.slot id = .done inference → after.slot id = .done inference
  live : ∀ id inference, after.slot id = .done inference →
    before.slot id = .done inference ∨ (env.project.graph.get? id).isSome

theorem Grows.refl (env : Env) (memo : Memo) : env.Grows memo memo where
  working _ := Iff.rfl
  kept _ _ held := held
  live _ _ held := Or.inl held

theorem Grows.trans {env : Env} {first second third : Memo}
    (early : env.Grows first second) (late : env.Grows second third) :
    env.Grows first third where
  working id := (late.working id).trans (early.working id)
  kept id inference held := late.kept id inference (early.kept id inference held)
  live id inference held := by
    rcases late.live id inference held with before | live
    · exact early.live id inference before
    · exact Or.inr live

theorem settled_ne_inProgress (env : Env) (before after : Progress) (found : Inference) :
    env.settled before after found ≠ .inProgress := by
  unfold settled
  split <;> exact Slot.noConfusion

theorem grows_settle {env : Env} {id : NodeId} {node : Node} {before after : Progress}
    (held : before.memo.slot id = .notStarted) (live : env.project.graph.get? id = some node)
    (grows : env.Grows (before.set id .inProgress).memo after.memo) (found : Inference) :
    env.Grows before.memo (env.settle id before after found).memo where
  working other := by
    by_cases same : other = id
    · subst same
      simp [settle, held, settled_ne_inProgress]
    · have opened := grows.working other
      simpa [settle, same] using opened
  kept other inference done := by
    have same : other ≠ id := by
      rintro rfl
      rw [held] at done
      cases done
    have opened := grows.kept other inference
    simp only [Progress.set_memo, Memo.slot_set_of_ne _ _ same] at opened
    simpa [settle, same] using opened done
  live other inference done := by
    by_cases same : other = id
    · subst same
      exact Or.inr (Option.isSome_of_mem live)
    · have opened := grows.live other inference
      simp only [Progress.set_memo, Memo.slot_set_of_ne _ _ same] at opened
      apply opened
      simpa [settle, same] using done

theorem run_grows (env : Env) {α : Type} {find : NodeId → Resolution Inference}
    (finding : ∀ id progress, env.Grows progress.memo (find id progress).2.memo)
    (inquiry : Inquiry α) (progress : Progress) :
    env.Grows progress.memo (inquiry.run env.surroundings find progress).2.memo := by
  apply Inquiry.run_keeps (fun before after => env.Grows before.memo after.memo) _ _ _ finding
  · intro same
    exact Grows.refl env same.memo
  · intro first second third early late
    exact early.trans late
  · intro asked question
    exact Grows.refl env asked.memo

theorem find_grows (env : Env) (depth : Nat) (id : NodeId) (progress : Progress) :
    env.Grows progress.memo (env.find depth id progress).2.memo := by
  apply env.find_induct fun _ _ before result => env.Grows before.memo result.2.memo
  · intro _ _ before _ _
    exact Grows.refl env before.memo
  · intro _ _ before _
    exact Grows.refl env before.memo
  · intro _ _ before _ _
    exact Grows.refl env before.memo
  · intro _ before _ _ _
    exact Grows.refl env before.memo
  · intro depth id before node held live inner
    apply grows_settle held live
    exact env.run_grows inner _ _

/-- While its rule is run, a node is being worked on. -/
theorem slot_dispatch (env : Env) (depth : Nat) (id : NodeId) (node : Node)
    (progress : Progress) :
    (env.dispatch depth id node progress).2.memo.slot id = .inProgress :=
  ((env.run_grows (env.find_grows depth) (env.project.rule node.kind) _).working id).mpr (by simp)

theorem find_cutoffs_le (env : Env) (depth : Nat) (id : NodeId) (progress : Progress) :
    progress.cutoffs ≤ (env.find depth id progress).2.cutoffs := by
  apply env.find_induct fun _ _ before result => before.cutoffs ≤ result.2.cutoffs
  · intro _ _ _ _ _
    exact Nat.le_refl _
  · intro _ _ _ _
    exact Nat.le_refl _
  · intro _ _ _ _ _
    exact Nat.le_refl _
  · intro _ _ _ _ _
    exact Nat.le_succ _
  · intro depth id before node held live inner
    exact Inquiry.run_cutoffs_le inner (env.project.rule node.kind) (before.set id .inProgress)

/-! ### Findings and their slots -/

/-- A live node that was found without a cut-off, while it was not being worked on, is remembered
as found. -/
theorem slot_find_of_uncut {env : Env} {depth : Nat} {id : NodeId} {progress : Progress}
    (live : (env.project.graph.get? id).isSome) (resting : progress.memo.slot id ≠ .inProgress)
    (uncut : (env.find depth id progress).2.cutoffs = progress.cutoffs) :
    (env.find depth id progress).2.memo.slot id = .done (env.find depth id progress).1 := by
  revert live resting uncut
  apply env.find_induct fun _ id before result => (env.project.graph.get? id).isSome →
    before.memo.slot id ≠ .inProgress → result.2.cutoffs = before.cutoffs →
    result.2.memo.slot id = .done result.1
  · intro _ _ _ _ held _ _ _
    exact held
  · intro _ _ _ held _ resting _
    exact absurd held resting
  · intro _ _ _ _ gone live _ _
    rw [gone] at live
    cases live
  · intro _ before _ _ _ _ _ uncut
    simp only [Progress.cutOff_cutoffs] at uncut
    omega
  · intro depth id before node _ _ _ _ _ uncut
    simp only [settle, Progress.set_cutoffs, Progress.ask_cutoffs] at uncut
    simp only [settle, Progress.set_memo, Memo.slot_set_self, settled, if_pos uncut]

/-- Once a node was found without a cut-off, asking again gives the same, and nothing changes, as
long as what was remembered then still is. -/
theorem find_again {env : Env} {depth : Nat} {id : NodeId} {progress later : Progress}
    (idle : progress.Idle)
    (uncut : (env.find depth id progress).2.cutoffs = progress.cutoffs)
    (grows : env.Grows (env.find depth id progress).2.memo later.memo) (limit : Nat) :
    env.find limit id later = ((env.find depth id progress).1, later) := by
  cases live : env.project.graph.get? id with
  | some node =>
      have slot := slot_find_of_uncut (Option.isSome_of_mem live) (idle id) uncut
      exact env.find_of_done limit (grows.kept id _ slot)
  | none =>
      -- A dangling node gets no slot, but one that was removed may have left a finding behind.
      have whole := (env.find_grows depth id progress).trans grows
      have unfound : ∀ inference, later.memo.slot id = .done inference →
          progress.memo.slot id = .done inference := by
        intro inference held
        rcases whole.live id inference held with before | live
        · exact before
        · simp_all
      cases held : progress.memo.slot id with
      | inProgress => exact absurd held (idle id)
      | done inference =>
          rw [env.find_of_done depth held]
          exact env.find_of_done limit (whole.kept id inference held)
      | notStarted =>
          rw [env.find_of_dangling depth held live]
          cases now : later.memo.slot id with
          | notStarted => exact env.find_of_dangling limit now live
          | inProgress => exact absurd ((whole.working id).mp now) (idle id)
          | done inference =>
              rw [unfound inference now] at held
              cases held

theorem done_of_opened {id : NodeId} {before : Progress} {Fits : NodeId → Inference → Prop}
    (fits : ∀ other inference, before.memo.slot other = .done inference → Fits other inference) :
    ∀ other inference, (before.set id .inProgress).memo.slot other = .done inference →
      Fits other inference := by
  intro other inference done
  by_cases same : other = id
  · subst same
    simp at done
  · exact fits other inference (by simpa [same] using done)

/-- What holds of all that is remembered still does when a slot is settled, if it holds of what was
found without a cut-off. -/
theorem done_of_settled {env : Env} {id : NodeId} {before after : Progress} {found : Inference}
    {Fits : NodeId → Inference → Prop}
    (fits : ∀ other inference, after.memo.slot other = .done inference → Fits other inference)
    (own : after.cutoffs = before.cutoffs → Fits id (env.simplified found)) :
    ∀ other inference, (env.settle id before after found).memo.slot other = .done inference →
      Fits other inference := by
  intro other inference done
  by_cases same : other = id
  · subst same
    simp only [settle, Progress.set_memo, Memo.slot_set_self, settled] at done
    split at done
    · rename_i uncut
      obtain rfl := Slot.done.inj done
      exact own uncut
    · cases done
  · exact fits other inference (by simpa [settle, same] using done)

/-- The depth limit is the reason of a finding only after a cut-off, so it is never remembered. -/
theorem find_untruncated (env : Env) (depth : Nat) (id : NodeId) {progress : Progress}
    (untruncated : progress.Untruncated) :
    (env.find depth id progress).2.Untruncated ∧
      ((env.find depth id progress).2.cutoffs = progress.cutoffs →
        (env.find depth id progress).1.reason ≠ .depthLimit) := by
  revert untruncated
  apply env.find_induct fun _ _ before result => before.Untruncated →
    result.2.Untruncated ∧ (result.2.cutoffs = before.cutoffs → result.1.reason ≠ .depthLimit)
  · intro _ id _ inference held untruncated
    exact ⟨untruncated, fun _ => untruncated id inference held⟩
  · intro _ _ _ _ untruncated
    exact ⟨untruncated, fun _ => Reason.noConfusion⟩
  · intro _ _ _ _ _ untruncated
    exact ⟨untruncated, fun _ => Reason.noConfusion⟩
  · intro _ before _ _ _ untruncated
    refine ⟨untruncated, fun uncut => ?_⟩
    simp only [Progress.cutOff_cutoffs] at uncut
    omega
  · intro depth id before node held live inner untruncated
    have opened : (before.set id .inProgress).Untruncated := done_of_opened untruncated
    have later : (env.dispatch depth id node before).2.Untruncated :=
      (Inquiry.run_meets Progress.Untruncated (Inquiry.meets_trivially _)
        (fun _ _ held => held) (fun asked now _ clean => ⟨(inner asked now clean).1, trivial⟩)
        opened).1
    have found : (env.dispatch depth id node before).2.cutoffs = before.cutoffs →
        (env.dispatch depth id node before).1.reason ≠ .depthLimit := by
      intro uncut
      exact Inquiry.run_meets_uncut Progress.Untruncated
        (rule_meets (kind_of_live live) fun _ given => given)
        (fun _ _ held => held) inner (env.find_cutoffs_le depth)
        opened uncut
    exact ⟨done_of_settled later found, found⟩

end Env

end HeuristicTyping
