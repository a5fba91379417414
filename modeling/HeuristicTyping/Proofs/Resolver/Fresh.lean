import HeuristicTyping.Proofs.Resolver.CommonCycles
import HeuristicTyping.Proofs.Resolver.Reference

/-!
# Fresh findings

What is found for a node on an empty memo is what its rule makes of the findings for the nodes that
it asks for, although the resolver goes through these one after the other on one memo. In a ranked
project they are fresh findings too. In any other project they are what one of several runs has
found, as long as these runs enter no cycle at two different nodes.

A limit does not matter as long as it is not met.
-/

set_option autoImplicit false

namespace HeuristicTyping

namespace Inquiry

/-- The result of an inquiry if the oracle answers for nodes. -/
def answer {α : Type} (surroundings : Surroundings) (oracle : NodeId → Inference) : Inquiry α → α
  | .done result => result
  | .infer id next => (next (oracle id)).answer surroundings oracle
  | .consult question next => (next (surroundings.answer question)).answer surroundings oracle

section Answer

variable {α β : Type} (surroundings : Surroundings) (oracle : NodeId → Inference)

@[simp] theorem answer_pure (result : α) :
    (pure result : Inquiry α).answer surroundings oracle = result := rfl

@[simp] theorem answer_bind (inquiry : Inquiry α) (next : α → Inquiry β) :
    (inquiry >>= next).answer surroundings oracle =
      (next (inquiry.answer surroundings oracle)).answer surroundings oracle := by
  induction inquiry with
  | done result => rfl
  | infer id rest ih => exact ih (oracle id)
  | consult question rest ih => exact ih (surroundings.answer question)

@[simp] theorem answer_typeOf (id : NodeId) :
    (typeOf id).answer surroundings oracle = (oracle id).type := rfl

@[simp] theorem answer_typesOf (ids : List NodeId) :
    (typesOf ids).answer surroundings oracle = ids.map fun id => (oracle id).type := by
  induction ids with
  | nil => rfl
  | cons id ids ih =>
      simp only [typesOf] at ih
      simp only [typesOf, each, answer_bind, answer_typeOf, answer_pure, ih, List.map_cons]

variable {surroundings oracle}

theorem post_answer {may : NodeId → Prop} {granted : Inference → Prop} {post : α → Prop}
    {inquiry : Inquiry α} (meets : inquiry.Meets surroundings may granted post)
    (answers : ∀ id, granted (oracle id)) : post (inquiry.answer surroundings oracle) := by
  induction inquiry with
  | done result => exact meets
  | consult question next ih => exact ih _ meets
  | infer id next ih => exact ih _ (meets.2 _ (answers id))

/-- A run that finds each node as the oracle answers has the result that the oracle leads to. -/
theorem run_eq_answer {find : NodeId → Resolution Inference} {inquiry : Inquiry α}
    {start : Progress}
    (finding : ∀ id moment, inquiry.AsksAt surroundings find start id moment →
      (find id moment).1 = oracle id) :
    (inquiry.run surroundings find start).1 = inquiry.answer surroundings oracle := by
  induction inquiry generalizing start with
  | done result => rfl
  | consult question next ih => exact ih _ fun id moment asked => finding id moment asked.answered
  | infer id next ih =>
      have found := finding id start AsksAt.first
      have rest := ih (find id start).1 fun other moment asked => finding other moment asked.found
      simpa only [run, answer, found] using rest

end Answer

/-- Where nothing is cut off, a resolver that finds as much without a cut-off answers the same. -/
theorem run_of_uncut {α : Type} {surroundings : Surroundings}
    {find other : NodeId → Resolution Inference}
    (rising : ∀ id progress, progress.cutoffs ≤ (find id progress).2.cutoffs)
    (finding : ∀ id progress, (find id progress).2.cutoffs = progress.cutoffs →
      other id progress = find id progress)
    {inquiry : Inquiry α} {progress : Progress}
    (uncut : (inquiry.run surroundings find progress).2.cutoffs = progress.cutoffs) :
    inquiry.run surroundings other progress = inquiry.run surroundings find progress := by
  induction inquiry generalizing progress with
  | done result => rfl
  | consult question next ih => exact ih _ uncut
  | infer id next ih =>
      obtain ⟨early, late⟩ := uncut_of_run_infer rising uncut
      simp only [run, finding id progress early]
      exact ih _ late

end Inquiry

namespace Env

/-! ### Limits that are not met -/

theorem find_deeper {env : Env} {depth : Nat} {id : NodeId} {progress : Progress}
    (uncut : (env.find depth id progress).2.cutoffs = progress.cutoffs) (more : Nat) :
    env.find (depth + more) id progress = env.find depth id progress := by
  revert uncut
  apply env.find_induct fun depth id before result => result.2.cutoffs = before.cutoffs →
    env.find (depth + more) id before = result
  · intro depth id before inference held _
    exact env.find_of_done _ held
  · intro depth id before held _
    exact env.find_of_inProgress _ held
  · intro depth id before held gone _
    exact env.find_of_dangling _ held gone
  · intro id before node _ _ uncut
    simp only [Progress.cutOff_cutoffs] at uncut
    omega
  · intro depth id before node held live inner uncut
    have same : env.dispatch (depth + more) id node before = env.dispatch depth id node before :=
      Inquiry.run_of_uncut (env.find_cutoffs_le depth) inner uncut
    rw [Nat.add_right_comm, env.find_of_live (depth + more) held live, same]

/-- As long as the limit is not met, what is found on an empty memo is the fresh finding. -/
theorem find_eq_fresh {env : Env} {limit : Nat} {id : NodeId}
    (uncut : (env.find limit id {}).2.cutoffs = 0) : (env.find limit id {}).1 = env.fresh id := by
  have deeper := find_deeper uncut env.project.graph.size
  have enough : env.project.graph.size ≤ limit + env.project.graph.size := Nat.le_add_left _ _
  have same : env.find (limit + env.project.graph.size) id {} =
      env.find env.project.graph.size id {} :=
    find_independent id (Ample.of_idle Progress.idle_empty (Nat.le_refl _))
      (Ample.of_idle Progress.idle_empty enough)
  exact congrArg Prod.fst (deeper.symm.trans same)

theorem resolve_eq_fresh {env : Env} {id : NodeId}
    (uncut : (env.resolve (Inquiry.inferNode id) {}).2.cutoffs = 0) :
    (env.resolve (Inquiry.inferNode id) {}).1 = env.fresh id :=
  find_eq_fresh uncut

/-! ### Ranked projects -/

theorem evaluate_eq_answer {env : Env} {oracle : NodeId → Inference}
    (evaluates : ∀ id, env.evaluateNode id = some (oracle id)) {α : Type} (inquiry : Inquiry α) :
    env.evaluate inquiry = some (inquiry.answer env.surroundings oracle) := by
  induction inquiry with
  | done result => exact env.evaluate_done result
  | consult question next ih =>
      rw [evaluate_consult]
      exact ih _
  | infer id next ih =>
      rw [evaluate_infer, evaluates, Option.bind_some]
      exact ih _

theorem evaluateNode_eq_fresh {env : Env} {rank : NodeId → Nat} (ranked : env.Ranked rank)
    (id : NodeId) : env.evaluateNode id = some (env.fresh id) := by
  have empty : env.Faithful {} := fun _ _ => Slot.noConfusion
  have found := find_faithful ranked env.project.graph.size id empty
    (above_of_idle Progress.idle_empty id)
  exact found.2 (find_uncut id (Ample.of_idle Progress.idle_empty (Nat.le_refl _)))

theorem fresh_of_kind {env : Env} {rank : NodeId → Nat} (ranked : env.Ranked rank) {id : NodeId}
    {kind : NodeKind} (held : env.project.graph.kind? id = some kind) :
    env.fresh id = env.simplified ((env.project.rule kind).answer env.surroundings env.fresh) := by
  obtain ⟨node, live, rfl⟩ := Option.map_eq_some_iff.mp held
  have found := evaluateNode_eq_fresh ranked id
  rw [env.evaluateNode_of_live live, evaluate_eq_answer (evaluateNode_eq_fresh ranked)] at found
  exact (Option.some.inj found).symm

/-! ### Several runs -/

/-- What one of the runs for the starts has found for the node, or else the fresh finding. -/
def told (env : Env) (starts : List NodeId) (id : NodeId) : Inference :=
  (starts.findSome? fun start => (env.memoOf start).get? id).getD (env.fresh id)

/-- The limit is not met for any of the nodes, no two of them enter a cycle at two different nodes,
and none of them asks for itself. -/
structure Undisturbed (env : Env) (starts : List NodeId) : Prop where
  uncut : ∀ id ∈ starts, (env.resolve (Inquiry.inferNode id) {}).2.cutoffs = 0
  alike : ∀ first ∈ starts, ∀ second ∈ starts, first ≠ second →
    ∃ leads, env.EntersAlike leads first second
  forward : ∀ id ∈ starts, ∀ request ∈ env.requestsOf id, request.caller = id →
    request.target ≠ id

section Told

variable {env : Env} {starts : List NodeId}

theorem memo_of_told {id : NodeId} :
    (∃ start ∈ starts, (env.memoOf start).slot id = .done (env.told starts id)) ∨
      (∀ start ∈ starts, ∀ inference, (env.memoOf start).slot id ≠ .done inference) ∧
        env.told starts id = env.fresh id := by
  cases found : starts.findSome? fun start => (env.memoOf start).get? id with
  | none =>
      refine Or.inr ⟨fun start among inference done => ?_, by simp [told, found]⟩
      have unfound := List.findSome?_eq_none_iff.mp found start among
      simp [Memo.get?, done, Slot.inference?] at unfound
  | some inference =>
      obtain ⟨start, among, held⟩ := List.exists_of_findSome?_eq_some found
      refine Or.inl ⟨start, among, ?_⟩
      have same : env.told starts id = inference := by simp [told, found]
      rw [same]
      unfold Memo.get? at held
      cases slot : (env.memoOf start).slot id <;> simp_all [Slot.inference?]

theorem told_of_done (undisturbed : env.Undisturbed starts) {start id : NodeId}
    (among : start ∈ starts) {inference : Inference}
    (done : (env.memoOf start).slot id = .done inference) : env.told starts id = inference := by
  rcases @memo_of_told env starts id with ⟨other, otherAmong, otherDone⟩ | ⟨unfound, _⟩
  · by_cases same : other = start
    · subst same
      rw [done] at otherDone
      exact (Slot.done.inj otherDone).symm
    · obtain ⟨leads, alike⟩ := undisturbed.alike other otherAmong start among same
      exact memos_agree alike otherDone done
  · exact absurd done (unfound start among inference)

theorem told_of_dangling {id : NodeId} (gone : env.project.graph.get? id = none) :
    env.told starts id = .unknown (.danglingNode id) := by
  rcases @memo_of_told env starts id with ⟨start, _, done⟩ | ⟨_, same⟩
  · rcases (env.find_grows env.project.graph.size start {}).live id _ done with before | live
    · cases before
    · rw [gone] at live
      cases live
  · rw [same, fresh, env.find_of_dangling _ rfl gone]

/-- What the rule of a start is told of a node is what is told of that node. -/
theorem told_of_asked (undisturbed : env.Undisturbed starts) {start target : NodeId}
    (among : start ∈ starts) {node : Node} (live : env.project.graph.get? start = some node)
    {depth : Nat} (size : env.project.graph.size = depth + 1) {moment : Progress}
    (asked : (env.project.rule node.kind).AsksAt env.surroundings (env.find depth)
      (Progress.set {} start .inProgress) target moment) :
    (env.find depth target moment).1 = env.told starts target := by
  have resting : ({} : Progress).memo.slot start = .notStarted := rfl
  have ample : env.Ample env.project.graph.size ({} : Progress).memo :=
    Ample.of_idle Progress.idle_empty (Nat.le_refl _)
  rw [size] at ample
  have grows := (asksAt_grows asked).1
  have listed : { caller := start, target, runs := env.awaits moment target } ∈
      env.requestsOf start := by
    rw [requestsOf, size]
    exact (mem_requests_of_live resting live).mpr ⟨target, moment, asked, Or.inl rfl⟩
  -- The start does not ask for itself, and nothing else is being worked on.
  have apart := undisturbed.forward start among _ listed rfl
  have empty : (Memo.set {} start .inProgress).slot target = .notStarted := by
    rw [Memo.slot_set_of_ne _ _ apart]
    rfl
  have free : moment.memo.slot target ≠ .inProgress := fun busy => by
    simpa [empty] using (grows.working target).mp busy
  cases found : env.project.graph.get? target with
  | none =>
      have unstarted : moment.memo.slot target = .notStarted := by
        cases held : moment.memo.slot target with
        | notStarted => rfl
        | inProgress => exact absurd held free
        | done inference => simpa [empty, found] using grows.live target inference held
      rw [env.find_of_dangling depth unstarted found, told_of_dangling found]
  | some other =>
      have opened := (ample.opened resting live).grows grows
      have done := slot_find_of_uncut (Option.isSome_of_mem found) free (find_uncut target opened)
      have remembered := within_of_asked resting live asked target _ done
      rw [← size] at remembered
      exact (told_of_done undisturbed among remembered).symm

/-- What is found for one of the starts on an empty memo is what its rule makes of what is told. -/
theorem fresh_eq_answer (undisturbed : env.Undisturbed starts) {start : NodeId}
    (among : start ∈ starts) {node : Node} (live : env.project.graph.get? start = some node) :
    env.fresh start =
      env.simplified ((env.project.rule node.kind).answer env.surroundings (env.told starts)) := by
  have resting : ({} : Progress).memo.slot start = .notStarted := rfl
  have ample : env.Ample env.project.graph.size ({} : Progress).memo :=
    Ample.of_idle Progress.idle_empty (Nat.le_refl _)
  cases size : env.project.graph.size with
  | zero =>
      rw [size] at ample
      exact absurd ample (Ample.not_zero resting live)
  | succ depth =>
      have worked : env.fresh start = env.simplified (env.dispatch depth start node {}).1 := by
        rw [fresh, size, env.find_of_live depth resting live]
      rw [worked]
      apply congrArg env.simplified
      exact Inquiry.run_eq_answer fun target moment asked =>
        told_of_asked undisturbed among live size asked

end Told

end Env

end HeuristicTyping
