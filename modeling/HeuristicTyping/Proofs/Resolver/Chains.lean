import HeuristicTyping.Proofs.Resolver.History

/-!
# Chains of nodes in dispatch

The nodes whose rules are being run at one time form a chain, from the one that a caller asked for
to the innermost one. Their slots are the ones in progress, and a node in progress is not worked on
again, so a chain never is longer than the graph is large. Where the depth limit is not below that
size, it is never met, and any two such limits make no difference.
-/

set_option autoImplicit false

namespace HeuristicTyping

namespace Env

/-- While an inquiry is answered, from `start` on, the nodes of the chain are in dispatch at one
time, innermost first. The innermost one has just been opened at the `moment`. -/
inductive InDispatch (env : Env) {α : Type} (inquiry : Inquiry α) (start : Progress) :
    (chain : List NodeId) → (moment : Progress) → Prop where
  | outermost {id : NodeId} {node : Node} {moment : Progress}
      (asked : inquiry.AsksAt env.surroundings (env.find env.project.settings.maxDepth)
        start id moment)
      (held : moment.memo.slot id = .notStarted)
      (live : env.project.graph.get? id = some node)
      (within : 0 < env.project.settings.maxDepth) :
      InDispatch env inquiry start [id] (moment.set id .inProgress)
  | inner {id outer : NodeId} {node outerNode : Node} {chain : List NodeId}
      {opened moment : Progress} (around : InDispatch env inquiry start (outer :: chain) opened)
      (outerLive : env.project.graph.get? outer = some outerNode)
      (asked : (env.project.rule outerNode.kind).AsksAt env.surroundings
        (env.find (env.project.settings.maxDepth - (outer :: chain).length)) opened id moment)
      (held : moment.memo.slot id = .notStarted)
      (live : env.project.graph.get? id = some node)
      (within : (outer :: chain).length < env.project.settings.maxDepth) :
      InDispatch env inquiry start (id :: outer :: chain) (moment.set id .inProgress)

/-- The nodes being worked on are those of the chain: all of them live, none of them twice. -/
structure Working (env : Env) (chain : List NodeId) (memo : Memo) : Prop where
  distinct : chain.Nodup
  live : ∀ id ∈ chain, (env.project.graph.get? id).isSome
  slots : ∀ id, memo.slot id = .inProgress ↔ id ∈ chain

namespace Working

variable {env : Env} {chain : List NodeId} {memo : Memo}

theorem of_idle (env : Env) {progress : Progress} (idle : progress.Idle) :
    env.Working [] progress.memo where
  distinct := List.nodup_nil
  live _ member := absurd member List.not_mem_nil
  slots id := iff_of_false (idle id) List.not_mem_nil

theorem grows {later : Memo} (working : env.Working chain memo) (grows : env.Grows memo later) :
    env.Working chain later where
  distinct := working.distinct
  live := working.live
  slots id := (grows.working id).trans (working.slots id)

theorem opened {id : NodeId} {node : Node} (working : env.Working chain memo)
    (held : memo.slot id = .notStarted) (live : env.project.graph.get? id = some node) :
    env.Working (id :: chain) (memo.set id .inProgress) where
  distinct := by
    refine List.nodup_cons.mpr ⟨?_, working.distinct⟩
    intro member
    rw [(working.slots id).mpr member] at held
    cases held
  live := by
    intro other member
    rcases List.mem_cons.mp member with rfl | earlier
    · exact Option.isSome_of_mem live
    · exact working.live other earlier
  slots other := by
    by_cases same : other = id
    · subst same
      simp
    · simpa [same] using working.slots other

/-- A chain is never longer than the graph is large. -/
theorem length_le (working : env.Working chain memo) :
    chain.length ≤ env.project.graph.size := by
  have listed : chain ⊆ env.project.graph.ids := by
    intro id member
    exact mem_ids_of_live (working.live id member)
  have bounded := working.distinct.length_le_of_subset listed
  simpa [Graph.ids, Graph.size] using bounded

end Working

theorem asksAt_grows {env : Env} {α : Type} {depth : Nat} {inquiry : Inquiry α}
    {start moment : Progress} {id : NodeId}
    (asked : inquiry.AsksAt env.surroundings (env.find depth) start id moment) :
    env.Grows start.memo moment.memo ∧ env.Grows (env.find depth id moment).2.memo
      (inquiry.run env.surroundings (env.find depth) start).2.memo :=
  Inquiry.asksAt_keeps (fun before after => env.Grows before.memo after.memo)
    (fun progress => Grows.refl env progress.memo) Grows.trans
    (fun progress _ => Grows.refl env progress.memo) (env.find_grows depth) asked

/-- The nodes in dispatch at one time are those whose slots are in progress. -/
theorem working_of_inDispatch {env : Env} {α : Type} {inquiry : Inquiry α}
    {start moment : Progress} {chain : List NodeId} (idle : start.Idle)
    (inDispatch : env.InDispatch inquiry start chain moment) :
    env.Working chain moment.memo := by
  induction inDispatch with
  | outermost asked held live within =>
      exact ((Working.of_idle env idle).grows (asksAt_grows asked).1).opened held live
  | inner around outerLive asked held live within ih =>
      exact (ih.grows (asksAt_grows asked).1).opened held live

/-! ### Ample depth -/

/-- The depth that is left covers all nodes that are not being worked on. -/
def Ample (env : Env) (depth : Nat) (memo : Memo) : Prop :=
  ∃ chain, env.Working chain memo ∧ env.project.graph.size ≤ chain.length + depth

namespace Ample

variable {env : Env} {depth : Nat} {memo : Memo}

theorem of_idle {progress : Progress} (idle : progress.Idle)
    (enough : env.project.graph.size ≤ depth) : env.Ample depth progress.memo :=
  ⟨[], Working.of_idle env idle, by simpa using enough⟩

theorem grows {later : Memo} (ample : env.Ample depth memo) (grows : env.Grows memo later) :
    env.Ample depth later := by
  obtain ⟨chain, working, enough⟩ := ample
  exact ⟨chain, working.grows grows, enough⟩

theorem opened {id : NodeId} {node : Node} (ample : env.Ample (depth + 1) memo)
    (held : memo.slot id = .notStarted) (live : env.project.graph.get? id = some node) :
    env.Ample depth (memo.set id .inProgress) := by
  obtain ⟨chain, working, enough⟩ := ample
  refine ⟨id :: chain, working.opened held live, ?_⟩
  rw [List.length_cons]
  omega

theorem not_zero {id : NodeId} {node : Node} (held : memo.slot id = .notStarted)
    (live : env.project.graph.get? id = some node) : ¬ env.Ample 0 memo := by
  rintro ⟨chain, working, enough⟩
  have longer := (working.opened held live).length_le
  rw [List.length_cons] at longer
  omega

end Ample

theorem run_uncut {env : Env} {α : Type} {depth : Nat} {progress : Progress}
    (ample : env.Ample depth progress.memo)
    (finding : ∀ id now, env.Ample depth now.memo →
      (env.find depth id now).2.cutoffs = now.cutoffs) (inquiry : Inquiry α) :
    (inquiry.run env.surroundings (env.find depth) progress).2.cutoffs = progress.cutoffs := by
  refine (Inquiry.run_meets
    (fun now => env.Ample depth now.memo ∧ now.cutoffs = progress.cutoffs)
    (Inquiry.meets_trivially inquiry) (fun _ _ held => held) ?_ ⟨ample, rfl⟩).1.2
  intro id now _ held
  refine ⟨⟨held.1.grows (env.find_grows depth id now), ?_⟩, trivial⟩
  exact (finding id now held.1).trans held.2

/-- With ample depth, nothing is cut off. -/
theorem find_uncut {env : Env} {depth : Nat} {progress : Progress} (id : NodeId)
    (ample : env.Ample depth progress.memo) :
    (env.find depth id progress).2.cutoffs = progress.cutoffs := by
  revert ample
  apply env.find_induct fun depth _ before result => env.Ample depth before.memo →
    result.2.cutoffs = before.cutoffs
  · intro _ _ _ _ _ _
    rfl
  · intro _ _ _ _ _
    rfl
  · intro _ _ _ _ _ _
    rfl
  · intro id before node held live ample
    exact absurd ample (Ample.not_zero held live)
  · intro depth id before node held live inner ample
    have opened : env.Ample depth (before.set id .inProgress).memo := ample.opened held live
    exact run_uncut opened inner (env.project.rule node.kind)

theorem dispatch_uncut {env : Env} {depth : Nat} {id : NodeId} {node : Node} {progress : Progress}
    (ample : env.Ample (depth + 1) progress.memo) (held : progress.memo.slot id = .notStarted)
    (live : env.project.graph.get? id = some node) :
    (env.dispatch depth id node progress).2.cutoffs = progress.cutoffs := by
  have opened : env.Ample depth (progress.set id .inProgress).memo := ample.opened held live
  exact run_uncut opened (fun id _ => find_uncut id) (env.project.rule node.kind)

theorem run_independent {env : Env} {α : Type} {depth other : Nat} {progress : Progress}
    (ample : env.Ample depth progress.memo) (otherAmple : env.Ample other progress.memo)
    (finding : ∀ id now, env.Ample depth now.memo → env.Ample other now.memo →
      env.find other id now = env.find depth id now) (inquiry : Inquiry α) :
    inquiry.run env.surroundings (env.find other) progress =
      inquiry.run env.surroundings (env.find depth) progress := by
  induction inquiry generalizing progress with
  | done result => rfl
  | consult question next ih => exact ih _ ample otherAmple
  | infer id next ih =>
      have same := finding id progress ample otherAmple
      have grows := env.find_grows depth id progress
      simp only [Inquiry.run]
      rw [same]
      exact ih _ (ample.grows grows) (otherAmple.grows grows)

/-- How much depth is left makes no difference as long as it is ample. -/
theorem find_independent {env : Env} {depth other : Nat} {progress : Progress} (id : NodeId)
    (ample : env.Ample depth progress.memo) (otherAmple : env.Ample other progress.memo) :
    env.find other id progress = env.find depth id progress := by
  revert ample otherAmple
  revert other
  apply env.find_induct fun depth id before result => ∀ {other : Nat},
    env.Ample depth before.memo → env.Ample other before.memo →
    env.find other id before = result
  · intro _ id before inference held other _ _
    exact env.find_of_done other held
  · intro _ id before held other _ _
    exact env.find_of_inProgress other held
  · intro _ id before held gone other _ _
    exact env.find_of_dangling other held gone
  · intro id before node held live other ample _
    exact absurd ample (Ample.not_zero held live)
  · intro depth id before node held live inner other ample otherAmple
    cases other with
    | zero => exact absurd otherAmple (Ample.not_zero held live)
    | succ other =>
        have opened : env.Ample depth (before.set id .inProgress).memo :=
          ample.opened held live
        have otherOpened : env.Ample other (before.set id .inProgress).memo :=
          otherAmple.opened held live
        have same : env.dispatch other id node before = env.dispatch depth id node before :=
          run_independent opened otherOpened (fun asked now => inner asked now)
            (env.project.rule node.kind)
        rw [env.find_of_live other held live, same]

end Env

end HeuristicTyping
