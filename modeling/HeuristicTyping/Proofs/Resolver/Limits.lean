import HeuristicTyping.Proofs.Resolver.Chains

/-!
# Depth limits

The limit steers the resolver and nothing else: no rule reads it. So two projects that differ in it
alone differ only in where chains are cut off. A chain is never longer than the graph is large, so
beyond that size no limit is ever met.
-/

set_option autoImplicit false

namespace HeuristicTyping

/-- The project with another depth limit. -/
def Project.limited (project : Project) (limit : Nat) : Project :=
  { project with settings := { project.settings with maxDepth := limit } }

def Env.limited (env : Env) (limit : Nat) : Env :=
  { env with project := env.project.limited limit }

/-! ### No rule reads the limit -/

namespace Call

mutual

theorem onReceiver_limited (project : Project) (limit : Nat) (site : Site) (receiver : Ty) :
    onReceiver (project.limited limit) site receiver = onReceiver project site receiver := by
  cases receiver with
  | union members =>
      unfold onReceiver
      rw [onMembers_limited project limit site members]
  | _ => rfl
termination_by structural receiver

theorem onMembers_limited (project : Project) (limit : Nat) (site : Site)
    (receivers : List Ty) :
    onMembers (project.limited limit) site receivers = onMembers project site receivers := by
  cases receivers with
  | nil => rfl
  | cons receiver receivers =>
      unfold onMembers
      rw [onReceiver_limited project limit site receiver,
        onMembers_limited project limit site receivers]
termination_by structural receivers

end

theorem onValue_limited (project : Project) (limit : Nat) (site : Site) (receiver : NodeId) :
    onValue (project.limited limit) site receiver = onValue project site receiver := by
  unfold onValue
  simp only [onReceiver_limited]
  rfl

end Call

theorem Project.rule_limited (project : Project) (limit : Nat) (kind : NodeKind) :
    (project.limited limit).rule kind = project.rule kind := by
  cases kind with
  | call site =>
      unfold Project.rule Call.inquire
      simp only [Call.onValue_limited]
      rfl
  | _ => rfl

theorem Query.inquiry_limited (project : Project) (limit : Nat) (query : Query) :
    query.inquiry (project.limited limit) = query.inquiry project := by
  cases query <;> rfl

namespace Env

theorem find_limited (env : Env) (limit depth : Nat) :
    (env.limited limit).find depth = env.find depth := by
  funext id progress
  apply env.find_induct fun depth id before result =>
    (env.limited limit).find depth id before = result
  · intro depth id before inference held
    exact (env.limited limit).find_of_done depth held
  · intro depth id before held
    exact (env.limited limit).find_of_inProgress depth held
  · intro depth id before held gone
    exact (env.limited limit).find_of_dangling depth held gone
  · intro id before node held live
    exact (env.limited limit).find_of_exhausted held live
  · intro depth id before node held live inner
    have same : (env.limited limit).dispatch depth id node before =
        env.dispatch depth id node before := by
      have below : (env.limited limit).find depth = env.find depth :=
        funext fun asked => funext (inner asked)
      change ((env.project.limited limit).rule node.kind).run env.surroundings
        ((env.limited limit).find depth) _ = _
      rw [Project.rule_limited, below]
      rfl
    rw [(env.limited limit).find_of_live depth held live, same]
    rfl

theorem serve_limited (env : Env) (limit : Nat) (query : Query) :
    (env.limited limit).serve query =
      (query.inquiry env.project).run env.surroundings (env.find limit) := by
  change (query.inquiry (env.project.limited limit)).run env.surroundings
    ((env.limited limit).find limit) = _
  rw [Query.inquiry_limited, find_limited]

theorem serve_independent (env : Env) {one other : Nat}
    (enough : env.project.graph.size ≤ one) (otherEnough : env.project.graph.size ≤ other)
    {progress : Progress} (idle : progress.Idle) (query : Query) :
    (env.limited one).serve query progress = (env.limited other).serve query progress := by
  rw [serve_limited, serve_limited]
  exact run_independent (Ample.of_idle idle otherEnough) (Ample.of_idle idle enough)
    (fun id _ => find_independent id) (query.inquiry env.project)

theorem after_independent (env : Env) {one other : Nat}
    (enough : env.project.graph.size ≤ one) (otherEnough : env.project.graph.size ≤ other)
    (acts : List Act) {start : Progress} (idle : start.Idle) :
    (env.limited one).after acts start = (env.limited other).after acts start := by
  induction acts generalizing start with
  | nil => rfl
  | cons act acts ih =>
      have same : (env.limited one).act start act = (env.limited other).act start act := by
        cases act with
        | renew => rfl
        | put query =>
            exact congrArg Prod.snd (env.serve_independent enough otherEnough idle query)
      have resting : ((env.limited other).act start act).Idle :=
        ((env.limited other).after_grows [act] start).idle idle
      calc (env.limited one).after acts ((env.limited one).act start act)
        _ = (env.limited one).after acts ((env.limited other).act start act) := by rw [same]
        _ = (env.limited other).after acts ((env.limited other).act start act) := ih resting

theorem serve_uncut (env : Env) (enough : env.project.graph.size ≤ env.project.settings.maxDepth)
    {progress : Progress} (idle : progress.Idle) (query : Query) :
    (env.serve query progress).2.cutoffs = progress.cutoffs :=
  run_uncut (Ample.of_idle idle enough) (fun id _ => find_uncut id) (query.inquiry env.project)

theorem after_uncut (env : Env) (enough : env.project.graph.size ≤ env.project.settings.maxDepth)
    (acts : List Act) {start : Progress} (idle : start.Idle) (uncut : start.cutoffs = 0) :
    (env.after acts start).cutoffs = 0 := by
  have kept : (env.after acts start).Idle ∧ (env.after acts start).cutoffs = 0 := by
    refine after_keeps (fun now => now.Idle ∧ now.cutoffs = 0) ?_ ?_ acts ⟨idle, uncut⟩
    · rintro query now ⟨resting, none⟩
      exact ⟨(env.serve_grows query now).idle resting,
        (env.serve_uncut enough resting query).trans none⟩
    · rintro now ⟨resting, -⟩
      exact ⟨resting, rfl⟩
  exact kept.2

end Env

/-! ### What a reply tells -/

/-- The findings that a reply hands out. -/
def Reply.findings : Reply → List Inference
  | .finding inference => [inference]
  | .signature _ => []
  | .dump graph => graph.nodes.map NodeDump.found

/-- A reply hands out nothing but what was found. -/
theorem Query.inquiry_meets (project : Project) (query : Query) {surroundings : Surroundings}
    {granted : Inference → Prop} :
    (query.inquiry project).Meets surroundings (fun _ => True) granted fun reply =>
      ∀ inference ∈ reply.findings, granted inference := by
  cases query with
  | infer id =>
      simp only [Query.inquiry, Inquiry.meets_bind, Inquiry.meets_inferNode, Inquiry.meets_pure]
      refine ⟨trivial, ?_⟩
      intro inference good
      simpa [Reply.findings] using good
  | signature id =>
      simp only [Query.inquiry, Inquiry.meets_bind, Inquiry.meets_pure]
      have asked : (project.signatureOf id).Meets surroundings (fun _ => True) granted
          fun _ => True :=
        Inquiry.meets_narrow (Inquiry.meets_trivially _) fun _ _ => trivial
      apply Inquiry.meets_mono asked
      simp [Reply.findings]
  | dump ids =>
      simp only [Query.inquiry, Project.dump, Inquiry.meets_bind, Inquiry.meets_pure]
      have single : ∀ id ∈ ids, (project.dumpNode id).Meets surroundings (fun _ => True) granted
          fun found => ∀ node ∈ found, granted node.found := by
        intro id _
        unfold Project.dumpNode
        split
        · simp
        · simp only [Inquiry.meets_bind, Inquiry.meets_inferNode, Inquiry.meets_pure]
          refine ⟨trivial, ?_⟩
          intro inference good
          simpa using good
      apply Inquiry.meets_mono (Inquiry.meets_eachSome single)
      intro nodes known inference member
      obtain ⟨node, listed, rfl⟩ := List.mem_map.mp member
      exact known node listed

namespace Env

theorem serve_findings_untruncated (env : Env)
    (enough : env.project.graph.size ≤ env.project.settings.maxDepth) {progress : Progress}
    (idle : progress.Idle) (untruncated : progress.Untruncated) (query : Query) :
    ∀ inference ∈ (env.serve query progress).1.findings, inference.reason ≠ .depthLimit := by
  refine (Inquiry.run_meets
    (fun now => env.Ample env.project.settings.maxDepth now.memo ∧ now.Untruncated)
    (query.inquiry_meets env.project) (fun _ _ held => held) ?_
    ⟨Ample.of_idle idle enough, untruncated⟩).2
  rintro id now _ ⟨ample, clean⟩
  have found := env.find_untruncated env.project.settings.maxDepth id clean
  exact ⟨⟨ample.grows (env.find_grows _ id now), found.1⟩, found.2 (find_uncut id ample)⟩

/-- The cycle guard alone bounds the recursion. The nodes in dispatch at one time are live and
distinct, so there are never more of them than nodes in the graph. From an empty memo, a limit that
covers the graph is never met, and any two such limits give the same replies and the same memo. -/
theorem cycle_guard_bounds_the_recursion (env : Env) (acts : List Act) (query : Query) :
    (∀ start : Progress, start.Idle → ∀ chain moment,
      env.InDispatch (query.inquiry env.project) (env.after acts start) chain moment →
      chain.Nodup ∧ (∀ id ∈ chain, (env.project.graph.get? id).isSome) ∧
        chain.length ≤ env.project.graph.size) ∧
    (env.project.graph.size ≤ env.project.settings.maxDepth →
      (env.after acts {}).cutoffs = 0 ∧
        (env.after acts {}).Untruncated ∧
        (env.serve query (env.after acts {})).2.cutoffs = 0 ∧
        ∀ inference ∈ (env.serve query (env.after acts {})).1.findings,
          inference.reason ≠ .depthLimit) ∧
    ∀ one other, env.project.graph.size ≤ one → env.project.graph.size ≤ other →
      (env.limited one).after acts {} = (env.limited other).after acts {} ∧
        (env.limited one).serve query ((env.limited one).after acts {}) =
          (env.limited other).serve query ((env.limited other).after acts {}) := by
  refine ⟨?_, ?_, ?_⟩
  · intro start idle chain moment inDispatch
    have resting := (env.after_grows acts start).idle idle
    have working := working_of_inDispatch resting inDispatch
    exact ⟨working.distinct, working.live, working.length_le⟩
  · intro enough
    have resting := (env.after_grows acts {}).idle Progress.idle_empty
    have uncut := env.after_uncut enough acts Progress.idle_empty rfl
    have clean := env.after_untruncated acts Progress.untruncated_empty
    exact ⟨uncut, clean, (env.serve_uncut enough resting query).trans uncut,
      env.serve_findings_untruncated enough resting clean query⟩
  · intro one other enough otherEnough
    have same := env.after_independent enough otherEnough acts Progress.idle_empty
    have resting := ((env.limited other).after_grows acts {}).idle Progress.idle_empty
    rw [same]
    exact ⟨rfl, env.serve_independent enough otherEnough resting query⟩

/-- Two nodes that depend on each other and on themselves, with a limit of just two. -/
def mutualLoop : Env := ofKinds [.merge [0, 1], .merge [0, 1]] { maxDepth := 2 }

/-- Both nodes are in dispatch at one time, and yet the limit is not met. -/
theorem mutualLoop_meets_no_limit :
    ∃ chain moment,
      mutualLoop.InDispatch (Query.inquiry mutualLoop.project (.infer 1)) {} chain moment ∧
      chain.length = 2 ∧ chain.Nodup ∧ (mutualLoop.serve (.infer 1) {}).2.cutoffs = 0 := by
  have bounded := cycle_guard_bounds_the_recursion mutualLoop [] (.infer 1)
  have outer : mutualLoop.InDispatch (Query.inquiry mutualLoop.project (.infer 1)) {} [1]
      (Progress.set {} 1 .inProgress) :=
    InDispatch.outermost Inquiry.AsksAt.first rfl rfl (by decide)
  have both : mutualLoop.InDispatch (Query.inquiry mutualLoop.project (.infer 1)) {} [0, 1]
      ((Progress.set {} 1 .inProgress).set 0 .inProgress) :=
    InDispatch.inner outer rfl Inquiry.AsksAt.first rfl rfl (by decide)
  refine ⟨_, _, both, rfl, (bounded.1 {} Progress.idle_empty _ _ both).1, ?_⟩
  exact (bounded.2.1 (by decide)).2.2.1

end Env

end HeuristicTyping
