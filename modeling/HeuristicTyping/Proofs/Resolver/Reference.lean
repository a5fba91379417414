import HeuristicTyping.Proofs.Resolver.History

/-!
# The memo against a resolver without one

`Env.evaluate` answers inquiries by the rules alone. It remembers nothing, does not see that it
goes in circles, and goes as deep as the rules lead it, so it may have no answer. Where the nodes
are ranked such that every step leads downwards, it always has one, and that is what the memo holds
and what the resolver replies, unless a chain was cut off.
-/

set_option autoImplicit false

namespace HeuristicTyping

namespace Env

/-- Answers an inquiry by the rules alone: no memo, no guard against cycles and no depth limit. -/
def evaluate (env : Env) {α : Type} (inquiry : Inquiry α) : Option α :=
  match inquiry with
  | .done result => some result
  | .consult question next => env |>.evaluate (next (env.surroundings.answer question))
  | .infer id next =>
      match env.project.graph.get? id with
      | none => env |>.evaluate (next (.unknown (.danglingNode id)))
      | some node => do
          let found ← env |>.evaluate (env.project.rule node.kind)
          env |>.evaluate (next (env.simplified found))
partial_fixpoint

/-- What the rules alone say about a node. -/
def evaluateNode (env : Env) (id : NodeId) : Option Inference :=
  env.evaluate (Inquiry.inferNode id)

section Equations

variable (env : Env) {α : Type}

@[simp] theorem evaluate_done (result : α) : env.evaluate (.done result) = some result := by
  rw [evaluate]

@[simp] theorem evaluate_consult (question : Question) (next : question.Answer → Inquiry α) :
    env.evaluate (.consult question next) =
      env.evaluate (next (env.surroundings.answer question)) := by
  rw [evaluate]

theorem evaluateNode_of_dangling {id : NodeId} (gone : env.project.graph.get? id = none) :
    env.evaluateNode id = some (.unknown (.danglingNode id)) := by
  rw [evaluateNode, Inquiry.inferNode, evaluate]
  simp only [gone, evaluate_done]

theorem evaluateNode_of_live {id : NodeId} {node : Node}
    (live : env.project.graph.get? id = some node) :
    env.evaluateNode id = (env.evaluate (env.project.rule node.kind)).map env.simplified := by
  rw [evaluateNode, Inquiry.inferNode, evaluate]
  simp only [live, evaluate_done]
  cases env.evaluate (env.project.rule node.kind) with
  | none => rfl
  | some found => rfl

@[simp] theorem evaluate_infer (id : NodeId) (next : Inference → Inquiry α) :
    env.evaluate (.infer id next) =
      (env.evaluateNode id).bind fun inference => env.evaluate (next inference) := by
  rw [evaluate]
  cases live : env.project.graph.get? id with
  | none => simp only [env.evaluateNode_of_dangling live, Option.bind_some]
  | some node =>
      simp only [env.evaluateNode_of_live live]
      cases env.evaluate (env.project.rule node.kind) with
      | none => rfl
      | some found => rfl

end Equations

/-! ### Ranked projects -/

/-- Every step from a live node to a live node leads to a lower rank. -/
def Ranked (env : Env) (rank : NodeId → Nat) : Prop :=
  ∀ id target, env.LeadsTo id target → (env.project.graph.get? target).isSome →
    rank target < rank id

theorem rank_lt_of_asks {env : Env} {rank : NodeId → Nat} (ranked : env.Ranked rank)
    {id target : NodeId} (asks : env.Asks id target)
    (live : (env.project.graph.get? target).isSome) : rank target < rank id := by
  -- Whatever lies on the way leads on, so it is live and has a rank.
  have path := asks_leads asks
  clear asks
  induction path with
  | single leads => exact ranked id _ leads live
  | @tail middle last before leads ih =>
      have middleLive := live_of_asks (Asks.step leads)
      have lower := ranked middle last leads live
      have higher := ih middleLive
      omega

theorem evaluate_isSome_of_meets {env : Env} {α : Type} {inquiry : Inquiry α}
    {may : NodeId → Prop}
    (meets : inquiry.Meets env.surroundings may (fun _ => True) fun _ => True)
    (asked : ∀ id, may id → (env.evaluateNode id).isSome) : (env.evaluate inquiry).isSome := by
  induction inquiry with
  | done result => simp
  | consult question next ih => simpa using ih _ meets
  | infer id next ih =>
      obtain ⟨inference, found⟩ := Option.isSome_iff_exists.mp (asked id meets.1)
      simpa [found] using ih inference (meets.2 inference trivial)

/-- In a ranked project the rules alone lead to an answer, for every node. -/
theorem evaluateNode_isSome {env : Env} {rank : NodeId → Nat} (ranked : env.Ranked rank)
    (id : NodeId) : (env.evaluateNode id).isSome := by
  generalize level : rank id = height
  induction height using Nat.strongRecOn generalizing id with
  | ind height lower =>
      cases live : env.project.graph.get? id with
      | none => simp [env.evaluateNode_of_dangling live]
      | some node =>
          simp only [env.evaluateNode_of_live live, Option.isSome_map]
          apply evaluate_isSome_of_meets (rule_asks live)
          intro target asks
          cases gone : env.project.graph.get? target with
          | none => simp [env.evaluateNode_of_dangling gone]
          | some other =>
              have below := rank_lt_of_asks ranked asks (Option.isSome_of_mem gone)
              exact lower (rank target) (by omega) target rfl

/-! ### The memo agrees with the rules -/

/-- Whatever is remembered is what the rules alone say. -/
def Faithful (env : Env) (progress : Progress) : Prop :=
  ∀ id inference, progress.memo.slot id = .done inference →
    env.evaluateNode id = some inference

/-- The nodes being worked on are live and have a higher rank than a node that is asked for. -/
def Above (env : Env) (rank : NodeId → Nat) (id : NodeId) (progress : Progress) : Prop :=
  ∀ other, progress.memo.slot other = .inProgress →
    (env.project.graph.get? other).isSome ∧
      ((env.project.graph.get? id).isSome → rank id < rank other)

/-- A run without a cut-off answers an inquiry as the rules alone do, if it finds each node that is
asked for as they do. -/
theorem run_evaluates {env : Env} {α : Type} {find : NodeId → Resolution Inference}
    {may : NodeId → Prop} (Kept : Progress → Prop) {inquiry : Inquiry α}
    (meets : inquiry.Meets env.surroundings may (fun _ => True) fun _ => True)
    (asking : ∀ progress question, Kept progress → Kept (progress.ask question))
    (finding : ∀ id progress, may id → Kept progress →
      Kept (find id progress).2 ∧ ((find id progress).2.cutoffs = progress.cutoffs →
        env.evaluateNode id = some (find id progress).1))
    (rising : ∀ id progress, progress.cutoffs ≤ (find id progress).2.cutoffs)
    {progress : Progress} (kept : Kept progress)
    (uncut : (inquiry.run env.surroundings find progress).2.cutoffs = progress.cutoffs) :
    env.evaluate inquiry = some (inquiry.run env.surroundings find progress).1 := by
  induction inquiry generalizing progress with
  | done result => exact env.evaluate_done result
  | consult question next ih =>
      rw [evaluate_consult]
      exact ih _ meets (asking progress question kept) uncut
  | infer id next ih =>
      obtain ⟨later, faithful⟩ := finding id progress meets.1 kept
      obtain ⟨early, late⟩ := Inquiry.uncut_of_run_infer rising uncut
      rw [evaluate_infer, faithful early, Option.bind_some]
      exact ih _ (meets.2 _ trivial) later late

theorem above_of_asks {env : Env} {rank : NodeId → Nat} (ranked : env.Ranked rank)
    {id target : NodeId} {node : Node} {before now : Progress}
    (live : env.project.graph.get? id = some node) (above : env.Above rank id before)
    (grows : env.Grows (before.set id .inProgress).memo now.memo) (asks : env.Asks id target) :
    env.Above rank target now := by
  intro other working
  have opened := (grows.working other).mp working
  by_cases same : other = id
  · subst same
    exact ⟨Option.isSome_of_mem live, rank_lt_of_asks ranked asks⟩
  · have held := above other (by simpa [same] using opened)
    refine ⟨held.1, ?_⟩
    intro targetLive
    have lower := rank_lt_of_asks ranked asks targetLive
    have higher := held.2 (Option.isSome_of_mem live)
    omega

/-- One run of a rule: if one level further down everything is found as the rules alone say, then
so is the node whose slot was opened. -/
theorem dispatch_faithful {env : Env} {rank : NodeId → Nat} (ranked : env.Ranked rank)
    {depth : Nat} {id : NodeId} {node : Node} {before : Progress}
    (live : env.project.graph.get? id = some node) (faithful : env.Faithful before)
    (above : env.Above rank id before)
    (inner : ∀ target now, env.Faithful now → env.Above rank target now →
      env.Faithful (env.find depth target now).2 ∧
        ((env.find depth target now).2.cutoffs = now.cutoffs →
          env.evaluateNode target = some (env.find depth target now).1)) :
    env.Faithful (env.dispatch depth id node before).2 ∧
      ((env.dispatch depth id node before).2.cutoffs = before.cutoffs →
        env.evaluateNode id = some (env.simplified (env.dispatch depth id node before).1)) := by
  have opened : env.Faithful (before.set id .inProgress) := done_of_opened faithful
  -- The nodes being worked on stay the same while the rule is run, and all of them are above
  -- what it asks for, so no node is met that depends on itself.
  have start := Grows.refl env (before.set id .inProgress).memo
  have finding : ∀ target now, env.Asks id target →
      env.Faithful now ∧ env.Grows (before.set id .inProgress).memo now.memo →
      (env.Faithful (env.find depth target now).2 ∧
        env.Grows (before.set id .inProgress).memo (env.find depth target now).2.memo) ∧
      ((env.find depth target now).2.cutoffs = now.cutoffs →
        env.evaluateNode target = some (env.find depth target now).1) := by
    rintro target now asks ⟨clean, grows⟩
    have found := inner target now clean (above_of_asks ranked live above grows asks)
    exact ⟨⟨found.1, grows.trans (env.find_grows depth target now)⟩, found.2⟩
  refine ⟨?_, ?_⟩
  · exact (Inquiry.run_meets
      (fun now => env.Faithful now ∧ env.Grows (before.set id .inProgress).memo now.memo)
      (rule_asks live) (fun _ _ held => held)
      (fun target now asks kept => ⟨(finding target now asks kept).1, trivial⟩)
      ⟨opened, start⟩).1.1
  · intro uncut
    have ruled : env.evaluate (env.project.rule node.kind) =
        some (env.dispatch depth id node before).1 :=
      run_evaluates
        (fun now => env.Faithful now ∧ env.Grows (before.set id .inProgress).memo now.memo)
        (rule_asks live) (fun _ _ held => held) finding (env.find_cutoffs_le depth)
        ⟨opened, start⟩ uncut
    rw [env.evaluateNode_of_live live, ruled, Option.map_some]

theorem find_faithful {env : Env} {rank : NodeId → Nat} (ranked : env.Ranked rank) (depth : Nat)
    (id : NodeId) {progress : Progress} (faithful : env.Faithful progress)
    (above : env.Above rank id progress) :
    env.Faithful (env.find depth id progress).2 ∧
      ((env.find depth id progress).2.cutoffs = progress.cutoffs →
        env.evaluateNode id = some (env.find depth id progress).1) := by
  revert faithful above
  apply env.find_induct fun _ id before result => env.Faithful before →
    env.Above rank id before → env.Faithful result.2 ∧
      (result.2.cutoffs = before.cutoffs → env.evaluateNode id = some result.1)
  · intro _ id before inference held faithful _
    exact ⟨faithful, fun _ => faithful id inference held⟩
  · intro _ id before held _ above
    have circular := above id held
    exact absurd (circular.2 circular.1) (Nat.lt_irrefl _)
  · intro _ id before _ gone faithful _
    exact ⟨faithful, fun _ => env.evaluateNode_of_dangling gone⟩
  · intro id before _ _ _ faithful _
    refine ⟨faithful, fun uncut => ?_⟩
    simp only [Progress.cutOff_cutoffs] at uncut
    omega
  · intro depth id before node held live inner faithful above
    obtain ⟨later, agreed⟩ := dispatch_faithful ranked live faithful above inner
    exact ⟨done_of_settled later agreed, agreed⟩

theorem above_of_idle {env : Env} {rank : NodeId → Nat} {progress : Progress}
    (idle : progress.Idle) (id : NodeId) : env.Above rank id progress :=
  fun other working => absurd working (idle other)

/-- A query from a faithful memo leaves it faithful, and without a cut-off it is answered by the
rules alone. -/
theorem serve_faithful {env : Env} {rank : NodeId → Nat} (ranked : env.Ranked rank)
    {progress : Progress} (idle : progress.Idle) (faithful : env.Faithful progress)
    (query : Query) :
    env.Faithful (env.serve query progress).2 ∧
      ((env.serve query progress).2.cutoffs = progress.cutoffs →
        env.evaluate (query.inquiry env.project) = some (env.serve query progress).1) := by
  have finding : ∀ id now, True → env.Faithful now ∧ now.Idle →
      (env.Faithful (env.find env.project.settings.maxDepth id now).2 ∧
        (env.find env.project.settings.maxDepth id now).2.Idle) ∧
      ((env.find env.project.settings.maxDepth id now).2.cutoffs = now.cutoffs →
        env.evaluateNode id = some (env.find env.project.settings.maxDepth id now).1) := by
    rintro id now - ⟨clean, resting⟩
    have found := find_faithful ranked env.project.settings.maxDepth id clean
      (above_of_idle resting id)
    exact ⟨⟨found.1, (env.find_grows _ id now).idle resting⟩, found.2⟩
  refine ⟨?_, ?_⟩
  · exact (Inquiry.run_meets (fun now => env.Faithful now ∧ now.Idle)
      (Inquiry.meets_trivially _) (fun _ _ held => held)
      (fun id now may kept => ⟨(finding id now may kept).1, trivial⟩) ⟨faithful, idle⟩).1.1
  · intro uncut
    exact run_evaluates (fun now => env.Faithful now ∧ now.Idle) (Inquiry.meets_trivially _)
      (fun _ _ held => held) finding (env.find_cutoffs_le _) ⟨faithful, idle⟩ uncut

theorem after_faithful {env : Env} {rank : NodeId → Nat} (ranked : env.Ranked rank)
    (acts : List Act) {start : Progress} (idle : start.Idle) (faithful : env.Faithful start) :
    env.Faithful (env.after acts start) := by
  have kept : (env.after acts start).Idle ∧ env.Faithful (env.after acts start) := by
    refine after_keeps (fun now => now.Idle ∧ env.Faithful now) ?_ ?_ acts ⟨idle, faithful⟩
    · rintro query now ⟨resting, clean⟩
      exact ⟨(env.serve_grows query now).idle resting,
        (serve_faithful ranked resting clean query).1⟩
    · rintro now ⟨resting, clean⟩
      exact ⟨resting, clean⟩
  exact kept.2

/-- In a ranked project the memo is transparent. The rules alone have an answer to everything;
whatever a history of queries remembers is what they say, and a query that meets no cut-off is
answered as they answer it, whatever was asked before. -/
theorem memo_is_transparent_when_ranked {env : Env} {rank : NodeId → Nat}
    (ranked : env.Ranked rank) (acts : List Act) :
    (∀ id, (env.evaluateNode id).isSome) ∧
      (∀ id inference, (env.after acts {}).memo.slot id = .done inference →
        env.evaluateNode id = some inference) ∧
      ∀ query, (env.serve query (env.after acts {})).2.cutoffs = (env.after acts {}).cutoffs →
        env.evaluate (query.inquiry env.project) =
          some (env.serve query (env.after acts {})).1 := by
  have idle := (env.after_grows acts {}).idle Progress.idle_empty
  have empty : env.Faithful {} := fun _ _ held => Slot.noConfusion held
  have faithful := after_faithful ranked acts Progress.idle_empty empty
  refine ⟨evaluateNode_isSome ranked, faithful, ?_⟩
  intro query
  exact (serve_faithful ranked idle faithful query).2

/-- A top-level function that yields a string, and a call of it. -/
def greeting : Env :=
  let nodes := ofKinds [.literal .string .plain,
    .definition { name := "greet", owner := "", result := some 0, body := [0] },
    .call { method := "greet" }] {}
  { nodes with project := { nodes.project with
      registries := { methods := MethodRegistry.registerFunction {} "greet" 1 } } }

theorem greeting_ranked : greeting.Ranked id := by
  intro node target leads live
  have kinds : ∀ kind, greeting.project.graph.kind? node = some kind →
      (node = 0 ∧ kind = .literal .string .plain) ∨
      (node = 1 ∧ kind =
        .definition { name := "greet", owner := "", result := some 0, body := [0] }) ∨
      (node = 2 ∧ kind = .call { method := "greet" }) := by
    intro kind held
    match node, held with
    | 0, held => exact Or.inl ⟨rfl, (Option.some.inj held).symm⟩
    | 1, held => exact Or.inr (Or.inl ⟨rfl, (Option.some.inj held).symm⟩)
    | 2, held => exact Or.inr (Or.inr ⟨rfl, (Option.some.inj held).symm⟩)
    | n + 3, held => cases held
  cases leads with
  | dependency stored =>
      unfold Graph.dependencies at stored
      cases held : greeting.project.graph.kind? node with
      | none => simp [held] at stored
      | some kind =>
          rcases kinds kind held with ⟨rfl, rfl⟩ | ⟨rfl, rfl⟩ | ⟨rfl, rfl⟩
          · simp [held, NodeKind.edges] at stored
          · simp [held, NodeKind.edges] at stored
            subst stored
            decide
          · simp [held, NodeKind.edges] at stored
  | writer read registered =>
      rcases kinds _ read with ⟨_, other⟩ | ⟨_, other⟩ | ⟨_, other⟩ <;> cases other
  | method typeLevel call registered =>
      cases typeLevel <;> cases registered
  | function call registered =>
      rcases kinds _ call with ⟨_, other⟩ | ⟨_, other⟩ | ⟨rfl, other⟩
      · cases other
      · cases other
      · cases other
        have only := List.mem_singleton.mp registered
        subst only
        decide

/-- What is remembered for the call after it was inferred is what the rules alone say. -/
theorem greeting_is_answered_by_the_rules :
    greeting.Ranked id ∧
      greeting.evaluateNode 2 =
        some { type := .string, reason := .topLevelFunction "greet", provenance := .project } := by
  have transparent := memo_is_transparent_when_ranked greeting_ranked [.put (.infer 2)]
  exact ⟨greeting_ranked, transparent.2.1 2 _ rfl⟩

end Env

end HeuristicTyping
