import HeuristicTyping.Dump
import HeuristicTyping.Proofs.Resolver.Counting

/-!
# Histories of queries

Callers put queries to a resolver one after the other, and any number of resolvers may take turns
on one memo. Whatever they did, the slots of the memo went through their states in order: nothing
is left half done, a finding stays, and a query that was answered without a cut-off is answered
from the memo ever after. A resolver that keeps its depth as a count is back at the count it had.
-/

set_option autoImplicit false

namespace HeuristicTyping

/-- What a caller may ask a resolver for. -/
inductive Query where
  | infer (id : NodeId)
  | signature (id : NodeId)
  | dump (ids : List NodeId)

inductive Reply where
  | finding (inference : Inference)
  | signature (signature : Option MethodSig)
  | dump (dump : GraphDump)

def Query.inquiry (project : Project) : Query → Inquiry Reply
  | .infer id => return .finding (← Inquiry.inferNode id)
  | .signature id => return .signature (← project.signatureOf id)
  | .dump ids => return .dump (← project.dump ids)

/-- A caller puts a query to the resolver at hand, or goes on with a new resolver on the same
memo. -/
inductive Act where
  | put (query : Query)
  | renew

namespace Env

def serve (env : Env) (query : Query) : Resolution Reply :=
  env.resolve (query.inquiry env.project)

def act (env : Env) (progress : Progress) : Act → Progress
  | .put query => (env.serve query progress).2
  | .renew => { memo := progress.memo }

/-- What is kept after a history of acts. -/
def after (env : Env) (acts : List Act) (start : Progress) : Progress :=
  acts.foldl env.act start

theorem serve_grows (env : Env) (query : Query) (progress : Progress) :
    env.Grows progress.memo (env.serve query progress).2.memo :=
  env.run_grows (env.find_grows _) _ progress

/-- What every query and every new resolver keeps, a whole history keeps. -/
theorem after_keeps {env : Env} (kept : Progress → Prop)
    (serves : ∀ query now, kept now → kept (env.serve query now).2)
    (renews : ∀ now, kept now → kept { memo := now.memo })
    (acts : List Act) {start : Progress} (held : kept start) : kept (env.after acts start) := by
  induction acts generalizing start with
  | nil => exact held
  | cons act acts ih =>
      apply ih
      cases act with
      | put query => exact serves query start held
      | renew => exact renews start held

theorem after_grows (env : Env) (acts : List Act) (start : Progress) :
    env.Grows start.memo (env.after acts start).memo :=
  after_keeps (fun now => env.Grows start.memo now.memo)
    (fun query now grows => grows.trans (env.serve_grows query now))
    (fun _ grows => grows) acts (Grows.refl env start.memo)

theorem Grows.idle {env : Env} {before after : Progress}
    (grows : env.Grows before.memo after.memo) (idle : before.Idle) : after.Idle := by
  intro id working
  exact idle id ((grows.working id).mp working)

theorem serve_untruncated (env : Env) (query : Query) {progress : Progress}
    (untruncated : progress.Untruncated) : (env.serve query progress).2.Untruncated := by
  refine (Inquiry.run_meets Progress.Untruncated (Inquiry.meets_trivially _)
    (fun _ _ held => held) ?_ untruncated).1
  intro id now _ held
  exact ⟨(env.find_untruncated _ id held).1, trivial⟩

theorem after_untruncated (env : Env) (acts : List Act) {start : Progress}
    (untruncated : start.Untruncated) : (env.after acts start).Untruncated :=
  after_keeps Progress.Untruncated (fun query _ clean => env.serve_untruncated query clean)
    (fun _ clean => clean) acts untruncated

end Env

/-! ### Queries consult nobody but the resolver -/

namespace Inquiry

/-- The inquiry puts no question to the surroundings by itself. -/
def Plain {α : Type} : Inquiry α → Prop
  | .done _ => True
  | .infer _ next => ∀ inference, (next inference).Plain
  | .consult _ _ => False

theorem plain_bind {α β : Type} {inquiry : Inquiry α} {next : α → Inquiry β}
    (first : inquiry.Plain) (rest : ∀ result, (next result).Plain) :
    (inquiry >>= next).Plain := by
  induction inquiry with
  | done result => exact rest result
  | infer id inner ih => exact fun inference => ih inference (first inference)
  | consult question inner ih => exact first.elim

theorem plain_each {α β : Type} {inquire : α → Inquiry β}
    (single : ∀ element, (inquire element).Plain) (elements : List α) :
    (each inquire elements).Plain := by
  induction elements with
  | nil => trivial
  | cons element elements ih =>
      refine plain_bind (single element) ?_
      intro result
      exact plain_bind ih fun _ => trivial

end Inquiry

theorem Project.signatureOf_plain (project : Project) (id : NodeId) :
    (project.signatureOf id).Plain := by
  unfold Project.signatureOf
  split
  · refine Inquiry.plain_bind (Inquiry.plain_bind (Inquiry.plain_each ?_ _) ?_) ?_
    · intro param
      unfold Project.signatureParam
      split
      · exact fun _ => trivial
      · trivial
    · exact fun _ => trivial
    · intro params
      exact fun _ => trivial
  · trivial

theorem Project.dump_plain (project : Project) (ids : List NodeId) :
    (project.dump ids).Plain := by
  refine Inquiry.plain_bind (Inquiry.plain_bind (Inquiry.plain_each ?_ ids) ?_) ?_
  · intro id
    unfold Project.dumpNode
    split
    · trivial
    · exact fun _ => trivial
  · exact fun _ => trivial
  · exact fun _ => trivial

theorem Query.inquiry_plain (project : Project) (query : Query) :
    (query.inquiry project).Plain := by
  cases query with
  | infer id => exact fun _ => trivial
  | signature id => exact Inquiry.plain_bind (project.signatureOf_plain id) fun _ => trivial
  | dump ids => exact Inquiry.plain_bind (project.dump_plain ids) fun _ => trivial

namespace Env

theorem run_again {env : Env} {α : Type} {depth : Nat} {inquiry : Inquiry α}
    {progress later : Progress} (plain : inquiry.Plain) (idle : progress.Idle)
    (uncut : (inquiry.run env.surroundings (env.find depth) progress).2.cutoffs =
      progress.cutoffs)
    (grows : env.Grows (inquiry.run env.surroundings (env.find depth) progress).2.memo
      later.memo) :
    inquiry.run env.surroundings (env.find depth) later =
      ((inquiry.run env.surroundings (env.find depth) progress).1, later) := by
  induction inquiry generalizing progress with
  | done result => rfl
  | consult question next ih => exact plain.elim
  | infer id next ih =>
      obtain ⟨early, late⟩ := Inquiry.uncut_of_run_infer (env.find_cutoffs_le depth) uncut
      simp only [Inquiry.run] at grows ⊢
      have onward := (env.run_grows (env.find_grows depth) _ _).trans grows
      have resting := (env.find_grows depth id progress).idle idle
      rw [find_again idle early onward depth]
      exact ih _ (plain _) resting late grows

theorem after_append (env : Env) (earlier later : List Act) (start : Progress) :
    env.after (earlier ++ later) start = env.after later (env.after earlier start) :=
  List.foldl_append

/-- A query that was answered without a cut-off is answered from the memo ever after: the reply is
the same, nothing is asked, and nothing changes. -/
theorem serve_again (env : Env) {query : Query} {progress : Progress} (idle : progress.Idle)
    (uncut : (env.serve query progress).2.cutoffs = progress.cutoffs) (later : List Act) :
    env.serve query (env.after (.put query :: later) progress) =
      ((env.serve query progress).1, env.after (.put query :: later) progress) :=
  run_again (query.inquiry_plain env.project) idle uncut
    (env.after_grows later (env.serve query progress).2)

theorem slot_of_inferred (env : Env) {id : NodeId} {progress : Progress} (idle : progress.Idle)
    (live : (env.project.graph.get? id).isSome)
    (uncut : (env.serve (.infer id) progress).2.cutoffs = progress.cutoffs) (later : List Act) :
    ∃ inference, (env.serve (.infer id) progress).1 = .finding inference ∧
      (env.after (.put (.infer id) :: later) progress).memo.slot id = .done inference := by
  refine ⟨_, rfl, ?_⟩
  have grows := env.after_grows later (env.serve (.infer id) progress).2
  exact grows.kept id _ (slot_find_of_uncut live (idle id) uncut)

/-- The slots of a memo obey their states in every history of queries that starts without a node
being worked on and without a finding that a depth limit brought about. -/
theorem slots_obey_their_states (env : Env) {start : Progress} (idle : start.Idle)
    (untruncated : start.Untruncated) (acts : List Act) :
    (env.after acts start).Idle ∧
      (env.after acts start).Untruncated ∧
      env.Grows start.memo (env.after acts start).memo ∧
      (∀ (query : Query) (depth : Nat), ∃ reply progress,
        env.count (query.inquiry env.project) { progress := env.after acts start, depth } =
          some (reply, { progress, depth })) ∧
      (∀ query : Query,
        env.count (query.inquiry env.project) { progress := env.after acts start } =
          some ((env.serve query (env.after acts start)).1,
            { progress := (env.serve query (env.after acts start)).2 })) ∧
      ∀ earlier query later, acts = earlier ++ .put query :: later →
        (env.serve query (env.after earlier start)).2.cutoffs =
          (env.after earlier start).cutoffs →
        env.serve query (env.after acts start) =
            ((env.serve query (env.after earlier start)).1, env.after acts start) ∧
          ∀ id, query = .infer id → (env.project.graph.get? id).isSome →
            ∃ inference, (env.serve query (env.after earlier start)).1 = .finding inference ∧
              (env.after acts start).memo.slot id = .done inference := by
  have grows := env.after_grows acts start
  refine ⟨grows.idle idle, env.after_untruncated acts untruncated, grows, ?_, ?_, ?_⟩
  · intro query depth
    exact ⟨_, _, env.count_eq_run (query.inquiry env.project) (env.after acts start) depth⟩
  · intro query
    exact env.count_eq_run (query.inquiry env.project) (env.after acts start) 0
  · rintro earlier query later rfl uncut
    have resting := (env.after_grows earlier start).idle idle
    rw [after_append]
    refine ⟨env.serve_again resting uncut later, ?_⟩
    rintro id rfl live
    exact env.slot_of_inferred resting live uncut later

/-- A project of nodes alone, numbered in order, in surroundings that know nothing. -/
def ofKinds (kinds : List NodeKind) (settings : Settings) : Env where
  project := {
    graph := kinds.foldl (fun graph kind => (graph.add kind).2) {}
    settings }
  surroundings := { index := .none, signatures := .none, simplifier := .none }

/-- A node that depends on itself is remembered like any other. -/
theorem loop_is_remembered :
    ({} : Progress).Idle ∧ ({} : Progress).Untruncated ∧
      ∃ inference, ((ofKinds [.merge [0, 1], .literal .string .plain] {}).after
        [.put (.infer 0), .renew] {}).memo.slot 0 = .done inference := by
  have obeyed := slots_obey_their_states (ofKinds [.merge [0, 1], .literal .string .plain] {})
    Progress.idle_empty Progress.untruncated_empty [.put (.infer 0), .renew]
  obtain ⟨inference, _, slot⟩ := (obeyed.2.2.2.2.2 [] (.infer 0) [.renew] rfl rfl).2 0 rfl rfl
  exact ⟨Progress.idle_empty, Progress.untruncated_empty, inference, slot⟩

end Env

end HeuristicTyping
