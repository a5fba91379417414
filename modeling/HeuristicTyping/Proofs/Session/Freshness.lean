import HeuristicTyping.Proofs.Session.Histories

/-!
# No answer is stale

The memo of a session is asked before the graph, so it must never hold a finding that the graph has
outlived. Every change clears it, and requests fill it with findings of live nodes only. Numbers are
not handed out twice, so the number of a removed node stays dangling.
-/

set_option autoImplicit false

namespace HeuristicTyping

namespace Session

/-! ### Remembered nodes are live -/

/-- Every slot belongs to a live node. -/
def Tidy (session : Session) : Prop :=
  ∀ id, session.memo.slot id ≠ .notStarted → (session.graph.get? id).isSome

theorem tidy_of_forgotten {session : Session} (empty : session.memo = {}) : session.Tidy := by
  intro id started
  rw [empty] at started
  exact absurd rfl started

theorem Tidy.remembers {session other : Session} (tidy : session.Tidy)
    (remembers : session.Remembers other) : other.Tidy := by
  obtain ⟨memo, asked, rfl, grows⟩ := remembers
  intro id started
  cases held : memo.slot id with
  | notStarted => exact absurd held started
  | inProgress =>
      have before := (grows.working id).mp held
      exact tidy id (by rw [before]; exact Slot.noConfusion)
  | done inference =>
      rcases grows.live id inference held with before | live
      · exact tidy id (by rw [before]; exact Slot.noConfusion)
      · exact live

theorem Tidy.perform {session : Session} (tidy : session.Tidy) (event : Event) :
    (session.perform event).Tidy := by
  rcases session.perform_cases event with
    ⟨path, steps, rfl⟩ | ⟨path, file, rfl, _, dropped⟩ | ⟨_, remembers⟩
  · exact tidy_of_forgotten rfl
  · rw [dropped]
    exact tidy_of_forgotten rfl
  · exact tidy.remembers remembers

theorem Tidy.after {session : Session} (tidy : session.Tidy) (events : List Event) :
    (session.after events).Tidy :=
  after_induct Tidy events (fun _ event _ held => held.perform event) tidy

/-! ### Removed nodes stay away -/

/-- The number was handed out, and no live node has it. -/
def Gone (id : NodeId) (graph : Graph) : Prop :=
  id < graph.nextNode ∧ graph.get? id = none

theorem Gone.removeFile {id : NodeId} {graph : Graph} (gone : Gone id graph) (file : FileId) :
    Gone id (graph.removeFile file).2 := by
  refine ⟨gone.1, ?_⟩
  have missing := gone.2
  unfold Graph.get? at missing ⊢
  rw [List.find?_eq_none] at missing ⊢
  intro node member
  exact missing node (List.mem_of_mem_filter member)

theorem Gone.built {id : NodeId} {draft : Draft} (gone : Gone id draft.graph)
    (steps : List BuildStep) : Gone id (draft.built steps).graph := by
  apply Draft.built_induct (fun now => Gone id now.graph) steps _ gone
  intro now change step _ _ gone
  cases change with
  | add kind span =>
      have apart : (now.graph.nextNode == id) = false := by
        simpa using Nat.ne_of_gt gone.1
      have missing := gone.2
      unfold Graph.get? at missing
      refine ⟨Nat.lt_succ_of_lt gone.1, ?_⟩
      simp [Draft.apply, Graph.add, Graph.get?, List.find?_append, missing, apart]
  | _ => exact gone

theorem Gone.perform {id : NodeId} {session : Session} (gone : Gone id session.graph)
    (event : Event) : Gone id (session.perform event).graph := by
  rcases session.perform_cases event with
    ⟨path, steps, rfl⟩ | ⟨path, file, rfl, _, dropped⟩ | ⟨_, remembers⟩
  · have cleared : Gone id (session.drafted path).graph := gone.removeFile _
    exact cleared.built steps
  · rw [dropped]
    exact gone.removeFile file
  · rw [remembers.graph]
    exact gone

theorem Gone.after {id : NodeId} {session : Session} (gone : Gone id session.graph)
    (events : List Event) : Gone id (session.after events).graph :=
  after_induct (fun now => Gone id now.graph) events (fun _ event _ held => held.perform event)
    gone

/-- A node that was live and is not any more stays away for good. -/
theorem gone_of_removed {session : Session} (sound : session.Sound) {id : NodeId}
    (live : (session.graph.get? id).isSome) {middle : List Event}
    (removed : (session.after middle).graph.get? id = none) (later : List Event) :
    Gone id ((session.after middle).after later).graph := by
  obtain ⟨node, found⟩ := Option.isSome_iff_exists.mp live
  have named : node.id = id := by simpa using List.find?_some found
  have below : id < session.graph.nextNode := by
    rw [← named]
    exact sound.graph.nodes_lt node (List.mem_of_find?_eq_some found)
  have gone : Gone id (session.after middle).graph :=
    ⟨Nat.lt_of_lt_of_le below (session.counters_le_after middle).1, removed⟩
  exact gone.after later

/-- A number of which the node is gone is answered as dangling. -/
theorem infer_of_gone {session : Session} (tidy : session.Tidy) {id : NodeId}
    (gone : session.graph.get? id = none) :
    (session.infer id).1 = .unknown (.danglingNode id) := by
  have resting : ({ memo := session.memo } : Progress).memo.slot id = .notStarted := by
    by_contra started
    have live := tidy id started
    rw [gone] at live
    cases live
  have found := session.env.find_of_dangling session.settings.maxDepth resting gone
  exact congrArg Prod.fst found

/-! ### Answers -/

/-- The responses to the requests of a history, in order. -/
def answers : Session → List Event → List Response
  | _, [] => []
  | session, .ask request :: events =>
      (session.ask request).1 :: (session.ask request).2.answers events
  | session, event :: events => (session.perform event).answers events

def Event.isAsk : Event → Bool
  | .ask _ => true
  | _ => false

/-- A record of past questions has no part in an answer. -/
theorem ask_with_asked (session : Session) (asked : List Question) (request : Request) :
    ({ session with asked }.ask request).1 = (session.ask request).1 ∧
      ∃ record, ({ session with asked }.ask request).2 =
        { (session.ask request).2 with asked := record } := by
  cases request with
  | infer id => exact ⟨rfl, _, rfl⟩
  | signature id => exact ⟨rfl, _, rfl⟩
  | hover id => exact ⟨rfl, _, rfl⟩
  | hoverAt path offset =>
      simp only [ask, hoverAt]
      split <;> exact ⟨rfl, _, rfl⟩
  | dumpFile path =>
      simp only [ask, dumpFile]
      split <;> exact ⟨rfl, _, rfl⟩

/-- Quiet events are answered as their requests alone would be, and no matter what was asked
before. -/
theorem answers_of_quiet {session : Session} {events : List Event}
    (quiet : ∀ event ∈ events, event.Quiet session) (asked : List Question) :
    session.answers events = { session with asked }.answers (events.filter Event.isAsk) := by
  induction events generalizing session asked with
  | nil => rfl
  | cons event events ih =>
      have first := quiet event List.mem_cons_self
      cases event with
      | index path steps => exact first.elim
      | remove path =>
          have same : session.perform (.remove path) = session :=
            congrArg Prod.snd (removeFile_of_unknown first)
          simp only [answers, same, Event.isAsk, List.filter_cons]
          exact ih (fun later member => quiet later (List.mem_cons_of_mem _ member)) asked
      | ask request =>
          obtain ⟨alike, record, onward⟩ := session.ask_with_asked asked request
          have rest : ∀ later ∈ events, later.Quiet (session.ask request).2 :=
            fun later member => (quiet later (List.mem_cons_of_mem _ member)).of_files
              (session.remembers_ask request).files
          have filtered : (Event.ask request :: events).filter Event.isAsk =
              Event.ask request :: events.filter Event.isAsk := rfl
          rw [filtered, answers, answers, alike, onward, ih rest record]

theorem after_of_quiet {session : Session} {events : List Event}
    (quiet : ∀ event ∈ events, event.Quiet session) :
    ∃ memo asked, session.after events = { session with memo, asked } := by
  induction events generalizing session with
  | nil => exact ⟨session.memo, session.asked, rfl⟩
  | cons event events ih =>
      have remembers : session.Remembers (session.perform event) := by
        have first := quiet event List.mem_cons_self
        rcases session.perform_cases event with
          ⟨path, steps, rfl⟩ | ⟨path, file, rfl, known, _⟩ | ⟨_, remembers⟩
        · exact first.elim
        · rw [Event.Quiet, known] at first
          cases first
        · exact remembers
      have rest : ∀ later ∈ events, later.Quiet (session.perform event) := fun later member =>
        (quiet later (List.mem_cons_of_mem _ member)).of_files remembers.files
      obtain ⟨memo, asked, after⟩ := ih rest
      obtain ⟨_, _, performed, _⟩ := remembers
      refine ⟨memo, asked, ?_⟩
      rw [after_cons, after, performed]

/-- The memo is empty right after a change. -/
theorem memo_of_change {session : Session} {event : Event} (change : ¬ event.Quiet session) :
    (session.perform event).memo = {} := by
  rcases session.perform_cases event with
    ⟨path, steps, rfl⟩ | ⟨path, file, rfl, _, dropped⟩ | ⟨quiet, _⟩
  · rfl
  · rw [dropped]
    rfl
  · exact absurd quiet change

/-- Whatever the history since the last reset: what is remembered belongs to live nodes; the
requests since the last change are answered as on an empty memo; removing an unknown file changes
nothing; and a node that was removed is answered as dangling from then on. -/
theorem answers_are_never_stale (session : Session) (events : List Event) :
    (∀ id, (session.reset.after events).memo.slot id ≠ .notStarted →
      ((session.reset.after events).graph.get? id).isSome) ∧
    (∀ earlier later, events = earlier ++ later →
      (earlier = [] ∨ ∃ before change, earlier = before ++ [change] ∧
        ¬ change.Quiet (session.reset.after before)) →
      (∀ event ∈ later, event.Quiet (session.reset.after earlier)) →
      (session.reset.after earlier).answers later =
        { session.reset.after events with memo := {} }.answers (later.filter Event.isAsk)) ∧
    (∀ path, (session.reset.after events).files.get? path = none →
      (session.reset.after events).removeFile path = (false, session.reset.after events)) ∧
    ∀ earlier middle later id, events = earlier ++ middle ++ later →
      ((session.reset.after earlier).graph.get? id).isSome →
      (session.reset.after (earlier ++ middle)).graph.get? id = none →
      ((session.reset.after events).infer id).1 = .unknown (.danglingNode id) := by
  have tidy : (session.reset.after events).Tidy := (tidy_of_forgotten rfl).after events
  refine ⟨tidy, ?_, fun _ => removeFile_of_unknown, ?_⟩
  · rintro earlier later rfl changed quiet
    have forgotten : (session.reset.after earlier).memo = {} := by
      rcases changed with rfl | ⟨before, change, rfl, loud⟩
      · rfl
      · rw [after_append]
        exact memo_of_change loud
    obtain ⟨memo, asked, current⟩ := after_of_quiet quiet
    have same : { session.reset.after (earlier ++ later) with memo := {} } =
        { session.reset.after earlier with asked } := by
      rw [after_append, current, ← forgotten]
    rw [same]
    exact answers_of_quiet quiet asked
  · rintro earlier middle later id rfl live removed
    have sound := (Sound.reset session).after earlier
    rw [after_append] at removed
    have gone := gone_of_removed sound live removed later
    rw [← after_append, ← after_append, ← List.append_assoc] at gone
    exact infer_of_gone tidy gone.2

/-- A file with one node is indexed, and the node is asked for. -/
def noted : List Event := [.index notes [.add (.literal .string .plain)], .ask (.infer 0)]

theorem noted_known : (unaided.reset.after noted).files.get? notes = some 0 := by
  have files := (unaided.reset.perform
    (.index notes [.add (.literal .string .plain)])).remembers_ask (.infer 0)
  have kept : (unaided.reset.after noted).files = (FileTable.intern {} notes).2 := files.files
  rw [kept, FileTable.get?_intern_self]
  rfl

theorem noted_graph : (unaided.reset.after noted).graph =
    (unaided.reset.perform (.index notes [.add (.literal .string .plain)])).graph :=
  (remembers_ask _ (.infer 0)).graph

def withdrawn : List Event := noted ++ [Event.remove notes]

theorem withdrawn_graph : (unaided.reset.after withdrawn).graph.get? 0 = none := by
  have dropped : unaided.reset.after withdrawn = (unaided.reset.after noted).dropFile 0 := by
    rw [withdrawn, after_append]
    simp only [after_cons, after_nil, perform, removeFile, noted_known]
  rw [dropped, dropFile, noted_graph]
  rfl

/-- The node was found while it was live; once its file is removed, it is dangling. -/
theorem withdrawn_node_is_dangling :
    ((unaided.reset.after noted).graph.get? 0).isSome ∧
      (unaided.reset.after withdrawn).graph.get? 0 = none ∧
      ((unaided.reset.after (withdrawn ++ [Event.ask (.infer 0)])).infer 0).1 =
        .unknown (.danglingNode 0) ∧
      (unaided.reset.after withdrawn).answers [Event.ask (.infer 0)] =
        { unaided.reset.after (withdrawn ++ [Event.ask (.infer 0)]) with memo := {} }.answers
          [Event.ask (.infer 0)] := by
  have live : ((unaided.reset.after noted).graph.get? 0).isSome := by
    rw [noted_graph]
    rfl
  have loud : ¬ (Event.remove notes).Quiet (unaided.reset.after noted) := by
    intro quiet
    have unknown : (unaided.reset.after noted).files.get? notes = none := quiet
    rw [noted_known] at unknown
    cases unknown
  obtain ⟨_, answered, _, dangling⟩ :=
    answers_are_never_stale unaided (withdrawn ++ [Event.ask (.infer 0)])
  refine ⟨live, withdrawn_graph, ?_, ?_⟩
  · exact dangling noted [Event.remove notes] _ 0 rfl live withdrawn_graph
  · refine answered withdrawn [Event.ask (.infer 0)] rfl (Or.inr ⟨noted, _, rfl, loud⟩) ?_
    intro event member
    rw [List.mem_singleton.mp member]
    trivial

end Session

end HeuristicTyping
