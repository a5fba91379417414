import Mathlib
import HeuristicTyping.Proofs.Source.FileTables
import HeuristicTyping.Proofs.Session.Building
import HeuristicTyping.Proofs.Resolver.Slots

/-!
# Histories of a session

A session goes through a history of events: files are indexed and removed, and requests are made in
between. Whatever the history, the numbers of nodes and variables are distinct and none is handed
out twice, everything belongs to a file that the session knows, and a request changes nothing but
the memo.
-/

set_option autoImplicit false

namespace HeuristicTyping

/-! ### Events -/

namespace Session

/-- What a session may be asked. -/
inductive Request where
  | infer (id : NodeId)
  | signature (id : NodeId)
  | hover (id : NodeId)
  | hoverAt (path : Path) (offset : Nat)
  | dumpFile (path : Path)

inductive Response where
  | finding (inference : Inference)
  | signature (signature : Option MethodSig)
  | text (text : Option String)
  | dump (dump : Option GraphDump)

def ask (session : Session) : Request → Response × Session
  | .infer id =>
      let (inference, session) := session.infer id
      (.finding inference, session)
  | .signature id =>
      let (signature, session) := session.signatureOf id
      (.signature signature, session)
  | .hover id =>
      let (text, session) := session.hover id
      (.text text, session)
  | .hoverAt path offset =>
      let (text, session) := session.hoverAt path offset
      (.text text, session)
  | .dumpFile path =>
      let (dump, session) := session.dumpFile path
      (.dump dump, session)

inductive Event where
  | index (path : Path) (steps : List BuildStep)
  | remove (path : Path)
  | ask (request : Request)

/-- The file that an event builds or drops. -/
def Event.path? : Event → Option Path
  | .index path _ | .remove path => some path
  | .ask _ => none

def Event.touches (path : Path) (event : Event) : Bool :=
  event.path?.any fun other => decide (other.SameFile path)

def perform (session : Session) : Event → Session
  | .index path steps => (session.indexFile path steps).2
  | .remove path => (session.removeFile path).2
  | .ask request => (session.ask request).2

/-- The session after a history of events. -/
def after (session : Session) (events : List Event) : Session :=
  events.foldl perform session

@[simp] theorem after_nil (session : Session) : session.after [] = session := rfl

@[simp] theorem after_cons (session : Session) (event : Event) (events : List Event) :
    session.after (event :: events) = (session.perform event).after events := rfl

theorem after_append (session : Session) (earlier later : List Event) :
    session.after (earlier ++ later) = (session.after earlier).after later :=
  List.foldl_append

/-- What every event keeps, a history keeps. -/
theorem after_induct (Holds : Session → Prop) (events : List Event)
    (kept : ∀ session, ∀ event ∈ events, Holds session → Holds (session.perform event))
    {session : Session} (start : Holds session) : Holds (session.after events) := by
  induction events generalizing session with
  | nil => exact start
  | cons event events ih =>
      apply ih
      · intro now later member
        exact kept now later (List.mem_cons_of_mem _ member)
      · exact kept session event List.mem_cons_self start

/-! ### What an event changes -/

/-- A file under construction, before its first step. -/
def drafted (session : Session) (path : Path) : Draft where
  file := (session.files.intern path).1
  graph := (session.graph.removeFile (session.files.intern path).1).2
  registries := (session.registries.removeFile (session.files.intern path).1).2

theorem nodes_drafted (session : Session) (path : Path) :
    (session.drafted path).graph.nodes =
      session.graph.nodes.filter fun node => node.file != some (session.files.intern path).1 := rfl

theorem vars_drafted (session : Session) (path : Path) :
    (session.drafted path).graph.vars =
      session.graph.vars.filter fun var => var.file != some (session.files.intern path).1 := rfl

/-- What the steps build of a file, apart from all else that the session holds. -/
def ownBuild (session : Session) (path : Path) (steps : List BuildStep) : Draft :=
  (Draft.blank (session.files.intern path).1 session.graph.nextNode session.graph.nextVar).built
    steps

theorem filed_ownBuild (session : Session) (path : Path) (steps : List BuildStep) :
    Filed (· = some (session.files.intern path).1) (session.ownBuild path steps).graph
      (session.ownBuild path steps).registries :=
  Draft.filed_blank _ _ _ steps

theorem perform_index (session : Session) (path : Path) (steps : List BuildStep) :
    session.perform (.index path steps) =
      { session with
        files := (session.files.intern path).2
        graph := ((session.drafted path).built steps).graph
        registries := ((session.drafted path).built steps).registries
        memo := {} } := rfl

theorem removeFile_of_unknown {session : Session} {path : Path}
    (unknown : session.files.get? path = none) : session.removeFile path = (false, session) := by
  simp only [removeFile, unknown]

/-- The same session, but for what it remembers. -/
def Remembers (session other : Session) : Prop :=
  ∃ memo asked, other = { session with memo, asked } ∧ session.env.Grows session.memo memo

theorem remembers_refl (session : Session) : session.Remembers session :=
  ⟨session.memo, session.asked, rfl, Env.Grows.refl _ _⟩

theorem remembers_query {α : Type} (session : Session) (inquiry : Inquiry α) :
    session.Remembers (session.query inquiry).2 :=
  ⟨_, _, rfl, session.env.run_grows (session.env.find_grows _) inquiry { memo := session.memo }⟩

/-- A request changes nothing but what the session remembers. -/
theorem remembers_ask (session : Session) (request : Request) :
    session.Remembers (session.ask request).2 := by
  cases request with
  | infer id => exact session.remembers_query (Inquiry.inferNode id)
  | signature id => exact session.remembers_query (session.project.signatureOf id)
  | hover id => exact session.remembers_query (session.project.hover id)
  | hoverAt path offset =>
      simp only [ask, hoverAt]
      split
      · exact session.remembers_query _
      · exact session.remembers_refl
  | dumpFile path =>
      simp only [ask, dumpFile]
      split
      · exact session.remembers_query _
      · exact session.remembers_refl

namespace Remembers

variable {session other : Session}

theorem files (remembers : session.Remembers other) : other.files = session.files := by
  obtain ⟨_, _, rfl, _⟩ := remembers
  rfl

theorem graph (remembers : session.Remembers other) : other.graph = session.graph := by
  obtain ⟨_, _, rfl, _⟩ := remembers
  rfl

theorem registries (remembers : session.Remembers other) :
    other.registries = session.registries := by
  obtain ⟨_, _, rfl, _⟩ := remembers
  rfl

end Remembers

/-- The event is a request, or it removes a file that is not known. -/
def Event.Quiet (session : Session) : Event → Prop
  | .index _ _ => False
  | .remove path => session.files.get? path = none
  | .ask _ => True

theorem Event.Quiet.of_files {session other : Session} {event : Event}
    (quiet : event.Quiet session) (same : other.files = session.files) : event.Quiet other := by
  cases event with
  | index path steps => exact quiet
  | remove path =>
      unfold Quiet at quiet ⊢
      rw [same]
      exact quiet
  | ask request => trivial

/-- An event builds a file anew, drops one, or is quiet and changes nothing but what the session
remembers. -/
theorem perform_cases (session : Session) (event : Event) :
    (∃ path steps, event = .index path steps) ∨
      (∃ path file, event = .remove path ∧ session.files.get? path = some file ∧
        session.perform event = session.dropFile file) ∨
      (event.Quiet session ∧ session.Remembers (session.perform event)) := by
  cases event with
  | index path steps => exact Or.inl ⟨path, steps, rfl⟩
  | remove path =>
      cases known : session.files.get? path with
      | some file =>
          have dropped : session.perform (.remove path) = session.dropFile file := by
            simp only [perform, removeFile, known]
          exact Or.inr (Or.inl ⟨path, file, rfl, known, dropped⟩)
      | none =>
          have same : session.perform (.remove path) = session :=
            congrArg Prod.snd (removeFile_of_unknown known)
          refine Or.inr (Or.inr ⟨known, ?_⟩)
          rw [same]
          exact session.remembers_refl
  | ask request => exact Or.inr (Or.inr ⟨trivial, session.remembers_ask request⟩)

/-! ### What holds throughout a history -/

theorem files_within_perform (session : Session) (event : Event) :
    session.files.Within (session.perform event).files := by
  rcases session.perform_cases event with
    ⟨path, steps, rfl⟩ | ⟨path, file, rfl, _, dropped⟩ | ⟨_, remembers⟩
  · exact session.files.within_intern path
  · rw [dropped]
    exact FileTable.Within.refl _
  · rw [remembers.files]
    exact FileTable.Within.refl _

/-- Files keep their numbers. -/
theorem files_within_after (session : Session) (events : List Event) :
    session.files.Within (session.after events).files :=
  after_induct (fun now => session.files.Within now.files) events
    (fun now event _ within => within.trans (now.files_within_perform event))
    (FileTable.Within.refl _)

theorem counters_le_perform (session : Session) (event : Event) :
    session.graph.nextNode ≤ (session.perform event).graph.nextNode ∧
      session.graph.nextVar ≤ (session.perform event).graph.nextVar := by
  rcases session.perform_cases event with
    ⟨path, steps, rfl⟩ | ⟨path, file, rfl, _, dropped⟩ | ⟨_, remembers⟩
  · exact (session.drafted path).counters_le steps
  · rw [dropped]
    exact ⟨Nat.le_refl _, Nat.le_refl _⟩
  · rw [remembers.graph]
    exact ⟨Nat.le_refl _, Nat.le_refl _⟩

/-- No number is taken back. -/
theorem counters_le_after (session : Session) (events : List Event) :
    session.graph.nextNode ≤ (session.after events).graph.nextNode ∧
      session.graph.nextVar ≤ (session.after events).graph.nextVar := by
  apply after_induct (fun now => session.graph.nextNode ≤ now.graph.nextNode ∧
    session.graph.nextVar ≤ now.graph.nextVar) events _ ⟨Nat.le_refl _, Nat.le_refl _⟩
  rintro now event _ ⟨nodes, vars⟩
  obtain ⟨laterNodes, laterVars⟩ := now.counters_le_perform event
  exact ⟨Nat.le_trans nodes laterNodes, Nat.le_trans vars laterVars⟩

/-- Numbers are distinct and were handed out, and everything is of a file that is known. -/
structure Sound (session : Session) : Prop where
  graph : session.graph.Sound
  registries : session.registries.Sound
  filed : Filed (fun file => ∀ number ∈ file, number < session.files.size) session.graph
    session.registries

namespace Sound

variable {session : Session}

theorem reset (session : Session) : session.reset.Sound where
  graph := Graph.Sound.empty
  registries := Registries.Sound.empty
  filed := Filed.empty _

theorem dropFile (sound : session.Sound) (file : FileId) : (session.dropFile file).Sound where
  graph := sound.graph.removeFile file
  registries := sound.registries.removeFile file
  filed := sound.filed.removeFile sound.registries file

theorem index (sound : session.Sound) (path : Path) (steps : List BuildStep) :
    (session.perform (.index path steps)).Sound := by
  have dropped := sound.dropFile (session.files.intern path).1
  obtain ⟨graph, registries⟩ :=
    (session.drafted path).built_sound steps dropped.graph dropped.registries
  refine ⟨graph, registries, ?_⟩
  have larger : session.files.size ≤ (session.files.intern path).2.size :=
    (session.files.within_intern path).size_le
  have filed : Filed (fun file => ∀ number ∈ file, number < (session.files.intern path).2.size)
      (session.drafted path).graph (session.drafted path).registries := by
    apply dropped.filed.mono
    intro file below number member
    exact Nat.lt_of_lt_of_le (below number member) larger
  apply Draft.filed_built filed
  rintro number ⟨⟩
  exact session.files.intern_lt path

/-- A build that keeps to itself replaces what was there of its file by what it would have built on
a blank draft. -/
theorem extends_index (sound : session.Sound) (path : Path) {steps : List BuildStep}
    (since : ∀ step ∈ steps, step.Since session.graph.nextNode session.graph.nextVar) :
    Draft.Extends (session.drafted path) (session.ownBuild path steps)
      ((session.drafted path).built steps) := by
  have cleared : (session.drafted path).graph.Sound := sound.graph.removeFile _
  exact Draft.built_extends cleared since

theorem entries_drafted (sound : session.Sound) (path : Path) (shelf : Shelf) (key : MemberKey) :
    (session.drafted path).registries.entries shelf key =
      (session.registries.entries shelf key).filter
        fun entry => entry.file != some (session.files.intern path).1 :=
  sound.registries.entries_removeFile _ shelf key

theorem perform (sound : session.Sound) (event : Event) : (session.perform event).Sound := by
  rcases session.perform_cases event with
    ⟨path, steps, rfl⟩ | ⟨path, file, rfl, _, dropped⟩ | ⟨_, remembers⟩
  · exact sound.index path steps
  · rw [dropped]
    exact sound.dropFile file
  · obtain ⟨memo, asked, same, _⟩ := remembers
    rw [same]
    exact ⟨sound.graph, sound.registries, sound.filed⟩

theorem after (sound : session.Sound) (events : List Event) : (session.after events).Sound :=
  after_induct Session.Sound events (fun _ event _ held => held.perform event) sound

end Sound

/-- A session in surroundings that know nothing. -/
def unaided : Session where
  surroundings := { index := .none, signatures := .none, simplifier := .none }

def notes : Path := { text := "notes.rb" }

def letters : Path := { text := "/letters.rb" }

theorem letters_apart : ¬ letters.SameFile notes := by
  have rooted : letters.isAbsolute = true := by cbv
  have relative : notes.isAbsolute = false := by cbv
  intro same
  have absolute := congrArg PathComponents.absolute same
  rw [Path.components_absolute, Path.components_absolute, rooted, relative] at absolute
  cases absolute

end Session

end HeuristicTyping
