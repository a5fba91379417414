import HeuristicTyping.Proofs.Session.Histories
import HeuristicTyping.Proofs.Session.Scripts

/-!
# The contents of a file

`Holds` says that what a session has of a file is what a draft holds. Right after a build this is
what the build made on a blank draft. Events that leave the file alone keep it so, except that any
build may record calls on any variable: that is the one way in which a file changes from outside,
so `Holds` leaves recorded calls open.
-/

set_option autoImplicit false

namespace HeuristicTyping

/-! ### Variables without their calls -/

namespace Variable

/-- A variable on which no call was recorded yet. -/
def bare (var : Variable) : Variable :=
  { var with called := [] }

theorem record_bare (var : Variable) (call : CalledMethod) :
    (var.record call).bare = var.bare := by
  unfold record
  split <;> rfl

theorem eq_of_bare {var other : Variable} (bare : var.bare = other.bare)
    (called : var.called = other.called) : var = other := by
  cases var
  cases other
  simp_all [Variable.bare]

theorem list_eq_of_bare {vars others : List Variable}
    (bare : vars.map Variable.bare = others.map Variable.bare)
    (called : vars.map Variable.called = others.map Variable.called) : vars = others := by
  induction vars generalizing others with
  | nil =>
      rw [List.map_nil, eq_comm, List.map_eq_nil_iff] at bare
      rw [bare]
  | cons var vars ih =>
      cases others with
      | nil => simp at bare
      | cons other others =>
          simp only [List.map_cons, List.cons.injEq] at bare called
          rw [eq_of_bare bare.1 called.1, ih bare.2 called.2]

end Variable

/-! ### Holding a file -/

/-- What there is of a file is what the draft holds, whatever calls were recorded. -/
structure Holds (file : FileId) (own : Draft) (graph : Graph) (registries : Registries) :
    Prop where
  nodes : (graph.nodes.filter fun node => node.file == some file) = own.graph.nodes
  vars : (graph.vars.filter fun var => var.file == some file).map Variable.bare =
    own.graph.vars.map Variable.bare
  entries : ∀ shelf key,
    ((registries.entries shelf key).filter fun entry => entry.file == some file) =
      own.registries.entries shelf key

namespace Holds

variable {file : FileId} {own : Draft} {graph : Graph} {registries : Registries}

theorem filter_other {α : Type} (fileOf : α → Option FileId) {other : FileId}
    (apart : other ≠ file) (elements : List α) :
    ((elements.filter fun element => fileOf element != some other).filter
        fun element => fileOf element == some file) =
      elements.filter fun element => fileOf element == some file := by
  rw [List.filter_filter]
  apply List.filter_congr
  intro element _
  by_cases mine : fileOf element = some file
  · simp [mine, Ne.symm apart]
  · simp [mine]

theorem filter_own {α : Type} (fileOf : α → Option FileId) {before added : List α}
    (owned : ∀ element ∈ added, fileOf element = some file) :
    (((before.filter fun element => fileOf element != some file) ++ added).filter
        fun element => fileOf element == some file) = added := by
  have others : ((before.filter fun element => fileOf element != some file).filter
      fun element => fileOf element == some file) = [] := by
    rw [List.filter_filter, List.filter_eq_nil_iff]
    intro element _
    simp
  have own : (added.filter fun element => fileOf element == some file) = added := by
    rw [List.filter_eq_self]
    intro element member
    simp [owned element member]
  rw [List.filter_append, others, own, List.nil_append]

theorem removeFile (holds : Holds file own graph registries) (sound : registries.Sound)
    {other : FileId} (apart : other ≠ file) :
    Holds file own (graph.removeFile other).2 (registries.removeFile other).2 where
  nodes := (filter_other Node.file apart graph.nodes).trans holds.nodes
  vars := (congrArg _ (filter_other Variable.file apart graph.vars)).trans holds.vars
  entries shelf key := by
    rw [sound.entries_removeFile]
    exact (filter_other Registration.file apart _).trans (holds.entries shelf key)

theorem bare_recordCall (graph : Graph) (var : VarId) (call : CalledMethod) :
    ((graph.recordCall var call).vars.filter fun live => live.file == some file).map
        Variable.bare =
      (graph.vars.filter fun live => live.file == some file).map Variable.bare := by
  have files : ((fun live : Variable => live.file == some file) ∘ fun live =>
      if live.id = var then live.record call else live) = fun live => live.file == some file := by
    funext live
    simp only [Function.comp_apply]
    split <;> simp
  have bares : (Variable.bare ∘ fun live : Variable =>
      if live.id = var then live.record call else live) = Variable.bare := by
    funext live
    simp only [Function.comp_apply]
    split <;> simp [Variable.record_bare]
  rw [Graph.recordCall, List.filter_map, files, List.map_map, bares]

theorem apply_change {draft : Draft} (holds : Holds file own draft.graph draft.registries)
    (apart : draft.file ≠ file) (change : Draft.Change) :
    Holds file own (draft.apply change).graph (draft.apply change).registries := by
  cases change with
  | nothing => exact holds
  | add kind span =>
      refine { holds with nodes := ?_ }
      simp [Draft.apply, Graph.add, List.filter_append, holds.nodes, apart]
  | declare name =>
      refine { holds with vars := ?_ }
      simp [Draft.apply, Graph.addVariable, List.filter_append, holds.vars, apart]
  | record var call =>
      exact { holds with vars := (bare_recordCall draft.graph var call).trans holds.vars }
  | enroll shelf key node =>
      refine { holds with entries := ?_ }
      intro other wanted
      simp only [Draft.apply, Registries.entries_enroll, List.filter_append, holds.entries]
      split <;> simp [apart]

theorem built {draft : Draft} (holds : Holds file own draft.graph draft.registries)
    (apart : draft.file ≠ file) (steps : List BuildStep) :
    Holds file own (draft.built steps).graph (draft.built steps).registries := by
  apply (Draft.built_induct (fun now => now.file = draft.file ∧
    Holds file own now.graph now.registries) steps _ ⟨rfl, holds⟩).2
  rintro now change step _ _ ⟨same, holds⟩
  have otherFile : now.file ≠ file := by
    rw [same]
    exact apart
  refine ⟨?_, holds.apply_change otherFile change⟩
  cases change <;> exact same

end Holds

namespace Session

/-- The file of the path has its number and holds what the draft holds. -/
structure HoldsFile (session : Session) (path : Path) (file : FileId) (own : Draft) : Prop where
  known : session.files.get? path = some file
  holds : Holds file own session.graph session.registries

theorem own_vars_index {session : Session} (sound : session.Sound) (path : Path)
    {steps : List BuildStep}
    (since : ∀ step ∈ steps, step.Since session.graph.nextNode session.graph.nextVar) :
    ((session.perform (.index path steps)).graph.vars.filter
        fun var => var.file == some (session.files.intern path).1) =
      (session.ownBuild path steps).graph.vars := by
  have extend := sound.extends_index path since
  have filed := session.filed_ownBuild path steps
  rw [perform_index]
  simp only [extend.vars, vars_drafted]
  exact Holds.filter_own Variable.file filed.vars

theorem holdsFile_index {session : Session} (sound : session.Sound) (path : Path)
    {steps : List BuildStep}
    (since : ∀ step ∈ steps, step.Since session.graph.nextNode session.graph.nextVar) :
    (session.perform (.index path steps)).HoldsFile path (session.files.intern path).1
      (session.ownBuild path steps) := by
  have extend := sound.extends_index path since
  have filed := session.filed_ownBuild path steps
  refine ⟨session.files.get?_intern_self path, ?_, ?_, ?_⟩
  · rw [perform_index]
    simp only [extend.nodes, nodes_drafted]
    exact Holds.filter_own Node.file filed.nodes
  · rw [own_vars_index sound path since]
  · intro shelf key
    rw [perform_index]
    simp only [extend.entries, sound.entries_drafted]
    exact Holds.filter_own Registration.file (filed.entries shelf key)

theorem HoldsFile.perform {session : Session} {path : Path} {file : FileId} {own : Draft}
    (holdsFile : session.HoldsFile path file own) (sound : session.Sound) {event : Event}
    (untouched : event.touches path = false) :
    (session.perform event).HoldsFile path file own := by
  have known : (session.perform event).files.get? path = some file :=
    (session.files_within_perform event).get? holdsFile.known
  -- Another path has another number, or it would name the same file.
  have apart : ∀ {other : Path} {number : FileId}, event.path? = some other →
      (session.perform event).files.get? other = some number → number ≠ file := by
    rintro other number at_path otherKnown rfl
    have same := FileTable.sameFile_of_get? otherKnown known
    simp [Event.touches, at_path, same] at untouched
  refine ⟨known, ?_⟩
  rcases session.perform_cases event with
    ⟨other, steps, rfl⟩ | ⟨other, number, rfl, otherKnown, dropped⟩ | ⟨_, remembers⟩
  · have otherFile : (session.files.intern other).1 ≠ file :=
      apart rfl (session.files.get?_intern_self other)
    have cleared : Holds file own (session.drafted other).graph
        (session.drafted other).registries :=
      holdsFile.holds.removeFile sound.registries otherFile
    exact cleared.built otherFile steps
  · have otherFile : number ≠ file := by
      apply apart rfl
      rw [dropped]
      exact otherKnown
    rw [dropped]
    exact holdsFile.holds.removeFile sound.registries otherFile
  · rw [remembers.graph, remembers.registries]
    exact holdsFile.holds

/-- A file stays as it is while events leave it alone. -/
theorem HoldsFile.after {session : Session} {path : Path} {file : FileId} {own : Draft}
    (holdsFile : session.HoldsFile path file own) (sound : session.Sound) {events : List Event}
    (untouched : ∀ event ∈ events, event.touches path = false) :
    (session.after events).HoldsFile path file own := by
  apply (after_induct (fun now => now.Sound ∧ now.HoldsFile path file own) events _
    ⟨sound, holdsFile⟩).2
  rintro now event among ⟨sound, holdsFile⟩
  exact ⟨sound.perform event, holdsFile.perform sound (untouched event among)⟩

end Session

end HeuristicTyping
