import HeuristicTyping.Proofs.Session.Histories

/-!
# A session holds the latest contents of each file

Of a history, only the latest build of each file is left, and not even that one if the file was
removed since. `replay` is the history without everything that came to nothing: a build that a
later event undoes leaves its numbers used up and nothing else. If every build keeps to itself, a
session holds exactly what the replay of its history holds. The replay is always ahead: it has
already left out what the events still to come will drop.
-/

set_option autoImplicit false

namespace HeuristicTyping

/-- Steps that register nodes and record calls on variables of this build only, and add no span
that ends before it starts. -/
structure BuildStep.Own (nextNode : NodeId) (nextVar : VarId) (steps : List BuildStep) :
    Prop where
  registered : ∀ step ∈ steps, ∀ node ∈ step.registered?,
    nextNode ≤ node ∧ node < nextNode + steps.countP BuildStep.addsNode
  recorded : ∀ step ∈ steps, ∀ var ∈ step.recorded?,
    nextVar ≤ var ∧ var < nextVar + steps.countP BuildStep.addsVariable
  proper : ∀ step ∈ steps, step.Proper

theorem BuildStep.Own.since {nextNode : NodeId} {nextVar : VarId} {steps : List BuildStep}
    (own : BuildStep.Own nextNode nextVar steps) :
    ∀ step ∈ steps, step.Since nextNode nextVar := by
  intro step member
  exact ⟨fun node named => (own.registered step member node named).1,
    fun var named => (own.recorded step member var named).1⟩

namespace Session

/-- Every build of the history keeps to itself. -/
def OwnBuilds (session : Session) (events : List Event) : Prop :=
  ∀ earlier path steps later, events = earlier ++ .index path steps :: later →
    BuildStep.Own (session.after earlier).graph.nextNode (session.after earlier).graph.nextVar steps

theorem OwnBuilds.rest {session : Session} {event : Event} {events : List Event}
    (own : session.OwnBuilds (event :: events)) : (session.perform event).OwnBuilds events := by
  rintro earlier path steps later rfl
  exact own (event :: earlier) path steps later rfl

/-! ### The replay -/

/-- A build that comes to nothing: only its numbers are used up. -/
def skip (session : Session) (path : Path) (steps : List BuildStep) : Session :=
  { session with
    files := (session.files.intern path).2
    graph := { session.graph with
      nextNode := session.graph.nextNode + steps.countP BuildStep.addsNode
      nextVar := session.graph.nextVar + steps.countP BuildStep.addsVariable } }

/-- Performs only the latest build of each file, unless the file is removed afterwards. -/
def replay : Session → List Event → Session
  | session, [] => session
  | session, .index path steps :: later =>
      if later.any (Event.touches path) then (session.skip path steps).replay later
      else (session.perform (.index path steps)).replay later
  | session, .remove _ :: later | session, .ask _ :: later => session.replay later

/-! ### What is left of a file -/

section Kept

variable (files : FileTable)

/-- The number of the file that an event builds or drops. -/
def Event.file? (event : Event) : Option FileId :=
  event.path?.bind files.get?

/-- Whether something of a file outlasts the events. -/
def kept (later : List Event) (file : Option FileId) : Bool :=
  later.all fun event => file == none || event.file? files != file

variable {files}

theorem kept_cons (event : Event) (later : List Event) (file : Option FileId) :
    kept files (event :: later) file =
      ((file == none || event.file? files != file) && kept files later file) := rfl

theorem kept_cons_of_file {event : Event} {dropped : FileId}
    (at_file : event.file? files = some dropped) (later : List Event) (file : Option FileId) :
    kept files (event :: later) file = (file != some dropped && kept files later file) := by
  rw [kept_cons, at_file]
  cases file with
  | none => simp
  | some number =>
      have swap : (some dropped != some number) = (some number != some dropped) := by
        rw [bne_comm]
      simp [swap]

theorem touches_iff {path : Path} {file : FileId} (known : files.get? path = some file)
    (event : Event) : event.touches path = true ↔ event.file? files = some file := by
  unfold Event.touches Event.file?
  cases event.path? with
  | none => simp
  | some other =>
      simp only [Option.any_some, decide_eq_true_eq, Option.bind_some]
      constructor
      · intro same
        rw [files.get?_congr same]
        exact known
      · intro otherKnown
        exact FileTable.sameFile_of_get? otherKnown known

theorem kept_of_known {path : Path} {file : FileId} (known : files.get? path = some file)
    (later : List Event) : kept files later (some file) = !later.any (Event.touches path) := by
  rw [kept, List.not_any_eq_all_not]
  congr 1
  funext event
  have iff := touches_iff known event
  by_cases touched : event.touches path = true
  · simp [touched, iff.mp touched]
  · have apart : event.file? files ≠ some file := fun same => touched (iff.mpr same)
    simp [touched, apart]

theorem kept_cons_of_apart {event : Event} {file : Option FileId}
    (apart : ∀ number ∈ file, event.file? files ≠ some number) (later : List Event) :
    kept files (event :: later) file = kept files later file := by
  rw [kept_cons]
  cases file with
  | none => simp
  | some number => simp [apart number rfl]

section Filters

variable {α : Type} (file : α → Option FileId) {event : Event} {dropped : FileId}

/-- What an event drops, it no longer matters that later events would. -/
theorem filter_dropped (at_file : event.file? files = some dropped) (later : List Event)
    (before : List α) :
    (before.filter fun element => kept files (event :: later) (file element)) =
      (before.filter fun element => file element != some dropped).filter
        fun element => kept files later (file element) := by
  rw [List.filter_filter]
  apply List.filter_congr
  intro element _
  rw [kept_cons_of_file at_file, Bool.and_comm]

/-- A build that is undone later leaves nothing of its own. -/
theorem filter_skipped (at_file : event.file? files = some dropped) {later : List Event}
    (undone : kept files later (some dropped) = false) (before : List α) {own : List α}
    (owned : ∀ element ∈ own, file element = some dropped) :
    (before.filter fun element => kept files (event :: later) (file element)) =
      ((before.filter fun element => file element != some dropped) ++ own).filter
        fun element => kept files later (file element) := by
  have ownGone : (own.filter fun element => kept files later (file element)) = [] := by
    rw [List.filter_eq_nil_iff]
    intro element member
    rw [owned element member, undone]
    exact Bool.false_ne_true
  rw [List.filter_append, ownGone, List.append_nil]
  exact filter_dropped file at_file later before

/-- A build that stays adds the same in the replay as in the history. -/
theorem filter_rebuilt (at_file : event.file? files = some dropped) {later : List Event}
    (stays : kept files later (some dropped) = true) (before : List α) {own : List α}
    (owned : ∀ element ∈ own, file element = some dropped) :
    ((before.filter fun element => kept files (event :: later) (file element)).filter
        fun element => file element != some dropped) ++ own =
      ((before.filter fun element => file element != some dropped) ++ own).filter
        fun element => kept files later (file element) := by
  have ownKept : (own.filter fun element => kept files later (file element)) = own := by
    rw [List.filter_eq_self]
    intro element member
    rw [owned element member]
    exact stays
  rw [List.filter_append, ownKept, filter_dropped file at_file, List.filter_filter,
    List.filter_filter, List.filter_filter]
  congr 1
  apply List.filter_congr
  intro element _
  cases file element != some dropped <;> simp

end Filters

end Kept

/-! ### The replay is ahead of the history -/

theorem Sound.skip {session : Session} (sound : session.Sound) (path : Path)
    (steps : List BuildStep) : (session.skip path steps).Sound where
  graph :=
    { sound.graph with
      nodes_lt := fun node member => Nat.lt_add_right _ (sound.graph.nodes_lt node member)
      vars_lt := fun var member => Nat.lt_add_right _ (sound.graph.vars_lt var member) }
  registries := sound.registries
  filed := by
    have larger := (session.files.within_intern path).size_le
    have filed := sound.filed.mono fun file below number member =>
      Nat.lt_of_lt_of_le (below number member) larger
    exact ⟨filed.nodes, filed.vars, filed.entries⟩

/-- The replay holds what the session holds, less what the events to come will drop. The table is
the one that the session will have in the end. -/
structure Ahead (table : FileTable) (later : List Event) (actual replayed : Session) : Prop where
  sound : replayed.Sound
  files : replayed.files = actual.files
  nextNode : replayed.graph.nextNode = actual.graph.nextNode
  nextVar : replayed.graph.nextVar = actual.graph.nextVar
  nodes : replayed.graph.nodes =
    actual.graph.nodes.filter fun node => kept table later node.file
  vars : replayed.graph.vars = actual.graph.vars.filter fun var => kept table later var.file
  entries : ∀ shelf key, replayed.registries.entries shelf key =
    (actual.registries.entries shelf key).filter fun entry => kept table later entry.file

namespace Ahead

variable {table : FileTable} {later : List Event} {actual replayed : Session}

/-- An event that drops nothing is left out of the replay. -/
theorem quiet {event : Event} (ahead : Ahead table (event :: later) actual replayed)
    (sound : actual.Sound) (within : actual.files.Within table) (quiet : event.Quiet actual)
    (remembers : actual.Remembers (actual.perform event)) :
    Ahead table later (actual.perform event) replayed := by
  have apart : ∀ file : Option FileId, (∀ number ∈ file, number < actual.files.size) →
      kept table (event :: later) file = kept table later file := by
    intro file below
    apply kept_cons_of_apart
    intro number member same
    cases event with
    | index path steps => exact quiet
    | remove path =>
        have late := within.size_le_of_new quiet same
        exact absurd (below number member) (Nat.not_lt_of_le late)
    | ask request => cases same
  refine ⟨ahead.sound, ?_, ?_, ?_, ?_, ?_, ?_⟩
  · rw [remembers.files, ahead.files]
  · rw [remembers.graph, ahead.nextNode]
  · rw [remembers.graph, ahead.nextVar]
  · rw [remembers.graph, ahead.nodes]
    exact List.filter_congr fun node member => apart _ (sound.filed.nodes node member)
  · rw [remembers.graph, ahead.vars]
    exact List.filter_congr fun var member => apart _ (sound.filed.vars var member)
  · intro shelf key
    rw [remembers.registries, ahead.entries]
    exact List.filter_congr fun entry member =>
      apart _ (sound.filed.entries shelf key entry member)

theorem dropFile {event : Event} {file : FileId}
    (ahead : Ahead table (event :: later) actual replayed) (sound : actual.Sound)
    (at_file : event.file? table = some file) :
    Ahead table later (actual.dropFile file) replayed where
  sound := ahead.sound
  files := ahead.files
  nextNode := ahead.nextNode
  nextVar := ahead.nextVar
  nodes := by
    rw [ahead.nodes]
    exact filter_dropped Node.file at_file later _
  vars := by
    rw [ahead.vars]
    exact filter_dropped Variable.file at_file later _
  entries shelf key := by
    have removed := sound.registries.entries_removeFile file shelf key
    rw [ahead.entries]
    unfold Session.dropFile
    rw [removed]
    exact filter_dropped Registration.file at_file later _

/-- With nothing to come, nothing is left out. -/
theorem graph_eq (ahead : Ahead table [] actual replayed) : replayed.graph = actual.graph := by
  have nodes := ahead.nodes
  have vars := ahead.vars
  simp only [kept, List.all_nil, List.filter_true] at nodes vars
  exact Graph.ext nodes vars ahead.nextNode ahead.nextVar

section Index

variable {path : Path} {steps : List BuildStep}

theorem file_index (within : (actual.files.intern path).2.Within table)
    (steps : List BuildStep) :
    (Event.index path steps).file? table = some (actual.files.intern path).1 :=
  within.get? (actual.files.get?_intern_self path)

/-- A build that is undone later is skipped. -/
theorem skip (ahead : Ahead table (.index path steps :: later) actual replayed)
    (sound : actual.Sound) (within : (actual.files.intern path).2.Within table)
    (own : BuildStep.Own actual.graph.nextNode actual.graph.nextVar steps)
    (undone : kept table later (some (actual.files.intern path).1) = false) :
    Ahead table later (actual.perform (.index path steps)) (replayed.skip path steps) := by
  have at_file := file_index within steps
  have extend := sound.extends_index path own.since
  have filed := actual.filed_ownBuild path steps
  obtain ⟨nextNode, nextVar⟩ := (actual.drafted path).built_counters own.proper
  refine ⟨ahead.sound.skip path steps, ?_, ?_, ?_, ?_, ?_, ?_⟩
  · simp only [Session.skip, perform_index, ahead.files]
  · simp only [Session.skip, perform_index, ahead.nextNode]
    exact nextNode.symm
  · simp only [Session.skip, perform_index, ahead.nextVar]
    exact nextVar.symm
  · have skipped := filter_skipped Node.file at_file undone actual.graph.nodes filed.nodes
    simp only [Session.skip, perform_index, ahead.nodes, extend.nodes]
    exact skipped
  · have skipped := filter_skipped Variable.file at_file undone actual.graph.vars filed.vars
    simp only [Session.skip, perform_index, ahead.vars, extend.vars]
    exact skipped
  · intro shelf key
    have skipped := filter_skipped Registration.file at_file undone
      (actual.registries.entries shelf key) (filed.entries shelf key)
    simp only [Session.skip, perform_index, ahead.entries, extend.entries, sound.entries_drafted]
    exact skipped

theorem ownBuild_eq {event : Event} (ahead : Ahead table (event :: later) actual replayed)
    (path : Path) (steps : List BuildStep) :
    replayed.ownBuild path steps = actual.ownBuild path steps := by
  unfold ownBuild
  rw [ahead.files, ahead.nextNode, ahead.nextVar]

/-- A build that stays is performed. -/
theorem rebuild (ahead : Ahead table (.index path steps :: later) actual replayed)
    (sound : actual.Sound) (within : (actual.files.intern path).2.Within table)
    (own : BuildStep.Own actual.graph.nextNode actual.graph.nextVar steps)
    (stays : kept table later (some (actual.files.intern path).1) = true) :
    Ahead table later (actual.perform (.index path steps))
      (replayed.perform (.index path steps)) := by
  have at_file := file_index within steps
  have extend := sound.extends_index path own.since
  have filed := actual.filed_ownBuild path steps
  have since : ∀ step ∈ steps, step.Since replayed.graph.nextNode replayed.graph.nextVar := by
    rw [ahead.nextNode, ahead.nextVar]
    exact own.since
  have otherExtend := ahead.sound.extends_index path since
  rw [ahead.ownBuild_eq path steps] at otherExtend
  refine ⟨ahead.sound.perform _, ?_, ?_, ?_, ?_, ?_, ?_⟩
  · simp only [perform_index, ahead.files]
  · simp only [perform_index, extend.nextNode, otherExtend.nextNode]
  · simp only [perform_index, extend.nextVar, otherExtend.nextVar]
  · have rebuilt := filter_rebuilt Node.file at_file stays actual.graph.nodes filed.nodes
    rw [← ahead.nodes] at rebuilt
    simp only [perform_index, extend.nodes, otherExtend.nodes, nodes_drafted, ahead.files]
    exact rebuilt
  · have rebuilt := filter_rebuilt Variable.file at_file stays actual.graph.vars filed.vars
    rw [← ahead.vars] at rebuilt
    simp only [perform_index, extend.vars, otherExtend.vars, vars_drafted, ahead.files]
    exact rebuilt
  · intro shelf key
    have rebuilt := filter_rebuilt Registration.file at_file stays
      (actual.registries.entries shelf key) (filed.entries shelf key)
    rw [← ahead.entries] at rebuilt
    simp only [perform_index, extend.entries, otherExtend.entries, sound.entries_drafted,
      ahead.sound.entries_drafted, ahead.files]
    exact rebuilt

end Index

end Ahead

/-- At the end of a history, nothing is left to come, and the replay holds what the session
holds. -/
theorem ahead_replay {events : List Event} {actual replayed : Session} {table : FileTable}
    (sound : actual.Sound) (own : actual.OwnBuilds events)
    (final : (actual.after events).files = table) (ahead : Ahead table events actual replayed) :
    Ahead table [] (actual.after events) (replayed.replay events) := by
  induction events generalizing actual replayed with
  | nil => exact ahead
  | cons event later ih =>
      have within : (actual.perform event).files.Within table := by
        rw [← final]
        exact files_within_after _ later
      have earlier : actual.files.Within table := (files_within_perform _ event).trans within
      have onward : ∀ {next : Session}, Ahead table later (actual.perform event) next →
          Ahead table [] ((actual.perform event).after later) (next.replay later) :=
        ih (sound.perform event) own.rest final
      cases event with
      | index path steps =>
          have keeps := own [] path steps later rfl
          have known := kept_of_known (Ahead.file_index within steps) later
          rw [after_cons, replay]
          -- The replay leaves out a build that a later event undoes.
          cases undone : later.any (Event.touches path) with
          | true =>
              rw [undone] at known
              exact onward (ahead.skip sound within keeps known)
          | false =>
              rw [undone] at known
              exact onward (ahead.rebuild sound within keeps known)
      | remove path =>
          have step : Ahead table later (actual.perform (.remove path)) replayed := by
            rcases actual.perform_cases (.remove path) with
              ⟨_, _, other⟩ | ⟨_, file, same, known, dropped⟩ | ⟨quiet, remembers⟩
            · cases other
            · cases same
              rw [dropped]
              exact ahead.dropFile sound (earlier.get? known)
            · exact ahead.quiet sound earlier quiet remembers
          exact onward step
      | ask request =>
          exact onward (ahead.quiet sound earlier trivial (actual.remembers_ask request))

theorem ahead_reset (session : Session) (table : FileTable) (events : List Event) :
    Ahead table events session.reset session.reset where
  sound := Sound.reset session
  files := rfl
  nextNode := rfl
  nextVar := rfl
  nodes := rfl
  vars := rfl
  entries shelf key := by simp [reset]

/-! ### Registered nodes are live -/

/-- Whatever is registered is a live node of the file that registered it. -/
def Anchored (session : Session) : Prop :=
  ∀ shelf key, ∀ entry ∈ session.registries.entries shelf key,
    ∃ node ∈ session.graph.nodes, node.id = entry.node ∧ node.file = entry.file

theorem Anchored.dropFile {session : Session} (anchored : session.Anchored)
    (sound : session.Sound) (file : FileId) : (session.dropFile file).Anchored := by
  intro shelf key entry member
  have held := sound.registries.entries_removeFile file shelf key
  unfold Session.dropFile at member ⊢
  rw [held] at member
  obtain ⟨registered, stays⟩ := List.mem_filter.mp member
  obtain ⟨node, live, named, same⟩ := anchored shelf key entry registered
  exact ⟨node, List.mem_filter.mpr ⟨live, by rw [same]; exact stays⟩, named, same⟩

theorem Anchored.index {session : Session} (anchored : session.Anchored) (sound : session.Sound)
    (path : Path) {steps : List BuildStep}
    (own : BuildStep.Own session.graph.nextNode session.graph.nextVar steps) :
    (session.perform (.index path steps)).Anchored := by
  intro shelf key entry member
  have extend := sound.extends_index path own.since
  have filed := session.filed_ownBuild path steps
  rw [perform_index] at member ⊢
  simp only [extend.entries, extend.nodes] at member ⊢
  rcases List.mem_append.mp member with before | built
  · have dropped := anchored.dropFile sound (session.files.intern path).1
    obtain ⟨node, live, named, same⟩ := dropped shelf key entry before
    exact ⟨node, List.mem_append_left _ live, named, same⟩
  · have registered := Draft.registered_of_built _ steps shelf key entry built
    simp only [Draft.blank, Registries.entries_empty, List.not_mem_nil, false_or] at registered
    obtain ⟨step, among, named⟩ := registered
    obtain ⟨above, below⟩ := own.registered step among entry.node named
    have numbered := Draft.numbered_built (session.files.intern path).1 session.graph.nextNode
      session.graph.nextVar steps
    have counted := (Draft.blank (session.files.intern path).1 session.graph.nextNode
      session.graph.nextVar).built_counters own.proper
    obtain ⟨node, live, same⟩ := numbered.gapless entry.node above (by rw [counted.1]; exact below)
    have sameFile : node.file = entry.file :=
      (filed.nodes node live).trans (filed.entries shelf key entry built).symm
    exact ⟨node, List.mem_append_right _ live, same, sameFile⟩

theorem Anchored.after {session : Session} (anchored : session.Anchored) (sound : session.Sound)
    {events : List Event} (own : session.OwnBuilds events) : (session.after events).Anchored := by
  induction events generalizing session with
  | nil => exact anchored
  | cons event later ih =>
      refine ih ?_ (sound.perform event) own.rest
      rcases session.perform_cases event with
        ⟨path, steps, rfl⟩ | ⟨path, file, rfl, _, dropped⟩ | ⟨_, remembers⟩
      · exact anchored.index sound path (own [] path steps later rfl)
      · rw [dropped]
        exact anchored.dropFile sound file
      · unfold Anchored
        rw [remembers.registries, remembers.graph]
        exact anchored

theorem live_of_lookup {session : Session} (anchored : session.Anchored) {shelf : Shelf}
    {owner name : String} {index : Option TypeIndex} {node : NodeId}
    (found : (session.registries.table shelf).lookup? owner name index = some node) :
    (session.graph.get? node).isSome := by
  obtain ⟨holder, entry, member, rfl⟩ := RegistryTable.entry_of_lookup? found
  obtain ⟨live, among, named, _⟩ := anchored shelf _ entry member
  unfold Graph.get?
  rw [List.find?_isSome]
  exact ⟨live, among, by simpa using named⟩

/-- If every build keeps to itself, a session holds the nodes and variables that the replay of its
history holds, under the same numbers and in the same files, and answers every look-up of a
method, function or field alike; and what a look-up finds is live. -/
theorem session_holds_the_latest_contents (session : Session) {events : List Event}
    (own : session.reset.OwnBuilds events) :
    (session.reset.after events).files = (session.reset.replay events).files ∧
      (session.reset.after events).graph = (session.reset.replay events).graph ∧
      (∀ owner name typeLevel index,
        (session.reset.after events).registries.methods.lookup? owner name typeLevel index =
          (session.reset.replay events).registries.methods.lookup? owner name typeLevel index) ∧
      (∀ name, (session.reset.after events).registries.methods.function? name =
        (session.reset.replay events).registries.methods.function? name) ∧
      (∀ scope owner name index,
        ((session.reset.after events).registries.fields scope).lookup? owner name index =
          ((session.reset.replay events).registries.fields scope).lookup? owner name index) ∧
      ∀ shelf owner name index node,
        ((session.reset.after events).registries.table shelf).lookup? owner name index =
          some node →
        ((session.reset.after events).graph.get? node).isSome := by
  have start := Sound.reset session
  have ahead := ahead_replay start own rfl (ahead_reset session _ events)
  have lookups := Registries.Sound.lookup?_congr (start.after events).registries
    ahead.sound.registries (fun shelf key => by rw [ahead.entries]; simp [kept])
  have empty : session.reset.Anchored := by
    intro shelf key entry member
    simp [reset] at member
  refine ⟨ahead.files.symm, ahead.graph_eq.symm, ?_, ?_, ?_,
    fun _ _ _ _ _ => live_of_lookup (empty.after start own)⟩
  · intro owner name typeLevel index
    exact lookups (.methods typeLevel) owner name index
  · intro name
    have found := lookups .functions MethodRegistry.topLevel name none
    rw [RegistryTable.lookup?_none, RegistryTable.lookup?_none] at found
    exact found
  · intro scope owner name index
    exact lookups (.fields scope) owner name index

/-- A file that is indexed again with a node more, in front of its definition. -/
def rewritten : List Event :=
  [.index notes [.add (.definition { name := "title", owner := "Note" }), .registerMethod 0],
    .index notes [.add (.literal .string .plain),
      .add (.definition { name := "title", owner := "Note", result := some 1 }),
      .registerMethod 2]]

theorem rewritten_own : unaided.reset.OwnBuilds rewritten := by
  rintro earlier path steps later same
  match earlier, same with
  | [], same =>
      cases same
      have own : BuildStep.Own 0 0
          [.add (.definition { name := "title", owner := "Note" }), .registerMethod 0] :=
        { registered := by simp [BuildStep.registered?, BuildStep.addsNode, BuildStep.kind?]
          recorded := by simp [BuildStep.recorded?]
          proper := by simp [BuildStep.Proper] }
      exact own
  | [_], same =>
      cases same
      have own : BuildStep.Own 1 0 [.add (.literal .string .plain),
          .add (.definition { name := "title", owner := "Note", result := some 1 }),
          .registerMethod 2] :=
        { registered := by
            simp [BuildStep.registered?, List.countP_cons, BuildStep.addsNode, BuildStep.kind?]
          recorded := by simp [BuildStep.recorded?]
          proper := by simp [BuildStep.Proper] }
      exact own
  | _ :: _ :: earlier, same => simp [rewritten] at same

theorem rewritten_holds_the_second_version :
    unaided.reset.OwnBuilds rewritten ∧
      (unaided.reset.after rewritten).graph = (unaided.reset.replay rewritten).graph :=
  ⟨rewritten_own, (session_holds_the_latest_contents unaided rewritten_own).2.1⟩

end Session

end HeuristicTyping
