import HeuristicTyping.Proofs.Renumbering.Resolver
import HeuristicTyping.Proofs.Session.Contents
import HeuristicTyping.Proofs.Session.Moving

/-!
# Indexing a file again

When a file is indexed again with the same script, its nodes and variables get new numbers and its
registrations go to the end. Seen from the other files this is a renumbering, as long as nothing
there refers to the numbers that go out of use or to numbers that are still to come. Only the order
of registrations may show: where both the file and another one register a member, the answer must
be the one that stands when the file's registrations are last.
-/

set_option autoImplicit false

namespace HeuristicTyping

namespace BuildStep

/-- What a script builds at zero. -/
def content (script : List BuildStep) : Draft :=
  (Draft.blank 0 0 0).built script

/-- Whatever the nodes of the script hold and whatever it registers, it creates. -/
structure SelfContained (script : List BuildStep) : Prop where
  nodes : ∀ node ∈ (content script).graph.nodes, ∀ id ∈ node.kind.mentions,
    id < (content script).graph.nextNode
  vars : ∀ node ∈ (content script).graph.nodes, ∀ var ∈ node.kind.vars,
    var < (content script).graph.nextVar
  entries : ∀ shelf key, ∀ entry ∈ (content script).registries.entries shelf key,
    entry.node < (content script).graph.nextNode

theorem content_sound (script : List BuildStep) : (content script).graph.Sound :=
  ((Draft.blank 0 0 0).built_sound script Graph.Sound.empty Registries.Sound.empty).1

theorem content_numbered (script : List BuildStep) : (content script).Numbered 0 0 :=
  Draft.numbered_built 0 0 0 script

end BuildStep

namespace Session

/-- The session after a file was indexed by a script. -/
def indexed (session : Session) (path : Path) (script : List BuildStep) : Session :=
  session.perform (.index path (BuildStep.place script session.graph))

/-- Builds a file whose number is known. -/
def buildAs (session : Session) (file : FileId) (files : FileTable) (script : List BuildStep) :
    Session :=
  let draft := Draft.built ⟨file, (session.graph.removeFile file).2,
    (session.registries.removeFile file).2⟩ (BuildStep.place script session.graph)
  { session with files, graph := draft.graph, registries := draft.registries, memo := {} }

theorem indexed_of_intern {session : Session} {path : Path} {file : FileId} {files : FileTable}
    (interned : session.files.intern path = (file, files)) (script : List BuildStep) :
    session.indexed path script = session.buildAs file files script := by
  unfold indexed buildAs
  rw [perform_index]
  unfold drafted
  rw [interned]

/-! ### A file that was built by a script -/

/-- The file is what the script builds from the given numbers on, and these were handed out. -/
structure FromScript (session : Session) (path : Path) (file : FileId) (script : List BuildStep)
    (base : NodeId) (baseVar : VarId) : Prop where
  sound : session.Sound
  known : session.files.get? path = some file
  nodes : (session.graph.nodes.filter fun node => node.file == some file) =
    (BuildStep.content script).graph.nodes.map (Node.place (.shift base baseVar) file)
  vars : (session.graph.vars.filter fun var => var.file == some file) =
    (BuildStep.content script).graph.vars.map (Variable.place (.shift base baseVar) file)
  entries : ∀ shelf key,
    ((session.registries.entries shelf key).filter fun entry => entry.file == some file) =
      ((BuildStep.content script).registries.entries shelf key).map
        (Registration.place (.shift base baseVar) file)
  nodes_le : base + (BuildStep.content script).graph.nextNode ≤ session.graph.nextNode
  vars_le : baseVar + (BuildStep.content script).graph.nextVar ≤ session.graph.nextVar

/-- The calls on the variables of the file are those that the script records. -/
def OwnCalls (session : Session) (file : FileId) (script : List BuildStep) : Prop :=
  (session.graph.vars.filter fun var => var.file == some file).map Variable.called =
    (BuildStep.content script).graph.vars.map Variable.called

theorem fromScript_of_holds {session : Session} {path : Path} {file : FileId}
    {script : List BuildStep} {base : NodeId} {baseVar : VarId} (sound : session.Sound)
    (holdsFile : session.HoldsFile path file ((Draft.blank file base baseVar).built
      (script.map (BuildStep.renumber (.shift base baseVar)))))
    (calls : session.OwnCalls file script)
    (nodes_le : base + (BuildStep.content script).graph.nextNode ≤ session.graph.nextNode)
    (vars_le : baseVar + (BuildStep.content script).graph.nextVar ≤ session.graph.nextVar) :
    session.FromScript path file script base baseVar := by
  have placed := Draft.placed_script script file base baseVar
  have holds := holdsFile.holds
  have own : ((Draft.blank file base baseVar).built
      (script.map (BuildStep.renumber (.shift base baseVar)))).file = file := Draft.built_file _ _
  refine ⟨sound, holdsFile.known, ?_, ?_, ?_, nodes_le, vars_le⟩
  · rw [holds.nodes, placed.nodes, own]
    rfl
  · have bare := holds.vars
    rw [placed.vars, own] at bare
    apply Variable.list_eq_of_bare bare
    rw [List.map_map]
    exact calls
  · intro shelf key
    rw [holds.entries, placed.entries, own]
    rfl

theorem fromScript_indexed {session : Session} (sound : session.Sound) (path : Path)
    (script : List BuildStep) :
    (session.indexed path script).FromScript path (session.files.intern path).1 script
      session.graph.nextNode session.graph.nextVar := by
  have since := BuildStep.since_shift script session.graph.nextNode session.graph.nextVar
  have placed := Draft.placed_script script (session.files.intern path).1 session.graph.nextNode
    session.graph.nextVar
  have extend := sound.extends_index path since
  refine fromScript_of_holds (sound.perform _) (holdsFile_index sound path since) ?_ ?_ ?_
  · have own := own_vars_index sound path since
    unfold OwnCalls indexed BuildStep.place
    rw [own]
    unfold ownBuild
    rw [placed.vars, List.map_map]
    rfl
  · exact Nat.le_of_eq ((extend.nextNode.trans placed.nextNode).trans (Nat.add_comm _ _)).symm
  · exact Nat.le_of_eq ((extend.nextVar.trans placed.nextVar).trans (Nat.add_comm _ _)).symm

namespace FromScript

variable {session : Session} {path : Path} {file : FileId} {script : List BuildStep}
  {base : NodeId} {baseVar : VarId}

theorem again (built : session.FromScript path file script base baseVar) :
    (session.indexed path script).FromScript path file script session.graph.nextNode
      session.graph.nextVar := by
  have indexed := fromScript_indexed built.sound path script
  rw [session.files.intern_of_known built.known] at indexed
  exact indexed

/-- What re-indexing leaves of the other files, and what it puts behind it. -/
theorem rebuilt (built : session.FromScript path file script base baseVar) :
    (session.indexed path script).graph.nodes =
        (session.graph.nodes.filter fun node => node.file != some file) ++
          (BuildStep.content script).graph.nodes.map
            (Node.place (.shift session.graph.nextNode session.graph.nextVar) file) ∧
      (session.indexed path script).graph.vars =
        (session.graph.vars.filter fun var => var.file != some file) ++
          (BuildStep.content script).graph.vars.map
            (Variable.place (.shift session.graph.nextNode session.graph.nextVar) file) ∧
      ∀ shelf key, (session.indexed path script).registries.entries shelf key =
        ((session.registries.entries shelf key).filter fun entry => entry.file != some file) ++
          ((BuildStep.content script).registries.entries shelf key).map
            (Registration.place (.shift session.graph.nextNode session.graph.nextVar) file) := by
  have interned : (session.files.intern path).1 = file := by
    rw [session.files.intern_of_known built.known]
  have since := BuildStep.since_shift script session.graph.nextNode session.graph.nextVar
  have extend := built.sound.extends_index path since
  have placed := Draft.placed_script script file session.graph.nextNode session.graph.nextVar
  have own : ((Draft.blank file session.graph.nextNode session.graph.nextVar).built
      (script.map (BuildStep.renumber
        (.shift session.graph.nextNode session.graph.nextVar)))).file = file :=
    Draft.built_file _ _
  unfold ownBuild at extend
  rw [interned] at extend
  unfold indexed BuildStep.place
  rw [perform_index]
  refine ⟨?_, ?_, ?_⟩
  · simp only [extend.nodes, placed.nodes, own, nodes_drafted, interned]
    rfl
  · simp only [extend.vars, placed.vars, own, vars_drafted, interned]
    rfl
  · intro shelf key
    simp only [extend.entries, placed.entries, own, built.sound.entries_drafted, interned]
    rfl

/-! #### Its numbers -/

theorem inBlock_of_node (built : session.FromScript path file script base baseVar) {node : Node}
    (member : node ∈ session.graph.nodes) (mine : node.file = some file) :
    InBlock base (BuildStep.content script).graph.nextNode node.id :=
  inBlock_of_own built.nodes (fun _ => rfl) (BuildStep.content_sound script).nodes_lt member
    (by simp [mine])

theorem inBlock_of_var (built : session.FromScript path file script base baseVar)
    {var : Variable} (member : var ∈ session.graph.vars) (mine : var.file = some file) :
    InBlock baseVar (BuildStep.content script).graph.nextVar var.id :=
  inBlock_of_own built.vars (fun _ => rfl) (BuildStep.content_sound script).vars_lt member
    (by simp [mine])

theorem node_of_inBlock (built : session.FromScript path file script base baseVar) {id : NodeId}
    (inside : InBlock base (BuildStep.content script).graph.nextNode id) :
    ∃ node ∈ session.graph.nodes, node.file = some file ∧ node.id = id := by
  have own := own_of_inBlock built.nodes (fun _ => rfl)
    (BuildStep.content_numbered script).gapless inside
  simpa only [beq_iff_eq] using own

theorem var_of_inBlock (built : session.FromScript path file script base baseVar) {id : VarId}
    (inside : InBlock baseVar (BuildStep.content script).graph.nextVar id) :
    ∃ var ∈ session.graph.vars, var.file = some file ∧ var.id = id := by
  have own := own_of_inBlock built.vars (fun _ => rfl)
    (BuildStep.content_numbered script).gaplessVars inside
  simpa only [beq_iff_eq] using own

/-- The numbers that the file's own nodes hold. -/
theorem held_by_own (built : session.FromScript path file script base baseVar)
    (closed : BuildStep.SelfContained script) {node : Node} (member : node ∈ session.graph.nodes)
    (mine : node.file = some file) :
    (∀ id ∈ node.kind.mentions, InBlock base (BuildStep.content script).graph.nextNode id) ∧
      ∀ var ∈ node.kind.vars, InBlock baseVar (BuildStep.content script).graph.nextVar var := by
  have among : node ∈ (BuildStep.content script).graph.nodes.map
      (Node.place (.shift base baseVar) file) := by
    rw [← built.nodes]
    exact List.mem_filter.mpr ⟨member, by simp [mine]⟩
  obtain ⟨original, held, rfl⟩ := List.mem_map.mp among
  constructor
  · intro id mentioned
    rw [Node.place, NodeKind.mentions_renumber] at mentioned
    obtain ⟨number, stored, rfl⟩ := List.mem_map.mp mentioned
    exact inBlock_add (closed.nodes original held number stored)
  · intro var mentioned
    rw [Node.place, NodeKind.vars_renumber] at mentioned
    obtain ⟨number, stored, rfl⟩ := List.mem_map.mp mentioned
    exact inBlock_add (closed.vars original held number stored)

theorem kind_own (built : session.FromScript path file script base baseVar) {id : NodeId}
    (below : id < (BuildStep.content script).graph.nextNode) :
    session.graph.kind? (id + base) =
      ((BuildStep.content script).graph.kind? id).map (·.renumber (.shift base baseVar)) := by
  have live := (BuildStep.content_numbered script).gapless id (Nat.zero_le _) below
  have found := find?_own built.sound.graph.nodes_nodup built.nodes (fun _ => rfl) live
  simp only [Graph.kind?, Graph.get?, found, Option.map_map]
  rfl

theorem called_own (built : session.FromScript path file script base baseVar) {var : VarId}
    (below : var < (BuildStep.content script).graph.nextVar) :
    session.graph.calledMethods (var + baseVar) =
      (BuildStep.content script).graph.calledMethods var := by
  have live := (BuildStep.content_numbered script).gaplessVars var (Nat.zero_le _) below
  have found := find?_own built.sound.graph.vars_nodup built.vars (fun _ => rfl) live
  simp only [Graph.calledMethods, Graph.getVariable?, found]
  cases (BuildStep.content script).graph.vars.find? (fun live => live.id == var) <;> rfl

/-! #### The other files -/

theorem get?_other (built : session.FromScript path file script base baseVar) {id : NodeId}
    (outside : ¬ InBlock base (BuildStep.content script).graph.nextNode id)
    (free : ¬ InBlock session.graph.nextNode (BuildStep.content script).graph.nextNode id) :
    (session.indexed path script).graph.get? id = session.graph.get? id := by
  unfold Graph.get?
  rw [built.rebuilt.1]
  apply find?_others
  · rintro node member rfl
    have other : node.file ≠ some file := fun mine => outside (built.inBlock_of_node member mine)
    simpa using other
  · rintro node member rfl
    obtain ⟨original, held, rfl⟩ := List.mem_map.mp member
    exact free (inBlock_add ((BuildStep.content_sound script).nodes_lt original held))

theorem called_other (built : session.FromScript path file script base baseVar) {var : VarId}
    (outside : ¬ InBlock baseVar (BuildStep.content script).graph.nextVar var)
    (free : ¬ InBlock session.graph.nextVar (BuildStep.content script).graph.nextVar var) :
    (session.indexed path script).graph.calledMethods var = session.graph.calledMethods var := by
  unfold Graph.calledMethods Graph.getVariable?
  rw [built.rebuilt.2.1, find?_others]
  · rintro live member rfl
    have other : live.file ≠ some file := fun mine => outside (built.inBlock_of_var member mine)
    simpa using other
  · rintro live member rfl
    obtain ⟨original, held, rfl⟩ := List.mem_map.mp member
    exact free (inBlock_add ((BuildStep.content_sound script).vars_lt original held))

end FromScript

/-! ### Files that keep apart -/

/-- No node and no registration of another file holds a number of the file. -/
structure Apart (session : Session) (file : FileId) : Prop where
  nodes : ∀ node ∈ session.graph.nodes, node.file ≠ some file →
    ∀ own ∈ session.graph.nodes, own.file = some file → own.id ∉ node.kind.mentions
  vars : ∀ node ∈ session.graph.nodes, node.file ≠ some file →
    ∀ own ∈ session.graph.vars, own.file = some file → own.id ∉ node.kind.vars
  entries : ∀ shelf key, ∀ entry ∈ session.registries.entries shelf key,
    entry.file ≠ some file →
    ∀ own ∈ session.graph.nodes, own.file = some file → own.id ≠ entry.node

/-- Of the members that both the file and others register, the file answers for those where the
latest registration does, and for no other. -/
def Undisturbed (session : Session) (file : FileId) : Prop :=
  ∀ (shelf : Shelf) key winner,
    shelf.precedence.winner (session.registries.entries shelf key) = some winner →
    (∃ entry ∈ session.registries.entries shelf key, entry.file = some file) →
    (∃ entry ∈ session.registries.entries shelf key, entry.file ≠ some file) →
    (winner.file = some file ↔ shelf.precedence = .latest)

namespace FromScript

variable {session : Session} {path : Path} {file : FileId} {script : List BuildStep}
  {base : NodeId} {baseVar : VarId}

theorem held_by_other (built : session.FromScript path file script base baseVar)
    (apart : session.Apart file) {node : Node} (member : node ∈ session.graph.nodes)
    (other : node.file ≠ some file) :
    (∀ id ∈ node.kind.mentions, ¬ InBlock base (BuildStep.content script).graph.nextNode id) ∧
      ∀ var ∈ node.kind.vars, ¬ InBlock baseVar (BuildStep.content script).graph.nextVar var := by
  constructor
  · intro id mentioned inside
    obtain ⟨own, live, mine, rfl⟩ := built.node_of_inBlock inside
    exact apart.nodes node member other own live mine mentioned
  · intro var mentioned inside
    obtain ⟨own, live, mine, rfl⟩ := built.var_of_inBlock inside
    exact apart.vars node member other own live mine mentioned

theorem registered_by_other (built : session.FromScript path file script base baseVar)
    (apart : session.Apart file) {shelf : Shelf} {key : MemberKey} {entry : Registration}
    (member : entry ∈ session.registries.entries shelf key) (other : entry.file ≠ some file) :
    ¬ InBlock base (BuildStep.content script).graph.nextNode entry.node := by
  intro inside
  obtain ⟨own, live, mine, named⟩ := built.node_of_inBlock inside
  exact apart.entries shelf key entry member other own live mine named

end FromScript

/-- The other files hold only numbers that were handed out. -/
structure HandedOut (session : Session) (file : FileId) : Prop where
  nodes : ∀ node ∈ session.graph.nodes, node.file ≠ some file →
    ∀ id ∈ node.kind.mentions, id < session.graph.nextNode
  vars : ∀ node ∈ session.graph.nodes, node.file ≠ some file →
    ∀ var ∈ node.kind.vars, var < session.graph.nextVar
  entries : ∀ shelf key, ∀ entry ∈ session.registries.entries shelf key,
    entry.file ≠ some file → entry.node < session.graph.nextNode

/-- Re-indexing hands out new numbers, so these are not held by other files yet. -/
theorem FromScript.apart_indexed {session : Session} {path : Path} {file : FileId}
    {script : List BuildStep} {base : NodeId} {baseVar : VarId}
    (built : session.FromScript path file script base baseVar)
    (handedOut : session.HandedOut file) : (session.indexed path script).Apart file := by
  have earlier : ∀ node ∈ (session.indexed path script).graph.nodes, node.file ≠ some file →
      node ∈ session.graph.nodes := by
    intro node member other
    rw [built.rebuilt.1] at member
    rcases List.mem_append.mp member with held | added
    · exact List.mem_of_mem_filter held
    · obtain ⟨original, _, rfl⟩ := List.mem_map.mp added
      exact absurd rfl other
  refine ⟨?_, ?_, ?_⟩
  · intro node member other own live mine held
    have above := (built.again.inBlock_of_node live mine).1
    have below := handedOut.nodes node (earlier node member other) other own.id held
    exact Nat.not_le_of_lt below above
  · intro node member other own live mine held
    have above := (built.again.inBlock_of_var live mine).1
    have below := handedOut.vars node (earlier node member other) other own.id held
    exact Nat.not_le_of_lt below above
  · intro shelf key entry member other own live mine named
    have above := (built.again.inBlock_of_node live mine).1
    rw [built.rebuilt.2.2] at member
    rcases List.mem_append.mp member with held | added
    · have below := handedOut.entries shelf key entry (List.mem_of_mem_filter held) other
      rw [← named] at below
      exact Nat.not_le_of_lt below above
    · obtain ⟨original, _, rfl⟩ := List.mem_map.mp added
      exact absurd rfl other

/-! ### Re-indexing as a renumbering -/

/-- The new numbers of the file's nodes and variables. -/
def renewal (session : Session) (script : List BuildStep) (base : NodeId) (baseVar : VarId) :
    Renumbering where
  node := moveBlock base (BuildStep.content script).graph.nextNode session.graph.nextNode
  var := moveBlock baseVar (BuildStep.content script).graph.nextVar session.graph.nextVar

/-- The number is none of those that re-indexing hands out. -/
def Spared (session : Session) (script : List BuildStep) (id : NodeId) : Prop :=
  ¬ InBlock session.graph.nextNode (BuildStep.content script).graph.nextNode id

namespace FromScript

variable {session : Session} {path : Path} {file : FileId} {script : List BuildStep}
  {base : NodeId} {baseVar : VarId}

theorem mem_indexed (built : session.FromScript path file script base baseVar) {node : Node}
    (member : node ∈ session.graph.nodes) (other : node.file ≠ some file) :
    node ∈ (session.indexed path script).graph.nodes := by
  rw [built.rebuilt.1]
  exact List.mem_append_left _ (List.mem_filter.mpr ⟨member, by simpa using other⟩)

theorem renumber_own (closed : BuildStep.SelfContained script) {node : Node}
    (member : node ∈ (BuildStep.content script).graph.nodes) :
    (node.kind.renumber (.shift base baseVar)).renumber (session.renewal script base baseVar) =
      node.kind.renumber (.shift session.graph.nextNode session.graph.nextVar) := by
  rw [NodeKind.renumber_andThen]
  apply NodeKind.renumber_congr
  · intro id mentioned
    exact moveBlock_own (closed.nodes node member id mentioned)
  · intro var mentioned
    exact moveBlock_own (closed.vars node member var mentioned)

theorem renumber_other (built : session.FromScript path file script base baseVar)
    (apart : session.Apart file) {node : Node} (member : node ∈ session.graph.nodes)
    (other : node.file ≠ some file) :
    node.kind.renumber (session.renewal script base baseVar) = node.kind := by
  obtain ⟨nodes, vars⟩ := built.held_by_other apart member other
  have same : node.kind.renumber (session.renewal script base baseVar) =
      node.kind.renumber .identity := by
    apply NodeKind.renumber_congr
    · intro id mentioned
      exact moveBlock_other (nodes id mentioned)
    · intro var mentioned
      exact moveBlock_other (vars var mentioned)
  rw [same, NodeKind.renumber_identity]

theorem kind_renewed (built : session.FromScript path file script base baseVar)
    (closed : BuildStep.SelfContained script) (apart : session.Apart file) {id : NodeId}
    (spared : session.Spared script id) :
    (session.indexed path script).graph.kind? ((session.renewal script base baseVar).node id) =
      (session.graph.kind? id).map (·.renumber (session.renewal script base baseVar)) := by
  -- A node of the file is a node of the script, placed before and placed again. Any other node is
  -- what it was, and the renumbering does not change what it holds.
  by_cases inside : InBlock base (BuildStep.content script).graph.nextNode id
  · obtain ⟨offset, below, rfl⟩ := exists_of_inBlock inside
    have moved : (session.renewal script base baseVar).node (offset + base) =
        offset + session.graph.nextNode := moveBlock_own below
    rw [moved, built.again.kind_own below, built.kind_own below, Option.map_map]
    unfold Graph.kind? Graph.get?
    cases found : (BuildStep.content script).graph.nodes.find? (fun node => node.id == offset) with
    | none => rfl
    | some node =>
        have member := List.mem_of_find?_eq_some found
        exact congrArg some (renumber_own closed member).symm
  · have kept : (session.renewal script base baseVar).node id = id := moveBlock_other inside
    rw [kept]
    unfold Graph.kind?
    rw [built.get?_other inside spared]
    cases found : session.graph.get? id with
    | none => rfl
    | some node =>
        have member := List.mem_of_find?_eq_some found
        have named : node.id = id := by simpa using List.find?_some found
        subst named
        have other : node.file ≠ some file := fun mine =>
          inside (built.inBlock_of_node member mine)
        exact congrArg some (built.renumber_other apart member other).symm

theorem called_renewed (built : session.FromScript path file script base baseVar)
    (closed : BuildStep.SelfContained script) (apart : session.Apart file)
    (staysApart : (session.indexed path script).Apart file) {node : Node}
    (member : node ∈ session.graph.nodes) :
    ∀ var ∈ node.kind.vars,
      (session.indexed path script).graph.calledMethods
          ((session.renewal script base baseVar).var var) =
        session.graph.calledMethods var := by
  intro var mentioned
  by_cases mine : node.file = some file
  · have inside := (built.held_by_own closed member mine).2 var mentioned
    obtain ⟨offset, below, rfl⟩ := exists_of_inBlock inside
    have moved : (session.renewal script base baseVar).var (offset + baseVar) =
        offset + session.graph.nextVar := moveBlock_own below
    rw [moved, built.again.called_own below, built.called_own below]
  · have outside := (built.held_by_other apart member mine).2 var mentioned
    have free := (built.again.held_by_other staysApart (built.mem_indexed member mine) mine).2 var
      mentioned
    have kept : (session.renewal script base baseVar).var var = var := moveBlock_other outside
    rw [kept, built.called_other outside free]

theorem spared_of_held (built : session.FromScript path file script base baseVar)
    (closed : BuildStep.SelfContained script)
    (staysApart : (session.indexed path script).Apart file) {node : Node}
    (member : node ∈ session.graph.nodes) :
    ∀ id ∈ node.kind.mentions, session.Spared script id := by
  intro id mentioned
  by_cases mine : node.file = some file
  · have inside := (built.held_by_own closed member mine).1 id mentioned
    exact not_inBlock_of_earlier built.nodes_le inside
  · exact (built.again.held_by_other staysApart (built.mem_indexed member mine) mine).1 id mentioned

theorem spared_of_registered (built : session.FromScript path file script base baseVar)
    (closed : BuildStep.SelfContained script)
    (staysApart : (session.indexed path script).Apart file) {shelf : Shelf} {key : MemberKey}
    {entry : Registration} (member : entry ∈ session.registries.entries shelf key) :
    session.Spared script entry.node := by
  by_cases mine : entry.file = some file
  · have among : entry ∈ ((BuildStep.content script).registries.entries shelf key).map
        (Registration.place (.shift base baseVar) file) := by
      rw [← built.entries]
      exact List.mem_filter.mpr ⟨member, by simp [mine]⟩
    obtain ⟨original, held, rfl⟩ := List.mem_map.mp among
    have inside : InBlock base (BuildStep.content script).graph.nextNode (original.node + base) :=
      inBlock_add (closed.entries shelf key original held)
    exact not_inBlock_of_earlier built.nodes_le inside
  · have kept : entry ∈ (session.indexed path script).registries.entries shelf key := by
      rw [built.rebuilt.2.2]
      exact List.mem_append_left _ (List.mem_filter.mpr ⟨member, by simpa using mine⟩)
    exact built.again.registered_by_other staysApart kept mine

/-- Every look-up finds what it found, under its new number. -/
theorem lookup_renewed (built : session.FromScript path file script base baseVar)
    (closed : BuildStep.SelfContained script) (apart : session.Apart file)
    (undisturbed : session.Undisturbed file) (shelf : Shelf) (owner name : String) :
    ((session.indexed path script).registries.table shelf).get? owner name =
      ((session.registries.table shelf).get? owner name).map
        (session.renewal script base baseVar).node := by
  have same : (((BuildStep.content script).registries.entries shelf { owner, name }).map
      (Registration.place (.shift session.graph.nextNode session.graph.nextVar) file)).map
        Registration.node =
      ((session.registries.entries shelf { owner, name }).filter
        fun entry => entry.file == some file).map
          ((session.renewal script base baseVar).node ∘ Registration.node) := by
    rw [built.entries, List.map_map, List.map_map]
    apply List.map_congr_left
    intro entry member
    exact (moveBlock_own (closed.entries shelf _ entry member)).symm
  have fixed : ∀ entry ∈ session.registries.entries shelf { owner, name },
      entry.file ≠ some file →
      (session.renewal script base baseVar).node entry.node = entry.node := by
    intro entry member other
    exact moveBlock_other (built.registered_by_other apart member other)
  rw [built.again.sound.registries.get?_eq, built.sound.registries.get?_eq, built.rebuilt.2.2,
    winner_of_moved same fixed (undisturbed shelf { owner, name }), Option.map_map]

theorem carries (built : session.FromScript path file script base baseVar)
    (closed : BuildStep.SelfContained script) (apart : session.Apart file)
    (staysApart : (session.indexed path script).Apart file)
    (undisturbed : session.Undisturbed file) :
    session.project.Carries (session.renewal script base baseVar) (session.Spared script)
      (session.indexed path script).project where
  settings := rfl
  injective := moveBlock_injective
  kinds := built.kind_renewed closed apart
  calls {id kind} _ held := by
    obtain ⟨node, found, rfl⟩ := Option.map_eq_some_iff.mp held
    exact built.called_renewed closed apart staysApart (List.mem_of_find?_eq_some found)
  closed {id kind} _ held := by
    obtain ⟨node, found, rfl⟩ := Option.map_eq_some_iff.mp held
    intro target stored
    exact built.spared_of_held closed staysApart (List.mem_of_find?_eq_some found) target
      (NodeKind.edges_mentioned target stored)
  lookups := built.lookup_renewed closed apart undisturbed
  registered {shelf owner name node} held := by
    obtain ⟨entry, member, rfl⟩ := RegistryTable.entry_of_get? held
    exact built.spared_of_registered closed staysApart member

end FromScript

/-- The script was the last to build the file of the path. -/
def LastIndexedBy (session : Session) (path : Path) (script : List BuildStep) : Prop :=
  ∃ (start : Session) (earlier later : List Event),
    session = ((start.reset.after earlier).indexed path script).after later ∧
      ∀ event ∈ later, event.touches path = false

theorem LastIndexedBy.fromScript {session : Session} {path : Path} {script : List BuildStep}
    (last : session.LastIndexedBy path script) {file : FileId}
    (known : session.files.get? path = some file) (calls : session.OwnCalls file script) :
    ∃ base baseVar, session.FromScript path file script base baseVar := by
  obtain ⟨start, earlier, later, rfl, untouched⟩ := last
  have sound := (Sound.reset start).after earlier
  have first := fromScript_indexed sound path script
  have since := BuildStep.since_shift script (start.reset.after earlier).graph.nextNode
    (start.reset.after earlier).graph.nextVar
  have holdsFile := (holdsFile_index sound path since).after first.sound untouched
  have counters := ((start.reset.after earlier).indexed path script).counters_le_after later
  have same : ((start.reset.after earlier).files.intern path).1 = file :=
    Option.some.inj (holdsFile.known.symm.trans known)
  subst same
  exact ⟨_, _, fromScript_of_holds (first.sound.after later) holdsFile calls
    (Nat.le_trans first.nodes_le counters.1) (Nat.le_trans first.vars_le counters.2)⟩

/-- A file is indexed again by the script that built it, which refers only to what it creates. If no
node or registration of another file holds a number of the file, before or after, if the calls on
its variables are its own, and if it answers for members of others just where the latest
registration does, then the types of all nodes of other files are as before. -/
theorem reindexing_keeps_the_types_of_other_files {session : Session} {path : Path}
    {file : FileId} {script : List BuildStep} (last : session.LastIndexedBy path script)
    (known : session.files.get? path = some file) (closed : BuildStep.SelfContained script)
    (calls : session.OwnCalls file script) (apart : session.Apart file)
    (staysApart : (session.indexed path script).Apart file)
    (undisturbed : session.Undisturbed file) :
    ∀ node ∈ session.graph.nodes, node.file ≠ some file →
      ({ session.indexed path script with memo := {} }.infer node.id).1.type =
        ({ session with memo := {} }.infer node.id).1.type := by
  intro node member other
  obtain ⟨base, baseVar, built⟩ := last.fromScript known calls
  have carries : session.env.project.Carries (session.renewal script base baseVar)
      (session.Spared script) (session.indexed path script).env.project :=
    built.carries closed apart staysApart undisturbed
  have surroundings : (session.indexed path script).env.surroundings =
      session.env.surroundings := rfl
  -- The node keeps its number: all numbers of the old block are those of nodes of the file.
  have outside : ¬ InBlock base (BuildStep.content script).graph.nextNode node.id := by
    intro inside
    obtain ⟨own, live, mine, named⟩ := built.node_of_inBlock inside
    have same : own = node :=
      List.inj_on_of_nodup_map built.sound.graph.nodes_nodup live member named
    rw [same] at mine
    exact other mine
  have spared : session.Spared script node.id := fun inside =>
    Nat.not_le_of_lt (built.sound.graph.nodes_lt node member) inside.1
  have kept : (session.renewal script base baseVar).node node.id = node.id :=
    moveBlock_other outside
  have found := Env.resolve_renumber carries surroundings spared
  rw [kept] at found
  have types := congrArg Inference.type found
  rw [Inference.renumber_type] at types
  exact types

/-- Defines a method and a field. -/
def letterhead (type : Ty) : List BuildStep :=
  [.add (.literal type .plain), .registerField .ofInstance "Letter" "sender" 0,
    .add (.definition { name := "sign", owner := "Letter", result := some 0, body := [0] }),
    .registerMethod 1]

/-- Calls the method and reads the field. -/
def reading : List BuildStep :=
  [.add (.selfReference "Letter" false), .add (.call { method := "sign", receiver := some 0 }),
    .add (.fieldRead .ofInstance "Letter" "sender" none)]

/-- One file has the method and the field, and is indexed before another. -/
def correspondence (script : List BuildStep) : Session :=
  (unaided.reset.indexed notes (letterhead .string)).indexed letters script

theorem letterhead_selfContained : BuildStep.SelfContained (letterhead .string) where
  nodes := by decide
  vars := by decide
  entries shelf key entry member := by
    rcases (Draft.blank 0 0 0).registered_of_built (letterhead .string) shelf key entry member with
      held | ⟨step, among, named⟩
    · simp [Draft.blank] at held
    · have created : (BuildStep.content (letterhead .string)).graph.nextNode = 2 := rfl
      have registered : ∀ step ∈ letterhead .string, ∀ node ∈ step.registered?, node < 2 := by
        simp [letterhead, BuildStep.registered?]
      rw [created]
      exact registered step among entry.node named

theorem correspondence_last (script : List BuildStep) :
    (correspondence script).LastIndexedBy notes (letterhead .string) := by
  refine ⟨unaided, [], [.index letters (BuildStep.place script
    (unaided.reset.indexed notes (letterhead .string)).graph)], rfl, ?_⟩
  intro event member
  rw [List.mem_singleton.mp member]
  simp [Event.touches, Event.path?, letters_apart]

theorem letters_interned :
    (unaided.reset.indexed notes (letterhead .string)).files.intern letters =
      (1, { paths := [notes, letters] }) := by
  have files : (unaided.reset.indexed notes (letterhead .string)).files = { paths := [notes] } :=
    rfl
  have unseen : FileTable.get? { paths := [notes] } letters = none := by
    have apart : ¬ notes.SameFile letters := fun same => letters_apart same.symm
    simp [FileTable.get?, apart]
  rw [files]
  exact FileTable.intern_of_new _ unseen

theorem correspondence_eq (script : List BuildStep) : correspondence script =
    (unaided.reset.indexed notes (letterhead .string)).buildAs 1 { paths := [notes, letters] }
      script :=
  indexed_of_intern letters_interned script

theorem correspondence_known (script : List BuildStep) :
    (correspondence script).files.get? notes = some 0 := by
  have files : (correspondence script).files = { paths := [notes, letters] } := by
    rw [correspondence_eq]
    rfl
  have same : notes.SameFile notes := Path.SameFile.refl notes
  rw [files]
  simp [FileTable.get?, same, List.findIdx?_cons]

theorem correspondence_interned (script : List BuildStep) :
    (correspondence script).files.intern notes = (0, (correspondence script).files) :=
  FileTable.intern_of_known _ (correspondence_known script)

/-- The second file has the method and the field too. -/
def contested : List BuildStep :=
  reading ++ (letterhead .integer).map (BuildStep.renumber (.shift 3 0))

/-- Both files have the method and the field, and since then the first file was indexed again, so
its registrations are last. -/
def settledCorrespondence : Session :=
  (correspondence contested).indexed notes (letterhead .string)

theorem settledCorrespondence_eq : settledCorrespondence =
    (correspondence contested).buildAs 0 (correspondence contested).files
      (letterhead .string) :=
  indexed_of_intern (correspondence_interned contested) _

theorem settledCorrespondence_last :
    settledCorrespondence.LastIndexedBy notes (letterhead .string) := by
  refine ⟨unaided, [.index notes (BuildStep.place (letterhead .string) unaided.reset.graph),
    .index letters (BuildStep.place contested
      (unaided.reset.indexed notes (letterhead .string)).graph)], [], rfl, ?_⟩
  intro event member
  cases member

theorem settledCorrespondence_known : settledCorrespondence.files.get? notes = some 0 := by
  rw [settledCorrespondence_eq]
  exact correspondence_known contested

theorem settledCorrespondence_registries : settledCorrespondence.registries =
    (((Registries.enroll {} (.fields .ofInstance) { owner := "Letter", name := "sender" } 5
      (some 1)).enroll (.methods false) { owner := "Letter", name := "sign" } 6 (some 1)).enroll
        (.fields .ofInstance) { owner := "Letter", name := "sender" } 7 (some 0)).enroll
          (.methods false) { owner := "Letter", name := "sign" } 8 (some 0) := by
  rw [settledCorrespondence_eq, correspondence_eq]
  rfl

theorem settledCorrespondence_entries (shelf : Shelf) (key : MemberKey) :
    settledCorrespondence.registries.entries shelf key =
      if shelf = .fields .ofInstance ∧ key = { owner := "Letter", name := "sender" } then
        [⟨5, some 1⟩, ⟨7, some 0⟩]
      else if shelf = .methods false ∧ key = { owner := "Letter", name := "sign" } then
        [⟨6, some 1⟩, ⟨8, some 0⟩]
      else [] := by
  rw [settledCorrespondence_registries]
  simp only [Registries.entries_enroll, Registries.entries_empty, List.nil_append]
  by_cases field : shelf = .fields .ofInstance ∧ key = { owner := "Letter", name := "sender" }
  · obtain ⟨rfl, rfl⟩ := field
    simp
  · by_cases method : shelf = .methods false ∧ key = { owner := "Letter", name := "sign" }
    · obtain ⟨rfl, rfl⟩ := method
      simp
    · simp only [if_neg field, if_neg method, List.append_nil]

/-- What the second file registered: its field and its method. -/
theorem settledCorrespondence_others {shelf : Shelf} {key : MemberKey} {entry : Registration}
    (member : entry ∈ settledCorrespondence.registries.entries shelf key)
    (other : entry.file ≠ some 0) : entry.node = 5 ∨ entry.node = 6 := by
  rw [settledCorrespondence_entries] at member
  split_ifs at member
  · rcases List.mem_pair.mp member with rfl | rfl
    · exact Or.inl rfl
    · exact absurd rfl other
  · rcases List.mem_pair.mp member with rfl | rfl
    · exact Or.inr rfl
    · exact absurd rfl other
  · cases member

/-- The first file has the latest registration of both, and the second file the earliest. -/
theorem settledCorrespondence_undisturbed : settledCorrespondence.Undisturbed 0 := by
  intro shelf key winner answers own _
  rw [settledCorrespondence_entries] at answers own
  split_ifs at answers own with field method
  · obtain ⟨rfl, -⟩ := field
    obtain rfl : Registration.mk 5 (some 1) = winner := Option.some.inj answers
    decide
  · obtain ⟨rfl, -⟩ := method
    obtain rfl : Registration.mk 8 (some 0) = winner := Option.some.inj answers
    decide
  · obtain ⟨_, member, _⟩ := own
    cases member

theorem settledCorrespondence_apart : settledCorrespondence.Apart 0 where
  nodes := by
    rw [settledCorrespondence_eq, correspondence_eq]
    decide
  vars := by
    rw [settledCorrespondence_eq, correspondence_eq]
    decide
  entries shelf key entry member other := by
    have later : ∀ own ∈ settledCorrespondence.graph.nodes, own.file = some 0 → 6 < own.id := by
      rw [settledCorrespondence_eq, correspondence_eq]
      decide
    intro own live mine same
    have above : 6 < entry.node := same ▸ later own live mine
    rcases settledCorrespondence_others member other with five | six
    · rw [five] at above
      exact absurd above (by decide)
    · rw [six] at above
      exact absurd above (by decide)

theorem settledCorrespondence_handedOut : settledCorrespondence.HandedOut 0 where
  nodes := by
    rw [settledCorrespondence_eq, correspondence_eq]
    decide
  vars := by
    rw [settledCorrespondence_eq, correspondence_eq]
    decide
  entries shelf key entry member other := by
    have created : settledCorrespondence.graph.nextNode = 9 := by
      rw [settledCorrespondence_eq, correspondence_eq]
      rfl
    rw [created]
    rcases settledCorrespondence_others member other with five | six
    · rw [five]
      decide
    · rw [six]
      decide

theorem settledCorrespondence_calls :
    settledCorrespondence.OwnCalls 0 (letterhead .string) := by
  rw [settledCorrespondence_eq, correspondence_eq]
  rfl

/-- In the second file, a call of the method goes to the first file, and a read of the field to the
second one. Both keep their types when the first file is indexed once more. -/
theorem settled_members_survive_reindexing :
    settledCorrespondence.Undisturbed 0 ∧
      ({ settledCorrespondence with memo := {} }.infer 3).1.type = .string ∧
      ({ settledCorrespondence.indexed notes (letterhead .string) with memo := {} }.infer
        3).1.type = .string ∧
      ({ settledCorrespondence with memo := {} }.infer 4).1.type = .integer ∧
      ({ settledCorrespondence.indexed notes (letterhead .string) with memo := {} }.infer
        4).1.type = .integer := by
  have called : ({ settledCorrespondence with memo := {} }.infer 3).1.type = .string := by
    rw [settledCorrespondence_eq, correspondence_eq]
    cbv
  have read : ({ settledCorrespondence with memo := {} }.infer 4).1.type = .integer := by
    rw [settledCorrespondence_eq, correspondence_eq]
    cbv
  have live : ∀ id ∈ [3, 4], ∃ node ∈ settledCorrespondence.graph.nodes,
      node.id = id ∧ node.file ≠ some 0 := by
    rw [settledCorrespondence_eq, correspondence_eq]
    decide
  obtain ⟨_, _, built⟩ :=
    settledCorrespondence_last.fromScript settledCorrespondence_known settledCorrespondence_calls
  have kept : ∀ id ∈ [3, 4],
      ({ settledCorrespondence.indexed notes (letterhead .string) with memo := {} }.infer
        id).1.type = ({ settledCorrespondence with memo := {} }.infer id).1.type := by
    intro id listed
    obtain ⟨node, member, rfl, other⟩ := live id listed
    exact reindexing_keeps_the_types_of_other_files settledCorrespondence_last
      settledCorrespondence_known letterhead_selfContained settledCorrespondence_calls
      settledCorrespondence_apart (built.apart_indexed settledCorrespondence_handedOut)
      settledCorrespondence_undisturbed node member other
  exact ⟨settledCorrespondence_undisturbed, called,
    (kept 3 (by decide)).trans called, read, (kept 4 (by decide)).trans read⟩

/-- Both files have the method and the field. The second file answers for the method, being the
latest, and the first for the field; once the first file is indexed again, it is the other way
round. -/
theorem contested_members_change_sides :
    (correspondence contested).LastIndexedBy notes (letterhead .string) ∧
      (correspondence contested).files.get? notes = some 0 ∧
      BuildStep.SelfContained (letterhead .string) ∧
      (∀ node ∈ (correspondence contested).graph.nodes, node.file ≠ some 0 →
        ∀ own ∈ (correspondence contested).graph.nodes, own.file = some 0 →
          own.id ∉ node.kind.mentions) ∧
      (∃ node ∈ (correspondence contested).graph.nodes, node.id = 3 ∧ node.file ≠ some 0) ∧
      (∃ node ∈ (correspondence contested).graph.nodes, node.id = 4 ∧ node.file ≠ some 0) ∧
      ({ correspondence contested with memo := {} }.infer 3).1.type = .integer ∧
      ({ (correspondence contested).indexed notes (letterhead .string) with memo := {} }.infer
        3).1.type = .string ∧
      ({ correspondence contested with memo := {} }.infer 4).1.type = .string ∧
      ({ (correspondence contested).indexed notes (letterhead .string) with memo := {} }.infer
        4).1.type = .integer := by
  refine ⟨correspondence_last contested, correspondence_known contested, letterhead_selfContained,
    ?_, ?_, ?_, ?_, ?_, ?_, ?_⟩
  · rw [correspondence_eq]
    decide
  · rw [correspondence_eq]
    decide
  · rw [correspondence_eq]
    decide
  · rw [correspondence_eq]
    cbv
  · rw [indexed_of_intern (correspondence_interned contested), correspondence_eq]
    cbv
  · rw [correspondence_eq]
    cbv
  · rw [indexed_of_intern (correspondence_interned contested), correspondence_eq]
    cbv

end Session

end HeuristicTyping
