import HeuristicTyping.Proofs.Resolver.Requests

/-!
# Where cycles are entered

What the resolver finds for a node on a cycle depends on where the cycle was entered: there it is
cut open, since the node is being worked on when it is asked for again. A run enters a cycle where
it starts, and wherever it runs the rule of a node for one that this node does not lead back to.

A visit is a moment of a run at which a node is asked for. By then, whatever was started lies on a
cycle that the run has entered, and whatever is remembered was found in a visit of its own.
-/

set_option autoImplicit false

namespace HeuristicTyping

/-- Each of two nodes leads to the other: they are the same or on a common cycle. -/
def Mutual (leads : NodeId → NodeId → Prop) (id other : NodeId) : Prop :=
  Reaches leads id other ∧ Reaches leads other id

theorem Mutual.refl (leads : NodeId → NodeId → Prop) (id : NodeId) : Mutual leads id id :=
  ⟨Relation.ReflTransGen.refl, Relation.ReflTransGen.refl⟩

theorem Mutual.symm {leads : NodeId → NodeId → Prop} {id other : NodeId}
    (mutually : Mutual leads id other) : Mutual leads other id :=
  ⟨mutually.2, mutually.1⟩

theorem Mutual.trans {leads : NodeId → NodeId → Prop} {first second third : NodeId}
    (early : Mutual leads first second) (late : Mutual leads second third) :
    Mutual leads first third :=
  ⟨early.1.trans late.1, late.2.trans early.2⟩

namespace Memo

/-- The one memo remembers whatever the other one does. -/
def Within (earlier later : Memo) : Prop :=
  ∀ id inference, earlier.slot id = .done inference → later.slot id = .done inference

theorem Within.trans {first second third : Memo} (early : first.Within second)
    (late : second.Within third) : first.Within third :=
  fun id inference done => late id inference (early id inference done)

theorem within_set {memo : Memo} {id : NodeId}
    (unfound : ∀ inference, memo.slot id ≠ .done inference) (slot : Slot) :
    memo.Within (memo.set id slot) := by
  intro other inference done
  have apart : other ≠ id := by
    rintro rfl
    exact unfound inference done
  rw [slot_set_of_ne _ _ apart]
  exact done

end Memo

namespace Env

/-! ### A node on an empty memo -/

/-- What is found for a node when nothing else was asked for before. The depth covers the graph, so
nothing is cut off. -/
def fresh (env : Env) (id : NodeId) : Inference :=
  (env.find env.project.graph.size id {}).1

/-- What is remembered after a node was found when nothing else was asked for before. -/
def memoOf (env : Env) (id : NodeId) : Memo :=
  (env.find env.project.graph.size id {}).2.memo

/-- The requests that are made while a node is found when nothing else was asked for before. -/
def requestsOf (env : Env) (id : NodeId) : List Demand :=
  env.requests env.project.graph.size id {}

theorem find_of_enough {env : Env} {limit : Nat} (enough : env.project.graph.size ≤ limit)
    (id : NodeId) : env.find limit id {} = env.find env.project.graph.size id {} :=
  find_independent id (Ample.of_idle Progress.idle_empty (Nat.le_refl _))
    (Ample.of_idle Progress.idle_empty enough)

/-- The run for the start enters a cycle at the node: it is the start, or its rule is run for a node
that it does not lead back to. -/
def Enters (env : Env) (leads : NodeId → NodeId → Prop) (start id : NodeId) : Prop :=
  id = start ∨ ∃ request ∈ env.requestsOf start,
    request.target = id ∧ request.runs = true ∧ ¬ Reaches leads id request.caller

/-- The cycle of the node was entered at a node that is being worked on or remembered. -/
def CycleEntered (env : Env) (leads : NodeId → NodeId → Prop) (start : NodeId) (memo : Memo)
    (id : NodeId) : Prop :=
  ∃ entry, env.Enters leads start entry ∧ Mutual leads entry id ∧ memo.slot entry ≠ .notStarted

/-- All nodes that were started are live, and their cycles were entered. -/
def Traced (env : Env) (leads : NodeId → NodeId → Prop) (start : NodeId) (memo : Memo) : Prop :=
  ∀ id, memo.slot id ≠ .notStarted →
    (env.project.graph.get? id).isSome ∧ env.CycleEntered leads start memo id

/-- At one moment of the run for the start, the node is asked for, with so much depth left. The
requests that it makes are some of those of the run, and all nodes that are being worked on lead to
it. -/
structure Visit (env : Env) (leads : NodeId → NodeId → Prop) (start : NodeId) (depth : Nat)
    (id : NodeId) (progress : Progress) : Prop where
  among : ∀ request ∈ env.requests depth id progress, request ∈ env.requestsOf start
  ample : env.Ample depth progress.memo
  working : ∀ other, progress.memo.slot other = .inProgress → Reaches leads other id
  traced : env.Traced leads start progress.memo
  arrived : env.awaits progress id = true →
    env.Enters leads start id ∨ env.CycleEntered leads start progress.memo id

section Visits

variable {env : Env} {leads : NodeId → NodeId → Prop} {start : NodeId}

theorem CycleEntered.mono {memo later : Memo} {id : NodeId}
    (entered : env.CycleEntered leads start memo id)
    (started : ∀ other, memo.slot other ≠ .notStarted → later.slot other ≠ .notStarted) :
    env.CycleEntered leads start later id := by
  obtain ⟨entry, enters, mutually, begun⟩ := entered
  exact ⟨entry, enters, mutually, started entry begun⟩

theorem CycleEntered.along {memo : Memo} {id other : NodeId}
    (entered : env.CycleEntered leads start memo id) (mutually : Mutual leads id other) :
    env.CycleEntered leads start memo other := by
  obtain ⟨entry, enters, around, begun⟩ := entered
  exact ⟨entry, enters, around.trans mutually, begun⟩

theorem rests_of_dangling {memo : Memo} {id : NodeId}
    (live : ∀ other, memo.slot other ≠ .notStarted → (env.project.graph.get? other).isSome)
    (gone : env.project.graph.get? id = none) : memo.slot id = .notStarted := by
  by_cases held : memo.slot id = .notStarted
  · exact held
  · have started := live id held
    rw [gone] at started
    cases started

theorem Traced.rests_of_dangling {memo : Memo} {id : NodeId}
    (traced : env.Traced leads start memo) (gone : env.project.graph.get? id = none) :
    memo.slot id = .notStarted :=
  Env.rests_of_dangling (fun other started => (traced other started).1) gone

/-- As long as the only node at which a cycle is entered was not started, no node of the cycle
was. -/
theorem Traced.rests {memo : Memo} {id : NodeId} (traced : env.Traced leads start memo)
    (held : memo.slot id = .notStarted)
    (only : ∀ entry, env.Enters leads start entry → Mutual leads entry id → entry = id) :
    ∀ mate, Mutual leads id mate → memo.slot mate = .notStarted := by
  intro mate mutually
  by_cases rests : memo.slot mate = .notStarted
  · exact rests
  · obtain ⟨_, entry, enters, around, entered⟩ := traced mate rests
    obtain rfl := only entry enters (around.trans mutually.symm)
    exact absurd held entered

theorem visit_start (env : Env) (leads : NodeId → NodeId → Prop) (start : NodeId) :
    env.Visit leads start env.project.graph.size start {} where
  among _ listed := listed
  ample := Ample.of_idle Progress.idle_empty (Nat.le_refl _)
  working other busy := absurd busy (Progress.idle_empty other)
  traced _ begun := absurd rfl begun
  arrived _ := Or.inl (Or.inl rfl)

namespace Visit

variable {depth : Nat} {id : NodeId} {progress : Progress}

theorem along (visit : env.Visit leads start depth id progress)
    (covers : env.Along leads env.project.graph.size start {}) :
    env.Along leads depth id progress :=
  fun request requested => covers request (visit.among request requested)

/-- A live node that is visited, and not being worked on, is remembered then. -/
theorem remembered (visit : env.Visit leads start depth id progress)
    (live : (env.project.graph.get? id).isSome) (resting : progress.memo.slot id ≠ .inProgress) :
    (env.find depth id progress).2.memo.slot id = .done (env.find depth id progress).1 :=
  slot_find_of_uncut live resting (find_uncut id visit.ample)

/-! ### What a visited node asks for -/

section Asked

variable {node : Node} {target : NodeId} {moment : Progress}
  (visit : env.Visit leads start (depth + 1) id progress)
  (held : progress.memo.slot id = .notStarted) (live : env.project.graph.get? id = some node)
include visit held live

theorem opened : env.Traced leads start (progress.set id .inProgress).memo := by
  have begun : ∀ other, progress.memo.slot other ≠ .notStarted →
      (progress.set id .inProgress).memo.slot other ≠ .notStarted := by
    intro other before
    by_cases same : other = id
    · subst same
      exact absurd held before
    · simpa [same] using before
  intro other after
  by_cases same : other = id
  · subst same
    refine ⟨Option.isSome_of_mem live, ?_⟩
    rcases visit.arrived (awaits_iff.mpr ⟨held, Option.isSome_of_mem live⟩) with enters | entered
    · exact ⟨other, enters, Mutual.refl leads other, by simp⟩
    · exact entered.mono begun
  · obtain ⟨alive, entered⟩ := visit.traced other (by simpa [same] using after)
    exact ⟨alive, entered.mono begun⟩

theorem settled {ran : Progress} (traced : env.Traced leads start ran.memo)
    (grows : env.Grows (progress.set id .inProgress).memo ran.memo)
    (uncut : ran.cutoffs = progress.cutoffs) (found : Inference) :
    env.Traced leads start (env.settle id progress ran found).memo := by
  have own : ran.memo.slot id = .inProgress := (grows.working id).mpr (by simp)
  have begun : ∀ other, ran.memo.slot other ≠ .notStarted →
      (env.settle id progress ran found).memo.slot other ≠ .notStarted := by
    intro other before
    by_cases same : other = id
    · subst same
      simp [settle, Env.settled, uncut]
    · simpa [settle, same] using before
  intro other after
  have before : ran.memo.slot other ≠ .notStarted := by
    by_cases same : other = id
    · subst same
      simp [own]
    · simpa [settle, same] using after
  exact ⟨(traced other before).1, (traced other before).2.mono begun⟩

variable (covers : env.Along leads env.project.graph.size start {})
  (asked : (env.project.rule node.kind).AsksAt env.surroundings (env.find depth)
    (progress.set id .inProgress) target moment)
include covers asked

theorem leads_to_asked : leads id target :=
  ((along_of_live held live).mp (visit.along covers) target moment asked).1

omit held live covers in
theorem reaches_of_working {other : NodeId} (busy : moment.memo.slot other = .inProgress) :
    Reaches leads other id := by
  have before := ((asksAt_grows asked).1.working other).mp busy
  by_cases same : other = id
  · rw [same]
  · exact visit.working other (by simpa [same] using before)

omit covers in
/-- A cycle is entered where a rule is run for a node that is not on the cycle. -/
theorem enters_asked (awaited : env.awaits moment target = true)
    (oneWay : ¬ Reaches leads target id) : env.Enters leads start target := by
  have listed := visit.among { caller := id, target, runs := env.awaits moment target }
    ((mem_requests_of_live held live).mpr ⟨target, moment, asked, Or.inl rfl⟩)
  exact Or.inr ⟨_, listed, rfl, awaited, oneWay⟩

theorem asked_of_traced (traced : env.Traced leads start moment.memo) :
    env.Visit leads start depth target moment where
  among request later := visit.among request
    ((mem_requests_of_live held live).mpr ⟨target, moment, asked, Or.inr later⟩)
  ample := (visit.ample.opened held live).grows (asksAt_grows asked).1
  working other busy := (visit.reaches_of_working asked busy).tail
    (visit.leads_to_asked held live covers asked)
  traced := traced
  arrived awaited := by
    by_cases back : Reaches leads target id
    · -- The target is on the cycle of the node that asks for it, which is being worked on.
      have busy : moment.memo.slot id = .inProgress :=
        ((asksAt_grows asked).1.working id).mpr (by simp)
      have onward := visit.leads_to_asked held live covers asked
      exact Or.inr ((traced id (by simp [busy])).2.along
        ⟨Relation.ReflTransGen.single onward, back⟩)
    · exact Or.inl (visit.enters_asked held live asked awaited back)

end Asked

end Visit

/-! ### What a visit leaves behind -/

variable (covers : env.Along leads env.project.graph.size start {})
include covers

theorem find_traced {depth : Nat} {id : NodeId} {progress : Progress}
    (visit : env.Visit leads start depth id progress) :
    env.Traced leads start (env.find depth id progress).2.memo := by
  revert visit
  apply env.find_induct fun depth id before result => env.Visit leads start depth id before →
    env.Traced leads start result.2.memo
  · intro _ _ _ _ _ visit
    exact visit.traced
  · intro _ _ _ _ visit
    exact visit.traced
  · intro _ _ _ _ _ visit
    exact visit.traced
  · intro _ _ _ held live visit
    exact absurd visit.ample (Ample.not_zero held live)
  · intro depth id before node held live inner visit
    have traced := (Inquiry.run_kept (fun now => env.Traced leads start now.memo)
      (fun _ _ kept => kept)
      (fun target moment asked kept =>
        inner target moment (visit.asked_of_traced held live covers asked kept))
      (visit.opened held live)).1
    have uncut := dispatch_uncut visit.ample held live
    exact visit.settled held live traced (env.run_grows (env.find_grows depth) _ _) uncut _

/-- Whatever a visited node asks for is visited in turn. -/
theorem Visit.asked {depth : Nat} {id target : NodeId} {node : Node} {progress moment : Progress}
    (visit : env.Visit leads start (depth + 1) id progress)
    (held : progress.memo.slot id = .notStarted) (live : env.project.graph.get? id = some node)
    (asked : (env.project.rule node.kind).AsksAt env.surroundings (env.find depth)
      (progress.set id .inProgress) target moment) :
    env.Visit leads start depth target moment := by
  apply visit.asked_of_traced held live covers asked
  exact (Inquiry.run_kept (fun now => env.Traced leads start now.memo) (fun _ _ kept => kept)
    (fun target moment asked kept =>
      find_traced covers (visit.asked_of_traced held live covers asked kept))
    (visit.opened held live)).2 target moment asked

omit covers in
/-- What is remembered after a node was asked for still is when the rule that asked for it is
done. -/
theorem within_of_asked {depth : Nat} {id target : NodeId} {node : Node}
    {progress moment : Progress} (held : progress.memo.slot id = .notStarted)
    (live : env.project.graph.get? id = some node)
    (asked : (env.project.rule node.kind).AsksAt env.surroundings (env.find depth)
      (progress.set id .inProgress) target moment) :
    (env.find depth target moment).2.memo.Within (env.find (depth + 1) id progress).2.memo := by
  have later := (asksAt_grows asked).2.kept
  have unfound : ∀ inference, (env.dispatch depth id node progress).2.memo.slot id ≠
      .done inference := by simp [slot_dispatch]
  rw [env.find_of_live depth held live]
  exact Memo.Within.trans later (Memo.within_set unfound _)

/-- Whatever is remembered was found in a visit of its own. -/
def Recorded (env : Env) (leads : NodeId → NodeId → Prop) (start : NodeId) (memo : Memo) : Prop :=
  ∀ id inference, memo.slot id = .done inference → ∃ depth before,
    env.Visit leads start depth id before ∧ before.memo.slot id = .notStarted ∧
      (env.find depth id before).2.memo.Within memo

omit covers in
theorem Recorded.mono {memo later : Memo} (id : NodeId)
    (recorded : env.Recorded leads start memo) (within : memo.Within later)
    (others : ∀ other inference, other ≠ id → later.slot other = .done inference →
      memo.slot other = .done inference)
    (own : ∀ inference, later.slot id = .done inference → ∃ depth before,
      env.Visit leads start depth id before ∧ before.memo.slot id = .notStarted ∧
        (env.find depth id before).2.memo.Within later) :
    env.Recorded leads start later := by
  intro other inference done
  by_cases same : other = id
  · subst same
    exact own inference done
  · obtain ⟨depth, before, visit, held, found⟩ :=
      recorded other inference (others other inference same done)
    exact ⟨depth, before, visit, held, found.trans within⟩

theorem find_recorded {depth : Nat} {id : NodeId} {progress : Progress}
    (visit : env.Visit leads start depth id progress)
    (recorded : env.Recorded leads start progress.memo) :
    env.Recorded leads start (env.find depth id progress).2.memo := by
  revert visit recorded
  apply env.find_induct fun depth id before result => env.Visit leads start depth id before →
    env.Recorded leads start before.memo → env.Recorded leads start result.2.memo
  · intro _ _ _ _ _ _ recorded
    exact recorded
  · intro _ _ _ _ _ recorded
    exact recorded
  · intro _ _ _ _ _ _ recorded
    exact recorded
  · intro _ _ _ _ _ _ recorded
    exact recorded
  · intro depth id before node held live inner visit recorded
    have opened : env.Recorded leads start (before.set id .inProgress).memo :=
      recorded.mono id (Memo.within_set (by simp [held]) _)
        (fun other inference apart done => by simpa [apart] using done)
        (fun inference done => by simp at done)
    have ran : env.Recorded leads start (env.dispatch depth id node before).2.memo :=
      (Inquiry.run_kept (fun now => env.Recorded leads start now.memo) (fun _ _ kept => kept)
        (fun target moment asked kept =>
          inner target moment (visit.asked covers held live asked) kept) opened).1
    refine ran.mono id (Memo.within_set (by simp [slot_dispatch]) _)
      (fun other inference apart done => by simpa [settle, apart] using done) ?_
    intro inference _
    refine ⟨depth + 1, before, visit, held, ?_⟩
    rw [env.find_of_live depth held live]
    exact fun _ _ done => done

theorem traced_memoOf : env.Traced leads start (env.memoOf start) :=
  find_traced covers (visit_start env leads start)

theorem recorded_memoOf : env.Recorded leads start (env.memoOf start) :=
  find_recorded covers (visit_start env leads start) fun _ _ done => Slot.noConfusion done

end Visits

end Env

end HeuristicTyping
