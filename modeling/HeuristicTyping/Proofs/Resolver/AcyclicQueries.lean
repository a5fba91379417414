import HeuristicTyping.Proofs.Resolver.Fresh

/-!
# Queries that go round in no cycle

If no node leads back to itself by what a run asks for, then the run never meets a node that is
being worked on. So it is told of every node what any other run is told of it, and in any other run
these nodes ask for the same ones. Hence the run shares no cycle with another run, and it makes no
difference which of the two comes first.
-/

set_option autoImplicit false

namespace HeuristicTyping

namespace Env

/-- While the start is found, the rule of the one node is run and asks for the other. -/
def Requested (env : Env) (start id target : NodeId) : Prop :=
  ∃ request ∈ env.requestsOf start, request.caller = id ∧ request.target = target

/-- The narrowest relation that covers what is asked for in two runs. -/
def RequestedByEither (env : Env) (first second id target : NodeId) : Prop :=
  env.Requested first id target ∨ env.Requested second id target

theorem requestedByEither_comm (env : Env) (first second : NodeId) :
    env.RequestedByEither first second = env.RequestedByEither second first := by
  funext id target
  exact propext Or.comm

/-- No node leads back to itself by what is asked for while the start is found. -/
def Acyclic (env : Env) (start : NodeId) : Prop :=
  ∀ id, ¬ Relation.TransGen (env.Requested start) id id

section Requested

variable {env : Env}

theorem along_requested (env : Env) (start : NodeId) :
    env.Along (env.Requested start) env.project.graph.size start {} :=
  fun request listed => ⟨request, listed, rfl, rfl⟩

theorem Acyclic.not_reaches {start id target : NodeId} (acyclic : env.Acyclic start)
    (requested : env.Requested start id target) : ¬ Reaches (env.Requested start) target id :=
  fun back => acyclic id (Relation.TransGen.head' requested back)

theorem Acyclic.eq_of_mutual {start id other : NodeId} (acyclic : env.Acyclic start)
    (mutually : Mutual (env.Requested start) id other) : id = other := by
  rcases Relation.ReflTransGen.cases_head mutually.1 with same | ⟨_, requested, onward⟩
  · exact same
  · exact absurd (onward.trans mutually.2) (acyclic.not_reaches requested)

theorem Grows.started {before after : Memo} (grows : env.Grows before after) {id : NodeId}
    (started : before.slot id ≠ .notStarted) : after.slot id ≠ .notStarted := by
  cases held : before.slot id with
  | notStarted => exact absurd held started
  | inProgress => simp [(grows.working id).mpr held]
  | done inference => simp [grows.kept id inference held]

theorem started_of_requested {depth : Nat} {id : NodeId} {progress : Progress} {request : Demand}
    (ample : env.Ample depth progress.memo) (requested : request ∈ env.requests depth id progress)
    (live : (env.project.graph.get? request.target).isSome) :
    (env.find depth id progress).2.memo.slot request.target ≠ .notStarted := by
  revert ample requested
  apply env.find_induct fun depth id before result => env.Ample depth before.memo →
    request ∈ env.requests depth id before →
    result.2.memo.slot request.target ≠ .notStarted
  · intro _ _ _ _ held _ requested
    rw [requests_of_started (by simp [held])] at requested
    cases requested
  · intro _ _ _ held _ requested
    rw [requests_of_started (by simp [held])] at requested
    cases requested
  · intro _ _ _ _ gone _ requested
    rw [requests_of_dangling gone] at requested
    cases requested
  · intro _ _ _ _ _ _ requested
    cases requested
  · intro depth id before node held alive inner ample requested
    have opened : env.Ample depth (before.set id .inProgress).memo := ample.opened held alive
    obtain ⟨target, moment, asked, origin⟩ := (mem_requests_of_live held alive).mp requested
    have grows := asksAt_grows asked
    have started : (env.find depth target moment).2.memo.slot request.target ≠ .notStarted := by
      rcases origin with rfl | later
      · by_cases busy : moment.memo.slot target = .inProgress
        · simp [((env.find_grows depth target moment).working target).mpr busy]
        · simp [slot_find_of_uncut live busy (find_uncut target (opened.grows grows.1))]
      · exact inner target moment (opened.grows grows.1) later
    have still : (env.dispatch depth id node before).2.memo.slot request.target ≠ .notStarted :=
      grows.2.started started
    rw [settle_of_uncut (dispatch_uncut ample held alive)]
    by_cases same : request.target = id
    · simp [same]
    · simpa [same] using still

theorem done_of_requested {start id target : NodeId} (requested : env.Requested start id target)
    (live : (env.project.graph.get? target).isSome) :
    ∃ inference, (env.memoOf start).slot target = .done inference := by
  obtain ⟨request, listed, -, rfl⟩ := requested
  have ample : env.Ample env.project.graph.size ({} : Progress).memo :=
    Ample.of_idle Progress.idle_empty (Nat.le_refl _)
  have started := started_of_requested ample listed live
  have idle := (env.find_grows env.project.graph.size start {}).idle Progress.idle_empty
  cases held : (env.memoOf start).slot request.target with
  | notStarted => exact absurd held started
  | inProgress => exact absurd held (idle _)
  | done inference => exact ⟨inference, rfl⟩

end Requested

/-- Another run has a node to find. Of the nodes that the run for the start remembers, it remembers
no more than that run does, and those that it is working on lead to the node. -/
structure Accords (env : Env) (start id : NodeId) (memo : Memo) : Prop where
  live : ∀ other, memo.slot other ≠ .notStarted → (env.project.graph.get? other).isSome
  same : ∀ other inference found, memo.slot other = .done inference →
    (env.memoOf start).slot other = .done found → inference = found
  working : ∀ other found, memo.slot other = .inProgress →
    (env.memoOf start).slot other = .done found → Reaches (env.Requested start) other id

namespace Accords

variable {env : Env} {start id : NodeId} {memo : Memo}

theorem of_empty (env : Env) (start id : NodeId) : env.Accords start id {} where
  live _ started := absurd rfl started
  same _ _ _ done := Slot.noConfusion done
  working _ _ busy := Slot.noConfusion busy

theorem opened {node : Node} (accords : env.Accords start id memo)
    (alive : env.project.graph.get? id = some node) :
    env.Accords start id (memo.set id .inProgress) where
  live other started := by
    by_cases own : other = id
    · rw [own]
      exact Option.isSome_of_mem alive
    · exact accords.live other (by simpa [own] using started)
  same other inference found done := by
    by_cases own : other = id
    · subst own
      simp at done
    · exact accords.same other inference found (by simpa [own] using done)
  working other found busy := by
    by_cases own : other = id
    · rw [own]
      exact fun _ => Relation.ReflTransGen.refl
    · exact accords.working other found (by simpa [own] using busy)

theorem settled {node : Node} {inference : Inference} (accords : env.Accords start id memo)
    (alive : env.project.graph.get? id = some node)
    (own : ∀ found, (env.memoOf start).slot id = .done found → inference = found) :
    env.Accords start id (memo.set id (.done inference)) where
  live other started := by
    by_cases same : other = id
    · rw [same]
      exact Option.isSome_of_mem alive
    · exact accords.live other (by simpa [same] using started)
  same other inference found done known := by
    by_cases same : other = id
    · subst same
      rw [Memo.slot_set_self] at done
      exact (Slot.done.inj done) ▸ own found known
    · exact accords.same other inference found (by simpa [same] using done) known
  working other found busy known := by
    by_cases same : other = id
    · subst same
      simp at busy
    · exact accords.working other found (by simpa [same] using busy) known

theorem asked (accords : env.Accords start id memo) {target : NodeId}
    (requested : env.Requested start id target) : env.Accords start target memo where
  live := accords.live
  same := accords.same
  working other found busy known := (accords.working other found busy known).tail requested

theorem found (accords : env.Accords start id memo) {target : NodeId} {later : Memo}
    (after : env.Accords start target later) (grows : env.Grows memo later) :
    env.Accords start id later where
  live := after.live
  same := after.same
  working other found busy := accords.working other found ((grows.working other).mp busy)

/-- Nodes that the run for the start does not know are worked on only while none of those that it
does know is. -/
theorem elsewhere (accords : env.Accords start id memo)
    (live : (env.project.graph.get? id).isSome)
    (unknown : ∀ found, (env.memoOf start).slot id ≠ .done found) (target : NodeId) :
    env.Accords start target memo where
  live := accords.live
  same := accords.same
  working other found busy known := by
    rcases Relation.ReflTransGen.cases_tail (accords.working other found busy known) with
      rfl | ⟨_, _, requested⟩
    · exact absurd known (unknown found)
    · obtain ⟨inference, done⟩ := done_of_requested requested live
      exact absurd done (unknown inference)

end Accords

/-- Another run finds the node. If the run for the start remembers it, it is found as there, and
nodes that are remembered there ask for the same ones. -/
structure Repeats (env : Env) (start : NodeId) (depth : Nat) (id : NodeId) (before : Progress)
    (result : Inference × Progress) : Prop where
  accords : env.Accords start id result.2.memo
  finds : before.memo.slot id ≠ .inProgress →
    ∀ found, (env.memoOf start).slot id = .done found → result.1 = found
  requests : ∀ request ∈ env.requests depth id before,
    ∀ found, (env.memoOf start).slot request.caller = .done found →
      env.Requested start request.caller request.target

section Worked

variable {env : Env} {start : NodeId} {depth : Nat} {id : NodeId} {before : Progress} {node : Node}
  (ample : env.Ample (depth + 1) before.memo) (accords : env.Accords start id before.memo)
  (held : before.memo.slot id = .notStarted) (live : env.project.graph.get? id = some node)
  (inner : ∀ target now, env.Ample depth now.memo → env.Accords start target now.memo →
    env.Repeats start depth target now (env.find depth target now))
include ample accords held live inner

/-- Nodes that the run for the start does not know have nothing to do with those that it knows. -/
theorem repeats_of_unknown (unknown : ∀ found, (env.memoOf start).slot id ≠ .done found) :
    env.Repeats start (depth + 1) id before (env.find (depth + 1) id before) := by
  have alive : (env.project.graph.get? id).isSome := Option.isSome_of_mem live
  have opened : env.Ample depth (before.set id .inProgress).memo := ample.opened held live
  have repeats (target : NodeId) (moment : Progress)
      (asked : (env.project.rule node.kind).AsksAt env.surroundings (env.find depth)
        (before.set id .inProgress) target moment)
      (here : env.Accords start id moment.memo) :
      env.Repeats start depth target moment (env.find depth target moment) :=
    inner target moment (opened.grows (asksAt_grows asked).1)
      (here.elsewhere alive unknown target)
  obtain ⟨ran, between⟩ := Inquiry.run_kept (fun now => env.Accords start id now.memo)
    (fun _ _ here => here)
    (fun target moment asked here => here.found (repeats target moment asked here).accords
      (env.find_grows depth target moment))
    (accords.opened live)
  rw [env.find_of_live depth held live, settle_of_uncut (dispatch_uncut ample held live)]
  refine ⟨ran.settled live fun found known => absurd known (unknown found),
    fun _ found known => absurd known (unknown found), fun request listed found known => ?_⟩
  obtain ⟨target, moment, asked, rfl | later⟩ := (mem_requests_of_live held live).mp listed
  · exact absurd known (unknown found)
  · exact (repeats target moment asked (between target moment asked)).requests request later found
      known

omit accords in
/-- Two resolvers find the same for what the rule of a node asks for, one of them in the run for
the start. -/
theorem find_accorded (acyclic : env.Acyclic start) {other : Nat} {partner : Progress}
    (visited : env.Visit (env.Requested start) start (other + 1) id partner)
    (partnerHeld : partner.memo.slot id = .notStarted)
    (within : (env.find (other + 1) id partner).2.memo.Within (env.memoOf start))
    {target : NodeId} {now beside : Progress}
    (asked : (env.project.rule node.kind).AsksAt env.surroundings (env.find depth)
      (before.set id .inProgress) target now)
    (partnerAsked : (env.project.rule node.kind).AsksAt env.surroundings (env.find other)
      (partner.set id .inProgress) target beside)
    (here : env.Accords start id now.memo) :
    (env.find depth target now).1 = (env.find other target beside).1 ∧
      env.Accords start id (env.find depth target now).2.memo := by
  have covers := along_requested env start
  have requested := visited.leads_to_asked partnerHeld live covers partnerAsked
  have later := visited.asked covers partnerHeld live partnerAsked
  have opened : env.Ample depth (before.set id .inProgress).memo := ample.opened held live
  have repeats := inner target now (opened.grows (asksAt_grows asked).1) (here.asked requested)
  refine ⟨?_, here.found repeats.accords (env.find_grows depth target now)⟩
  cases alive : env.project.graph.get? target with
  | none =>
      rw [env.find_of_dangling depth (rests_of_dangling here.live alive) alive,
        env.find_of_dangling other (later.traced.rests_of_dangling alive) alive]
  | some _ =>
      -- Whatever is being worked on leads to the node, so the target is not.
      have partnerRests : beside.memo.slot target ≠ .inProgress := fun busy =>
        acyclic.not_reaches requested (visited.reaches_of_working partnerAsked busy)
      have done := ((within_of_asked partnerHeld live partnerAsked).trans within) target _
        (later.remembered (Option.isSome_of_mem alive) partnerRests)
      have rests : now.memo.slot target ≠ .inProgress := fun busy =>
        acyclic.not_reaches requested (here.working target _ busy done)
      exact repeats.finds rests _ done

/-- A node that the run for the start knows asks for the same nodes as there. -/
theorem repeats_of_known (acyclic : env.Acyclic start) {found : Inference}
    (known : (env.memoOf start).slot id = .done found) :
    env.Repeats start (depth + 1) id before (env.find (depth + 1) id before) := by
  have covers := along_requested env start
  have opened : env.Ample depth (before.set id .inProgress).memo := ample.opened held live
  obtain ⟨other, partner, visited, partnerHeld, within⟩ := recorded_memoOf covers id found known
  cases other with
  | zero => exact absurd visited.ample (Ample.not_zero partnerHeld live)
  | succ other =>
      have asking (now beside : Progress) (question : Question)
          (here : env.Accords start id now.memo) :
          env.Accords start id (now.ask question).memo := here
      have finding (target : NodeId) (now beside : Progress)
          (asked : (env.project.rule node.kind).AsksAt env.surroundings (env.find depth)
            (before.set id .inProgress) target now)
          (partnerAsked : (env.project.rule node.kind).AsksAt env.surroundings (env.find other)
            (partner.set id .inProgress) target beside)
          (here : env.Accords start id now.memo) :=
        find_accorded ample held live inner acyclic visited partnerHeld within asked
          partnerAsked here
      obtain ⟨result, ran⟩ := Inquiry.run_alike (fun now _ => env.Accords start id now.memo)
        asking finding (accords.opened live)
      have same : (env.dispatch depth id node before).1 =
          (env.dispatch other id node partner).1 := result
      have own : ∀ again, (env.memoOf start).slot id = .done again →
          env.simplified (env.dispatch depth id node before).1 = again := by
        intro again knownAgain
        have done := within id _
          (visited.remembered (Option.isSome_of_mem live) (by simp [partnerHeld]))
        rw [knownAgain, env.find_of_live other partnerHeld live, ← same] at done
        exact (Slot.done.inj done).symm
      rw [env.find_of_live depth held live, settle_of_uncut (dispatch_uncut ample held live)]
      refine ⟨ran.settled live own, fun _ => own, fun request listed again knownAgain => ?_⟩
      obtain ⟨target, moment, asked, origin⟩ := (mem_requests_of_live held live).mp listed
      obtain ⟨beside, partnerAsked, here⟩ := Inquiry.asksAt_alike
        (fun now _ => env.Accords start id now.memo) asking finding (accords.opened live) asked
      have requested := visited.leads_to_asked partnerHeld live covers partnerAsked
      rcases origin with rfl | later
      · exact requested
      · exact (inner target moment (opened.grows (asksAt_grows asked).1)
          (here.asked requested)).requests request later again knownAgain

end Worked

section Acyclic

variable {env : Env} {start : NodeId} (acyclic : env.Acyclic start)
include acyclic

/-- Any other run repeats what a run without a cycle has done. -/
theorem find_repeats {depth : Nat} {id : NodeId} {progress : Progress}
    (ample : env.Ample depth progress.memo) (accords : env.Accords start id progress.memo) :
    env.Repeats start depth id progress (env.find depth id progress) := by
  revert ample accords
  apply env.find_induct fun depth id before result => env.Ample depth before.memo →
    env.Accords start id before.memo → env.Repeats start depth id before result
  · intro depth id before inference held _ accords
    refine ⟨accords, fun _ found => accords.same id inference found held, ?_⟩
    rw [requests_of_started (by simp [held])]
    exact fun _ listed => absurd listed List.not_mem_nil
  · intro depth id before held _ accords
    refine ⟨accords, fun resting => absurd held resting, ?_⟩
    rw [requests_of_started (by simp [held])]
    exact fun _ listed => absurd listed List.not_mem_nil
  · intro depth id before held gone _ accords
    refine ⟨accords, fun _ found known => ?_, ?_⟩
    · have live := (traced_memoOf (along_requested env start) id (by simp [known])).1
      rw [gone] at live
      cases live
    · rw [requests_of_dangling gone]
      exact fun _ listed => absurd listed List.not_mem_nil
  · intro id before node held live ample
    exact absurd ample (Ample.not_zero held live)
  · intro depth id before node held live inner ample accords
    rw [← env.find_of_live depth held live]
    by_cases known : ∃ found, (env.memoOf start).slot id = .done found
    · obtain ⟨found, known⟩ := known
      exact repeats_of_known ample accords held live inner acyclic known
    · exact repeats_of_unknown ample accords held live inner fun found done =>
        known ⟨found, done⟩

/-- What any other run asks for where it comes to a node that this one knows, this one asks for. -/
theorem requested_of_known {other id target : NodeId}
    (known : (env.project.graph.get? id).isSome →
      ∃ found, (env.memoOf start).slot id = .done found)
    (requested : env.RequestedByEither start other id target) :
    env.Requested start id target := by
  rcases requested with own | ⟨request, listed, rfl, rfl⟩
  · exact own
  · obtain ⟨found, done⟩ := known (live_of_asks (along_asks env _ _ _ request listed))
    have ample : env.Ample env.project.graph.size ({} : Progress).memo :=
      Ample.of_idle Progress.idle_empty (Nat.le_refl _)
    exact (find_repeats acyclic ample (Accords.of_empty env start other)).requests request listed
      found done

theorem reaches_of_known {other id target : NodeId}
    (known : (env.project.graph.get? id).isSome →
      ∃ found, (env.memoOf start).slot id = .done found)
    (path : Reaches (env.RequestedByEither start other) id target) :
    Reaches (env.Requested start) id target ∧ ((env.project.graph.get? target).isSome →
      ∃ found, (env.memoOf start).slot target = .done found) := by
  induction path with
  | refl => exact ⟨Relation.ReflTransGen.refl, known⟩
  | tail _ requested ih =>
      have own := requested_of_known acyclic ih.2 requested
      exact ⟨ih.1.tail own, done_of_requested own⟩

/-- A run without a cycle has none in common with any other run. -/
theorem entersAlike_of_first (other : NodeId) :
    env.EntersAlike (env.RequestedByEither start other) start other where
  covers request listed := Or.inl ⟨request, listed, rfl, rfl⟩
  coversOther request listed := Or.inr ⟨request, listed, rfl, rfl⟩
  same id entry enters _ mutually := by
    have known : (env.project.graph.get? id).isSome →
        ∃ found, (env.memoOf start).slot id = .done found := by
      intro live
      rcases enters with rfl | ⟨request, listed, rfl, _⟩
      · exact ⟨_, (visit_start env (env.Requested id) id).remembered live
          (Progress.idle_empty id)⟩
      · exact done_of_requested ⟨request, listed, rfl, rfl⟩ live
    obtain ⟨onward, knownEntry⟩ := reaches_of_known acyclic known mutually.1
    have back := (reaches_of_known acyclic knownEntry mutually.2).1
    exact acyclic.eq_of_mutual ⟨onward, back⟩

end Acyclic

variable {env : Env}

/-- Two queries enter no cycle at two different nodes if one of them goes round in none. -/
theorem entersAlike_of_acyclic {first second : NodeId}
    (acyclic : env.Acyclic first ∨ env.Acyclic second) :
    env.EntersAlike (env.RequestedByEither first second) first second := by
  rcases acyclic with acyclic | acyclic
  · exact entersAlike_of_first acyclic second
  · rw [requestedByEither_comm]
    exact (entersAlike_of_first acyclic first).symm

/-- Queries that go round in no cycle do not disturb each other. -/
theorem undisturbed_of_acyclic {starts : List NodeId}
    (uncut : ∀ id ∈ starts, (env.resolve (Inquiry.inferNode id) {}).2.cutoffs = 0)
    (acyclic : ∀ id ∈ starts, env.Acyclic id) : env.Undisturbed starts where
  uncut := uncut
  alike first among _ _ _ := ⟨_, entersAlike_of_acyclic (Or.inl (acyclic first among))⟩
  forward id among request listed called back :=
    acyclic id among id (Relation.TransGen.single ⟨request, listed, called, back⟩)

end Env

end HeuristicTyping
