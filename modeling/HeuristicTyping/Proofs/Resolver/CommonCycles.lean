import HeuristicTyping.Proofs.Resolver.Visits

/-!
# Cycles that two runs have in common

One run is over, and a second one starts on an empty memo. If no cycle is entered at two different
nodes, by the first run at the one and by the second run at the other, then the second run goes
through the cycles that they have in common as the first one did, and remembers the same of them. So
it makes no difference to the second run if it starts with what the first one remembers.
-/

set_option autoImplicit false

namespace HeuristicTyping

namespace Env

/-- The relation covers what is asked for in both runs, and no cycle is entered at two different
nodes, by the run for the first at the one and by the run for the second at the other. -/
structure EntersAlike (env : Env) (leads : NodeId → NodeId → Prop) (first second : NodeId) :
    Prop where
  covers : ∀ request ∈ env.requestsOf first, leads request.caller request.target
  coversOther : ∀ request ∈ env.requestsOf second, leads request.caller request.target
  same : ∀ id other, env.Enters leads first id → env.Enters leads second other →
    Mutual leads id other → id = other

theorem EntersAlike.symm {env : Env} {leads : NodeId → NodeId → Prop} {first second : NodeId}
    (alike : env.EntersAlike leads first second) : env.EntersAlike leads second first where
  covers := alike.coversOther
  coversOther := alike.covers
  same id other enters otherEnters mutually :=
    (alike.same other id otherEnters enters mutually.symm).symm

/-- The node is live, and the run for the start has worked on its cycle. -/
def Touches (env : Env) (leads : NodeId → NodeId → Prop) (start id : NodeId) : Prop :=
  (env.project.graph.get? id).isSome ∧
    ∃ mate, Mutual leads id mate ∧ (env.memoOf start).slot mate ≠ .notStarted

/-- Of the cycles that the run for the start has worked on, no more is remembered than that run
remembers. -/
def Conforms (env : Env) (leads : NodeId → NodeId → Prop) (start : NodeId) (memo : Memo) : Prop :=
  ∀ id inference, memo.slot id = .done inference → env.Touches leads start id →
    (env.memoOf start).slot id = .done inference

section Touches

variable {env : Env} {leads : NodeId → NodeId → Prop} {start : NodeId}

theorem touches_of_done {id : NodeId} {inference : Inference}
    (live : (env.project.graph.get? id).isSome)
    (done : (env.memoOf start).slot id = .done inference) : env.Touches leads start id :=
  ⟨live, id, Mutual.refl leads id, by simp [done]⟩

theorem Touches.along {id other : NodeId} (touches : env.Touches leads start id)
    (mutually : Mutual leads id other) (live : (env.project.graph.get? other).isSome) :
    env.Touches leads start other := by
  obtain ⟨_, mate, around, begun⟩ := touches
  exact ⟨live, mate, mutually.symm.trans around, begun⟩

/-- The run has entered the cycle, and remembers where. -/
theorem Touches.entry {id : NodeId} (touches : env.Touches leads start id)
    (covers : env.Along leads env.project.graph.size start {}) :
    ∃ entry inference, env.Enters leads start entry ∧ Mutual leads entry id ∧
      (env.memoOf start).slot entry = .done inference := by
  obtain ⟨_, mate, mutually, begun⟩ := touches
  obtain ⟨_, entry, enters, around, entered⟩ := traced_memoOf covers mate begun
  have idle := (env.find_grows env.project.graph.size start {}).idle Progress.idle_empty
  cases held : (env.memoOf start).slot entry with
  | notStarted => exact absurd held entered
  | inProgress => exact absurd held (idle entry)
  | done inference => exact ⟨entry, inference, enters, around.trans mutually.symm, held⟩

theorem Conforms.opened {id : NodeId} {memo : Memo} (conforms : env.Conforms leads start memo) :
    env.Conforms leads start (memo.set id .inProgress) := by
  intro other inference done
  by_cases same : other = id
  · subst same
    simp at done
  · exact conforms other inference (by simpa [same] using done)

theorem Conforms.set_done {id : NodeId} {memo : Memo} {found : Inference}
    (conforms : env.Conforms leads start memo)
    (own : env.Touches leads start id → (env.memoOf start).slot id = .done found) :
    env.Conforms leads start (memo.set id (.done found)) := by
  intro other inference done
  by_cases same : other = id
  · subst same
    rw [Memo.slot_set_self] at done
    obtain rfl := Slot.done.inj done
    exact own
  · exact conforms other inference (by simpa [same] using done)

end Touches

/-- Two resolvers agree on the cycle of a node. The one remembers nothing of the cycles of the first
run that this run does not, and has changed nothing beyond them since it was `before`. -/
structure InStep (env : Env) (leads : NodeId → NodeId → Prop) (first id : NodeId)
    (before now partner : Progress) : Prop where
  same : ∀ mate, Mutual leads id mate → now.memo.slot mate = partner.memo.slot mate
  conforms : env.Conforms leads first now.memo
  apart : ∀ other, ¬ env.Touches leads first other → now.memo.slot other = before.memo.slot other

namespace InStep

variable {env : Env} {leads : NodeId → NodeId → Prop} {first id : NodeId}
  {before now partner : Progress}

theorem ask (inStep : env.InStep leads first id before now partner) (question : Question) :
    env.InStep leads first id before (now.ask question) (partner.ask question) :=
  ⟨inStep.same, inStep.conforms, inStep.apart⟩

theorem set (inStep : env.InStep leads first id before now partner)
    (touches : env.Touches leads first id) {slot : Slot}
    (conforms : env.Conforms leads first (now.memo.set id slot)) :
    env.InStep leads first id before (now.set id slot) (partner.set id slot) where
  same mate mutually := by
    by_cases own : mate = id
    · subst own
      simp
    · simpa [own] using inStep.same mate mutually
  conforms := conforms
  apart other untouched := by
    have distinct : other ≠ id := by
      rintro rfl
      exact untouched touches
    simpa [distinct] using inStep.apart other untouched

/-- What is done beyond the cycle leaves the resolvers in step. -/
theorem beyond {target : NodeId} {found partnerFound : Progress}
    (inStep : env.InStep leads first id before now partner)
    (oneWay : ¬ Reaches leads target id)
    (frame : ∀ other, ¬ Reaches leads target other →
      found.memo.slot other = now.memo.slot other)
    (partnerFrame : ∀ other, ¬ Reaches leads target other →
      partnerFound.memo.slot other = partner.memo.slot other)
    (conforms : env.Conforms leads first found.memo)
    (apart : ∀ other, ¬ env.Touches leads first other →
      found.memo.slot other = now.memo.slot other) :
    env.InStep leads first id before found partnerFound where
  same mate mutually := by
    have unreached : ¬ Reaches leads target mate := fun reaches =>
      oneWay (reaches.trans mutually.2)
    rw [frame mate unreached, partnerFrame mate unreached]
    exact inStep.same mate mutually
  conforms := conforms
  apart other untouched := (apart other untouched).trans (inStep.apart other untouched)

end InStep

/-- Where a node is visited in the first run, and the memos agree on its cycle, the same is found
for it as there. -/
def Follows (env : Env) (leads : NodeId → NodeId → Prop) (first : NodeId) (depth : Nat)
    (id : NodeId) (progress : Progress) : Prop :=
  ∀ other partner, env.Visit leads first other id partner →
    (env.find other id partner).2.memo.Within (env.memoOf first) →
    env.InStep leads first id progress progress partner →
    (env.find depth id progress).1 = (env.find other id partner).1 ∧
      env.InStep leads first id progress (env.find depth id progress).2
        (env.find other id partner).2

/-- Two resolvers agree beyond the cycles that the first run has worked on. The one remembers no
more of these cycles than that run, the other one no less. -/
structure Beside (env : Env) (leads : NodeId → NodeId → Prop) (first : NodeId) (depth : Nat)
    (now partner : Progress) : Prop where
  same : ∀ id, ¬ env.Touches leads first id → now.memo.slot id = partner.memo.slot id
  conforms : env.Conforms leads first now.memo
  remembers : (env.memoOf first).Within partner.memo
  ample : env.Ample depth partner.memo

namespace Beside

variable {env : Env} {leads : NodeId → NodeId → Prop} {first id : NodeId} {depth : Nat}
  {now partner : Progress}

theorem ask (beside : env.Beside leads first depth now partner) (question : Question) :
    env.Beside leads first depth (now.ask question) (partner.ask question) :=
  ⟨beside.same, beside.conforms, beside.remembers, beside.ample⟩

theorem within {found : Progress} (beside : env.Beside leads first depth now partner)
    (conforms : env.Conforms leads first found.memo)
    (apart : ∀ other, ¬ env.Touches leads first other →
      found.memo.slot other = now.memo.slot other) :
    env.Beside leads first depth found partner where
  same other untouched := (apart other untouched).trans (beside.same other untouched)
  conforms := conforms
  remembers := beside.remembers
  ample := beside.ample

theorem opened {node : Node} (beside : env.Beside leads first (depth + 1) now partner)
    (held : now.memo.slot id = .notStarted) (partnerHeld : partner.memo.slot id = .notStarted)
    (live : env.project.graph.get? id = some node) :
    env.Beside leads first depth (now.set id .inProgress) (partner.set id .inProgress) where
  same other untouched := by
    by_cases own : other = id
    · subst own
      simp
    · simpa [own] using beside.same other untouched
  conforms := beside.conforms.opened
  remembers := beside.remembers.trans (Memo.within_set (by simp [partnerHeld]) _)
  ample := beside.ample.opened partnerHeld live

theorem settled {found : Inference} (beside : env.Beside leads first depth now partner)
    (untouched : ¬ env.Touches leads first id) (busy : partner.memo.slot id = .inProgress)
    {deeper : Nat} (ample : env.Ample deeper (partner.set id (.done found)).memo) :
    env.Beside leads first deeper (now.set id (.done found)) (partner.set id (.done found)) where
  same other apart := by
    by_cases own : other = id
    · subst own
      simp
    · simpa [own] using beside.same other apart
  conforms := beside.conforms.set_done fun touches => absurd touches untouched
  remembers := beside.remembers.trans (Memo.within_set (by simp [busy]) _)
  ample := ample

end Beside

section Common

variable {env : Env} {leads : NodeId → NodeId → Prop} {first second : NodeId}
  (alike : env.EntersAlike leads first second)
include alike

/-- A cycle that the first run has worked on is entered where that run entered it. -/
theorem find_touched {depth : Nat} {id : NodeId} {progress : Progress}
    (visit : env.Visit leads second depth id progress)
    (conforms : env.Conforms leads first progress.memo)
    (follows : env.Follows leads first depth id progress)
    (resting : progress.memo.slot id ≠ .inProgress)
    (enters : progress.memo.slot id = .notStarted → env.Enters leads second id)
    (touches : env.Touches leads first id) :
    (env.memoOf first).slot id = .done (env.find depth id progress).1 ∧
      env.Conforms leads first (env.find depth id progress).2.memo ∧
      ∀ other, ¬ env.Touches leads first other →
        (env.find depth id progress).2.memo.slot other = progress.memo.slot other := by
  cases held : progress.memo.slot id with
  | inProgress => exact absurd held resting
  | done inference =>
      rw [env.find_of_done depth held]
      exact ⟨conforms id inference held touches, conforms, fun _ _ => rfl⟩
  | notStarted =>
      have own := enters held
      obtain ⟨entry, inference, entered, around, done⟩ := touches.entry alike.covers
      obtain rfl := alike.same entry id entered own around
      obtain ⟨other, partner, visited, untouched, within⟩ :=
        recorded_memoOf alike.covers entry inference done
      have partnerRests := visited.traced.rests untouched fun mate enters mutually =>
        alike.same mate entry enters own mutually
      have rests := visit.traced.rests held fun mate enters mutually =>
        (alike.same entry mate entered enters mutually.symm).symm
      have before : env.InStep leads first entry progress progress partner := by
        refine ⟨fun mate mutually => ?_, conforms, fun _ _ => rfl⟩
        rw [rests mate mutually, partnerRests mate mutually]
      obtain ⟨same, after⟩ := follows other partner visited within before
      have found := visited.remembered touches.1 (by simp [untouched])
      rw [same]
      exact ⟨within entry _ found, after.conforms, after.apart⟩

/-- Beyond the cycle of a node that both resolvers work on, they find the same. -/
theorem find_beyond {depth other : Nat} {id target : NodeId} {before now partner : Progress}
    (inStep : env.InStep leads first id before now partner)
    (visit : env.Visit leads second depth target now)
    (visited : env.Visit leads first other target partner)
    (within : (env.find other target partner).2.memo.Within (env.memoOf first))
    (follows : env.Follows leads first depth target now)
    (oneWay : ¬ Reaches leads target id)
    (resting : now.memo.slot target ≠ .inProgress)
    (partnerRests : partner.memo.slot target ≠ .inProgress)
    (enters : env.awaits now target = true → env.Enters leads second target) :
    (env.find depth target now).1 = (env.find other target partner).1 ∧
      env.InStep leads first id before (env.find depth target now).2
        (env.find other target partner).2 := by
  have frame (mate : NodeId) (unreached : ¬ Reaches leads target mate) :=
    find_frame (visit.along alike.coversOther) unreached
  have partnerFrame (mate : NodeId) (unreached : ¬ Reaches leads target mate) :=
    find_frame (visited.along alike.covers) unreached
  cases live : env.project.graph.get? target with
  | none =>
      rw [env.find_of_dangling depth (visit.traced.rests_of_dangling live) live,
        env.find_of_dangling other (visited.traced.rests_of_dangling live) live]
      exact ⟨rfl, inStep⟩
  | some node =>
      have alive : (env.project.graph.get? target).isSome := Option.isSome_of_mem live
      have done := within target _ (visited.remembered alive partnerRests)
      obtain ⟨found, conforms, apart⟩ := find_touched alike visit inStep.conforms follows resting
        (fun held => enters (awaits_iff.mpr ⟨held, alive⟩)) (touches_of_done alive done)
      rw [done] at found
      exact ⟨(Slot.done.inj found).symm,
        inStep.beyond oneWay frame partnerFrame conforms apart⟩

/-- Two resolvers that work on one node find the same for whatever its rule asks for. -/
theorem find_asked {depth other : Nat} {id target : NodeId} {node : Node}
    {before start partner now beside : Progress}
    (visit : env.Visit leads second (depth + 1) id start)
    (visited : env.Visit leads first (other + 1) id partner)
    (held : start.memo.slot id = .notStarted) (partnerHeld : partner.memo.slot id = .notStarted)
    (live : env.project.graph.get? id = some node)
    (within : (env.find (other + 1) id partner).2.memo.Within (env.memoOf first))
    (follows : ∀ target now, env.Visit leads second depth target now →
      env.Follows leads first depth target now)
    (asked : (env.project.rule node.kind).AsksAt env.surroundings (env.find depth)
      (start.set id .inProgress) target now)
    (partnerAsked : (env.project.rule node.kind).AsksAt env.surroundings (env.find other)
      (partner.set id .inProgress) target beside)
    (inStep : env.InStep leads first id before now beside) :
    (env.find depth target now).1 = (env.find other target beside).1 ∧
      env.InStep leads first id before (env.find depth target now).2
        (env.find other target beside).2 := by
  have later := visit.asked alike.coversOther held live asked
  have partnerLater := visited.asked alike.covers partnerHeld live partnerAsked
  have inner := (within_of_asked partnerHeld live partnerAsked).trans within
  by_cases back : Reaches leads target id
  · have onward := visit.leads_to_asked held live alike.coversOther asked
    have mutually : Mutual leads id target := ⟨Relation.ReflTransGen.single onward, back⟩
    obtain ⟨found, after⟩ := follows target now later other beside partnerLater inner
      ⟨fun mate around => inStep.same mate (mutually.trans around), inStep.conforms,
        fun _ _ => rfl⟩
    refine ⟨found, fun mate around => after.same mate (mutually.symm.trans around),
      after.conforms, fun node untouched => ?_⟩
    exact (after.apart node untouched).trans (inStep.apart node untouched)
  · exact find_beyond alike inStep later partnerLater inner (follows target now later) back
      (fun busy => back (visit.reaches_of_working asked busy))
      (fun busy => back (visited.reaches_of_working partnerAsked busy))
      (fun awaited => visit.enters_asked held live asked awaited back)

/-- The second run goes through a cycle as the first run did. -/
theorem find_follows {depth : Nat} {id : NodeId} {progress : Progress}
    (visit : env.Visit leads second depth id progress) :
    env.Follows leads first depth id progress := by
  revert visit
  apply env.find_induct fun depth id before result => env.Visit leads second depth id before →
    ∀ other partner, env.Visit leads first other id partner →
      (env.find other id partner).2.memo.Within (env.memoOf first) →
      env.InStep leads first id before before partner →
      result.1 = (env.find other id partner).1 ∧
        env.InStep leads first id before result.2 (env.find other id partner).2
  · intro depth id before inference held _ other partner _ _ inStep
    rw [env.find_of_done other ((inStep.same id (Mutual.refl leads id)).symm.trans held)]
    exact ⟨rfl, inStep⟩
  · intro depth id before held _ other partner _ _ inStep
    rw [env.find_of_inProgress other ((inStep.same id (Mutual.refl leads id)).symm.trans held)]
    exact ⟨rfl, inStep⟩
  · intro depth id before held gone _ other partner _ _ inStep
    rw [env.find_of_dangling other ((inStep.same id (Mutual.refl leads id)).symm.trans held) gone]
    exact ⟨rfl, inStep⟩
  · intro id before node held live visit
    exact absurd visit.ample (Ample.not_zero held live)
  · intro depth id before node held live inner visit other partner visited within inStep
    have partnerHeld := (inStep.same id (Mutual.refl leads id)).symm.trans held
    cases other with
    | zero => exact absurd visited.ample (Ample.not_zero partnerHeld live)
    | succ other =>
        have alive : (env.project.graph.get? id).isSome := Option.isSome_of_mem live
        have done := within id _ (visited.remembered alive (by simp [partnerHeld]))
        have touches : env.Touches leads first id := touches_of_done alive done
        have finding : ∀ target now beside,
            (env.project.rule node.kind).AsksAt env.surroundings (env.find depth)
              (before.set id .inProgress) target now →
            (env.project.rule node.kind).AsksAt env.surroundings (env.find other)
              (partner.set id .inProgress) target beside →
            env.InStep leads first id before now beside →
            (env.find depth target now).1 = (env.find other target beside).1 ∧
              env.InStep leads first id before (env.find depth target now).2
                (env.find other target beside).2 :=
          fun target now beside asked partnerAsked =>
            find_asked alike visit visited held partnerHeld live within inner asked partnerAsked
        obtain ⟨result, ran⟩ := Inquiry.run_alike (env.InStep leads first id before)
          (fun _ _ question here => here.ask question) finding
          (inStep.set touches inStep.conforms.opened)
        have same : (env.dispatch depth id node before).1 =
            (env.dispatch other id node partner).1 := result
        have uncut := dispatch_uncut visit.ample held live
        have partnerUncut := dispatch_uncut visited.ample partnerHeld live
        rw [env.find_of_live other partnerHeld live, settle_of_uncut partnerUncut] at done ⊢
        rw [settle_of_uncut uncut, same]
        refine ⟨rfl, (ran.ask _).set touches ?_⟩
        exact ran.conforms.set_done fun _ => done

/-! ### Beyond the first run -/

/-- What the second run works on beyond the cycles that the first run has touched, a resolver that
knows the first run finds alike. -/
theorem find_untouched {depth : Nat} {id : NodeId} {progress : Progress}
    (visit : env.Visit leads second depth id progress) (untouched : ¬ env.Touches leads first id)
    {other : Nat} {partner : Progress} (beside : env.Beside leads first other progress partner) :
    (env.find depth id progress).1 = (env.find other id partner).1 ∧
      env.Beside leads first other (env.find depth id progress).2
        (env.find other id partner).2 := by
  revert visit untouched beside
  revert other partner
  apply env.find_induct fun depth id before result => ∀ {other : Nat} {partner : Progress},
    env.Visit leads second depth id before → ¬ env.Touches leads first id →
    env.Beside leads first other before partner →
      result.1 = (env.find other id partner).1 ∧
        env.Beside leads first other result.2 (env.find other id partner).2
  · intro depth id before inference held other partner _ untouched beside
    rw [env.find_of_done other ((beside.same id untouched).symm.trans held)]
    exact ⟨rfl, beside⟩
  · intro depth id before held other partner _ untouched beside
    rw [env.find_of_inProgress other ((beside.same id untouched).symm.trans held)]
    exact ⟨rfl, beside⟩
  · intro depth id before held gone other partner _ untouched beside
    rw [env.find_of_dangling other ((beside.same id untouched).symm.trans held) gone]
    exact ⟨rfl, beside⟩
  · intro id before node held live other partner visit
    exact absurd visit.ample (Ample.not_zero held live)
  · intro depth id before node held live inner other partner visit untouched beside
    have partnerHeld := (beside.same id untouched).symm.trans held
    cases other with
    | zero => exact absurd beside.ample (Ample.not_zero partnerHeld live)
    | succ other =>
        have finding : ∀ target now late,
            (env.project.rule node.kind).AsksAt env.surroundings (env.find depth)
              (before.set id .inProgress) target now →
            (env.project.rule node.kind).AsksAt env.surroundings (env.find other)
              (partner.set id .inProgress) target late →
            env.Beside leads first other now late →
            (env.find depth target now).1 = (env.find other target late).1 ∧
              env.Beside leads first other (env.find depth target now).2
                (env.find other target late).2 := by
          intro target now late asked _ here
          have later := visit.asked alike.coversOther held live asked
          by_cases touched : env.Touches leads first target
          · have oneWay : ¬ Reaches leads target id := by
              intro back
              have onward := visit.leads_to_asked held live alike.coversOther asked
              exact untouched (touched.along ⟨back, Relation.ReflTransGen.single onward⟩
                (Option.isSome_of_mem live))
            obtain ⟨found, conforms, apart⟩ := find_touched alike later here.conforms
              (find_follows alike later)
              (fun busy => oneWay (visit.reaches_of_working asked busy))
              (fun resting => visit.enters_asked held live asked
                (awaits_iff.mpr ⟨resting, touched.1⟩) oneWay) touched
            rw [env.find_of_done other (here.remembers target _ found)]
            exact ⟨rfl, here.within conforms apart⟩
          · exact inner target now later touched here
        obtain ⟨result, ran⟩ := Inquiry.run_alike (env.Beside leads first other)
          (fun _ _ question here => here.ask question) finding
          (beside.opened held partnerHeld live)
        have same : (env.dispatch depth id node before).1 =
            (env.dispatch other id node partner).1 := result
        have grows := beside.ample.grows (env.find_grows (other + 1) id partner)
        have uncut := dispatch_uncut visit.ample held live
        have partnerUncut := dispatch_uncut beside.ample partnerHeld live
        rw [env.find_of_live other partnerHeld live, settle_of_uncut partnerUncut] at grows ⊢
        rw [settle_of_uncut uncut, same]
        exact ⟨rfl, (ran.ask _).settled untouched (env.slot_dispatch other id node partner) grows⟩

/-- A resolver that knows the first run answers the second query as the second run does, and of the
cycles that both runs work on, both remember the same. -/
theorem find_second :
    (env.find env.project.graph.size second
        (env.find env.project.graph.size first {}).2).1 = env.fresh second ∧
      env.Conforms leads first (env.memoOf second) := by
  have visit := visit_start env leads second
  have empty : env.Conforms leads first ({} : Progress).memo :=
    fun _ _ done => Slot.noConfusion done
  have grows := env.find_grows env.project.graph.size first {}
  by_cases touched : env.Touches leads first second
  · obtain ⟨found, conforms, _⟩ := find_touched alike visit empty (find_follows alike visit)
      (Progress.idle_empty second) (fun _ => Or.inl rfl) touched
    rw [env.find_of_done _ found]
    exact ⟨rfl, conforms⟩
  · have beside : env.Beside leads first env.project.graph.size {}
        (env.find env.project.graph.size first {}).2 := by
      refine ⟨fun id untouched => ?_, empty, fun _ _ done => done,
        Ample.of_idle (grows.idle Progress.idle_empty) (Nat.le_refl _)⟩
      by_cases rests : (env.memoOf first).slot id = .notStarted
      · exact rests.symm
      · have live := (traced_memoOf alike.covers id rests).1
        exact absurd ⟨live, id, Mutual.refl leads id, rests⟩ untouched
    obtain ⟨found, after⟩ := find_untouched alike visit touched beside
    exact ⟨found.symm, after.conforms⟩

/-- Whatever both runs remember, they remember alike. -/
theorem memos_agree {id : NodeId} {inference other : Inference}
    (done : (env.memoOf first).slot id = .done inference)
    (otherDone : (env.memoOf second).slot id = .done other) : inference = other := by
  have live := (traced_memoOf alike.covers id (by simp [done])).1
  have same := (find_second alike).2 id other otherDone (touches_of_done live done)
  rw [done] at same
  exact Slot.done.inj same

end Common

/-! ### Clusters -/

/-- With every node assigned to the entry of its cluster: the target is in the same cluster or in
one of lower rank. -/
def Descends (entry : NodeId → NodeId) (rank : NodeId → Nat) (id target : NodeId) : Prop :=
  entry target = entry id ∨ rank (entry target) < rank (entry id)

instance (entry : NodeId → NodeId) (rank : NodeId → Nat) (id target : NodeId) :
    Decidable (Descends entry rank id target) :=
  inferInstanceAs (Decidable (_ ∨ _))

section Clusters

variable {env : Env} {entry : NodeId → NodeId} {rank : NodeId → Nat}

theorem rank_of_descent {id other : NodeId} (path : Reaches (Descends entry rank) id other) :
    entry other = entry id ∨ rank (entry other) < rank (entry id) := by
  induction path with
  | refl => exact Or.inl rfl
  | tail _ descends ih =>
      rcases descends with same | lower
      · rw [same]
        exact ih
      · right
        rcases ih with level | below
        · rw [level] at lower
          exact lower
        · exact Nat.lt_trans lower below

/-- A run enters clusters at their entries if it starts at one and runs the rules of other nodes
only for nodes of their own cluster. -/
theorem entry_of_enters {start id : NodeId} (own : entry start = start)
    (runs : ∀ request ∈ env.requestsOf start, request.runs = true →
      entry request.target = entry request.caller ∨ entry request.target = request.target)
    (enters : env.Enters (Descends entry rank) start id) : entry id = id := by
  rcases enters with rfl | ⟨request, listed, rfl, ran, oneWay⟩
  · exact own
  · rcases runs request listed ran with same | entered
    · have back : Descends entry rank request.target request.caller := Or.inl same.symm
      exact absurd (Relation.ReflTransGen.single back) oneWay
    · exact entered

theorem entersAlike_of_clusters {starts : List NodeId}
    (own : ∀ start ∈ starts, entry start = start)
    (covers : ∀ start ∈ starts, ∀ request ∈ env.requestsOf start,
      Descends entry rank request.caller request.target ∧
        (request.runs = true →
          entry request.target = entry request.caller ∨ entry request.target = request.target))
    {first second : NodeId} (among : first ∈ starts) (otherAmong : second ∈ starts) :
    env.EntersAlike (Descends entry rank) first second where
  covers request listed := (covers first among request listed).1
  coversOther request listed := (covers second otherAmong request listed).1
  same id other enters otherEnters mutually := by
    have entered : entry id = id := entry_of_enters (own first among)
      (fun request listed => (covers first among request listed).2) enters
    have otherEntered : entry other = other := entry_of_enters (own second otherAmong)
      (fun request listed => (covers second otherAmong request listed).2) otherEnters
    have same : entry other = entry id := by
      rcases rank_of_descent mutually.1 with same | lower
      · exact same
      · rcases rank_of_descent mutually.2 with same | higher
        · exact same.symm
        · omega
    rw [entered, otherEntered] at same
    exact same.symm

end Clusters

end Env

end HeuristicTyping
