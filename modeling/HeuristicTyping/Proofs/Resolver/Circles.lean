import HeuristicTyping.Proofs.Resolver.TypeReferences
import Mathlib.Data.Finset.Card

/-!
# Circles of data flow

Writes, reads, aliases, returns, single branches and plain definitions pass on what is found for
one other node. Where such nodes only lead to each other, nothing ever comes in from outside: the
chain closes on a node that is being worked on, and every node on the way back to the caller finds
the circle too. This does not depend on the node that is asked for first, on what is remembered
already, or on what the surroundings know.
-/

set_option autoImplicit false

namespace HeuristicTyping

namespace Project

/-- A node of the kind has the type of the target, whatever that is. -/
inductive PassesOn (project : Project) : NodeKind → (target : NodeId) → Prop where
  | localWrite (name : String) (var : VarId) (value : NodeId) :
      PassesOn project (.localWrite name var (some value)) value
  | localRead (name : String) {var : VarId} (write : NodeId)
      (uncalled : project.graph.calledMethods var = []) :
      PassesOn project (.localRead name var (some write)) write
  | fieldWrite (scope : FieldScope) (owner name : String) (value : NodeId) :
      PassesOn project (.fieldWrite scope owner name (some value)) value
  | fieldRead (scope : FieldScope) (owner name : String) (write : NodeId) :
      PassesOn project (.fieldRead scope owner name (some write)) write
  | constant (name : String) (target : NodeId) :
      PassesOn project (.constant name (some target)) target
  | explicitReturn (value : NodeId) : PassesOn project (.explicitReturn (some value)) value
  | merge (branch : NodeId) : PassesOn project (.merge [branch]) branch
  | definition {method : Definition} {result : NodeId}
      (ordinary : method.typeLevel = true ∨ project.settings.isInitializer method.name = false)
      (nonempty : method.body ≠ []) (captured : method.result = some result) :
      PassesOn project (.definition method) result

/-- Each of the nodes is live and passes on what is found for another one of them. -/
def Circle (project : Project) (nodes : Finset NodeId) : Prop :=
  ∀ id ∈ nodes, ∃ kind target, project.graph.kind? id = some kind ∧
    project.PassesOn kind target ∧ target ∈ nodes

theorem PassesOn.rule_eq {project : Project} {kind : NodeKind} {target : NodeId}
    (passes : project.PassesOn kind target) : project.rule kind = Inquiry.inferNode target := by
  cases passes with
  | localRead name write uncalled =>
      simp only [rule, Rule.localRead, Rule.follow, uncalled, List.isEmpty_nil, Bool.or_true,
        if_true]
      exact Inquiry.bind_pure _
  | definition ordinary nonempty captured =>
      rename_i method
      have plain : (!method.typeLevel && project.settings.isInitializer method.name) = false := by
        rcases ordinary with typeLevel | other
        · simp [typeLevel]
        · simp [other]
      have filled : method.body.isEmpty = false := by simpa using nonempty
      simp [rule, Rule.definition, plain, filled, captured, Rule.follow]
  | _ => rfl

end Project

namespace Env

variable {env : Env} {circle : Finset NodeId}

theorem dispatch_of_passesOn {depth : Nat} {id target : NodeId} {node : Node} {before : Progress}
    (passes : env.project.PassesOn node.kind target) :
    env.dispatch depth id node before = env.find depth target (before.set id .inProgress) := by
  unfold dispatch
  rw [passes.rule_eq]
  rfl

def among (env : Env) (others : Surroundings) : Env := { env with surroundings := others }

theorem Circle.live (closed : env.project.Circle circle) {id : NodeId} (member : id ∈ circle) :
    env.project.graph.get? id ≠ none := by
  intro gone
  obtain ⟨kind, _, held, _⟩ := closed id member
  simp [Graph.kind?, gone] at held

theorem Circle.leads_on (closed : env.project.Circle circle) {id : NodeId} {node : Node}
    (member : id ∈ circle) (live : env.project.graph.get? id = some node) :
    ∃ target ∈ circle, env.project.PassesOn node.kind target := by
  obtain ⟨kind, target, held, passes, inside⟩ := closed id member
  obtain rfl := Option.some.inj ((kind_of_live live).symm.trans held)
  exact ⟨target, inside, passes⟩

theorem simplified_circular (standard : env.surroundings.simplifier.IsStandard) :
    env.simplified (.unknown .circularReference) = .unknown .circularReference := by
  simp only [simplified, Inference.unknown, standard.unknown]

/-! ### What is remembered of a circle -/

/-- Whatever is remembered of the nodes is that they depend on themselves. -/
def Circular (circle : Finset NodeId) (progress : Progress) : Prop :=
  ∀ id inference, progress.memo.slot id = .done inference → id ∈ circle →
    inference = .unknown .circularReference

section Standard

variable (closed : env.project.Circle circle)
  (standard : env.surroundings.simplifier.IsStandard)
include closed standard

/-- Whoever asks for whatever node, nothing else gets remembered of a circle; and a node of it that
is found without a cut-off is found to depend on itself. -/
theorem find_circular (depth : Nat) (id : NodeId) {progress : Progress}
    (circular : Circular circle progress) :
    Circular circle (env.find depth id progress).2 ∧
      (id ∈ circle → (env.find depth id progress).2.cutoffs = progress.cutoffs →
        (env.find depth id progress).1 = .unknown .circularReference) := by
  revert circular
  apply env.find_induct fun _ id before result => Circular circle before →
    Circular circle result.2 ∧ (id ∈ circle → result.2.cutoffs = before.cutoffs →
      result.1 = .unknown .circularReference)
  · intro _ id _ inference held circular
    exact ⟨circular, fun member _ => circular id inference held member⟩
  · intro _ _ _ _ circular
    exact ⟨circular, fun _ _ => rfl⟩
  · intro _ id _ _ gone circular
    exact ⟨circular, fun member => absurd gone (Circle.live closed member)⟩
  · intro _ before _ _ _ circular
    refine ⟨circular, fun _ uncut => ?_⟩
    simp only [Progress.cutOff_cutoffs] at uncut
    omega
  · intro depth id before node _ live inner circular
    have opened : Circular circle (before.set id .inProgress) := done_of_opened circular
    have later : Circular circle (env.dispatch depth id node before).2 :=
      (Inquiry.run_meets (Circular circle) (Inquiry.meets_trivially _) (fun _ _ held => held)
        (fun asked now _ held => ⟨(inner asked now held).1, trivial⟩) opened).1
    have own : id ∈ circle → (env.dispatch depth id node before).2.cutoffs = before.cutoffs →
        env.simplified (env.dispatch depth id node before).1 = .unknown .circularReference := by
      intro member uncut
      obtain ⟨target, inside, passes⟩ := Circle.leads_on closed member live
      rw [dispatch_of_passesOn passes] at uncut ⊢
      rw [(inner target _ opened).2 inside uncut, simplified_circular standard]
    exact ⟨done_of_settled later fun uncut member => own member uncut, own⟩

theorem after_circular (acts : List Act) {start : Progress} (circular : Circular circle start) :
    Circular circle (env.after acts start) := by
  refine after_keeps (Circular circle) ?_ (fun _ held => held) acts circular
  intro query now held
  exact (Inquiry.run_meets (Circular circle) (Inquiry.meets_trivially _)
    (fun _ _ kept => kept)
    (fun id _ _ kept => ⟨(find_circular closed standard _ id kept).1, trivial⟩) held).1

/-! ### The way around -/

open Classical in
/-- The nodes of a circle that are not being worked on. -/
noncomputable def resting (circle : Finset NodeId) (memo : Memo) : Finset NodeId :=
  circle.filter fun id => memo.slot id ≠ .inProgress

omit closed standard in
theorem card_resting_le (memo : Memo) : (resting circle memo).card ≤ circle.card := by
  classical
  exact Finset.card_filter_le _ _

omit closed standard in
theorem card_resting_opened {id : NodeId} {memo : Memo} (member : id ∈ circle)
    (held : memo.slot id = .notStarted) :
    (resting circle (memo.set id .inProgress)).card + 1 = (resting circle memo).card := by
  have rests : id ∈ resting circle memo := by simp [resting, member, held]
  have opened : resting circle (memo.set id .inProgress) = (resting circle memo).erase id := by
    ext other
    by_cases same : other = id
    · simp [resting, same]
    · simp [resting, same]
  rw [opened, Finset.card_erase_add_one rests]

omit closed standard in
theorem card_resting_le_of_opened {depth : Nat} {id : NodeId} {progress : Progress}
    (member : id ∈ circle) (held : progress.memo.slot id = .notStarted)
    (enough : (resting circle progress.memo).card ≤ depth + 1) :
    (resting circle (progress.set id .inProgress).memo).card ≤ depth := by
  have one := card_resting_opened member held
  simp only [Progress.set_memo]
  omega

/-- The circle is found: nothing is cut off, and nothing but the simplification of what is not
known is asked for. -/
structure ComesAround (before : Progress) (result : Inference × Progress) : Prop where
  found : result.1 = .unknown .circularReference
  uncut : result.2.cutoffs = before.cutoffs
  asked : ∃ count, result.2.asked =
    List.replicate count (Question.simplify .unknown) ++ before.asked

omit closed standard in
theorem ComesAround.here (progress : Progress) :
    ComesAround progress (.unknown .circularReference, progress) :=
  ⟨rfl, rfl, 0, rfl⟩

theorem find_comesAround {depth : Nat} {id : NodeId} {progress : Progress} (member : id ∈ circle)
    (circular : Circular circle progress)
    (enough : (resting circle progress.memo).card ≤ depth) :
    ComesAround progress (env.find depth id progress) := by
  revert member circular enough
  apply env.find_induct fun depth id before result => id ∈ circle → Circular circle before →
    (resting circle before.memo).card ≤ depth → ComesAround before result
  · intro _ id before inference held member circular _
    obtain rfl := circular id inference held member
    exact ComesAround.here before
  · intro _ _ before _ _ _ _
    exact ComesAround.here before
  · intro _ id _ _ gone member
    exact absurd gone (Circle.live closed member)
  · intro id before node held _ member _ enough
    have one := card_resting_opened member held
    omega
  · intro depth id before node held live inner member circular enough
    obtain ⟨target, inside, passes⟩ := Circle.leads_on closed member live
    have left := card_resting_le_of_opened member held enough
    obtain ⟨found, uncut, count, asked⟩ := inner target _ inside (done_of_opened circular) left
    rw [dispatch_of_passesOn passes, found]
    refine ⟨simplified_circular standard, uncut, count + 1, ?_⟩
    rw [List.replicate_succ, List.cons_append]
    exact congrArg (List.cons _) asked

/-- What the surroundings know makes no difference on the way around. -/
theorem find_among {depth : Nat} {id : NodeId} {progress : Progress} (member : id ∈ circle)
    (circular : Circular circle progress)
    (enough : (resting circle progress.memo).card ≤ depth) {others : Surroundings}
    (otherStandard : others.simplifier.IsStandard) :
    (env.among others).find depth id progress = env.find depth id progress := by
  revert member circular enough
  apply env.find_induct fun depth id before result => id ∈ circle → Circular circle before →
    (resting circle before.memo).card ≤ depth → (env.among others).find depth id before = result
  · intro depth id before inference held _ _ _
    exact find_of_done _ depth held
  · intro depth id before held _ _ _
    exact find_of_inProgress _ depth held
  · intro depth id before held gone _ _ _
    exact find_of_dangling _ depth held gone
  · intro id before node held live _ _ _
    exact find_of_exhausted _ held live
  · intro depth id before node held live inner member circular enough
    obtain ⟨target, inside, passes⟩ := Circle.leads_on closed member live
    have left := card_resting_le_of_opened member held enough
    have opened : Circular circle (before.set id .inProgress) := done_of_opened circular
    have same : (env.among others).dispatch depth id node before =
        env.dispatch depth id node before :=
      calc (env.among others).dispatch depth id node before
        _ = (env.among others).find depth target (before.set id .inProgress) :=
            dispatch_of_passesOn passes
        _ = env.find depth target (before.set id .inProgress) := inner target _ inside opened left
        _ = env.dispatch depth id node before := (dispatch_of_passesOn passes).symm
    have found : (env.dispatch depth id node before).1 = .unknown .circularReference := by
      rw [dispatch_of_passesOn passes]
      exact (find_comesAround closed standard inside opened left).found
    have alike : (env.among others).simplified (env.dispatch depth id node before).1 =
        env.simplified (env.dispatch depth id node before).1 := by
      rw [found, simplified_circular standard]
      exact simplified_circular otherStandard
    rw [(env.among others).find_of_live depth held live, same]
    simp only [settle, settled, alike]

end Standard

/-- A circle of data flow is reported as such, whichever of its nodes is asked for, after whatever
queries. No query asks an index or a source of signatures for anything: all it does besides passing
on is to simplify the type of what is not known. Other surroundings make no difference. -/
theorem circles_are_reported (closed : env.project.Circle circle)
    (standard : env.surroundings.simplifier.IsStandard)
    (enough : circle.card ≤ env.project.settings.maxDepth) (acts : List Act) {id : NodeId}
    (member : id ∈ circle) :
    (env.serve (.infer id) (env.after acts {})).1 =
        .finding { type := .unknown, reason := .circularReference, provenance := .unknown } ∧
      (env.serve (.infer id) (env.after acts {})).2.cutoffs = (env.after acts {}).cutoffs ∧
      (∃ count, (env.serve (.infer id) (env.after acts {})).2.asked =
        List.replicate count (.simplify .unknown) ++ (env.after acts {}).asked) ∧
      ∀ others : Surroundings, others.simplifier.IsStandard →
        (env.among others).serve (.infer id) (env.after acts {}) =
          env.serve (.infer id) (env.after acts {}) := by
  have empty : Circular circle {} := fun _ _ held => Slot.noConfusion held
  have circular := after_circular closed standard acts empty
  have bounded : (resting circle (env.after acts {}).memo).card ≤
      env.project.settings.maxDepth :=
    Nat.le_trans (card_resting_le _) enough
  have around := find_comesAround closed standard member circular bounded
  refine ⟨congrArg Reply.finding around.found, around.uncut, around.asked, ?_⟩
  intro others otherStandard
  have same := find_among closed standard member circular bounded otherStandard
  exact congrArg (fun result => (Reply.finding result.1, result.2)) same

/-- A field that is written from itself, through a method, a constant and a join, and a variable
that is assigned from the way around it. -/
def sundial : Env :=
  ofKinds [.fieldRead .ofInstance "Sundial" "@time" (some 1),
    .fieldWrite .ofInstance "Sundial" "@time" (some 2), .merge [3], .constant "TIME" (some 4),
    .definition { name := "read", owner := "Sundial", result := some 5, body := [5] },
    .explicitReturn (some 0), .localWrite "now" 0 (some 2), .localRead "now" 0 (some 6)]
    { maxDepth := 8 }

theorem sundial_closed : sundial.project.Circle (Finset.range 8) := by
  intro id member
  have bound : id < 8 := Finset.mem_range.mp member
  match id, bound with
  | 0, _ => exact ⟨_, 1, rfl, .fieldRead _ _ _ _, by decide⟩
  | 1, _ => exact ⟨_, 2, rfl, .fieldWrite _ _ _ _, by decide⟩
  | 2, _ => exact ⟨_, 3, rfl, .merge _, by decide⟩
  | 3, _ => exact ⟨_, 4, rfl, .constant _ _, by decide⟩
  | 4, _ => exact ⟨_, 5, rfl, .definition (Or.inr rfl) (by decide) rfl, by decide⟩
  | 5, _ => exact ⟨_, 0, rfl, .explicitReturn _, by decide⟩
  | 6, _ => exact ⟨_, 2, rfl, .localWrite _ _ _, by decide⟩
  | 7, _ => exact ⟨_, 6, rfl, .localRead _ _ rfl, by decide⟩

/-- The variable is found to depend on itself, after the method was asked for and before it. -/
theorem sundial_is_reported :
    (Finset.range 8).card ≤ sundial.project.settings.maxDepth ∧
      (sundial.serve (.infer 7) {}).1 = .finding (.unknown .circularReference) ∧
      (sundial.serve (.infer 7) (sundial.after [.put (.infer 4)] {})).1 =
        .finding (.unknown .circularReference) :=
  ⟨by decide,
    (circles_are_reported sundial_closed (Or.inl rfl) (by decide) [] (by decide)).1,
    (circles_are_reported sundial_closed (Or.inl rfl) (by decide) [.put (.infer 4)]
      (by decide)).1⟩

end Env

end HeuristicTyping
