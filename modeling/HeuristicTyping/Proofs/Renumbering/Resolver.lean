import HeuristicTyping.Proofs.Renumbering.Rules
import HeuristicTyping.Proofs.Resolver.Slots

/-!
# The resolver under new numbers

Two resolvers work on a project and on what it carries over to. If their memos mirror each other on
the closed part, they go through it in lockstep: each opens and settles the slots that the other
does, and they find the same up to the numbers. With the numbers as they are this says that a
finding depends on nothing but the closed part around its node.
-/

set_option autoImplicit false

namespace HeuristicTyping

/-- Two resolvers stand at the same point of their work on the nodes `within`. -/
structure Progress.Mirrors (numbers : Renumbering) (within : NodeId → Prop)
    (first second : Progress) : Prop where
  cutoffs : second.cutoffs = first.cutoffs
  slots : ∀ {id}, within id →
    second.memo.slot (numbers.node id) = (first.memo.slot id).renumber numbers

namespace Progress.Mirrors

variable {numbers : Renumbering} {within : NodeId → Prop} {first second : Progress}

theorem empty (numbers : Renumbering) (within : NodeId → Prop) :
    Progress.Mirrors numbers within {} {} where
  cutoffs := rfl
  slots _ := rfl

theorem cutOff (mirrors : first.Mirrors numbers within second) :
    first.cutOff.Mirrors numbers within second.cutOff where
  cutoffs := congrArg (· + 1) mirrors.cutoffs
  slots := mirrors.slots

theorem ask (mirrors : first.Mirrors numbers within second) (question : Question) :
    (first.ask question).Mirrors numbers within (second.ask question) where
  cutoffs := mirrors.cutoffs
  slots := mirrors.slots

theorem set (mirrors : first.Mirrors numbers within second)
    (injective : ∀ {id target}, within id → within target →
      numbers.node id = numbers.node target → id = target)
    {id : NodeId} (inside : within id) (slot : Slot) :
    (first.set id slot).Mirrors numbers within
      (second.set (numbers.node id) (slot.renumber numbers)) where
  cutoffs := mirrors.cutoffs
  slots := by
    intro other otherInside
    by_cases same : other = id
    · subst same
      simp
    · have apart : numbers.node other ≠ numbers.node id := fun equal =>
        same (injective otherInside inside equal)
      simpa [same, apart] using mirrors.slots otherInside

end Progress.Mirrors

namespace Env

variable {numbers : Renumbering} {within : NodeId → Prop} {env other : Env}

theorem settle_mirrors (carries : env.project.Carries numbers within other.project)
    (same : other.surroundings = env.surroundings) {id : NodeId} (inside : within id)
    {before after otherBefore otherAfter : Progress}
    (early : before.Mirrors numbers within otherBefore)
    (late : after.Mirrors numbers within otherAfter) (found : Inference) :
    (env.settle id before after found).Mirrors numbers within
      (other.settle (numbers.node id) otherBefore otherAfter (found.renumber numbers)) := by
  have slot : other.settled otherBefore otherAfter (found.renumber numbers) =
      (env.settled before after found).renumber numbers := by
    unfold settled simplified
    rw [early.cutoffs, late.cutoffs, same]
    split <;> rfl
  unfold settle
  rw [slot]
  exact (late.ask (.simplify found.type)).set carries.injective inside _

theorem live_renumber (carries : env.project.Carries numbers within other.project) {id : NodeId}
    {node : Node} (inside : within id) (live : env.project.graph.get? id = some node) :
    ∃ image, other.project.graph.get? (numbers.node id) = some image ∧
      image.kind = node.kind.renumber numbers := by
  have kind := carries.kinds inside
  rw [kind_of_live live] at kind
  exact Option.map_eq_some_iff.mp kind

/-- The rule of a node asks only for nodes within the part, so it runs in step as far as these are
found in step. -/
theorem dispatch_mirrors (carries : env.project.Carries numbers within other.project)
    (same : other.surroundings = env.surroundings) {depth : Nat} {id : NodeId} {node image : Node}
    (inside : within id) (live : env.project.graph.get? id = some node)
    (kind : image.kind = node.kind.renumber numbers)
    (finding : ∀ asked now otherNow, within asked → Progress.Mirrors numbers within now otherNow →
      (env.find depth asked now).1.renumber numbers =
          (other.find depth (numbers.node asked) otherNow).1 ∧
        (env.find depth asked now).2.Mirrors numbers within
          (other.find depth (numbers.node asked) otherNow).2)
    {first second : Progress} (mirrors : first.Mirrors numbers within second) :
    (env.dispatch depth id node first).1.renumber numbers =
        (other.dispatch depth (numbers.node id) image second).1 ∧
      (env.dispatch depth id node first).2.Mirrors numbers within
        (other.dispatch depth (numbers.node id) image second).2 := by
  unfold dispatch
  rw [kind, same]
  exact Inquiry.run_corresponds (Progress.Mirrors numbers within)
    (carries.rule_corresponds inside (kind_of_live live))
    (fun _ _ question step => step.ask question) finding
    (mirrors.set carries.injective inside .inProgress)

/-- What the resolver finds for a node within the part, the other one finds for the renumbered
node, and they stay in step. -/
theorem find_mirrors (carries : env.project.Carries numbers within other.project)
    (same : other.surroundings = env.surroundings) (depth : Nat) {id : NodeId}
    {first second : Progress} (inside : within id) (mirrors : first.Mirrors numbers within second) :
    (env.find depth id first).1.renumber numbers =
        (other.find depth (numbers.node id) second).1 ∧
      (env.find depth id first).2.Mirrors numbers within
        (other.find depth (numbers.node id) second).2 := by
  -- The slots of a node and of its image are in the same state, so both resolvers take the same
  -- case.
  revert inside second
  apply env.find_induct fun depth id first result =>
    ∀ {second}, within id → first.Mirrors numbers within second →
      result.1.renumber numbers = (other.find depth (numbers.node id) second).1 ∧
        result.2.Mirrors numbers within (other.find depth (numbers.node id) second).2
  · intro depth id first inference held second inside mirrors
    have image := mirrors.slots inside
    rw [held] at image
    rw [other.find_of_done depth image]
    exact ⟨rfl, mirrors⟩
  · intro depth id first held second inside mirrors
    have image := mirrors.slots inside
    rw [held] at image
    rw [other.find_of_inProgress depth image]
    exact ⟨rfl, mirrors⟩
  · intro depth id first held gone second inside mirrors
    have image := mirrors.slots inside
    rw [held] at image
    have missing := carries.kinds inside
    simp only [Graph.kind?, gone, Option.map_none, Option.map_eq_none_iff] at missing
    rw [other.find_of_dangling depth image missing]
    exact ⟨rfl, mirrors⟩
  · intro id first node held live second inside mirrors
    have image := mirrors.slots inside
    rw [held] at image
    obtain ⟨otherNode, otherLive, _⟩ := live_renumber carries inside live
    rw [other.find_of_exhausted image otherLive]
    exact ⟨rfl, mirrors.cutOff⟩
  · intro depth id first node held live inner second inside mirrors
    have image := mirrors.slots inside
    rw [held] at image
    obtain ⟨otherNode, otherLive, kind⟩ := live_renumber carries inside live
    obtain ⟨found, later⟩ := dispatch_mirrors carries same inside live kind
      (fun asked now otherNow => inner asked now) mirrors
    rw [other.find_of_live depth image otherLive, ← found]
    refine ⟨?_, settle_mirrors carries same inside mirrors later _⟩
    unfold simplified
    rw [same]
    rfl

/-- A query that starts from an empty memo finds the same under new numbers. -/
theorem resolve_renumber (carries : env.project.Carries numbers within other.project)
    (same : other.surroundings = env.surroundings) {id : NodeId} (inside : within id) :
    (other.resolve (Inquiry.inferNode (numbers.node id)) {}).1 =
      (env.resolve (Inquiry.inferNode id) {}).1.renumber numbers := by
  have mirrors := Progress.Mirrors.empty numbers within
  have found := (find_mirrors carries same env.project.settings.maxDepth inside mirrors).1
  unfold resolve
  rw [carries.settings]
  exact found.symm

end Env

end HeuristicTyping
