import HeuristicTyping.Proofs.Resolver.CommonCycles

/-!
# The order of queries

What is found for a node is remembered, so an earlier query may change the answer to a later one. It
cannot if the two enter no cycle at two different nodes.
-/

set_option autoImplicit false

namespace HeuristicTyping

namespace Env

/-- What was asked for first makes no difference to what is asked for next, if the limit covers the
graph and the two enter no cycle at two different nodes. -/
theorem answer_does_not_depend_on_the_order (env : Env)
    (enough : env.project.graph.size ≤ env.project.settings.maxDepth) {first second : NodeId}
    {leads : NodeId → NodeId → Prop}
    (alike : first ≠ second → env.EntersAlike leads first second) :
    (env.resolve (Inquiry.inferNode second) (env.resolve (Inquiry.inferNode first) {}).2).1 =
      (env.resolve (Inquiry.inferNode second) {}).1 := by
  have idle := (env.find_grows env.project.graph.size first {}).idle Progress.idle_empty
  calc (env.find env.project.settings.maxDepth second
        (env.find env.project.settings.maxDepth first {}).2).1
    _ = (env.find env.project.settings.maxDepth second
        (env.find env.project.graph.size first {}).2).1 := by rw [find_of_enough enough]
    _ = (env.find env.project.graph.size second
        (env.find env.project.graph.size first {}).2).1 := by
          rw [find_independent second (Ample.of_idle idle (Nat.le_refl _))
            (Ample.of_idle idle enough)]
    _ = env.fresh second := by
          by_cases same : first = second
          · subst same
            have ample : env.Ample env.project.graph.size ({} : Progress).memo :=
              Ample.of_idle Progress.idle_empty (Nat.le_refl _)
            rw [find_again Progress.idle_empty (find_uncut first ample) (Grows.refl env _)]
            rfl
          · exact (find_second (alike same)).1
    _ = (env.find env.project.settings.maxDepth second {}).1 := by
          rw [find_of_enough enough]
          rfl

/-- A desk and an office are named after a person, whose name is what two joins yield that go round
in a loop. Each of the three has a method for it, and the first two of these call the third. -/
def nameplates : Env :=
  let nodes := ofKinds [.literal .string .plain, .merge [0, 2], .merge [1], .merge [1, 2],
    .definition { name := "name", owner := "Person", result := some 3, body := [3] },
    .literal (.instanceOf "Person") .plain,
    .call { method := "name", receiver := some 5 },
    .definition { name := "name", owner := "Desk", result := some 6, body := [6] },
    .call { method := "name", receiver := some 5 },
    .definition { name := "name", owner := "Office", result := some 8, body := [8] },
    .literal (.instanceOf "Desk") .plain, .literal (.instanceOf "Office") .plain,
    .call { method := "name", receiver := some 10 },
    .call { method := "name", receiver := some 11 }] {}
  let methods := MethodRegistry.register {} "Person" "name" false 4
  let methods := methods.register "Desk" "name" false 7
  { nodes with project := { nodes.project with
      registries := { methods := methods.register "Office" "name" false 9 } } }

/-- The loop is one cluster. Both queries ask for both of its joins, and enter it at the first. -/
theorem nameplates_entersAlike :
    nameplates.EntersAlike (Descends (fun id => if id = 2 then 1 else id) id) 12 13 :=
  @entersAlike_of_clusters nameplates _ _ [12, 13] (by decide) (by decide) 12 13 (by decide)
    (by decide)

theorem nameplates_do_not_depend_on_the_order :
    nameplates.project.graph.size ≤ nameplates.project.settings.maxDepth ∧
      nameplates.EntersAlike (Descends (fun id => if id = 2 then 1 else id) id) 12 13 ∧
      (nameplates.resolve (Inquiry.inferNode 13) {}).1.type = .string ∧
      (nameplates.resolve (Inquiry.inferNode 13)
          (nameplates.resolve (Inquiry.inferNode 12) {}).2).1 =
        (nameplates.resolve (Inquiry.inferNode 13) {}).1 :=
  ⟨by decide, nameplates_entersAlike, rfl,
    answer_does_not_depend_on_the_order nameplates (by decide) fun _ => nameplates_entersAlike⟩

/-- A loop of two joins, each of which has a branch of its own: the one that is asked for while the
other is being worked on is remembered without what it would have got from it. -/
theorem answers_may_depend_on_the_order :
    ¬ ∀ (env : Env) (first second : NodeId),
      env.project.graph.size ≤ env.project.settings.maxDepth →
      ((env.resolve (Inquiry.inferNode second)
        (env.resolve (Inquiry.inferNode first) {}).2).1.type.same
          (env.resolve (Inquiry.inferNode second) {}).1.type) = true := by
  intro independent
  have same := independent (ofKinds [.merge [1, 2], .merge [0, 3], .literal .integer .plain,
    .literal .string .plain] {}) 0 1 (by decide)
  revert same
  decide

end Env

end HeuristicTyping
