import HeuristicTyping.Proofs.Resolver.Requests

/-!
# The footprint of a query

A query works on no node but those that the node asked for leads to, step by step: along the
dependencies of the graph, from a field read to the registered writer, from a call to what is
registered under its method. Whatever else the memo holds stays as it was.
-/

set_option autoImplicit false

namespace HeuristicTyping

namespace Env

theorem leads_of_reaches {env : Env} {id other : NodeId} (reaches : Reaches env.Asks id other) :
    Relation.ReflTransGen env.LeadsTo id other := by
  induction reaches with
  | refl => exact Relation.ReflTransGen.refl
  | tail _ asks ih => exact ih.trans (asks_leads asks).to_reflTransGen

/-- The innermost of the nodes in dispatch was asked for by the next one, and so on up to the node
that the query asked for. -/
theorem reaches_of_inDispatch {env : Env} {id : NodeId} {start moment : Progress}
    {chain : List NodeId}
    (inDispatch : env.InDispatch (Inquiry.inferNode id) start chain moment) :
    ∀ other ∈ chain, Reaches env.Asks id other := by
  induction inDispatch with
  | outermost asked held live within =>
      have only : (Inquiry.inferNode id).Meets env.surroundings (fun target => target = id)
          (fun _ => True) fun _ => True := ⟨rfl, fun _ _ => trivial⟩
      obtain rfl := Inquiry.may_of_asksAt only asked
      intro other member
      obtain rfl := List.mem_singleton.mp member
      exact Relation.ReflTransGen.refl
  | @inner innermost outer node outerNode chain opened moment around outerLive asked held live
      within ih =>
      intro other member
      rcases List.mem_cons.mp member with rfl | earlier
      · have asks := Inquiry.may_of_asksAt (rule_asks outerLive) asked
        exact (ih outer List.mem_cons_self).tail asks
      · exact ih other earlier

/-- The steps that `LeadsTo` lists account for all that the resolver works on. A node whose finding
is new to the memo after a query is led to by the node that was asked for, and so is every node
that was in dispatch on the way, also where a cut-off kept its finding out of the memo. All other
slots are as they were. -/
theorem dependencies_account_for_what_is_inferred (env : Env) (progress : Progress)
    (id : NodeId) :
    (∀ other inference, progress.memo.get? other = none →
      (env.resolve (Inquiry.inferNode id) progress).2.memo.get? other = some inference →
      Relation.ReflTransGen env.LeadsTo id other) ∧
    (∀ chain moment, env.InDispatch (Inquiry.inferNode id) progress chain moment →
      ∀ other ∈ chain, Relation.ReflTransGen env.LeadsTo id other) ∧
    ∀ other, ¬ Relation.ReflTransGen env.LeadsTo id other →
      (env.resolve (Inquiry.inferNode id) progress).2.memo.slot other =
        progress.memo.slot other := by
  have frame : ∀ other, ¬ Relation.ReflTransGen env.LeadsTo id other →
      (env.resolve (Inquiry.inferNode id) progress).2.memo.slot other =
        progress.memo.slot other :=
    fun other apart => find_frame (env.along_asks _ id progress) fun reaches =>
      apart (leads_of_reaches reaches)
  refine ⟨?_, ?_, frame⟩
  · intro other inference before after
    by_cases led : Relation.ReflTransGen env.LeadsTo id other
    · exact led
    · rw [Memo.get?, frame other led, ← Memo.get?, before] at after
      cases after
  · intro chain moment inDispatch other member
    exact leads_of_reaches (reaches_of_inDispatch inDispatch other member)

/-- A call of a top-level function that yields a field, which a write elsewhere fills. -/
def postbox : Env :=
  let nodes := ofKinds [.literal .string .plain,
    .fieldWrite .ofInstance "Letter" "sender" (some 0),
    .fieldRead .ofInstance "Letter" "sender" none,
    .definition { name := "sender", owner := "", result := some 2, body := [2] },
    .call { method := "sender" }] {}
  let registries : Registries :=
    { methods := MethodRegistry.registerFunction {} "sender" 3 }
  { nodes with project := { nodes.project with
      registries := (registries.registerField .ofInstance "Letter" "sender" 1).2 } }

/-- The call alone fills the slot of the literal, so it leads to it, by three kinds of steps. -/
theorem postbox_accounts_for_the_literal :
    (postbox.resolve (Inquiry.inferNode 4) {}).2.memo.get? 0 = some (.literal .string) ∧
      Relation.ReflTransGen postbox.LeadsTo 4 0 :=
  ⟨rfl, (dependencies_account_for_what_is_inferred postbox {} 4).1 0 (.literal .string) rfl rfl⟩

end Env

end HeuristicTyping
