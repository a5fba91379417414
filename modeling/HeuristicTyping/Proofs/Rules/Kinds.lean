import HeuristicTyping.Proofs.Rules.Calls

/-!
# What the rules ask for

The rules of all kinds of nodes. `rule_meets` walks through them once: a rule asks for nothing but
what `Env.Asks` lists for its node, and the depth limit never is a reason of its own.
-/

set_option autoImplicit false

namespace HeuristicTyping

namespace Rule

section Node

variable {env : Env} {id : NodeId} {good : Reason → Prop}

theorem follow_meets {surroundings : Surroundings} {may : NodeId → Prop} {target : Option NodeId}
    {otherwise : Reason} (asked : ∀ node ∈ target, may node) (otherwiseGood : good otherwise) :
    (follow target otherwise).Meets surroundings may (good ·.reason) (good ·.reason) := by
  cases target with
  | none => exact otherwiseGood
  | some node => exact ⟨asked node rfl, fun _ handed => handed⟩

theorem symbolEntries_values {entries : List (HashKey × NodeId)} {named : List (String × NodeId)}
    (symbols : symbolEntries? entries = some named) :
    ∀ field ∈ named, field.2 ∈ entries.flatMap NodeKind.entryEdges := by
  induction entries generalizing named with
  | nil =>
      obtain rfl := Option.some.inj symbols
      intro field member
      cases member
  | cons first rest ih =>
      obtain ⟨key, value⟩ := first
      cases key with
      | expression node => cases symbols
      | symbol name =>
          obtain ⟨others, tail, rfl⟩ := Option.map_eq_some_iff.mp symbols
          intro field member
          rw [List.flatMap_cons, List.mem_append]
          rcases List.mem_cons.mp member with rfl | later
          · exact Or.inl List.mem_cons_self
          · exact Or.inr (ih tail field later)

theorem hash_meets {surroundings : Surroundings} {may : NodeId → Prop}
    {granted : Inference → Prop} {entries : List (HashKey × NodeId)}
    (asked : ∀ target ∈ entries.flatMap NodeKind.entryEdges, may target) :
    (hash entries).Meets surroundings may granted fun _ => True := by
  unfold hash
  cases symbols : symbolEntries? entries with
  | some named =>
      dsimp only
      rw [Inquiry.meets_bind]
      have single : ∀ entry ∈ named, (field entry).Meets surroundings may granted
          fun _ => True := by
        intro entry member
        exact ⟨asked _ (symbolEntries_values symbols entry member), fun _ _ => trivial⟩
      exact Inquiry.meets_mono (Inquiry.meets_each single) fun _ _ => trivial
  | none =>
      dsimp only
      rw [Inquiry.meets_bind]
      have single : ∀ pair ∈ entries, (entry pair).Meets surroundings may granted
          fun _ => True := by
        rintro ⟨key, value⟩ member
        have stored : ∀ target ∈ NodeKind.entryEdges (key, value), may target :=
          fun target edge => asked target (List.mem_flatMap.mpr ⟨_, member, edge⟩)
        cases key with
        | symbol name => exact ⟨stored value List.mem_cons_self, fun _ _ => trivial⟩
        | expression node =>
            refine ⟨stored node List.mem_cons_self, fun _ _ => ?_⟩
            exact ⟨stored value (List.mem_cons_of_mem _ List.mem_cons_self), fun _ _ => trivial⟩
      exact Inquiry.meets_mono (Inquiry.meets_each single) fun _ _ => trivial

theorem literal_meets {surroundings : Surroundings} {may : NodeId → Prop} (type : Ty)
    {value : LiteralValue} (own : ∀ reason, reason ≠ .depthLimit → good reason)
    (asked : ∀ target ∈ (NodeKind.literal type value).edges, may target) :
    (literal type value).Meets surroundings may (good ·.reason) (good ·.reason) := by
  unfold literal
  split
  · rw [Inquiry.meets_bind]
    exact Inquiry.meets_mono (Call.typesOf_meets asked) fun _ _ => own _ Reason.noConfusion
  · rw [Inquiry.meets_bind]
    exact Inquiry.meets_mono (hash_meets asked) fun _ _ => own _ Reason.noConfusion
  · exact own _ Reason.noConfusion

theorem guessed_meets {surroundings : Surroundings} {may : NodeId → Prop} (project : Project)
    (own : ∀ reason, reason ≠ .depthLimit → good reason) (calls : List CalledMethod)
    {found : Inference} (foundGood : good found.reason) (keep : Inference → Bool) :
    (do
      let guess ← Duck.guess project calls
      return if keep guess then found else guess : Inquiry Inference).Meets surroundings may
      (good ·.reason) (good ·.reason) := by
  rw [Inquiry.meets_bind]
  apply Inquiry.meets_mono (guess_meets project calls)
  intro guess ownReason
  rw [Inquiry.meets_pure]
  split
  · exact foundGood
  · exact own _ ownReason

theorem localRead_meets {surroundings : Surroundings} {may : NodeId → Prop} (project : Project)
    (own : ∀ reason, reason ≠ .depthLimit → good reason) (name : String) (var : VarId)
    {write : Option NodeId} (asked : ∀ node ∈ write, may node) :
    (localRead project name var write).Meets surroundings may (good ·.reason)
      (good ·.reason) := by
  unfold localRead
  rw [Inquiry.meets_bind]
  apply Inquiry.meets_mono (follow_meets asked (own _ Reason.noConfusion))
  intro written writtenGood
  dsimp only
  split
  · exact writtenGood
  · exact guessed_meets project own _ writtenGood Inference.isUnknown

theorem openParam_meets {surroundings : Surroundings} {may : NodeId → Prop} (project : Project)
    (own : ∀ reason, reason ≠ .depthLimit → good reason) (name : String) (var : VarId)
    {default : Option NodeId} (asked : ∀ node ∈ default, may node) :
    (openParam project name default var).Meets surroundings may (good ·.reason)
      (good ·.reason) := by
  have defaulted : (defaultValue default).Meets surroundings may (good ·.reason) fun found =>
      good (found.getD (.unknown (.untypedParam name))).reason := by
    cases default with
    | none => exact own _ Reason.noConfusion
    | some node => exact ⟨asked node rfl, fun _ handed => handed⟩
  unfold openParam
  rw [Inquiry.meets_bind]
  apply Inquiry.meets_mono defaulted
  intro found foundGood
  dsimp only
  split
  · exact foundGood
  · exact guessed_meets project own _ foundGood fun guess => guess.isUnknown && found.isSome

theorem merge_meets {surroundings : Surroundings} {may : NodeId → Prop}
    (own : ∀ reason, reason ≠ .depthLimit → good reason) {branches : List NodeId}
    (asked : ∀ target ∈ branches, may target) :
    (merge branches).Meets surroundings may (good ·.reason) (good ·.reason) := by
  unfold merge
  split
  · exact own _ Reason.noConfusion
  · exact ⟨asked _ List.mem_cons_self, fun _ handed => handed⟩
  · rw [Inquiry.meets_bind]
    have single : ∀ target ∈ branches, (Inquiry.inferNode target).Meets surroundings may
        (good ·.reason) fun _ => True := by
      intro target member
      exact ⟨asked target member, fun _ _ => trivial⟩
    exact Inquiry.meets_mono (Inquiry.meets_each single) fun _ _ => own _ Reason.noConfusion

theorem definition_meets {surroundings : Surroundings} {may : NodeId → Prop} (project : Project)
    (own : ∀ reason, reason ≠ .depthLimit → good reason) {method : Definition}
    (asked : ∀ node ∈ method.result, may node) :
    (definition project method).Meets surroundings may (good ·.reason) (good ·.reason) := by
  unfold definition
  split
  · exact own _ Reason.noConfusion
  split
  · exact own _ Reason.noConfusion
  · exact follow_meets asked (own _ Reason.noConfusion)

end Node

end Rule

/-- Every rule asks only for what `Env.Asks` lists, and what it finds has the depth limit as its
reason only if an answer had it. -/
theorem rule_meets {env : Env} {id : NodeId} {kind : NodeKind} {good : Reason → Prop}
    (held : env.project.graph.kind? id = some kind)
    (own : ∀ reason, reason ≠ .depthLimit → good reason) :
    (env.project.rule kind).Meets env.surroundings (env.Asks id) (good ·.reason)
      (good ·.reason) := by
  have stored (notParam : ∀ index site, kind ≠ .blockParam index site) :
      ∀ target ∈ kind.edges, env.Asks id target :=
    fun target member => Env.asks_edge held member notParam
  have single {node : Option NodeId} (notParam : ∀ index site, kind ≠ .blockParam index site)
      (edges : kind.edges = node.toList) : ∀ target ∈ node, env.Asks id target := by
    intro target member
    apply stored notParam
    rw [edges]
    exact Option.mem_toList.mpr member
  cases kind with
  | literal type value =>
      exact Rule.literal_meets type own (stored fun _ _ => NodeKind.noConfusion)
  | localWrite name var value =>
      exact Rule.follow_meets (single (fun _ _ => NodeKind.noConfusion) rfl)
        (own _ Reason.noConfusion)
  | localRead name var write =>
      exact Rule.localRead_meets env.project own name var
        (single (fun _ _ => NodeKind.noConfusion) rfl)
  | fieldWrite scope owner name value =>
      exact Rule.follow_meets (single (fun _ _ => NodeKind.noConfusion) rfl)
        (own _ Reason.noConfusion)
  | fieldRead scope owner name write =>
      cases write with
      | some writer =>
          exact ⟨stored (fun _ _ => NodeKind.noConfusion) writer List.mem_cons_self,
            fun _ handed => handed⟩
      | none =>
          simp only [Project.rule, Rule.fieldRead, Inquiry.meets_bind]
          apply Inquiry.meets_mono (find_meets _ owner name)
          intro writer found
          apply Rule.follow_meets _ (own _ Reason.noConfusion)
          intro node member
          exact Env.Asks.step (Env.LeadsTo.writer held (found.symm.trans member))
  | param name paramKind default var =>
      simp only [Project.rule, Rule.param]
      split
      · exact own _ Reason.noConfusion
      · exact Rule.openParam_meets env.project own name var
          (single (fun _ _ => NodeKind.noConfusion) rfl)
  | constant name target =>
      cases target with
      | some target =>
          exact ⟨stored (fun _ _ => NodeKind.noConfusion) target List.mem_cons_self,
            fun _ handed => handed⟩
      | none =>
          simp only [Project.rule, Rule.constant, Inquiry.constantKind?, Inquiry.meets_bind,
            Inquiry.meets_consult, Inquiry.meets_done, Inquiry.meets_pure]
          split <;> exact own _ Reason.noConfusion
  | call site => exact Call.inquire_meets held own
  | blockParam index site =>
      simp only [Project.rule, Rule.blockParam]
      cases owner : env.project.graph.kind? site with
      | none => exact own _ Reason.noConfusion
      | some ownerKind =>
          cases ownerKind with
          | call call =>
              apply Call.inquireBlockParam_meets env.project own index
              intro receiver received
              apply Env.Asks.step
              apply Env.LeadsTo.dependency
              simpa [Graph.dependencies, held, owner] using received
          | _ => exact own _ Reason.noConfusion
  | merge branches => exact Rule.merge_meets own (stored fun _ _ => NodeKind.noConfusion)
  | definition method =>
      exact Rule.definition_meets env.project own
        (single (fun _ _ => NodeKind.noConfusion) rfl)
  | selfReference owner typeLevel => exact own _ Reason.noConfusion
  | explicitReturn value =>
      cases value with
      | none => exact own _ Reason.noConfusion
      | some node =>
          exact ⟨stored (fun _ _ => NodeKind.noConfusion) node List.mem_cons_self,
            fun _ handed => handed⟩

end HeuristicTyping
