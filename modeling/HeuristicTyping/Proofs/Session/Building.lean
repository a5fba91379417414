import HeuristicTyping.Session
import HeuristicTyping.Proofs.Registries

/-!
# What building a file does

`Draft.change?` says once what each step does to a draft, and `built_induct` is the induction over a
whole build. A build whose steps register and record only what was added since its start does the
same whatever the draft held before: `Extends` says that what it adds is what it would have built
on a blank draft with the same counters.
-/

set_option autoImplicit false

namespace HeuristicTyping

/-! ### Graphs -/

attribute [ext] Graph

/-- The numbers of nodes are distinct and were handed out, and so are those of variables. -/
structure Graph.Sound (graph : Graph) : Prop where
  nodes_lt : ∀ node ∈ graph.nodes, node.id < graph.nextNode
  nodes_nodup : (graph.nodes.map Node.id).Nodup
  vars_lt : ∀ var ∈ graph.vars, var.id < graph.nextVar
  vars_nodup : (graph.vars.map Variable.id).Nodup

@[simp] theorem Variable.record_id (var : Variable) (call : CalledMethod) :
    (var.record call).id = var.id := by
  unfold record
  split <;> rfl

@[simp] theorem Variable.record_file (var : Variable) (call : CalledMethod) :
    (var.record call).file = var.file := by
  unfold record
  split <;> rfl

namespace Graph.Sound

variable {graph : Graph}

theorem empty : ({} : Graph).Sound where
  nodes_lt _ member := nomatch member
  nodes_nodup := List.nodup_nil
  vars_lt _ member := nomatch member
  vars_nodup := List.nodup_nil

theorem nodup_snoc {α : Type} {number : α → Nat} {elements : List α} {next : α}
    (nodup : (elements.map number).Nodup)
    (below : ∀ element ∈ elements, number element < number next) :
    ((elements ++ [next]).map number).Nodup := by
  rw [List.map_append, List.map_singleton, List.nodup_append]
  refine ⟨nodup, List.nodup_singleton _, ?_⟩
  intro id held other added same
  obtain ⟨element, member, rfl⟩ := List.mem_map.mp held
  have less := below element member
  rw [same, List.mem_singleton.mp added] at less
  exact Nat.lt_irrefl _ less

theorem add (sound : graph.Sound) (kind : NodeKind) (file : Option FileId)
    (span : Option Span) : (graph.add kind file span).2.Sound where
  nodes_lt node member := by
    rcases List.mem_append.mp member with held | added
    · exact Nat.lt_succ_of_lt (sound.nodes_lt node held)
    · rw [List.mem_singleton.mp added]
      exact Nat.lt_succ_self _
  nodes_nodup := nodup_snoc sound.nodes_nodup sound.nodes_lt
  vars_lt := sound.vars_lt
  vars_nodup := sound.vars_nodup

theorem addVariable (sound : graph.Sound) (name : String) (file : Option FileId) :
    (graph.addVariable name file).2.Sound where
  nodes_lt := sound.nodes_lt
  nodes_nodup := sound.nodes_nodup
  vars_lt var member := by
    rcases List.mem_append.mp member with held | added
    · exact Nat.lt_succ_of_lt (sound.vars_lt var held)
    · rw [List.mem_singleton.mp added]
      exact Nat.lt_succ_self _
  vars_nodup := nodup_snoc sound.vars_nodup sound.vars_lt

theorem recordCall (sound : graph.Sound) (var : VarId) (call : CalledMethod) :
    (graph.recordCall var call).Sound where
  nodes_lt := sound.nodes_lt
  nodes_nodup := sound.nodes_nodup
  vars_lt live member := by
    obtain ⟨before, held, rfl⟩ := List.mem_map.mp member
    have below := sound.vars_lt before held
    change (if before.id = var then before.record call else before).id < graph.nextVar
    split <;> simpa using below
  vars_nodup := by
    have ids : (graph.recordCall var call).vars.map Variable.id = graph.vars.map Variable.id := by
      simp only [Graph.recordCall, List.map_map]
      apply List.map_congr_left
      intro live _
      simp only [Function.comp_apply]
      split <;> simp
    rw [ids]
    exact sound.vars_nodup

theorem removeFile (sound : graph.Sound) (file : FileId) : (graph.removeFile file).2.Sound where
  nodes_lt node member := sound.nodes_lt node (List.mem_of_mem_filter member)
  nodes_nodup := sound.nodes_nodup.sublist (List.filter_sublist.map Node.id)
  vars_lt var member := sound.vars_lt var (List.mem_of_mem_filter member)
  vars_nodup := sound.vars_nodup.sublist (List.filter_sublist.map Variable.id)

end Graph.Sound

/-! ### Steps as changes -/

namespace BuildStep

/-- The node that a step registers. -/
def registered? : BuildStep → Option NodeId
  | .registerMethod node | .registerFunction _ node | .registerField _ _ _ node => some node
  | _ => none

/-- The variable that a step records a call on. -/
def recorded? : BuildStep → Option VarId
  | .recordCall var _ => some var
  | _ => none

/-- The kind of the node that a step adds. -/
def kind? : BuildStep → Option NodeKind
  | .add kind | .addAt _ _ kind => some kind
  | _ => none

def addsNode (step : BuildStep) : Bool :=
  step.kind?.isSome

def addsVariable : BuildStep → Bool
  | .addVariable _ => true
  | _ => false

/-- No span of the step ends before it starts. -/
def Proper : BuildStep → Prop
  | .addAt start stop _ => start ≤ stop
  | _ => True

/-- What the step registers and records on was numbered from the given numbers on. -/
structure Since (nextNode : NodeId) (nextVar : VarId) (step : BuildStep) : Prop where
  registered : ∀ node ∈ step.registered?, nextNode ≤ node
  recorded : ∀ var ∈ step.recorded?, nextVar ≤ var

end BuildStep

namespace Draft

/-- What a step does to a draft. -/
inductive Change where
  | nothing
  | add (kind : NodeKind) (span : Option Span)
  | declare (name : String)
  | record (var : VarId) (call : CalledMethod)
  | enroll (shelf : Shelf) (key : MemberKey) (node : NodeId)

def apply (draft : Draft) : Change → Draft
  | .nothing => draft
  | .add kind span => { draft with graph := (draft.graph.add kind (some draft.file) span).2 }
  | .declare name => { draft with graph := (draft.graph.addVariable name (some draft.file)).2 }
  | .record var call => { draft with graph := draft.graph.recordCall var call }
  | .enroll shelf key node =>
      { draft with registries := draft.registries.enroll shelf key node (some draft.file) }

/-- The change that a step makes; none if the build stops there. -/
def change? (draft : Draft) : BuildStep → Option Change
  | .file | .nextNode | .graphSize => some .nothing
  | .add kind => some (.add kind none)
  | .addAt start stop kind => (Span.between? start stop).map fun span => .add kind (some span)
  | .addVariable name => some (.declare name)
  | .recordCall var call => some (.record var call)
  | .registerMethod node =>
      match draft.graph.kind? node with
      | some (.definition method) => some (.enroll (.methods method.typeLevel)
          { owner := method.owner, name := method.name } node)
      | _ => some .nothing
  | .registerFunction name node =>
      some (.enroll .functions { owner := MethodRegistry.topLevel, name } node)
  | .registerField scope owner name node => some (.enroll (.fields scope) { owner, name } node)

theorem step_eq_change (draft : Draft) (step : BuildStep) :
    (draft.step step).map Prod.snd = (draft.change? step).map draft.apply := by
  cases step with
  | addAt start stop kind =>
      simp only [Draft.step, change?, Option.map_map]
      rfl
  | registerMethod node =>
      simp only [Draft.step, change?]
      cases draft.graph.kind? node with
      | none => rfl
      | some kind => cases kind <;> rfl
  | registerField scope owner name node => cases scope <;> rfl
  | _ => rfl

/-- What a change says about the step that makes it. -/
def Change.MadeBy (step : BuildStep) : Change → Prop
  | .nothing => step.addsNode = false ∧ step.addsVariable = false
  | .add kind _ => step.kind? = some kind ∧ step.addsVariable = false
  | .declare _ => step.addsNode = false ∧ step.addsVariable = true
  | .record var _ => step.recorded? = some var ∧ step.addsNode = false ∧ step.addsVariable = false
  | .enroll _ _ node =>
      step.registered? = some node ∧ step.addsNode = false ∧ step.addsVariable = false

theorem madeBy_of_change {draft : Draft} {step : BuildStep} {change : Change}
    (made : draft.change? step = some change) : change.MadeBy step := by
  cases step with
  | addAt start stop kind =>
      obtain ⟨span, _, rfl⟩ := Option.map_eq_some_iff.mp made
      exact ⟨rfl, rfl⟩
  | registerMethod node =>
      simp only [change?] at made
      split at made
      · cases made
        exact ⟨rfl, rfl, rfl⟩
      · cases made
        exact ⟨rfl, rfl⟩
  | file | nextNode | graphSize | add | addVariable =>
      cases made
      exact ⟨rfl, rfl⟩
  | recordCall | registerFunction | registerField =>
      cases made
      exact ⟨rfl, rfl, rfl⟩

/-- What stands after the steps, also where they stop early. -/
def built (draft : Draft) (steps : List BuildStep) : Draft :=
  (draft.run steps).2

@[simp] theorem built_nil (draft : Draft) : draft.built [] = draft := rfl

theorem built_cons (draft : Draft) (step : BuildStep) (steps : List BuildStep) :
    draft.built (step :: steps) =
      match draft.change? step with
      | none => draft
      | some change => (draft.apply change).built steps := by
  have made := draft.step_eq_change step
  unfold built
  rw [run]
  cases stepped : draft.step step with
  | none =>
      rw [stepped, Option.map_none] at made
      rw [Option.map_eq_none_iff.mp made.symm]
  | some result =>
      obtain ⟨answer, after⟩ := result
      rw [stepped, Option.map_some] at made
      obtain ⟨change, held, rfl⟩ := Option.map_eq_some_iff.mp made.symm
      rw [held]

/-- What every change keeps, a build keeps. -/
theorem built_induct (Holds : Draft → Prop) (steps : List BuildStep)
    (kept : ∀ draft change, ∀ step ∈ steps, draft.change? step = some change → Holds draft →
      Holds (draft.apply change))
    {draft : Draft} (start : Holds draft) : Holds (draft.built steps) := by
  induction steps generalizing draft with
  | nil => exact start
  | cons step steps ih =>
      rw [built_cons]
      cases made : draft.change? step with
      | none => exact start
      | some change =>
          apply ih
          · intro now next later member
            exact kept now next later (List.mem_cons_of_mem _ member)
          · exact kept draft change step List.mem_cons_self made start

theorem built_file (draft : Draft) (steps : List BuildStep) :
    (draft.built steps).file = draft.file := by
  apply built_induct (fun now => now.file = draft.file) steps _ rfl
  intro now change step _ _ same
  cases change <;> exact same

theorem built_sound {draft : Draft} (steps : List BuildStep) (graph : draft.graph.Sound)
    (registries : draft.registries.Sound) :
    (draft.built steps).graph.Sound ∧ (draft.built steps).registries.Sound := by
  apply built_induct (fun now => now.graph.Sound ∧ now.registries.Sound) steps _
    ⟨graph, registries⟩
  rintro now change step _ _ ⟨graph, registries⟩
  cases change with
  | nothing => exact ⟨graph, registries⟩
  | add kind span => exact ⟨graph.add kind _ span, registries⟩
  | declare name => exact ⟨graph.addVariable name _, registries⟩
  | record var call => exact ⟨graph.recordCall var call, registries⟩
  | enroll shelf key node => exact ⟨graph, registries.enroll shelf key node _⟩

/-! ### Files -/

end Draft

/-- All nodes, variables and registrations are of files that are allowed. -/
structure Filed (Allowed : Option FileId → Prop) (graph : Graph) (registries : Registries) :
    Prop where
  nodes : ∀ node ∈ graph.nodes, Allowed node.file
  vars : ∀ var ∈ graph.vars, Allowed var.file
  entries : ∀ shelf key, ∀ entry ∈ registries.entries shelf key, Allowed entry.file

namespace Filed

variable {Allowed : Option FileId → Prop} {graph : Graph} {registries : Registries}

theorem empty (Allowed : Option FileId → Prop) {nextNode : NodeId} {nextVar : VarId} :
    Filed Allowed { nextNode, nextVar } {} where
  nodes _ member := nomatch member
  vars _ member := nomatch member
  entries shelf key entry member := by simp at member

theorem mono {Weaker : Option FileId → Prop} (filed : Filed Allowed graph registries)
    (weaken : ∀ file, Allowed file → Weaker file) : Filed Weaker graph registries where
  nodes node member := weaken _ (filed.nodes node member)
  vars var member := weaken _ (filed.vars var member)
  entries shelf key entry member := weaken _ (filed.entries shelf key entry member)

theorem removeFile (filed : Filed Allowed graph registries) (sound : registries.Sound)
    (file : FileId) : Filed Allowed (graph.removeFile file).2 (registries.removeFile file).2 where
  nodes node member := filed.nodes node (List.mem_of_mem_filter member)
  vars var member := filed.vars var (List.mem_of_mem_filter member)
  entries shelf key entry member := by
    rw [sound.entries_removeFile] at member
    exact filed.entries shelf key entry (List.mem_of_mem_filter member)

end Filed

namespace Draft

theorem filed_apply {Allowed : Option FileId → Prop} {draft : Draft}
    (filed : Filed Allowed draft.graph draft.registries) (own : Allowed (some draft.file))
    (change : Change) :
    Filed Allowed (draft.apply change).graph (draft.apply change).registries := by
  cases change with
  | nothing => exact filed
  | add kind span =>
      refine { filed with nodes := ?_ }
      intro node member
      rcases List.mem_append.mp member with held | added
      · exact filed.nodes node held
      · rw [List.mem_singleton.mp added]
        exact own
  | declare name =>
      refine { filed with vars := ?_ }
      intro var member
      rcases List.mem_append.mp member with held | added
      · exact filed.vars var held
      · rw [List.mem_singleton.mp added]
        exact own
  | record var call =>
      refine { filed with vars := ?_ }
      intro live member
      obtain ⟨before, held, rfl⟩ := List.mem_map.mp member
      split
      · rw [Variable.record_file]
        exact filed.vars before held
      · exact filed.vars before held
  | enroll shelf key node =>
      refine { filed with entries := ?_ }
      intro other wanted entry member
      simp only [apply, Registries.entries_enroll] at member
      rcases List.mem_append.mp member with held | added
      · exact filed.entries other wanted entry held
      · split at added
        · rw [List.mem_singleton.mp added]
          exact own
        · cases added

theorem filed_built {Allowed : Option FileId → Prop} {draft : Draft}
    (filed : Filed Allowed draft.graph draft.registries) (own : Allowed (some draft.file))
    (steps : List BuildStep) :
    Filed Allowed (draft.built steps).graph (draft.built steps).registries := by
  apply (built_induct (fun now => now.file = draft.file ∧ Filed Allowed now.graph now.registries)
    steps _ ⟨rfl, filed⟩).2
  rintro now change step _ _ ⟨same, filed⟩
  refine ⟨?_, filed_apply filed (by rw [same]; exact own) change⟩
  cases change <;> exact same

/-! ### Counters -/

theorem counters_of_change {draft : Draft} {step : BuildStep} {change : Change}
    (made : draft.change? step = some change) :
    (draft.apply change).graph.nextNode = draft.graph.nextNode + step.addsNode.toNat ∧
      (draft.apply change).graph.nextVar = draft.graph.nextVar + step.addsVariable.toNat := by
  have by_step := madeBy_of_change made
  cases change with
  | nothing =>
      obtain ⟨node, var⟩ := by_step
      rw [node, var]
      exact ⟨rfl, rfl⟩
  | add kind span =>
      obtain ⟨node, var⟩ := by_step
      rw [BuildStep.addsNode, node, var]
      exact ⟨rfl, rfl⟩
  | declare name =>
      obtain ⟨node, var⟩ := by_step
      rw [node, var]
      exact ⟨rfl, rfl⟩
  | record var call =>
      obtain ⟨_, node, var⟩ := by_step
      rw [node, var]
      exact ⟨rfl, rfl⟩
  | enroll shelf key id =>
      obtain ⟨_, node, var⟩ := by_step
      rw [node, var]
      exact ⟨rfl, rfl⟩

theorem change_of_proper (draft : Draft) {step : BuildStep} (proper : step.Proper) :
    ∃ change, draft.change? step = some change := by
  cases step with
  | addAt start stop kind =>
      have ordered : start ≤ stop := proper
      simp [change?, Span.between?, ordered]
  | registerMethod node =>
      simp only [change?]
      split <;> exact ⟨_, rfl⟩
  | _ => exact ⟨_, rfl⟩

theorem built_counters (draft : Draft) {steps : List BuildStep}
    (proper : ∀ step ∈ steps, step.Proper) :
    (draft.built steps).graph.nextNode =
        draft.graph.nextNode + steps.countP BuildStep.addsNode ∧
      (draft.built steps).graph.nextVar =
        draft.graph.nextVar + steps.countP BuildStep.addsVariable := by
  induction steps generalizing draft with
  | nil => exact ⟨rfl, rfl⟩
  | cons step steps ih =>
      obtain ⟨change, made⟩ := draft.change_of_proper (proper step List.mem_cons_self)
      obtain ⟨nodes, vars⟩ := counters_of_change made
      obtain ⟨laterNodes, laterVars⟩ := ih (draft.apply change) fun later member =>
        proper later (List.mem_cons_of_mem _ member)
      rw [built_cons, made]
      simp only [laterNodes, laterVars, nodes, vars, List.countP_cons]
      constructor
      · cases step.addsNode <;> simp [Nat.add_comm, Nat.add_left_comm]
      · cases step.addsVariable <;> simp [Nat.add_comm, Nat.add_left_comm]

theorem counters_le (draft : Draft) (steps : List BuildStep) :
    draft.graph.nextNode ≤ (draft.built steps).graph.nextNode ∧
      draft.graph.nextVar ≤ (draft.built steps).graph.nextVar := by
  apply built_induct (fun now => draft.graph.nextNode ≤ now.graph.nextNode ∧
    draft.graph.nextVar ≤ now.graph.nextVar) steps _ ⟨Nat.le_refl _, Nat.le_refl _⟩
  rintro now change step _ made ⟨nodes, vars⟩
  obtain ⟨nextNode, nextVar⟩ := counters_of_change made
  rw [nextNode, nextVar]
  exact ⟨Nat.le_add_right_of_le nodes, Nat.le_add_right_of_le vars⟩

/-! ### Builds that keep to themselves -/

/-- A draft with nothing in it yet, that numbers from the given numbers on. -/
def blank (file : FileId) (nextNode : NodeId) (nextVar : VarId) : Draft where
  file
  graph := { nextNode, nextVar }
  registries := {}

/-- The draft holds what the base holds, followed by what its own build added. -/
structure Extends (base own draft : Draft) : Prop where
  file : draft.file = own.file
  nodes : draft.graph.nodes = base.graph.nodes ++ own.graph.nodes
  vars : draft.graph.vars = base.graph.vars ++ own.graph.vars
  nextNode : draft.graph.nextNode = own.graph.nextNode
  nextVar : draft.graph.nextVar = own.graph.nextVar
  entries : ∀ shelf key, draft.registries.entries shelf key =
    base.registries.entries shelf key ++ own.registries.entries shelf key

namespace Extends

variable {base own draft : Draft} {step : BuildStep} {nextNode : NodeId} {nextVar : VarId}

theorem change_eq (extend : Extends base own draft)
    (below : ∀ node ∈ base.graph.nodes, node.id < nextNode)
    (since : step.Since nextNode nextVar) : draft.change? step = own.change? step := by
  -- Only the registration of a method looks at the graph, and at a node of its own build.
  cases step with
  | registerMethod node =>
      have early : nextNode ≤ node := since.registered node rfl
      have missed : base.graph.nodes.find? (fun held => held.id == node) = none := by
        rw [List.find?_eq_none]
        intro held member same
        have less := below held member
        rw [beq_iff_eq.mp same] at less
        exact Nat.not_le_of_lt less early
      have kind : draft.graph.kind? node = own.graph.kind? node := by
        simp only [Graph.kind?, Graph.get?, extend.nodes, List.find?_append, missed,
          Option.none_or]
      simp only [change?, kind]
  | _ => rfl

theorem recordCall_vars (extend : Extends base own draft)
    (below : ∀ var ∈ base.graph.vars, var.id < nextVar) {var : VarId} (early : nextVar ≤ var)
    (call : CalledMethod) :
    (draft.graph.recordCall var call).vars =
      base.graph.vars ++ (own.graph.recordCall var call).vars := by
  have kept : (base.graph.vars.map fun live =>
      if live.id = var then live.record call else live) = base.graph.vars := by
    nth_rewrite 2 [← List.map_id base.graph.vars]
    apply List.map_congr_left
    intro live member
    have apart : live.id ≠ var := Nat.ne_of_lt (Nat.lt_of_lt_of_le (below live member) early)
    simp [apart]
  simp only [Graph.recordCall, extend.vars, List.map_append, kept]

theorem apply_change (extend : Extends base own draft)
    (below : ∀ var ∈ base.graph.vars, var.id < nextVar)
    (since : step.Since nextNode nextVar) {change : Change}
    (made : own.change? step = some change) :
    Extends base (own.apply change) (draft.apply change) := by
  cases change with
  | nothing => exact extend
  | add kind span =>
      refine { extend with nodes := ?_, nextNode := congrArg (· + 1) extend.nextNode }
      simp [Draft.apply, Graph.add, extend.nodes, extend.nextNode, extend.file]
  | declare name =>
      refine { extend with vars := ?_, nextVar := congrArg (· + 1) extend.nextVar }
      simp [Draft.apply, Graph.addVariable, extend.vars, extend.nextVar, extend.file]
  | record var call =>
      have early := since.recorded var (madeBy_of_change made).1
      exact { extend with vars := extend.recordCall_vars below early call }
  | enroll shelf key node =>
      refine { extend with entries := ?_ }
      intro other wanted
      simp only [Draft.apply, Registries.entries_enroll, extend.entries, extend.file,
        List.append_assoc]

theorem built (extend : Extends base own draft)
    (nodes : ∀ node ∈ base.graph.nodes, node.id < nextNode)
    (vars : ∀ var ∈ base.graph.vars, var.id < nextVar) {steps : List BuildStep}
    (since : ∀ step ∈ steps, step.Since nextNode nextVar) :
    Extends base (own.built steps) (draft.built steps) := by
  induction steps generalizing own draft with
  | nil => exact extend
  | cons step steps ih =>
      have first := since step List.mem_cons_self
      rw [built_cons, built_cons, extend.change_eq nodes first]
      cases made : own.change? step with
      | none => exact extend
      | some change =>
          exact ih (extend.apply_change vars first made) fun later member =>
            since later (List.mem_cons_of_mem _ member)

end Extends

/-- A build that keeps to itself adds what it would have built on a blank draft. -/
theorem built_extends {draft : Draft} (sound : draft.graph.Sound) {steps : List BuildStep}
    (since : ∀ step ∈ steps, step.Since draft.graph.nextNode draft.graph.nextVar) :
    Extends draft ((blank draft.file draft.graph.nextNode draft.graph.nextVar).built steps)
      (draft.built steps) := by
  have start : Extends draft (blank draft.file draft.graph.nextNode draft.graph.nextVar) draft :=
    { file := rfl
      nodes := (List.append_nil _).symm
      vars := (List.append_nil _).symm
      nextNode := rfl
      nextVar := rfl
      entries := fun shelf key => by simp [blank] }
  exact start.built sound.nodes_lt sound.vars_lt since

/-- The numbers in the draft start at the given ones and have no gap. -/
structure Numbered (nextNode : NodeId) (nextVar : VarId) (draft : Draft) : Prop where
  nodes : ∀ node ∈ draft.graph.nodes, nextNode ≤ node.id
  gapless : ∀ id, nextNode ≤ id → id < draft.graph.nextNode →
    ∃ node ∈ draft.graph.nodes, node.id = id
  vars : ∀ var ∈ draft.graph.vars, nextVar ≤ var.id
  gaplessVars : ∀ id, nextVar ≤ id → id < draft.graph.nextVar →
    ∃ var ∈ draft.graph.vars, var.id = id

theorem Numbered.apply_change {nextNode : NodeId} {nextVar : VarId} {draft : Draft}
    (numbered : draft.Numbered nextNode nextVar) (nodes_le : nextNode ≤ draft.graph.nextNode)
    (vars_le : nextVar ≤ draft.graph.nextVar) (change : Change) :
    (draft.apply change).Numbered nextNode nextVar := by
  cases change with
  | nothing => exact numbered
  | add kind span =>
      refine { numbered with nodes := ?_, gapless := ?_ }
      · intro node member
        rcases List.mem_append.mp member with held | added
        · exact numbered.nodes node held
        · rw [List.mem_singleton.mp added]
          exact nodes_le
      · intro id above below
        rcases Nat.lt_succ_iff_lt_or_eq.mp below with earlier | rfl
        · obtain ⟨node, member, named⟩ := numbered.gapless id above earlier
          exact ⟨node, List.mem_append_left _ member, named⟩
        · exact ⟨_, List.mem_append_right _ (List.mem_singleton.mpr rfl), rfl⟩
  | declare name =>
      refine { numbered with vars := ?_, gaplessVars := ?_ }
      · intro var member
        rcases List.mem_append.mp member with held | added
        · exact numbered.vars var held
        · rw [List.mem_singleton.mp added]
          exact vars_le
      · intro id above below
        rcases Nat.lt_succ_iff_lt_or_eq.mp below with earlier | rfl
        · obtain ⟨var, member, named⟩ := numbered.gaplessVars id above earlier
          exact ⟨var, List.mem_append_left _ member, named⟩
        · exact ⟨_, List.mem_append_right _ (List.mem_singleton.mpr rfl), rfl⟩
  | record var call =>
      have kept : ∀ live : Variable,
          (if live.id = var then live.record call else live).id = live.id := by
        intro live
        split <;> simp
      refine { numbered with vars := ?_, gaplessVars := ?_ }
      · intro live member
        obtain ⟨before, held, rfl⟩ := List.mem_map.mp member
        rw [kept]
        exact numbered.vars before held
      · intro id above below
        obtain ⟨live, member, named⟩ := numbered.gaplessVars id above below
        exact ⟨_, List.mem_map_of_mem member, (kept live).trans named⟩
  | enroll shelf key node => exact { numbered with }

theorem numbered_built (file : FileId) (nextNode : NodeId) (nextVar : VarId)
    (steps : List BuildStep) :
    ((blank file nextNode nextVar).built steps).Numbered nextNode nextVar := by
  have start : (blank file nextNode nextVar).Numbered nextNode nextVar :=
    { nodes := fun _ member => nomatch member
      gapless := fun _ above below => absurd below (Nat.not_lt_of_le above)
      vars := fun _ member => nomatch member
      gaplessVars := fun _ above below => absurd below (Nat.not_lt_of_le above) }
  apply (built_induct (fun now => now.Numbered nextNode nextVar ∧ nextNode ≤ now.graph.nextNode ∧
    nextVar ≤ now.graph.nextVar) steps _ ⟨start, Nat.le_refl _, Nat.le_refl _⟩).1
  rintro now change step _ made ⟨numbered, nodes, vars⟩
  obtain ⟨nextNode, nextVar⟩ := counters_of_change made
  refine ⟨numbered.apply_change nodes vars change, ?_, ?_⟩
  · rw [nextNode]
    exact Nat.le_add_right_of_le nodes
  · rw [nextVar]
    exact Nat.le_add_right_of_le vars

/-- All that is built on a blank draft is of its file. -/
theorem filed_blank (file : FileId) (nextNode : NodeId) (nextVar : VarId)
    (steps : List BuildStep) :
    Filed (· = some file) ((blank file nextNode nextVar).built steps).graph
      ((blank file nextNode nextVar).built steps).registries := by
  have start : Filed (· = some file) (blank file nextNode nextVar).graph
      (blank file nextNode nextVar).registries := Filed.empty _
  exact filed_built start rfl steps

/-- What a build registers, its steps name. -/
theorem registered_of_built (draft : Draft) (steps : List BuildStep) (shelf : Shelf)
    (key : MemberKey) : ∀ entry ∈ (draft.built steps).registries.entries shelf key,
      entry ∈ draft.registries.entries shelf key ∨
        ∃ step ∈ steps, step.registered? = some entry.node := by
  apply built_induct (fun now => ∀ entry ∈ now.registries.entries shelf key,
    entry ∈ draft.registries.entries shelf key ∨
      ∃ step ∈ steps, step.registered? = some entry.node) steps _ fun _ held => Or.inl held
  intro now change step among made known
  cases change with
  | enroll other wanted node =>
      intro entry member
      simp only [Draft.apply, Registries.entries_enroll] at member
      rcases List.mem_append.mp member with held | added
      · exact known entry held
      · split at added
        · rw [List.mem_singleton.mp added]
          exact Or.inr ⟨step, among, (madeBy_of_change made).1⟩
        · cases added
  | _ => exact known

end Draft

end HeuristicTyping
