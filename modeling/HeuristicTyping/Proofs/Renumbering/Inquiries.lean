import HeuristicTyping.Inference.Resolver

/-!
# New numbers for nodes and variables

The numbers of nodes and variables are names and nothing more. A `Renumbering` replaces them in
everything that holds numbers. Two inquiries correspond under a renumbering if they ask for the
same nodes, put the same questions, and go on alike as long as they get the same answers; the only
trace of the numbers in a finding is the number of a dangling node.
-/

set_option autoImplicit false

namespace HeuristicTyping

structure Renumbering where
  node : NodeId → NodeId
  var : VarId → VarId

/-- Leaves all numbers as they are. -/
def Renumbering.identity : Renumbering where
  node id := id
  var id := id

/-! ### Program elements -/

def HashKey.renumber (numbers : Renumbering) : HashKey → HashKey
  | .symbol name => .symbol name
  | .expression node => .expression (numbers.node node)

def LiteralValue.renumber (numbers : Renumbering) : LiteralValue → LiteralValue
  | .plain => .plain
  | .symbol name => .symbol name
  | .array elements => .array (elements.map numbers.node)
  | .hash entries =>
      .hash (entries.map fun entry => (entry.1.renumber numbers, numbers.node entry.2))

def Block.renumber (numbers : Renumbering) (block : Block) : Block where
  params := block.params.map numbers.node
  body := block.body.map numbers.node
  result := block.result.map numbers.node

def Call.renumber (numbers : Renumbering) (call : Call) : Call :=
  { call with
    receiver := call.receiver.map numbers.node
    arguments := call.arguments.map numbers.node
    block := call.block.map (Block.renumber numbers) }

def Definition.renumber (numbers : Renumbering) (method : Definition) : Definition :=
  { method with
    params := method.params.map numbers.node
    result := method.result.map numbers.node
    body := method.body.map numbers.node }

namespace NodeKind

def renumber (numbers : Renumbering) : NodeKind → NodeKind
  | .literal type value => .literal type (value.renumber numbers)
  | .localWrite name var value =>
      .localWrite name (numbers.var var) (value.map numbers.node)
  | .localRead name var write => .localRead name (numbers.var var) (write.map numbers.node)
  | .fieldWrite scope owner name value => .fieldWrite scope owner name (value.map numbers.node)
  | .fieldRead scope owner name write => .fieldRead scope owner name (write.map numbers.node)
  | .param name kind default var =>
      .param name kind (default.map numbers.node) (numbers.var var)
  | .constant name target => .constant name (target.map numbers.node)
  | .call site => .call (site.renumber numbers)
  | .blockParam index site => .blockParam index (numbers.node site)
  | .merge branches => .merge (branches.map numbers.node)
  | .definition method => .definition (method.renumber numbers)
  | .selfReference owner typeLevel => .selfReference owner typeLevel
  | .explicitReturn value => .explicitReturn (value.map numbers.node)

/-- The parameters, if the node is a definition. -/
def params : NodeKind → List NodeId
  | .definition method => method.params
  | _ => []

/-- The variables that a node refers to. -/
def vars : NodeKind → List VarId
  | .localWrite _ var _ | .localRead _ var _ | .param _ _ _ var => [var]
  | _ => []

end NodeKind

/-! ### Findings -/

def Reason.renumber (numbers : Renumbering) : Reason → Reason
  | .danglingNode id => .danglingNode (numbers.node id)
  | reason => reason

def Inference.renumber (numbers : Renumbering) (inference : Inference) : Inference :=
  { inference with reason := inference.reason.renumber numbers }

@[simp] theorem Inference.renumber_type (numbers : Renumbering) (inference : Inference) :
    (inference.renumber numbers).type = inference.type := rfl

@[simp] theorem Inference.renumber_provenance (numbers : Renumbering) (inference : Inference) :
    (inference.renumber numbers).provenance = inference.provenance := rfl

@[simp] theorem Inference.renumber_isUnknown (numbers : Renumbering) (inference : Inference) :
    (inference.renumber numbers).isUnknown = inference.isUnknown := rfl

@[simp] theorem Inference.renumber_identity (inference : Inference) :
    inference.renumber .identity = inference := by
  obtain ⟨type, reason, provenance⟩ := inference
  cases reason <;> rfl

def Slot.renumber (numbers : Renumbering) : Slot → Slot
  | .notStarted => .notStarted
  | .inProgress => .inProgress
  | .done inference => .done (inference.renumber numbers)

/-! ### Inquiries -/

namespace Inquiry

/-- The second inquiry is the first one under new numbers, as far as it asks for nodes `within`;
`Related` says how their results go together. -/
inductive Corresponds (numbers : Renumbering) (within : NodeId → Prop) {α β : Type}
    (Related : α → β → Prop) : Inquiry α → Inquiry β → Prop where
  | done {result : α} {other : β} (related : Related result other) :
      Corresponds numbers within Related (.done result) (.done other)
  | infer {id : NodeId} {next : Inference → Inquiry α} {otherNext : Inference → Inquiry β}
      (asked : within id)
      (onward : ∀ inference, Corresponds numbers within Related (next inference)
        (otherNext (inference.renumber numbers))) :
      Corresponds numbers within Related (.infer id next) (.infer (numbers.node id) otherNext)
  | consult {question : Question} {next : question.Answer → Inquiry α}
      {otherNext : question.Answer → Inquiry β}
      (onward : ∀ answer, Corresponds numbers within Related (next answer) (otherNext answer)) :
      Corresponds numbers within Related (.consult question next) (.consult question otherNext)

section Combinators

variable {α β γ δ : Type} {numbers : Renumbering} {within : NodeId → Prop}

theorem corresponds_bind {Related : α → β → Prop} {Then : γ → δ → Prop} {inquiry : Inquiry α}
    {other : Inquiry β} {next : α → Inquiry γ} {otherNext : β → Inquiry δ}
    (first : Corresponds numbers within Related inquiry other)
    (second : ∀ result otherResult, Related result otherResult →
      Corresponds numbers within Then (next result) (otherNext otherResult)) :
    Corresponds numbers within Then (inquiry >>= next) (other >>= otherNext) := by
  induction first with
  | done related => exact second _ _ related
  | infer asked _ ih => exact .infer asked ih
  | consult _ ih => exact .consult ih

theorem corresponds_inferNode {id : NodeId} (asked : within id) :
    Corresponds numbers within (fun found other => found.renumber numbers = other)
      (inferNode id) (inferNode (numbers.node id)) :=
  .infer asked fun _ => .done rfl

theorem corresponds_typeOf {id : NodeId} (asked : within id) :
    Corresponds numbers within Eq (typeOf id) (typeOf (numbers.node id)) :=
  .infer asked fun _ => .done rfl

theorem corresponds_mono {Related Weaker : α → β → Prop} {inquiry : Inquiry α} {other : Inquiry β}
    (corresponds : Corresponds numbers within Related inquiry other)
    (weaken : ∀ result otherResult, Related result otherResult → Weaker result otherResult) :
    Corresponds numbers within Weaker inquiry other := by
  induction corresponds with
  | done related => exact .done (weaken _ _ related)
  | infer asked _ ih => exact .infer asked ih
  | consult _ ih => exact .consult ih

/-- An inquiry for each element corresponds to one for each changed element. -/
theorem corresponds_each {inquire : α → Inquiry β} {otherInquire : γ → Inquiry δ}
    {change : α → γ} {image : β → δ} {elements : List α}
    (single : ∀ element ∈ elements, Corresponds numbers within
      (fun result other => image result = other) (inquire element)
      (otherInquire (change element))) :
    Corresponds numbers within (fun results others => results.map image = others)
      (each inquire elements) (each otherInquire (elements.map change)) := by
  induction elements with
  | nil => exact .done rfl
  | cons element elements ih =>
      rw [List.map_cons, each, each]
      refine corresponds_bind (single element List.mem_cons_self) ?_
      rintro result _ rfl
      have rest := ih fun later member => single later (List.mem_cons_of_mem _ member)
      refine corresponds_bind rest ?_
      rintro results _ rfl
      exact .done rfl

theorem corresponds_each_same {inquire : α → Inquiry β} {otherInquire : γ → Inquiry β}
    {change : α → γ} {elements : List α}
    (single : ∀ element ∈ elements, Corresponds numbers within Eq (inquire element)
      (otherInquire (change element))) :
    Corresponds numbers within Eq (each inquire elements)
      (each otherInquire (elements.map change)) := by
  have mapped : Corresponds numbers within (fun results others => results.map id = others)
      (each inquire elements) (each otherInquire (elements.map change)) := corresponds_each single
  refine corresponds_mono mapped ?_
  intro results others same
  simpa using same

theorem corresponds_typesOf {ids : List NodeId} (asked : ∀ id ∈ ids, within id) :
    Corresponds numbers within Eq (typesOf ids) (typesOf (ids.map numbers.node)) :=
  corresponds_each_same fun id member => corresponds_typeOf (asked id member)

theorem corresponds_eachSome {inquire : α → Inquiry (Option β)}
    {otherInquire : γ → Inquiry (Option β)} {change : α → γ} {elements : List α}
    (single : ∀ element ∈ elements, Corresponds numbers within Eq (inquire element)
      (otherInquire (change element))) :
    Corresponds numbers within Eq (eachSome inquire elements)
      (eachSome otherInquire (elements.map change)) := by
  refine corresponds_bind (corresponds_each_same single) ?_
  rintro results _ rfl
  exact .done rfl

theorem corresponds_all {test otherTest : α → Inquiry Bool}
    (single : ∀ element, Corresponds numbers within Eq (test element) (otherTest element))
    (elements : List α) :
    Corresponds numbers within Eq (all test elements) (all otherTest elements) := by
  induction elements with
  | nil => exact .done rfl
  | cons element elements ih =>
      rw [all, all]
      refine corresponds_bind (single element) ?_
      rintro passes _ rfl
      cases passes with
      | true => exact ih
      | false => exact .done rfl

theorem corresponds_keep {test otherTest : α → Inquiry Bool}
    (single : ∀ element, Corresponds numbers within Eq (test element) (otherTest element))
    (elements : List α) :
    Corresponds numbers within Eq (keep test elements) (keep otherTest elements) := by
  induction elements with
  | nil => exact .done rfl
  | cons element elements ih =>
      rw [keep, keep]
      refine corresponds_bind (single element) ?_
      rintro passes _ rfl
      refine corresponds_bind ih ?_
      rintro kept _ rfl
      exact .done rfl

/-- Runs of corresponding inquiries have related results and leave related states behind, if that
is so of the nodes that are asked for. -/
theorem run_corresponds {surroundings : Surroundings} {find other : NodeId → Resolution Inference}
    {Related : α → β → Prop} (Mirrors : Progress → Progress → Prop) {inquiry : Inquiry α}
    {otherInquiry : Inquiry β}
    (corresponds : Corresponds numbers within Related inquiry otherInquiry)
    (asking : ∀ first second question, Mirrors first second →
      Mirrors (first.ask question) (second.ask question))
    (finding : ∀ id first second, within id → Mirrors first second →
      (find id first).1.renumber numbers = (other (numbers.node id) second).1 ∧
        Mirrors (find id first).2 (other (numbers.node id) second).2)
    {first second : Progress} (mirrors : Mirrors first second) :
    Related (inquiry.run surroundings find first).1
        (otherInquiry.run surroundings other second).1 ∧
      Mirrors (inquiry.run surroundings find first).2
        (otherInquiry.run surroundings other second).2 := by
  induction corresponds generalizing first second with
  | done related => exact ⟨related, mirrors⟩
  | @infer id next otherNext asked _ ih =>
      obtain ⟨same, later⟩ := finding id first second asked mirrors
      simp only [run]
      rw [← same]
      exact ih _ later
  | consult _ ih => exact ih _ (asking _ _ _ mirrors)

end Combinators

end Inquiry

end HeuristicTyping
