import HeuristicTyping.Proofs.Resolver.TypeReferences
import HeuristicTyping.Proofs.Rules.Relisting
import HeuristicTyping.Proofs.Ty.Fields

/-!
# Hash literals read by key

What was written into a hash literal under a symbol is what a call of `[]` with that symbol reads
out of it: the type of the last entry for the key, or `nil` if there is none. The call does not ask
the surroundings for anything. And the order in which a literal lists its entries makes no
difference to anything, as long as no key is repeated.
-/

set_option autoImplicit false

namespace HeuristicTyping

namespace Inquiry

variable {α β : Type} {surroundings : Surroundings} {oracle other : NodeId → Inference}

theorem answer_each (inquire : α → Inquiry β) (elements : List α) :
    (each inquire elements).answer surroundings oracle =
      elements.map fun element => (inquire element).answer surroundings oracle := by
  induction elements with
  | nil => rfl
  | cons element elements ih => simp only [each, answer_bind, answer_pure, ih, List.map_cons]

/-- Two oracles that agree on what an inquiry asks for lead to the same result. -/
theorem answer_congr {may : NodeId → Prop} {post : α → Prop} {inquiry : Inquiry α}
    (meets : inquiry.Meets surroundings may (fun _ => True) post)
    (agree : ∀ id, may id → oracle id = other id) :
    inquiry.answer surroundings oracle = inquiry.answer surroundings other := by
  induction inquiry with
  | done result => rfl
  | consult question next ih => exact ih _ meets
  | infer id next ih =>
      simp only [answer]
      rw [agree id meets.1]
      exact ih _ (meets.2 _ trivial)

/-- The questions that an inquiry puts itself while it is answered. Those that are put to find a
node are not among them. -/
def questions (surroundings : Surroundings) (find : NodeId → Resolution Inference) :
    Inquiry α → Progress → List Question
  | .done _, _ => []
  | .infer id next, progress =>
      (next (find id progress).1).questions surroundings find (find id progress).2
  | .consult question next, progress =>
      question ::
        (next (surroundings.answer question)).questions surroundings find (progress.ask question)

/-- If nothing is noted while nodes are found, then just these questions are noted. -/
theorem run_asked {find : NodeId → Resolution Inference} {inquiry : Inquiry α} {start : Progress}
    (silent : ∀ id moment, inquiry.AsksAt surroundings find start id moment →
      (find id moment).2.asked = moment.asked) :
    (inquiry.run surroundings find start).2.asked =
      (inquiry.questions surroundings find start).reverse ++ start.asked := by
  induction inquiry generalizing start with
  | done result => rfl
  | infer id next ih =>
      have later := ih (find id start).1 fun other moment asked => silent other moment asked.found
      rw [silent id start AsksAt.first] at later
      exact later
  | consult question next ih =>
      have later := ih (surroundings.answer question) fun id moment asked =>
        silent id moment asked.answered
      refine later.trans ?_
      simp [questions, Progress.ask]

end Inquiry

namespace Rule

/-- Entries of a hash literal with symbols for keys. -/
def keyed (written : List (String × NodeId)) : List (HashKey × NodeId) :=
  written.map fun entry => (.symbol entry.1, entry.2)

theorem symbolEntries_keyed (written : List (String × NodeId)) :
    symbolEntries? (keyed written) = some written := by
  induction written with
  | nil => rfl
  | cons entry written ih =>
      have rest : symbolEntries? (keyed (entry :: written)) =
          (symbolEntries? (keyed written)).map (List.cons entry) := rfl
      rw [rest, ih, Option.map_some]

theorem literal_keyed_answer {surroundings : Surroundings} {oracle : NodeId → Inference}
    (type : Ty) {written : List (String × NodeId)} (nonempty : written ≠ []) :
    (literal type (.hash (keyed written))).answer surroundings oracle =
      .literal (.shapeOf (written.map fun entry => (entry.1, (oracle entry.2).type))) := by
  cases written with
  | nil => exact absurd rfl nonempty
  | cons entry written =>
      have listed : literal type (.hash (keyed (entry :: written))) = do
          return .literal (← hash (keyed (entry :: written))) := rfl
      rw [listed, hash, symbolEntries_keyed]
      simp only [Inquiry.answer_bind, Inquiry.answer_pure, Inquiry.answer_each, field,
        Inquiry.answer_typeOf]

end Rule

namespace Call

variable {project : Project}

theorem onValue_of_shape {site : Site} (receiver : NodeId) {fields : List (String × Ty)}
    {key : String} (reads : readsEntry site.call = true)
    (symbol : symbolArgument? project site.call = some key)
    (known : (ofShape fields key).isUnknown = false) :
    ∃ rest, onValue project site receiver = .infer receiver rest ∧
      ∀ inference : Inference, inference.type = .shape fields →
        rest inference = .done (ofShape fields key) := by
  have dispatched : onReceiver project site (.shape fields) =
      pure (some (ofShape fields key)) := by
    unfold onReceiver
    rw [reads, symbol]
  refine ⟨_, rfl, ?_⟩
  rintro ⟨_, reason, provenance⟩ rfl
  change (onReceiver project site (.shape fields) >>= _) = _
  rw [dispatched, Inquiry.pure_bind]
  simp only [known]
  rfl

theorem inquire_of_literal {call : Call} {receiver argument : NodeId} {stored : Ty}
    {value : LiteralValue} (held : project.graph.kind? receiver = some (.literal stored value))
    (received : call.receiver = some receiver) (single : call.arguments = [argument]) :
    inquire project call = .infer argument fun found =>
      onValue project { call, arguments := [found.type] } receiver := by
  unfold inquire
  rw [received, single]
  simp only [typeReference_of_literal held]
  rfl

end Call

/-- A call of `[]` on a hash literal with symbols for keys, with a symbol literal for an argument.
The literal is not empty and has no more different keys than a shape may have. -/
structure Project.ReadsKey (project : Project) (read literal argument : NodeId)
    (written : List (String × NodeId)) (key : String) : Prop where
  subscript : ∃ call : Call, project.graph.kind? read = some (.call call) ∧
    call.method = "[]" ∧ call.receiver = some literal ∧ call.arguments = [argument]
  hash : ∃ type, project.graph.kind? literal = some (.literal type (.hash (Rule.keyed written)))
  symbol : ∃ type, project.graph.kind? argument = some (.literal type (.symbol key))
  nonempty : written ≠ []
  few : (written.map Prod.fst).toFinset.card ≤ Ty.shapeCap

theorem Project.ReadsKey.rule_eq {project : Project} {read literal argument : NodeId}
    {written : List (String × NodeId)} {key : String}
    (reads : project.ReadsKey read literal argument written key) {fields : List (String × Ty)}
    (known : (Call.ofShape fields key).isUnknown = false) :
    ∃ (kind : NodeKind) (rest : Inference → Inference → Inquiry Inference),
      project.graph.kind? read = some kind ∧
      project.rule kind = .infer argument (fun found => .infer literal (rest found)) ∧
      ∀ found inference : Inference, inference.type = .shape fields →
        rest found inference = .done (Call.ofShape fields key) := by
  obtain ⟨call, held, method, received, single⟩ := reads.subscript
  obtain ⟨stored, hash⟩ := reads.hash
  obtain ⟨spelled, symbol⟩ := reads.symbol
  have entry : Call.readsEntry call = true := by simp [Call.readsEntry, method, single]
  have names : Call.symbolArgument? project call = some key := by
    simp [Call.symbolArgument?, single, symbol]
  have read : ∀ found : Inference, ∃ rest,
      Call.onValue project { call, arguments := [found.type] } literal = .infer literal rest ∧
        ∀ inference : Inference, inference.type = .shape fields →
          rest inference = .done (Call.ofShape fields key) :=
    fun found => Call.onValue_of_shape literal entry names known
  choose rest next result using read
  refine ⟨_, rest, held, ?_, result⟩
  rw [Project.rule, Call.inquire_of_literal hash received single]
  exact congrArg (Inquiry.infer argument) (funext next)

namespace Env

variable {env : Env} {rank : NodeId → Nat}

theorem simplified_of_plain (plain : env.surroundings.simplifier = .none) (found : Inference) :
    env.simplified found = found := by
  simp only [simplified, plain, Simplifier.none]

/-- The fields of a hash literal with the fresh types of its values. -/
def fieldsOf (env : Env) (written : List (String × NodeId)) : List (String × Ty) :=
  Ty.sortFields (written.map fun entry => (entry.1, (env.fresh entry.2).type))

theorem lookup_fieldsOf (env : Env) (written : List (String × NodeId)) (key : String) :
    (env.fieldsOf written).lookup key =
      (written.reverse.lookup key).map fun value => (env.fresh value).type := by
  rw [fieldsOf, Ty.lookup_sortFields, ← List.map_reverse]
  induction written.reverse with
  | nil => rfl
  | cons entry entries ih =>
      obtain ⟨name, value⟩ := entry
      simp only [List.map_cons, List.lookup_cons, ih]
      cases key == name <;> rfl

/-! ### Replies without a cut-off -/

/-- The questions that the rule of a node puts itself when a query asks for the node. A rule that is
not run puts none. -/
def ownQuestions (env : Env) (id : NodeId) (progress : Progress) : List Question :=
  match progress.memo.slot id, env.project.graph.get? id, env.project.settings.maxDepth with
  | .notStarted, some node, depth + 1 =>
      (env.project.rule node.kind).questions env.surroundings (env.find depth)
        (progress.set id .inProgress)
  | _, _, _ => []

/-- Where all that the rule asks for is remembered, a query notes the questions that the rule puts
itself, and the one for the simplified type of its result. -/
theorem asked_of_remembered {env : Env} {id : NodeId} {node : Node} {progress : Progress}
    {depth : Nat} (held : progress.memo.slot id = .notStarted)
    (live : env.project.graph.get? id = some node)
    (deep : env.project.settings.maxDepth = depth + 1)
    (remembered : ∀ target moment, (env.project.rule node.kind).AsksAt env.surroundings
      (env.find depth) (progress.set id .inProgress) target moment →
      ∃ inference, moment.memo.slot target = .done inference) :
    (env.serve (.infer id) progress).2.asked =
      .simplify (env.dispatch depth id node progress).1.type ::
        ((env.ownQuestions id progress).reverse ++ progress.asked) := by
  have own : env.ownQuestions id progress =
      (env.project.rule node.kind).questions env.surroundings (env.find depth)
        (progress.set id .inProgress) := by
    unfold ownQuestions
    rw [held, live, deep]
  have noted : (env.dispatch depth id node progress).2.asked =
      (env.ownQuestions id progress).reverse ++ progress.asked := by
    rw [own]
    apply Inquiry.run_asked
    intro target moment asked
    obtain ⟨inference, done⟩ := remembered target moment asked
    rw [env.find_of_done depth done]
  change (env.find env.project.settings.maxDepth id progress).2.asked = _
  rw [deep, env.find_of_live depth held live, ← noted]
  rfl

theorem faithful_empty (env : Env) : env.Faithful {} := fun _ _ => Slot.noConfusion

theorem idle_after (env : Env) (acts : List Act) : (env.after acts {}).Idle :=
  (env.after_grows acts {}).idle Progress.idle_empty

section Ranked

variable (ranked : env.Ranked rank)
include ranked

theorem faithful_after (acts : List Act) : env.Faithful (env.after acts {}) :=
  after_faithful ranked acts Progress.idle_empty env.faithful_empty

/-- Whatever was asked before, a query that meets no cut-off is answered with the fresh finding. -/
theorem reply_eq_fresh (acts : List Act) {id : NodeId}
    (uncut : (env.serve (.infer id) (env.after acts {})).2.cutoffs =
      (env.after acts {}).cutoffs) :
    (env.serve (.infer id) (env.after acts {})).1 = .finding (env.fresh id) := by
  have told := (serve_faithful ranked (env.idle_after acts) (faithful_after ranked acts)
    (.infer id)).2 uncut
  have ruled : env.evaluate ((Query.infer id).inquiry env.project) =
      (env.evaluateNode id).bind fun inference => some (Reply.finding inference) := by
    change env.evaluate (.infer id fun inference => .done (Reply.finding inference)) = _
    simp only [evaluate_infer, evaluate_done]
  rw [ruled, evaluateNode_eq_fresh ranked] at told
  exact (Option.some.inj told).symm

/-! ### What is read -/

variable (plain : env.surroundings.simplifier = .none) {read literal argument : NodeId}
  {written : List (String × NodeId)} {key : String}
  (reads : env.project.ReadsKey read literal argument written key)
include plain reads

theorem type_of_keyed_literal : (env.fresh literal).type = .shape (env.fieldsOf written) := by
  obtain ⟨type, held⟩ := reads.hash
  have few : ((written.map fun entry => (entry.1, (env.fresh entry.2).type)).map
      Prod.fst).toFinset.card ≤ Ty.shapeCap := by
    simpa [Function.comp_def] using reads.few
  rw [fresh_of_kind ranked held, simplified_of_plain plain, Project.rule,
    Rule.literal_keyed_answer type reads.nonempty]
  exact Ty.shapeOf_of_few_keys few

theorem fresh_of_reads (known : (Call.ofShape (env.fieldsOf written) key).isUnknown = false) :
    env.fresh read = Call.ofShape (env.fieldsOf written) key := by
  obtain ⟨kind, rest, held, rule, result⟩ := reads.rule_eq known
  rw [fresh_of_kind ranked held, simplified_of_plain plain, rule]
  simp only [Inquiry.answer]
  rw [result _ _ (type_of_keyed_literal ranked plain reads)]
  rfl

theorem ownQuestions_of_reads (known : (Call.ofShape (env.fieldsOf written) key).isUnknown = false)
    {progress : Progress} (idle : progress.Idle) (faithful : env.Faithful progress)
    (uncut : (env.serve (.infer read) progress).2.cutoffs = progress.cutoffs) :
    env.ownQuestions read progress = [] := by
  unfold ownQuestions
  split
  · rename_i node depth held live deep
    obtain ⟨kind, rest, kept, rule, result⟩ := reads.rule_eq known
    obtain rfl := Option.some.inj ((kind_of_live live).symm.trans kept)
    have asks := rule_asks live
    rw [rule] at asks ⊢
    -- Nothing is cut off while the argument and then the literal are found.
    have run : (env.dispatch depth read node progress).2.cutoffs = progress.cutoffs := by
      change (env.find env.project.settings.maxDepth read progress).2.cutoffs = _ at uncut
      rw [deep, env.find_of_live depth held live] at uncut
      exact uncut
    rw [dispatch, rule] at run
    have later := (Inquiry.uncut_of_run_infer (env.find_cutoffs_le depth) run).2
    have still := (Inquiry.uncut_of_run_infer (env.find_cutoffs_le depth) later).1
    have start := Grows.refl env (progress.set read .inProgress).memo
    have grows := env.find_grows depth argument (progress.set read .inProgress)
    have above : env.Above rank read progress := above_of_idle idle read
    have spelled := find_faithful ranked depth argument (done_of_opened faithful)
      (above_of_asks ranked live above start asks.1)
    have found := (find_faithful ranked depth literal spelled.1
      (above_of_asks ranked live above grows (asks.2 default trivial).1)).2 still
    have typed := type_of_keyed_literal ranked plain reads
    rw [evaluateNode_eq_fresh ranked] at found
    rw [Option.some.inj found] at typed
    simp only [Inquiry.questions]
    rw [result _ _ typed]
    rfl
  · rfl

theorem reply_of_reads (acts : List Act) {inference : Inference}
    (uncut : (env.serve (.infer read) (env.after acts {})).2.cutoffs =
      (env.after acts {}).cutoffs)
    (found : Call.ofShape (env.fieldsOf written) key = inference)
    (known : inference.isUnknown = false) :
    (env.serve (.infer read) (env.after acts {})).1 = .finding inference ∧
      env.ownQuestions read (env.after acts {}) = [] := by
  subst found
  refine ⟨?_, ownQuestions_of_reads ranked plain reads known (env.idle_after acts)
    (faithful_after ranked acts) uncut⟩
  rw [reply_eq_fresh ranked acts uncut, fresh_of_reads ranked plain reads known]

end Ranked

/-! ### The order of the entries -/

theorem fresh_of_dangling {id : NodeId} (gone : env.project.graph.get? id = none) :
    env.fresh id = .unknown (.danglingNode id) := by
  rw [fresh, env.find_of_dangling _ rfl gone]

theorem live_relist (env : Env) (literal : NodeId) (entries : List (HashKey × NodeId))
    (id : NodeId) : ((env.relist literal entries).project.graph.get? id).isSome =
      (env.project.graph.get? id).isSome := by
  simp [Env.relist, Project.relist, Graph.get_relist]

theorem fresh_relist_of_dangling (env : Env) (literal : NodeId)
    (entries : List (HashKey × NodeId)) {id : NodeId}
    (gone : env.project.graph.get? id = none) :
    (env.relist literal entries).fresh id = env.fresh id := by
  have still : (env.relist literal entries).project.graph.get? id = none := by
    simp [Env.relist, Project.relist, Graph.get_relist, gone]
  rw [fresh_of_dangling gone, fresh_of_dangling still]

section Reordered

variable {literal : NodeId} {type : Ty} {written rewritten : List (String × NodeId)}
  (ranked : env.Ranked rank)
  (held : env.project.graph.kind? literal = some (.literal type (.hash (Rule.keyed written))))
  (same : written.Perm rewritten)
include ranked held same

theorem ranked_relist : (env.relist literal (Rule.keyed rewritten)).Ranked rank := by
  intro id target leads live
  rw [live_relist] at live
  exact ranked id target (leadsTo_of_relist (same.map _) held leads) live

theorem fresh_relist_literal (distinct : (written.map Prod.fst).Nodup)
    (asked : ∀ target, env.Asks literal target →
      (env.relist literal (Rule.keyed rewritten)).fresh target = env.fresh target) :
    (env.relist literal (Rule.keyed rewritten)).fresh literal = env.fresh literal := by
  have now : (env.relist literal (Rule.keyed rewritten)).project.graph.kind? literal =
      some (.literal type (.hash (Rule.keyed rewritten))) := by
    change (env.project.graph.relist literal _).kind? literal = _
    rw [Graph.kind_relist_self, held]
    rfl
  rw [fresh_of_kind (ranked_relist ranked held same) now, fresh_of_kind ranked held]
  apply congrArg env.simplified
  by_cases empty : written = []
  · subst empty
    obtain rfl := same.nil_eq
    rfl
  · have filled : rewritten ≠ [] := by
      rintro rfl
      exact empty same.eq_nil
    have values : ∀ entry ∈ rewritten,
        (entry.1, ((env.relist literal (Rule.keyed rewritten)).fresh entry.2).type) =
          (entry.1, (env.fresh entry.2).type) := by
      intro entry listed
      have before : (HashKey.symbol entry.1, entry.2) ∈ Rule.keyed written :=
        List.mem_map_of_mem (same.mem_iff.mpr listed)
      have stored : entry.2 ∈ (NodeKind.literal type (.hash (Rule.keyed written))).edges :=
        List.mem_flatMap.mpr ⟨_, before, List.mem_cons_self⟩
      rw [asked entry.2 (asks_edge held stored fun _ _ => NodeKind.noConfusion)]
    have keys : ((written.map fun entry => (entry.1, (env.fresh entry.2).type)).map
        Prod.fst).Nodup := by
      simpa [Function.comp_def] using distinct
    rw [Project.rule, Project.rule, Rule.literal_keyed_answer type filled,
      Rule.literal_keyed_answer type empty, List.map_congr_left values,
      Ty.shapeOf_congr (same.map _) keys]

/-- Where no key is repeated, the order of the entries makes no difference to any node. -/
theorem fresh_relist (distinct : (written.map Prod.fst).Nodup) (id : NodeId) :
    (env.relist literal (Rule.keyed rewritten)).fresh id = env.fresh id := by
  generalize level : rank id = height
  induction height using Nat.strongRecOn generalizing id with
  | ind height lower =>
      cases live : env.project.graph.get? id with
      | none => exact fresh_relist_of_dangling env literal _ live
      | some node =>
          have asked : ∀ target, env.Asks id target →
              (env.relist literal (Rule.keyed rewritten)).fresh target = env.fresh target := by
            intro target asks
            cases found : env.project.graph.get? target with
            | none => exact fresh_relist_of_dangling env literal _ found
            | some other =>
                have below := rank_lt_of_asks ranked asks (Option.isSome_of_mem found)
                exact lower (rank target) (by omega) target rfl
          by_cases self : id = literal
          · subst self
            exact fresh_relist_literal ranked held same distinct asked
          · have kept : (env.relist literal (Rule.keyed rewritten)).project.graph.kind? id =
                some node.kind :=
              (env.project.graph.kind_relist_of_ne literal _ self).trans (kind_of_live live)
            have rule : (env.relist literal (Rule.keyed rewritten)).project.rule node.kind =
                env.project.rule node.kind := env.project.rule_relist literal _ node.kind
            rw [fresh_of_kind (ranked_relist ranked held same) kept,
              fresh_of_kind ranked (kind_of_live live), rule]
            exact congrArg env.simplified (Inquiry.answer_congr (rule_asks live) asked)

end Reordered

/-- A hash literal gives back what was written into it. A key that it does not list reads as `nil`,
and any other one as what is found for its last entry, if that is known, whatever was asked before;
the rule of the call puts no question. No reply, about whatever node, depends on the order in which
a literal lists its entries, if it lists no key twice, however many there are. -/
theorem hash_literals_give_back_what_was_written {env : Env} {rank : NodeId → Nat}
    (ranked : env.Ranked rank) (plain : env.surroundings.simplifier = .none) :
    (∀ {read literal argument written key},
      env.project.ReadsKey read literal argument written key → ∀ acts : List Act,
      (env.serve (.infer read) (env.after acts {})).2.cutoffs = (env.after acts {}).cutoffs →
      (key ∉ written.map Prod.fst →
        (env.serve (.infer read) (env.after acts {})).1 = .finding
            { type := .nil, reason := .shapeMissingKey key, provenance := .literal } ∧
          env.ownQuestions read (env.after acts {}) = []) ∧
      ∀ value told (others : List Act), written.reverse.lookup key = some value →
        (env.serve (.infer value) (env.after others {})).2.cutoffs =
          (env.after others {}).cutoffs →
        (env.serve (.infer value) (env.after others {})).1 = .finding told →
        told.type ≠ .unknown →
        (env.serve (.infer read) (env.after acts {})).1 = .finding
            { type := told.type, reason := .shapeField key, provenance := .literal } ∧
          env.ownQuestions read (env.after acts {}) = []) ∧
    ∀ {literal type written rewritten},
      env.project.graph.kind? literal = some (.literal type (.hash (Rule.keyed written))) →
      (written.map Prod.fst).Nodup → written.Perm rewritten →
      ∀ id (acts others : List Act),
      (env.serve (.infer id) (env.after acts {})).2.cutoffs = (env.after acts {}).cutoffs →
      ((env.relist literal (Rule.keyed rewritten)).serve (.infer id)
        ((env.relist literal (Rule.keyed rewritten)).after others {})).2.cutoffs =
          ((env.relist literal (Rule.keyed rewritten)).after others {}).cutoffs →
      ((env.relist literal (Rule.keyed rewritten)).serve (.infer id)
        ((env.relist literal (Rule.keyed rewritten)).after others {})).1 =
          (env.serve (.infer id) (env.after acts {})).1 := by
  refine ⟨?_, ?_⟩
  · intro read literal argument written key reads acts uncut
    have fields := lookup_fieldsOf env written key
    refine ⟨?_, ?_⟩
    · intro missing
      have unlisted : written.reverse.lookup key = none := by
        rw [← Option.not_isSome_iff_eq_none, ← Ty.mem_keys_iff_lookup]
        simpa using missing
      rw [unlisted, Option.map_none] at fields
      exact reply_of_reads ranked plain reads acts uncut (by simp only [Call.ofShape, fields]) rfl
    · intro value told others last uncutValue reply typed
      obtain rfl := Reply.finding.inj ((reply_eq_fresh ranked others uncutValue).symm.trans reply)
      rw [last, Option.map_some] at fields
      have known : (env.fresh value).type.isUnknown = false := by
        cases same : (env.fresh value).type with
        | unknown => exact absurd same typed
        | _ => rfl
      exact reply_of_reads ranked plain reads acts uncut (by simp only [Call.ofShape, fields])
        known
  · intro literal type written rewritten held distinct same id acts others uncut uncutOther
    have later := ranked_relist ranked held same
    rw [reply_eq_fresh later others uncutOther, reply_eq_fresh ranked acts uncut,
      fresh_relist ranked held same distinct]

/-- A hash with one key twice, which is read by this key and by one that it lacks. -/
def menu : Env :=
  ofKinds [.literal .integer .plain, .literal .string .plain,
    .literal (.hash .unknown .unknown)
      (.hash (Rule.keyed [("soup", 0), ("bread", 0), ("soup", 1)])),
    .symbol "soup", .symbol "wine",
    .call { method := "[]", receiver := some 2, arguments := [3] },
    .call { method := "[]", receiver := some 2, arguments := [4] },
    .literal (.hash .unknown .unknown) (.hash (Rule.keyed [("tea", 1), ("cake", 0)]))] {}

theorem menu_ranked : menu.Ranked id := by
  intro node target leads _
  cases leads with
  | dependency stored =>
      have lower : ∀ node < 8, ∀ target ∈ menu.project.graph.dependencies node, target < node := by
        decide
      match node, stored with
      | 0, stored | 1, stored | 2, stored | 3, stored | 4, stored | 5, stored | 6, stored
      | 7, stored => exact lower _ (by decide) target stored
      | _ + 8, stored => cases stored
  | writer read registered =>
      match node, read with
      | 0, read | 1, read | 2, read | 3, read | 4, read | 5, read | 6, read | 7, read
      | _ + 8, read => cases read
  | method typeLevel call registered => cases typeLevel <;> cases registered
  | function call registered => cases registered

/-- The soup is what it was written as last, there is no wine, and the hash that is not read may
list its entries the other way around. -/
theorem menu_is_read :
    (menu.serve (.infer 5) {}).1 = .finding
        { type := .string, reason := .shapeField "soup", provenance := .literal } ∧
      (menu.serve (.infer 6) {}).1 = .finding
        { type := .nil, reason := .shapeMissingKey "wine", provenance := .literal } ∧
      ((menu.relist 7 (Rule.keyed [("cake", 0), ("tea", 1)])).serve (.infer 7) {}).1 =
        (menu.serve (.infer 7) {}).1 := by
  have reads := hash_literals_give_back_what_was_written menu_ranked rfl
  have soup : menu.project.ReadsKey 5 2 3 [("soup", 0), ("bread", 0), ("soup", 1)] "soup" :=
    ⟨⟨_, rfl, rfl, rfl, rfl⟩, ⟨_, rfl⟩, ⟨_, rfl⟩, by decide, by decide⟩
  have wine : menu.project.ReadsKey 6 2 4 [("soup", 0), ("bread", 0), ("soup", 1)] "wine" :=
    ⟨⟨_, rfl, rfl, rfl, rfl⟩, ⟨_, rfl⟩, ⟨_, rfl⟩, by decide, by decide⟩
  exact ⟨((reads.1 soup [] rfl).2 1 (.literal .string) [] (by decide) rfl rfl
      (by intro impossible; cases impossible)).1,
    ((reads.1 wine [] rfl).1 (by decide)).1,
    reads.2 (show menu.project.graph.kind? 7 = _ from rfl) (by decide) (List.Perm.swap _ _ _) 7
      [] [] rfl rfl⟩

end Env

end HeuristicTyping
