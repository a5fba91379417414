import HeuristicTyping.Inference.Resolver

/-!
# What holds of an inquiry whoever answers

A rule of inference does not know who answers it. What can be said of it all the same is which
nodes it asks for, and what its result is like as long as the answers are of a certain kind.
`Inquiry.Meets` says both; it is computed along the inquiry, so a statement about a rule is proved
once and then holds under every resolver. The second part carries facts about single steps of a
resolver over to the inquiries that it answers, and `Inquiry.AsksAt` says what is asked for in one
run.
-/

set_option autoImplicit false

namespace HeuristicTyping

namespace Inquiry

/-- The inquiry asks only for nodes that it `may` ask for and, as long as every answer is of the
`granted` kind, its result satisfies `post`. The surroundings answer as they do. -/
def Meets {α : Type} (surroundings : Surroundings) (may : NodeId → Prop)
    (granted : Inference → Prop) : Inquiry α → (α → Prop) → Prop
  | .done result, post => post result
  | .infer id next, post =>
      may id ∧ ∀ inference, granted inference →
        (next inference).Meets surroundings may granted post
  | .consult question next, post =>
      (next (surroundings.answer question)).Meets surroundings may granted post

section Conditions

variable {α β : Type} {surroundings : Surroundings} {may : NodeId → Prop}
  {granted : Inference → Prop}

@[simp] theorem meets_pure (result : α) (post : α → Prop) :
    (pure result : Inquiry α).Meets surroundings may granted post ↔ post result := Iff.rfl

@[simp] theorem meets_done (result : α) (post : α → Prop) :
    (Inquiry.done result).Meets surroundings may granted post ↔ post result := Iff.rfl

@[simp] theorem meets_bind (inquiry : Inquiry α) (next : α → Inquiry β) (post : β → Prop) :
    (inquiry >>= next).Meets surroundings may granted post ↔
      inquiry.Meets surroundings may granted fun result =>
        (next result).Meets surroundings may granted post := by
  induction inquiry with
  | done result => exact Iff.rfl
  | infer id rest ih =>
      exact and_congr_right fun _ => forall_congr' fun inference =>
        imp_congr_right fun _ => ih inference
  | consult question rest ih => exact ih (surroundings.answer question)

@[simp] theorem meets_inferNode (id : NodeId) (post : Inference → Prop) :
    (inferNode id).Meets surroundings may granted post ↔
      may id ∧ ∀ inference, granted inference → post inference := Iff.rfl

@[simp] theorem meets_consult (question : Question) (next : question.Answer → Inquiry α)
    (post : α → Prop) :
    (Inquiry.consult question next).Meets surroundings may granted post ↔
      (next (surroundings.answer question)).Meets surroundings may granted post := Iff.rfl

theorem meets_mono {inquiry : Inquiry α} {post weaker : α → Prop}
    (meets : inquiry.Meets surroundings may granted post)
    (weaken : ∀ result, post result → weaker result) :
    inquiry.Meets surroundings may granted weaker := by
  induction inquiry with
  | done result => exact weaken result meets
  | infer id next ih =>
      exact ⟨meets.1, fun inference good => ih inference (meets.2 inference good)⟩
  | consult question next ih => exact ih (surroundings.answer question) meets

theorem meets_each {inquire : α → Inquiry β} {kind : β → Prop} {elements : List α}
    (single : ∀ element ∈ elements,
      (inquire element).Meets surroundings may granted kind) :
    (each inquire elements).Meets surroundings may granted fun results =>
      ∀ result ∈ results, kind result := by
  induction elements with
  | nil =>
      intro result member
      cases member
  | cons element elements ih =>
      have rest := ih fun other member => single other (List.mem_cons_of_mem element member)
      simp only [each, meets_bind, meets_pure]
      apply meets_mono (single element List.mem_cons_self)
      intro first firstKind
      apply meets_mono rest
      intro others othersKind
      exact List.forall_mem_cons.mpr ⟨firstKind, othersKind⟩

theorem meets_eachSome {inquire : α → Inquiry (Option β)} {kind : β → Prop} {elements : List α}
    (single : ∀ element ∈ elements, (inquire element).Meets surroundings may granted fun found =>
      ∀ result ∈ found, kind result) :
    (eachSome inquire elements).Meets surroundings may granted fun results =>
      ∀ result ∈ results, kind result := by
  simp only [eachSome, meets_bind, meets_pure]
  apply meets_mono (meets_each single)
  intro found kinds result member
  obtain ⟨answer, asked, same⟩ := List.mem_filterMap.mp member
  exact kinds answer asked result same

theorem meets_all {test : α → Inquiry Bool} {elements : List α}
    (single : ∀ element ∈ elements, (test element).Meets surroundings may granted fun _ => True) :
    (all test elements).Meets surroundings may granted fun _ => True := by
  induction elements with
  | nil => trivial
  | cons element elements ih =>
      have rest := ih fun other member => single other (List.mem_cons_of_mem element member)
      simp only [all, meets_bind]
      apply meets_mono (single element List.mem_cons_self)
      intro passes _
      split
      · exact rest
      · trivial

theorem meets_keep {test : α → Inquiry Bool} {elements : List α}
    (single : ∀ element ∈ elements, (test element).Meets surroundings may granted fun _ => True) :
    (keep test elements).Meets surroundings may granted fun _ => True := by
  induction elements with
  | nil => trivial
  | cons element elements ih =>
      have rest := ih fun other member => single other (List.mem_cons_of_mem element member)
      simp only [keep, meets_bind]
      apply meets_mono (single element List.mem_cons_self)
      intro passes _
      exact meets_mono rest fun _ _ => trivial

theorem meets_all_eq {test : α → Inquiry Bool} {passes : α → Bool} {elements : List α}
    (single : ∀ element ∈ elements,
      (test element).Meets surroundings may granted fun result => result = passes element) :
    (all test elements).Meets surroundings may granted fun result =>
      result = elements.all passes := by
  induction elements with
  | nil => rfl
  | cons element elements ih =>
      have rest := ih fun other member => single other (List.mem_cons_of_mem element member)
      simp only [all, meets_bind]
      apply meets_mono (single element List.mem_cons_self)
      rintro _ rfl
      cases passed : passes element with
      | true =>
          apply meets_mono rest
          simp [passed]
      | false => simp [passed]

theorem meets_keep_eq {test : α → Inquiry Bool} {passes : α → Bool} {elements : List α}
    (single : ∀ element ∈ elements,
      (test element).Meets surroundings may granted fun result => result = passes element) :
    (keep test elements).Meets surroundings may granted fun kept =>
      kept = elements.filter passes := by
  induction elements with
  | nil => rfl
  | cons element elements ih =>
      have rest := ih fun other member => single other (List.mem_cons_of_mem element member)
      simp only [keep, meets_bind, meets_pure]
      apply meets_mono (single element List.mem_cons_self)
      rintro _ rfl
      apply meets_mono rest
      rintro _ rfl
      rw [List.filter_cons]

theorem meets_narrow {narrower : Inference → Prop} {inquiry : Inquiry α} {post : α → Prop}
    (meets : inquiry.Meets surroundings may granted post)
    (narrow : ∀ inference, narrower inference → granted inference) :
    inquiry.Meets surroundings may narrower post := by
  induction inquiry with
  | done result => exact meets
  | infer id next ih =>
      exact ⟨meets.1, fun inference good => ih inference (meets.2 inference (narrow _ good))⟩
  | consult question next ih => exact ih (surroundings.answer question) meets

theorem meets_trivially (inquiry : Inquiry α) :
    inquiry.Meets surroundings (fun _ => True) (fun _ => True) fun _ => True := by
  induction inquiry with
  | done result => trivial
  | infer id next ih => exact ⟨trivial, fun inference _ => ih inference⟩
  | consult question next ih => exact ih (surroundings.answer question)

theorem meets_unrestricted (inquiry : Inquiry α) :
    inquiry.Meets surroundings (fun _ => True) granted fun _ => True :=
  meets_narrow (meets_trivially inquiry) fun _ _ => trivial

end Conditions

/-! ### Runs -/

section Runs

variable {α : Type} {surroundings : Surroundings} {may : NodeId → Prop}

/-- What every finding keeps, on the nodes that an inquiry asks for, its run keeps. -/
theorem run_meets {find : NodeId → Resolution Inference} {granted : Inference → Prop}
    {post : α → Prop} (Kept : Progress → Prop) {inquiry : Inquiry α}
    (meets : inquiry.Meets surroundings may granted post)
    (asking : ∀ progress question, Kept progress → Kept (progress.ask question))
    (finding : ∀ id progress, may id → Kept progress →
      Kept (find id progress).2 ∧ granted (find id progress).1)
    {progress : Progress} (kept : Kept progress) :
    Kept (inquiry.run surroundings find progress).2 ∧
      post (inquiry.run surroundings find progress).1 := by
  induction inquiry generalizing progress with
  | done result => exact ⟨kept, meets⟩
  | infer id next ih =>
      obtain ⟨later, good⟩ := finding id progress meets.1 kept
      exact ih (find id progress).1 (meets.2 _ good) later
  | consult question next ih =>
      exact ih (surroundings.answer question) meets (asking progress question kept)

/-- What an inquiry that asks for no node yields does not depend on how nodes are found. -/
theorem run_of_meets {post : α → Prop} {inquiry : Inquiry α}
    (meets : inquiry.Meets surroundings (fun _ => False) (fun _ => True) post)
    (find : NodeId → Resolution Inference) (progress : Progress) :
    post (inquiry.run surroundings find progress).1 :=
  (run_meets (fun _ => True) meets (fun _ _ _ => trivial)
    (fun _ _ impossible _ => impossible.elim) trivial).2

theorem run_keeps {find : NodeId → Resolution Inference} (Keeps : Progress → Progress → Prop)
    (same : ∀ progress, Keeps progress progress)
    (chained : ∀ {first second third}, Keeps first second → Keeps second third →
      Keeps first third)
    (asking : ∀ progress question, Keeps progress (progress.ask question))
    (finding : ∀ id progress, Keeps progress (find id progress).2)
    (inquiry : Inquiry α) (progress : Progress) :
    Keeps progress (inquiry.run surroundings find progress).2 := by
  refine (run_meets (Keeps progress) (meets_trivially inquiry) ?_ ?_ (same progress)).1
  · intro later question held
    exact chained held (asking later question)
  · intro id later _ held
    exact ⟨chained held (finding id later), trivial⟩

theorem run_cutoffs_le {find : NodeId → Resolution Inference}
    (rising : ∀ id progress, progress.cutoffs ≤ (find id progress).2.cutoffs)
    (inquiry : Inquiry α) (progress : Progress) :
    progress.cutoffs ≤ (inquiry.run surroundings find progress).2.cutoffs :=
  run_keeps (fun before after => before.cutoffs ≤ after.cutoffs)
    (fun _ => Nat.le_refl _) Nat.le_trans (fun _ _ => Nat.le_refl _) rising inquiry progress

/-- If nothing is cut off while a node is found and what follows is answered, then in neither of
the two. -/
theorem uncut_of_run_infer {find : NodeId → Resolution Inference}
    (rising : ∀ id progress, progress.cutoffs ≤ (find id progress).2.cutoffs)
    {id : NodeId} {next : Inference → Inquiry α} {progress : Progress}
    (uncut : ((Inquiry.infer id next).run surroundings find progress).2.cutoffs =
      progress.cutoffs) :
    (find id progress).2.cutoffs = progress.cutoffs ∧
      ((next (find id progress).1).run surroundings find (find id progress).2).2.cutoffs =
        (find id progress).2.cutoffs := by
  have first := rising id progress
  have second : (find id progress).2.cutoffs ≤
      ((next (find id progress).1).run surroundings find (find id progress).2).2.cutoffs :=
    run_cutoffs_le rising _ _
  simp only [run] at uncut
  omega

/-- What an inquiry yields if the answers are of the granted kind as long as nothing is cut off. -/
theorem run_meets_uncut {find : NodeId → Resolution Inference} {granted : Inference → Prop}
    {post : α → Prop} (Kept : Progress → Prop) {inquiry : Inquiry α}
    (meets : inquiry.Meets surroundings may granted post)
    (asking : ∀ progress question, Kept progress → Kept (progress.ask question))
    (finding : ∀ id progress, Kept progress →
      Kept (find id progress).2 ∧
        ((find id progress).2.cutoffs = progress.cutoffs → granted (find id progress).1))
    (rising : ∀ id progress, progress.cutoffs ≤ (find id progress).2.cutoffs)
    {progress : Progress} (kept : Kept progress)
    (uncut : (inquiry.run surroundings find progress).2.cutoffs = progress.cutoffs) :
    post (inquiry.run surroundings find progress).1 := by
  induction inquiry generalizing progress with
  | done result => exact meets
  | infer id next ih =>
      obtain ⟨early, late⟩ := uncut_of_run_infer rising uncut
      have good := (finding id progress kept).2 early
      exact ih _ (meets.2 _ good) (finding id progress kept).1 late
  | consult question next ih =>
      exact ih (surroundings.answer question) meets (asking progress question kept) uncut

/-! ### What is asked for in a run -/

/-- While an inquiry is answered, from `start` on, it asks for the node `id` at the `moment`. -/
inductive AsksAt (surroundings : Surroundings) (find : NodeId → Resolution Inference) {α : Type} :
    Inquiry α → (start : Progress) → (id : NodeId) → (moment : Progress) → Prop where
  | first {id : NodeId} {next : Inference → Inquiry α} {start : Progress} :
      AsksAt surroundings find (.infer id next) start id start
  | found {id asked : NodeId} {next : Inference → Inquiry α} {start moment : Progress}
      (later : AsksAt surroundings find (next (find id start).1) (find id start).2 asked moment) :
      AsksAt surroundings find (.infer id next) start asked moment
  | answered {question : Question} {asked : NodeId} {next : question.Answer → Inquiry α}
      {start moment : Progress}
      (later : AsksAt surroundings find (next (surroundings.answer question))
        (start.ask question) asked moment) :
      AsksAt surroundings find (.consult question next) start asked moment

theorem may_of_asksAt {find : NodeId → Resolution Inference} {post : α → Prop}
    {inquiry : Inquiry α} {start moment : Progress} {id : NodeId}
    (meets : inquiry.Meets surroundings may (fun _ => True) post)
    (asked : inquiry.AsksAt surroundings find start id moment) : may id := by
  induction asked with
  | first => exact meets.1
  | found later ih => exact ih (meets.2 _ trivial)
  | answered later ih => exact ih meets

/-- What the findings that a run asks for keep, the run keeps, and it holds whenever the run asks
for anything. -/
theorem run_kept {find : NodeId → Resolution Inference} (Kept : Progress → Prop)
    {inquiry : Inquiry α} {start : Progress}
    (asking : ∀ progress question, Kept progress → Kept (progress.ask question))
    (finding : ∀ id moment, inquiry.AsksAt surroundings find start id moment → Kept moment →
      Kept (find id moment).2)
    (kept : Kept start) :
    Kept (inquiry.run surroundings find start).2 ∧
      ∀ id moment, inquiry.AsksAt surroundings find start id moment → Kept moment := by
  induction inquiry generalizing start with
  | done result =>
      refine ⟨kept, fun id moment asked => ?_⟩
      cases asked
  | infer id next ih =>
      have found := finding id start AsksAt.first kept
      obtain ⟨last, between⟩ := ih _ (fun other moment asked => finding other moment asked.found)
        found
      refine ⟨last, fun other moment asked => ?_⟩
      cases asked with
      | first => exact kept
      | found later => exact between other moment later
  | consult question next ih =>
      obtain ⟨last, between⟩ := ih (surroundings.answer question)
        (fun other moment asked => finding other moment asked.answered)
        (asking start question kept)
      refine ⟨last, fun other moment asked => ?_⟩
      cases asked with
      | answered later => exact between other moment later

theorem asksAt_keeps {find : NodeId → Resolution Inference} (Keeps : Progress → Progress → Prop)
    (same : ∀ progress, Keeps progress progress)
    (chained : ∀ {first second third}, Keeps first second → Keeps second third →
      Keeps first third)
    (asking : ∀ progress question, Keeps progress (progress.ask question))
    (finding : ∀ id progress, Keeps progress (find id progress).2)
    {inquiry : Inquiry α} {start moment : Progress} {id : NodeId}
    (asked : inquiry.AsksAt surroundings find start id moment) :
    Keeps start moment ∧ Keeps (find id moment).2 (inquiry.run surroundings find start).2 := by
  induction asked with
  | first => exact ⟨same _, run_keeps Keeps same chained asking finding _ _⟩
  | found later ih => exact ⟨chained (finding _ _) ih.1, ih.2⟩
  | answered later ih => exact ⟨chained (asking _ _) ih.1, ih.2⟩

/-- Two runs of an inquiry go alike if what both of them ask for at one time is found alike. -/
theorem run_alike {find other : NodeId → Resolution Inference}
    (Alike : Progress → Progress → Prop) {inquiry : Inquiry α} {first second : Progress}
    (asking : ∀ early late question, Alike early late →
      Alike (early.ask question) (late.ask question))
    (finding : ∀ id early late, inquiry.AsksAt surroundings find first id early →
      inquiry.AsksAt surroundings other second id late → Alike early late →
      (find id early).1 = (other id late).1 ∧ Alike (find id early).2 (other id late).2)
    (alike : Alike first second) :
    (inquiry.run surroundings find first).1 = (inquiry.run surroundings other second).1 ∧
      Alike (inquiry.run surroundings find first).2
        (inquiry.run surroundings other second).2 := by
  induction inquiry generalizing first second with
  | done result => exact ⟨rfl, alike⟩
  | infer id next ih =>
      obtain ⟨same, later⟩ := finding id first second AsksAt.first AsksAt.first alike
      simp only [run]
      rw [same]
      refine ih (other id second).1 ?_ later
      intro asked early late asks otherAsks
      rw [← same] at asks
      exact finding asked early late asks.found otherAsks.found
  | consult question next ih =>
      refine ih (surroundings.answer question) ?_ (asking first second question alike)
      intro asked early late asks otherAsks
      exact finding asked early late asks.answered otherAsks.answered

/-- Of two runs that go alike, the one asks for nothing that the other does not ask for at the same
time. -/
theorem asksAt_alike {find other : NodeId → Resolution Inference}
    (Alike : Progress → Progress → Prop) {inquiry : Inquiry α} {first second early : Progress}
    (asking : ∀ early late question, Alike early late →
      Alike (early.ask question) (late.ask question))
    (finding : ∀ id early late, inquiry.AsksAt surroundings find first id early →
      inquiry.AsksAt surroundings other second id late → Alike early late →
      (find id early).1 = (other id late).1 ∧ Alike (find id early).2 (other id late).2)
    (alike : Alike first second) {id : NodeId}
    (asked : inquiry.AsksAt surroundings find first id early) :
    ∃ late, inquiry.AsksAt surroundings other second id late ∧ Alike early late := by
  induction asked generalizing second with
  | first => exact ⟨second, AsksAt.first, alike⟩
  | @found id target next start moment later ih =>
      obtain ⟨same, after⟩ := finding id start second AsksAt.first AsksAt.first alike
      rw [same] at ih
      obtain ⟨late, asks, here⟩ := ih
        (fun target early late asks otherAsks =>
          finding target early late (AsksAt.found (same ▸ asks)) otherAsks.found) after
      exact ⟨late, asks.found, here⟩
  | answered later ih =>
      obtain ⟨late, asks, here⟩ := ih
        (fun target early late asks otherAsks =>
          finding target early late asks.answered otherAsks.answered)
        (asking _ _ _ alike)
      exact ⟨late, asks.answered, here⟩

end Runs

end Inquiry

end HeuristicTyping
