import HeuristicTyping.Proofs.Registries
import Mathlib.Data.List.Find

/-!
# What moves when a file is built again

A file that is built again takes a new block of numbers, and its registrations go behind those of
other files. This module has what that does to lists: which element has a number, and which
registration answers.
-/

set_option autoImplicit false

namespace HeuristicTyping

/-! ### Numbers in a block -/

/-- The number is one of as many as `size` from `base` on. -/
def InBlock (base size id : Nat) : Prop :=
  base ≤ id ∧ id < base + size

instance (base size id : Nat) : Decidable (InBlock base size id) :=
  inferInstanceAs (Decidable (base ≤ id ∧ id < base + size))

theorem inBlock_add {base size id : Nat} (below : id < size) : InBlock base size (id + base) := by
  unfold InBlock
  omega

theorem exists_of_inBlock {base size id : Nat} (inside : InBlock base size id) :
    ∃ offset, offset < size ∧ id = offset + base := by
  refine ⟨id - base, ?_, ?_⟩ <;> unfold InBlock at inside <;> omega

theorem not_inBlock_of_earlier {base size target other id : Nat} (earlier : base + size ≤ target)
    (inside : InBlock base size id) : ¬ InBlock target other id := by
  unfold InBlock at inside ⊢
  omega

/-- Moves a block of numbers elsewhere and leaves all others as they are. -/
def moveBlock (base size target id : Nat) : Nat :=
  if InBlock base size id then id - base + target else id

theorem moveBlock_own {base size target id : Nat} (below : id < size) :
    moveBlock base size target (id + base) = id + target := by
  rw [moveBlock, if_pos (inBlock_add below), Nat.add_sub_cancel]

theorem moveBlock_other {base size target id : Nat} (outside : ¬ InBlock base size id) :
    moveBlock base size target id = id :=
  if_neg outside

/-- Numbers that are not in the way of the block stay distinct. -/
theorem moveBlock_injective {base size target id other : Nat} (free : ¬ InBlock target size id)
    (otherFree : ¬ InBlock target size other)
    (same : moveBlock base size target id = moveBlock base size target other) : id = other := by
  unfold moveBlock at same
  unfold InBlock at free otherFree
  split at same <;> split at same <;> unfold InBlock at * <;> omega

section Numbered

variable {α : Type} {number : α → Nat} {id base size : Nat} {elements content : List α}
  {mine : α → Bool} {place : α → α}

theorem find?_filter_of_imp {keep : α → Bool}
    (kept : ∀ element ∈ elements, number element = id → keep element = true) :
    (elements.filter keep).find? (fun element => number element == id) =
      elements.find? fun element => number element == id := by
  rw [List.find?_filter]
  apply List.find?_congr
  intro element member
  by_cases same : number element = id
  · simp [same, kept element member same]
  · simp [same]

theorem find?_own (nodup : (elements.map number).Nodup)
    (own : elements.filter mine = content.map place)
    (moved : ∀ element, number (place element) = number element + base)
    (live : ∃ element ∈ content, number element = id) :
    elements.find? (fun element => number element == id + base) =
      (content.find? fun element => number element == id).map place := by
  obtain ⟨element, member, named⟩ := live
  have placed : place element ∈ elements.filter mine := by
    rw [own]
    exact List.mem_map_of_mem member
  obtain ⟨held, chosen⟩ := List.mem_filter.mp placed
  have numbered : number (place element) = id + base := by rw [moved, named]
  have chosenOnly : ∀ other ∈ elements, number other = id + base → mine other = true := by
    intro other among same
    have equal : other = place element :=
      List.inj_on_of_nodup_map nodup among held (same.trans numbered.symm)
    rw [equal]
    exact chosen
  have shifted : (fun element => number element == id + base) ∘ place =
      fun element => number element == id := by
    funext element
    simp [moved]
  calc elements.find? (fun element => number element == id + base)
      = (elements.filter mine).find? (fun element => number element == id + base) :=
        (find?_filter_of_imp chosenOnly).symm
    _ = (content.find? fun element => number element == id).map place := by
        rw [own, List.find?_map, shifted]

theorem inBlock_of_own (own : elements.filter mine = content.map place)
    (moved : ∀ element, number (place element) = number element + base)
    (below : ∀ element ∈ content, number element < size) {element : α}
    (member : element ∈ elements) (chosen : mine element = true) :
    InBlock base size (number element) := by
  have among : element ∈ content.map place := by
    rw [← own]
    exact List.mem_filter.mpr ⟨member, chosen⟩
  obtain ⟨original, held, rfl⟩ := List.mem_map.mp among
  rw [moved]
  exact inBlock_add (below original held)

theorem own_of_inBlock (own : elements.filter mine = content.map place)
    (moved : ∀ element, number (place element) = number element + base)
    (gapless : ∀ id, 0 ≤ id → id < size → ∃ element ∈ content, number element = id)
    (inside : InBlock base size id) :
    ∃ element ∈ elements, mine element = true ∧ number element = id := by
  obtain ⟨offset, below, rfl⟩ := exists_of_inBlock inside
  obtain ⟨element, member, named⟩ := gapless offset (Nat.zero_le _) below
  have placed : place element ∈ elements.filter mine := by
    rw [own]
    exact List.mem_map_of_mem member
  obtain ⟨held, chosen⟩ := List.mem_filter.mp placed
  exact ⟨place element, held, chosen, by rw [moved, named]⟩

theorem find?_others {added : List α} {keep : α → Bool}
    (kept : ∀ element ∈ elements, number element = id → keep element = true)
    (fresh : ∀ element ∈ added, number element ≠ id) :
    (elements.filter keep ++ added).find? (fun element => number element == id) =
      elements.find? fun element => number element == id := by
  have missed : added.find? (fun element => number element == id) = none := by
    rw [List.find?_eq_none]
    intro element member
    simpa using fresh element member
  rw [List.find?_append, missed, Option.or_none]
  exact find?_filter_of_imp kept

end Numbered

/-! ### Registrations that go to the end -/

section Winners

variable {entries own : List Registration} {file : FileId} {move : NodeId → NodeId}

theorem latest_of_moved
    (same : own.map Registration.node =
      (entries.filter fun entry => entry.file == some file).map (move ∘ Registration.node))
    (fixed : ∀ entry ∈ entries, entry.file ≠ some file → move entry.node = entry.node)
    (favoured : ∀ last, entries.getLast? = some last →
      (∃ entry ∈ entries, entry.file = some file) → last.file = some file) :
    (((entries.filter fun entry => entry.file != some file) ++ own).getLast?).map
        Registration.node =
      entries.getLast?.map (move ∘ Registration.node) := by
  -- If the file has a registration, the last one is the file's and stays last; if it has none,
  -- nothing moves.
  by_cases held : ∃ entry ∈ entries, entry.file = some file
  · obtain ⟨before, last, rfl⟩ : ∃ before last, entries = before ++ [last] := by
      obtain ⟨entry, member, _⟩ := held
      exact ⟨_, _, (List.dropLast_append_getLast (List.ne_nil_of_mem member)).symm⟩
    have mine : last.file = some file := favoured last (by simp) held
    have ends : (own.map Registration.node).getLast? = some (move last.node) := by
      rw [same]
      simp [List.filter_append, mine]
    rw [List.getLast?_map, Option.map_eq_some_iff] at ends
    obtain ⟨final, at_end, named⟩ := ends
    simp [List.getLast?_append, at_end, named]
  · have others : ∀ entry ∈ entries, entry.file ≠ some file := fun entry member mine =>
      held ⟨entry, member, mine⟩
    have none : own = [] := by
      have empty : (entries.filter fun entry => entry.file == some file) = [] := by
        rw [List.filter_eq_nil_iff]
        intro entry member
        simpa using others entry member
      rw [empty] at same
      simpa using same
    have all : (entries.filter fun entry => entry.file != some file) = entries := by
      rw [List.filter_eq_self]
      intro entry member
      simpa using others entry member
    rw [none, List.append_nil, all]
    cases last : entries.getLast? with
    | none => rfl
    | some entry =>
        have member := List.mem_of_getLast? last
        simp [fixed entry member (others entry member)]

theorem earliest_of_moved
    (same : own.map Registration.node =
      (entries.filter fun entry => entry.file == some file).map (move ∘ Registration.node))
    (fixed : ∀ entry ∈ entries, entry.file ≠ some file → move entry.node = entry.node)
    (favoured : ∀ first, entries.head? = some first →
      (∃ entry ∈ entries, entry.file ≠ some file) → first.file ≠ some file) :
    (((entries.filter fun entry => entry.file != some file) ++ own).head?).map
        Registration.node =
      entries.head?.map (move ∘ Registration.node) := by
  by_cases held : ∃ entry ∈ entries, entry.file ≠ some file
  · obtain ⟨first, rest, rfl⟩ : ∃ first rest, entries = first :: rest := by
      obtain ⟨entry, member, _⟩ := held
      exact List.exists_cons_of_ne_nil (List.ne_nil_of_mem member)
    have other : first.file ≠ some file := favoured first rfl held
    simp [other, fixed first List.mem_cons_self other]
  · have mine : ∀ entry ∈ entries, entry.file = some file := by
      intro entry member
      by_contra other
      exact held ⟨entry, member, other⟩
    have none : (entries.filter fun entry => entry.file != some file) = [] := by
      rw [List.filter_eq_nil_iff]
      intro entry member
      simpa using mine entry member
    have all : (entries.filter fun entry => entry.file == some file) = entries := by
      rw [List.filter_eq_self]
      intro entry member
      simpa using mine entry member
    rw [all] at same
    rw [none, List.nil_append, ← List.head?_map, same, List.head?_map]

/-- The answer stays the same when the registrations of a file go to the end under new numbers, if
it comes from that file where the latest answers, and from another one where the earliest does. -/
theorem winner_of_moved {precedence : Precedence}
    (same : own.map Registration.node =
      (entries.filter fun entry => entry.file == some file).map (move ∘ Registration.node))
    (fixed : ∀ entry ∈ entries, entry.file ≠ some file → move entry.node = entry.node)
    (favoured : ∀ winner, precedence.winner entries = some winner →
      (∃ entry ∈ entries, entry.file = some file) →
      (∃ entry ∈ entries, entry.file ≠ some file) →
      (winner.file = some file ↔ precedence = .latest)) :
    (precedence.winner ((entries.filter fun entry => entry.file != some file) ++ own)).map
        Registration.node =
      (precedence.winner entries).map (move ∘ Registration.node) := by
  cases precedence with
  | latest =>
      apply latest_of_moved same fixed
      intro last at_end mine
      by_contra other
      have others : ∃ entry ∈ entries, entry.file ≠ some file :=
        ⟨last, List.mem_of_getLast? at_end, other⟩
      exact other ((favoured last at_end mine others).mpr rfl)
  | earliest =>
      apply earliest_of_moved same fixed
      intro first at_start others mine
      have own : ∃ entry ∈ entries, entry.file = some file :=
        ⟨first, List.mem_of_head? at_start, mine⟩
      exact Precedence.noConfusion ((favoured first at_start own others).mp mine)

end Winners

end HeuristicTyping
