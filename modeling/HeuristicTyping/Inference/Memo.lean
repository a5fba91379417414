import HeuristicTyping.Inference.Basic

/-!
# The memo of findings

A `Memo` remembers what was found for nodes, and which nodes are being worked on. It holds a slot
only for nodes of which one or the other is true.
-/

set_option autoImplicit false

namespace HeuristicTyping

/-- The state of a node in a memo. -/
inductive Slot where
  | notStarted
  | inProgress
  | done (inference : Inference)

/-- The finding in a slot. -/
def Slot.inference? : Slot → Option Inference
  | .done inference => some inference
  | _ => none

/-- The slots of nodes; a node without one was not started. -/
structure Memo where
  slots : List (NodeId × Slot) := []
deriving Inhabited

namespace Memo

/-- The slot of a node. -/
def slot (memo : Memo) (id : NodeId) : Slot :=
  (memo.slots.lookup id).getD .notStarted

/-- What was found for a node. -/
def get? (memo : Memo) (id : NodeId) : Option Inference :=
  (memo.slot id).inference?

/-- Gives up the slot of a node. -/
def erase (memo : Memo) (id : NodeId) : Memo :=
  { slots := memo.slots.filter fun entry => entry.1 != id }

/-- Sets the slot of a node. One that was not started holds no slot. -/
def set (memo : Memo) (id : NodeId) : Slot → Memo
  | .notStarted => memo.erase id
  | slot => { slots := (id, slot) :: (memo.erase id).slots }

/-- The number of findings. -/
def size (memo : Memo) : Nat :=
  memo.slots.countP fun entry => entry.2.inference?.isSome

def isEmpty (memo : Memo) : Bool := memo.size == 0

/-- The number of slots, of findings and of nodes being worked on. -/
def footprint (memo : Memo) : Nat := memo.slots.length

/-! ### Slots after a change -/

/-- Looking up another key is the same with and without the entries of a key. -/
theorem lookup_filter_of_ne (slots : List (NodeId × Slot)) {id other : NodeId}
    (distinct : other ≠ id) :
    (slots.filter fun entry => entry.1 != id).lookup other = slots.lookup other := by
  induction slots with
  | nil => rfl
  | cons entry rest ih =>
      obtain ⟨key, held⟩ := entry
      by_cases erased : key = id
      · subst erased
        have missed : (other == key) = false := by simpa using distinct
        simp [ih, List.lookup_cons, missed]
      · have kept : (key != id) = true := by simpa using erased
        rw [List.filter_cons_of_pos (by simpa using kept)]
        simp only [List.lookup_cons, ih]

/-- The entries without those of a key hold nothing for it. -/
theorem lookup_filter_self (slots : List (NodeId × Slot)) (id : NodeId) :
    (slots.filter fun entry => entry.1 != id).lookup id = none := by
  induction slots with
  | nil => rfl
  | cons entry rest ih =>
      obtain ⟨key, held⟩ := entry
      by_cases erased : key = id
      · simpa [erased] using ih
      · have kept : (key != id) = true := by simpa using erased
        have missed : (id == key) = false := by simpa using Ne.symm erased
        rw [List.filter_cons_of_pos (by simpa using kept)]
        simp only [List.lookup_cons, missed, ih]

theorem slot_erase_self (memo : Memo) (id : NodeId) : (memo.erase id).slot id = .notStarted := by
  simp only [erase, slot, lookup_filter_self, Option.getD_none]

theorem slot_erase_of_ne (memo : Memo) {id other : NodeId} (distinct : other ≠ id) :
    (memo.erase id).slot other = memo.slot other := by
  simp only [erase, slot, lookup_filter_of_ne memo.slots distinct]

@[simp] theorem slot_set_self (memo : Memo) (id : NodeId) (slot : Slot) :
    (memo.set id slot).slot id = slot := by
  cases slot with
  | notStarted => exact memo.slot_erase_self id
  | inProgress => simp [set, Memo.slot]
  | done inference => simp [set, Memo.slot]

@[simp] theorem slot_set_of_ne (memo : Memo) {id other : NodeId} (slot : Slot)
    (distinct : other ≠ id) : (memo.set id slot).slot other = memo.slot other := by
  have erased := memo.slot_erase_of_ne distinct
  have missed : (other == id) = false := by simpa using distinct
  cases slot with
  | notStarted => exact erased
  | inProgress => simpa [set, Memo.slot, List.lookup_cons, missed] using erased
  | done inference => simpa [set, Memo.slot, List.lookup_cons, missed] using erased

end Memo

end HeuristicTyping
