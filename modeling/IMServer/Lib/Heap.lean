import Mathlib.Data.List.Basic

/-!
# Objects that are created and destroyed

Objects live at addresses that are never given out twice; what was destroyed is not found again.
-/

structure Heap (α : Type) where
  cells : List (Option α) := []
deriving DecidableEq

namespace Heap

variable {α : Type} (h : Heap α)

/-- The address of the next object. -/
def next : Nat := h.cells.length

def get (a : Nat) : Option α := (h.cells[a]?).join

def alloc (x : α) : Heap α := ⟨h.cells ++ [some x]⟩

def set (a : Nat) (x : α) : Heap α := ⟨h.cells.set a (some x)⟩

def free (a : Nat) : Heap α := ⟨h.cells.set a none⟩

variable {h}

theorem lt_next {a : Nat} {x : α} (hx : h.get a = some x) : a < h.next := by
  by_contra hge
  rw [get, List.getElem?_eq_none (Nat.le_of_not_lt hge)] at hx
  cases hx

theorem get_alloc (x : α) (a : Nat) : (h.alloc x).get a = if a = h.next then some x else h.get a := by
  unfold get alloc next
  by_cases ha : a = h.cells.length
  · rw [if_pos ha, ha, List.getElem?_concat_length]
    rfl
  · rw [if_neg ha]
    rcases Nat.lt_or_ge a h.cells.length with hlt | hge
    · rw [List.getElem?_append_left hlt]
    · rw [List.getElem?_eq_none (by rw [List.length_append, List.length_singleton]; omega),
        List.getElem?_eq_none hge]

theorem get_set {a : Nat} (ha : a < h.next) (x : α) (b : Nat) :
    (h.set a x).get b = if b = a then some x else h.get b := by
  unfold get set
  by_cases hb : b = a
  · rw [if_pos hb, hb, List.getElem?_set_self ha]
    rfl
  · rw [if_neg hb, List.getElem?_set_ne (Ne.symm hb)]

theorem get_free (a b : Nat) : (h.free a).get b = if b = a then none else h.get b := by
  unfold get free
  by_cases hb : b = a
  · rw [if_pos hb, hb, List.getElem?_set_self']
    cases h.cells[a]? <;> rfl
  · rw [if_neg hb, List.getElem?_set_ne (Ne.symm hb)]

theorem get_of_free {a b : Nat} {x : α} (hx : (h.free a).get b = some x) : h.get b = some x := by
  rw [get_free] at hx
  split at hx
  · cases hx
  · exact hx

@[simp] theorem next_alloc (x : α) : (h.alloc x).next = h.next + 1 := by simp [next, alloc]

@[simp] theorem next_set (a : Nat) (x : α) : (h.set a x).next = h.next := by simp [next, set]

@[simp] theorem next_free (a : Nat) : (h.free a).next = h.next := by simp [next, free]

end Heap
