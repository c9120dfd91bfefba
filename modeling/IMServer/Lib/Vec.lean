import Mathlib.Data.List.Basic

/-!
# Growable arrays

An array whose elements lie in a block that has room for more, and the pointers to its first
element. Storing behind the last element changes no element while the block has room; a pointer is
good as long as the elements stay in their block.
-/

@[ext] structure Vec (α : Type) where
  /-- where the elements are, `none` while there has been room for none -/
  block : Option Nat := none
  capacity : Nat := 0
  elems : List α := []
  size_le : elems.length ≤ capacity := by decide

namespace Vec

variable {α : Type}

def size (v : Vec α) : Nat := v.elems.length

/-- Room for `n` elements, in the block at `addr` if there is not enough of it yet. -/
def reserve (v : Vec α) (addr n : Nat) : Vec α :=
  if h : v.capacity < n then ⟨some addr, n, v.elems, Nat.le_trans v.size_le (Nat.le_of_lt h)⟩ else v

theorem le_capacity_reserve (v : Vec α) (addr n : Nat) : n ≤ (v.reserve addr n).capacity := by
  unfold reserve
  split
  · exact Nat.le_refl n
  · next h => exact Nat.le_of_not_lt h

@[simp] theorem elems_reserve (v : Vec α) (addr n : Nat) : (v.reserve addr n).elems = v.elems := by
  unfold reserve
  split <;> rfl

def resize (v : Vec α) (addr n : Nat) (x : α) : Vec α where
  block := (v.reserve addr n).block
  capacity := (v.reserve addr n).capacity
  elems := v.elems.take n ++ List.replicate (n - v.size) x
  size_le := by
    refine Nat.le_trans ?_ (le_capacity_reserve v addr n)
    rw [List.length_append, List.length_take, List.length_replicate, size]
    omega

def clear (v : Vec α) : Vec α := { v with elems := [], size_le := Nat.zero_le _ }

/-- A store through the index `i`, `none` if it is not in the block. -/
def modify (v : Vec α) (i : Nat) (f : α → α) : Option (Vec α) :=
  if v.capacity ≤ i then none
  else some { v with elems := v.elems.modify i f, size_le := by rw [List.length_modify]; exact v.size_le }

theorem modify_eq_self {v : Vec α} {i : Nat} {f : α → α} (hi : i < v.capacity) (h : v.elems.modify i f = v.elems) :
    v.modify i f = some v := by
  rw [modify, if_neg (Nat.not_le_of_lt hi)]
  exact congrArg some (Vec.ext rfl rfl h)

def data (v : Vec α) : Option Nat := v.block

/-- `p[i]`, `none` if no element is there. -/
def deref (v : Vec α) (p : Option Nat) (i : Nat) : Option α := if p = v.block then v.elems[i]? else none

/-- The first `n` elements changed, each by what is for its index. -/
def mapFirst (v : Vec α) (n : Nat) (g : Nat → α → α) : Vec α where
  block := v.block
  capacity := v.capacity
  elems := v.elems.mapIdx fun i x => if i < n then g i x else x
  size_le := by rw [List.length_mapIdx]; exact v.size_le

@[simp] theorem size_mapFirst (v : Vec α) (n : Nat) (g : Nat → α → α) : (v.mapFirst n g).size = v.size :=
  List.length_mapIdx

theorem mapFirst_zero (v : Vec α) (g : Nat → α → α) : v.mapFirst 0 g = v := by
  refine Vec.ext rfl rfl (List.ext_getElem? fun i => ?_)
  show (v.elems.mapIdx fun i x => if i < 0 then g i x else x)[i]? = v.elems[i]?
  simp

theorem modify_mapFirst (v : Vec α) (g : Nat → α → α) {n : Nat} (h : n < v.size) :
    (v.mapFirst n g).modify n (g n) = some (v.mapFirst (n + 1) g) := by
  have hcap : ¬ (v.mapFirst n g).capacity ≤ n := Nat.not_le_of_lt (Nat.lt_of_lt_of_le h v.size_le)
  rw [modify, if_neg hcap]
  refine congrArg some (Vec.ext rfl rfl (List.ext_getElem? fun i => ?_))
  show ((v.elems.mapIdx fun i x => if i < n then g i x else x).modify n (g n))[i]? =
    (v.elems.mapIdx fun i x => if i < n + 1 then g i x else x)[i]?
  rw [List.getElem?_modify, List.getElem?_mapIdx, List.getElem?_mapIdx]
  rcases v.elems[i]? with _ | x
  · rfl
  by_cases hin : n = i
  · subst hin
    simp
  · have hiff : i < n + 1 ↔ i < n := by omega
    simp [hin, hiff]

theorem getElem?_mapFirst (v : Vec α) (g : Nat → α → α) (i : Nat) :
    (v.mapFirst v.size g).elems[i]? = v.elems[i]?.map (g i) := by
  show (v.elems.mapIdx fun i x => if i < v.size then g i x else x)[i]? = _
  rw [List.getElem?_mapIdx]
  rcases h : v.elems[i]? with _ | x
  · rfl
  · obtain ⟨hi, -⟩ := List.getElem?_eq_some_iff.1 h
    simp [size, hi]

end Vec
