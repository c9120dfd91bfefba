import Mathlib.Data.List.Nodup

/-!
# Ordered association lists

A map kept as a list of its entries in increasing order of their keys, the way an ordered map is
iterated. `insert` replaces the entry of its key or puts a new one where the order wants it.
-/

namespace AssocMap

variable {κ α : Type} [DecidableEq κ] [LT κ] [DecidableLT κ]

def find (m : List (κ × α)) (k : κ) : Option α := (m.find? (·.1 = k)).map Prod.snd

def insert (k : κ) (v : α) : List (κ × α) → List (κ × α)
  | [] => [(k, v)]
  | (k', v') :: m =>
    if k < k' then (k, v) :: (k', v') :: m
    else if k = k' then (k, v) :: m
    else (k', v') :: insert k v m

omit [LT κ] [DecidableLT κ] in
theorem find_cons (k k' : κ) (v : α) (m : List (κ × α)) :
    find ((k, v) :: m) k' = if k = k' then some v else find m k' := by
  unfold find
  rw [List.find?_cons]
  by_cases h : k = k' <;> simp [h]

theorem find_insert (k k' : κ) (v : α) (m : List (κ × α)) :
    find (insert k v m) k' = if k = k' then some v else find m k' := by
  induction m with
  | nil => rw [insert, find_cons]
  | cons e m ih =>
    obtain ⟨k₁, v₁⟩ := e
    rw [insert]
    split
    · rw [find_cons]
    · split
      · next h =>
        subst h
        rw [find_cons, find_cons]
        by_cases hk : k = k' <;> simp [hk]
      · next h =>
        rw [find_cons, find_cons, ih]
        by_cases hk : k₁ = k'
        · subst hk
          simp [h]
        · simp [hk]

/-- A key that is new: one more entry. -/
theorem insert_perm {k : κ} {m : List (κ × α)} (h : k ∉ m.map Prod.fst) (v : α) :
    (insert k v m).Perm ((k, v) :: m) := by
  induction m with
  | nil => exact List.Perm.refl _
  | cons e m ih =>
    obtain ⟨k', v'⟩ := e
    rw [List.map_cons, List.mem_cons, not_or] at h
    rw [insert]
    split
    · exact List.Perm.refl _
    · rw [if_neg h.1]
      exact ((ih h.2).cons _).trans (List.Perm.swap _ _ _)

theorem map_insert {β : Type} (f : α → β) (k : κ) (v : α) (m : List (κ × α)) :
    (insert k v m).map (Prod.map id f) = insert k (f v) (m.map (Prod.map id f)) := by
  induction m with
  | nil => rfl
  | cons e m ih =>
    obtain ⟨k', v'⟩ := e
    rw [List.map_cons, Prod.map_apply, id_eq, insert, insert]
    by_cases hlt : k < k'
    · rw [if_pos hlt, if_pos hlt]
      rfl
    · rw [if_neg hlt, if_neg hlt]
      by_cases heq : k = k'
      · rw [if_pos heq, if_pos heq]
        rfl
      · rw [if_neg heq, if_neg heq, List.map_cons, ih]
        rfl

/-! ### In order -/

def Sorted (m : List (κ × α)) : Prop := m.Pairwise fun e e' => e.1 < e'.1

theorem mem_insert {k : κ} {v : α} {m : List (κ × α)} {e : κ × α} (h : e ∈ insert k v m) : e = (k, v) ∨ e ∈ m := by
  induction m with
  | nil => exact .inl (List.mem_singleton.1 h)
  | cons e' m ih =>
    rw [insert] at h
    split at h
    · exact List.mem_cons.1 h
    · split at h
      · exact (List.mem_cons.1 h).imp_right (List.mem_cons_of_mem _)
      · rcases List.mem_cons.1 h with rfl | h
        · exact .inr (List.mem_cons_self ..)
        · exact (ih h).imp_right (List.mem_cons_of_mem _)

theorem sorted_insert [IsTrans κ (· < ·)] [Std.Trichotomous (α := κ) (· < ·)] {m : List (κ × α)} (h : Sorted m)
    (k : κ) (v : α) : Sorted (insert k v m) := by
  induction m with
  | nil => exact List.pairwise_singleton _ _
  | cons e m ih =>
    obtain ⟨k', v'⟩ := e
    obtain ⟨hhead, htail⟩ := List.pairwise_cons.1 h
    rw [insert]
    split
    · next hlt =>
      refine List.pairwise_cons.2 ⟨fun e he => ?_, h⟩
      rcases List.mem_cons.1 he with rfl | he
      · exact hlt
      · exact IsTrans.trans _ _ _ hlt (hhead e he)
    · next hlt =>
      split
      · next heq =>
        subst heq
        exact List.pairwise_cons.2 ⟨hhead, htail⟩
      · next hne =>
        refine List.pairwise_cons.2 ⟨fun e he => ?_, ih htail⟩
        rcases mem_insert he with rfl | he
        · exact ((Std.lt_trichotomy k k').resolve_left hlt).resolve_left hne
        · exact hhead e he

/-- A key behind all others goes to the end. -/
theorem insert_last [Std.Asymm (α := κ) (· < ·)] {k : κ} {m : List (κ × α)} (h : ∀ e ∈ m, e.1 < k) (v : α) :
    insert k v m = m ++ [(k, v)] := by
  induction m with
  | nil => rfl
  | cons e m ih =>
    have hlt := h e (List.mem_cons_self ..)
    have hne : k ≠ e.1 := by
      rintro rfl
      exact Std.Asymm.asymm _ _ hlt hlt
    rw [insert, if_neg (Std.Asymm.asymm _ _ hlt), if_neg hne, ih fun e he => h e (List.mem_cons_of_mem _ he)]
    rfl

/-- Entries that are in order are put in one after the other as they are. -/
theorem foldl_insert_sorted [Std.Asymm (α := κ) (· < ·)] {m es : List (κ × α)} (h : Sorted (m ++ es)) :
    es.foldl (fun m e => insert e.1 e.2 m) m = m ++ es := by
  induction es generalizing m with
  | nil => rw [List.append_nil]; rfl
  | cons e es ih =>
    obtain ⟨-, -, hcross⟩ := List.pairwise_append.1 h
    have hlast : insert e.1 e.2 m = m ++ [e] := insert_last (fun x hx => hcross x hx e (List.mem_cons_self ..)) e.2
    have happ : m ++ e :: es = m ++ [e] ++ es := by rw [List.append_assoc]; rfl
    rw [List.foldl_cons, hlast, happ]
    exact ih (happ ▸ h)

theorem sorted_foldl_insert [IsTrans κ (· < ·)] [Std.Trichotomous (α := κ) (· < ·)] {m : List (κ × α)} (h : Sorted m)
    (es : List (κ × α)) : Sorted (es.foldl (fun m e => insert e.1 e.2 m) m) := by
  induction es generalizing m with
  | nil => exact h
  | cons e es ih => exact ih (sorted_insert h _ _)

theorem mem_foldl_insert {m es : List (κ × α)} {e : κ × α} (h : e ∈ es.foldl (fun m e => insert e.1 e.2 m) m) :
    e ∈ m ∨ e ∈ es := by
  induction es generalizing m with
  | nil => exact .inl h
  | cons e' es ih =>
    rcases ih h with h | h
    · exact (mem_insert h).elim (fun he => .inr (he ▸ List.mem_cons_self ..)) .inl
    · exact .inr (List.mem_cons_of_mem _ h)

/-- Of entries with different keys each is found. -/
theorem find_foldl_insert {es : List (κ × α)} (h : (es.map Prod.fst).Nodup) (m : List (κ × α)) {e : κ × α} (he : e ∈ es) :
    find (es.foldl (fun m e => insert e.1 e.2 m) m) e.1 = some e.2 := by
  have hother : ∀ (es m : List (κ × α)) (k : κ), k ∉ es.map Prod.fst →
      find (es.foldl (fun m e => insert e.1 e.2 m) m) k = find m k := by
    intro es
    induction es with
    | nil => exact fun _ _ _ => rfl
    | cons e es ih =>
      intro m k hk
      rw [List.map_cons, List.mem_cons, not_or] at hk
      rw [List.foldl_cons, ih _ _ hk.2, find_insert, if_neg (Ne.symm hk.1)]
  induction es generalizing m with
  | nil => cases he
  | cons e' es ih =>
    rw [List.map_cons, List.nodup_cons] at h
    rcases List.mem_cons.1 he with rfl | he
    · rw [List.foldl_cons, hother _ _ _ h.1, find_insert, if_pos rfl]
    · exact ih h.2 _ he

/-! ### Entries by their keys -/

section
omit [LT κ] [DecidableLT κ]
variable {m : List (κ × α)} {k : κ}

def erase (m : List (κ × α)) (k : κ) : List (κ × α) := m.filter (·.1 ≠ k)

theorem mem_erase {e : κ × α} : e ∈ erase m k ↔ e ∈ m ∧ e.1 ≠ k := by simp [erase]

theorem find_erase (m : List (κ × α)) (k k' : κ) : find (erase m k) k' = if k = k' then none else find m k' := by
  induction m with
  | nil => simp [erase, find]
  | cons e m ih =>
    obtain ⟨k₁, v₁⟩ := e
    unfold erase at ih ⊢
    rw [List.filter_cons]
    by_cases h₁ : k₁ = k
    · subst h₁
      rw [if_neg (by simp), ih, find_cons]
      split <;> rfl
    · rw [if_pos (by simpa using h₁), find_cons, find_cons, ih]
      by_cases h₂ : k₁ = k'
      · subst h₂
        rw [if_pos rfl, if_neg (Ne.symm h₁), if_pos rfl]
      · rw [if_neg h₂, if_neg h₂]

omit [DecidableEq κ] in
theorem nodup_of_sorted [LT κ] [Std.Irrefl (α := κ) (· < ·)] (h : Sorted m) : (m.map Prod.fst).Nodup :=
  List.pairwise_map.2 (h.imp fun {_ b} hlt (heq : _ = b.1) => Std.Irrefl.irrefl b.1 (heq ▸ hlt))

theorem nodup_erase (h : (m.map Prod.fst).Nodup) (k : κ) : ((erase m k).map Prod.fst).Nodup :=
  h.sublist (List.filter_sublist.map _)

theorem find_eq_none : find m k = none ↔ k ∉ m.map Prod.fst := by
  rw [find, Option.map_eq_none_iff, List.find?_eq_none]
  constructor
  · intro h hk
    obtain ⟨e, he, rfl⟩ := List.mem_map.1 hk
    exact h e he (by simp)
  · intro h e he hk
    exact h (List.mem_map.2 ⟨e, he, by simpa using hk⟩)

theorem mem_of_find {v : α} (h : find m k = some v) : (k, v) ∈ m := by
  obtain ⟨⟨k', v'⟩, he, rfl⟩ := Option.map_eq_some_iff.1 h
  obtain rfl : k' = k := by simpa using List.find?_some he
  exact List.mem_of_find?_eq_some he

omit [DecidableEq κ] in
theorem unique_of_nodup (h : (m.map Prod.fst).Nodup) {v w : α} (hv : (k, v) ∈ m) (hw : (k, w) ∈ m) : v = w :=
  congrArg Prod.snd (List.inj_on_of_nodup_map h hv hw rfl)

theorem find_of_mem (h : (m.map Prod.fst).Nodup) {v : α} (hv : (k, v) ∈ m) : find m k = some v := by
  rcases hw : find m k with _ | w
  · exact absurd (List.mem_map.2 ⟨_, hv, rfl⟩) (find_eq_none.1 hw)
  · rw [unique_of_nodup h (mem_of_find hw) hv]

end

end AssocMap
