import Mathlib.Data.List.Basic

/-!
# Runs that may fail

Computations in `Except ε` and left folds of such steps over a list of events: how a bind that
returned came about, when a run returns at all, and what holds of its outcome.
-/

namespace Except

variable {ε α β σ : Type}

@[simp] theorem ok_bind (a : α) (f : α → Except ε β) : (Except.ok a >>= f) = f a := rfl

@[simp] theorem error_bind (e : ε) (f : α → Except ε β) : (Except.error e >>= f) = .error e := rfl

theorem ok_unique {x : Except ε α} {a b : α} (h : x = .ok a) (h' : x = .ok b) : a = b :=
  ok.inj (h.symm.trans h')

theorem bind_eq_ok {x : Except ε α} {f : α → Except ε β} {b : β} :
    x >>= f = .ok b ↔ ∃ a, x = .ok a ∧ f a = .ok b := by
  cases x with
  | error e =>
    constructor
    · intro h; cases h
    · rintro ⟨_, h, _⟩; cases h
  | ok a =>
    constructor
    · intro h; exact ⟨a, rfl, h⟩
    · rintro ⟨_, h, hf⟩; cases h; exact hf

theorem map_eq_ok {x : Except ε α} {f : α → β} {b : β} :
    x.map f = .ok b ↔ ∃ a, x = .ok a ∧ f a = b := by
  cases x with
  | error e => simp [Except.map]
  | ok a => simp [Except.map]

theorem foldlM_cons_ok {f : σ → α → Except ε σ} {a : α} {as : List α} {s s' : σ} :
    (a :: as).foldlM f s = .ok s' ↔ ∃ s₁, f s a = .ok s₁ ∧ as.foldlM f s₁ = .ok s' := by
  rw [List.foldlM_cons, bind_eq_ok]

theorem mapM_eq_ok {f : α → Except ε β} {g : α → β} {l : List α} (h : ∀ a ∈ l, f a = .ok (g a)) :
    l.mapM f = .ok (l.map g) := by
  induction l with
  | nil => rfl
  | cons a l ih =>
    rw [List.mapM_cons, h a (.head _), ok_bind, ih fun b hb => h b (.tail _ hb)]
    rfl

theorem isOk_and {x : Except ε α} {P : α → Prop} (hx : x.isOk = true) (h : ∀ a, x = .ok a → P a) :
    ∃ a, x = .ok a ∧ P a := by
  cases x with
  | error e => cases hx
  | ok a => exact ⟨a, rfl, h a rfl⟩

def Returns (x : Except ε α) : Prop := ∃ a, x = .ok a

@[simp] theorem returns_ok (a : α) : (Except.ok a : Except ε α).Returns := ⟨a, rfl⟩

@[simp] theorem returns_pure (a : α) : (pure a : Except ε α).Returns := ⟨a, rfl⟩

@[simp] theorem not_returns_error (e : ε) : ¬ (Except.error e : Except ε α).Returns := nofun

theorem returns_bind {x : Except ε α} {f : α → Except ε β} {P : Prop} (h : ∀ a, (f a).Returns ↔ P) :
    (x >>= f).Returns ↔ x.Returns ∧ P := by
  cases x with
  | error e => simp
  | ok a => simp [h a]

theorem returns_bind₃ {γ δ : Type} {x : Except ε α} {y : Except ε β} {z : Except ε γ} {f : α → β → γ → δ} :
    (x >>= fun a => y >>= fun b => z >>= fun c => (pure (f a b c) : Except ε δ)).Returns ↔
      x.Returns ∧ y.Returns ∧ z.Returns := by
  rw [returns_bind fun _ => returns_bind fun _ => returns_bind fun _ => iff_true_intro (returns_pure _),
    and_true]

/-- `x` returns a value that satisfies `Q`, or fails with an error that satisfies `E`. -/
def Ends (E : ε → Prop) (Q : α → Prop) : Except ε α → Prop
  | .ok a => Q a
  | .error e => E e

namespace Ends
variable {E : ε → Prop} {Q : α → Prop} {R : β → Prop}

theorem bind {x : Except ε α} {f : α → Except ε β} (hx : x.Ends E Q) (hf : ∀ a, Q a → (f a).Ends E R) :
    (x >>= f).Ends E R := by
  cases x with
  | error e => exact hx
  | ok a => exact hf a hx

theorem mono {Q' : α → Prop} {x : Except ε α} (hx : x.Ends E Q) (h : ∀ a, Q a → Q' a) :
    x.Ends E Q' := by
  cases x with
  | error e => exact hx
  | ok a => exact h a hx

theorem ite {p : Prop} [Decidable p] {x y : Except ε α} (hx : p → x.Ends E Q) (hy : ¬ p → y.Ends E Q) :
    (if p then x else y).Ends E Q := by
  split
  · exact hx ‹_›
  · exact hy ‹_›

end Ends

end Except
