import IMServer.Lib.Run

/-!
# Computations that keep a record

A computation in `Except ε` together with a record of what it touched on the way, also when it fails.
-/

/-- The outcome of a computation and, in order, the entries it has made. -/
structure Traced (ω ε α : Type) where
  log : List ω
  result : Except ε α

namespace Traced

variable {ω ε α β : Type}

protected def bind (x : Traced ω ε α) (f : α → Traced ω ε β) : Traced ω ε β :=
  match x.result with
  | .error e => ⟨x.log, .error e⟩
  | .ok a => ⟨x.log ++ (f a).log, (f a).result⟩

instance : Monad (Traced ω ε) where
  pure a := ⟨[], .ok a⟩
  bind := Traced.bind

theorem bind_error {x : Traced ω ε α} {e : ε} (h : x.result = .error e) (f : α → Traced ω ε β) :
    x >>= f = ⟨x.log, .error e⟩ := by
  show Traced.bind x f = _
  rw [Traced.bind, h]

theorem bind_ok {x : Traced ω ε α} {a : α} (h : x.result = .ok a) (f : α → Traced ω ε β) :
    x >>= f = ⟨x.log ++ (f a).log, (f a).result⟩ := by
  show Traced.bind x f = _
  rw [Traced.bind, h]

instance : LawfulMonad (Traced ω ε) := LawfulMonad.mk' _
  (by
    rintro α ⟨log, e | a⟩
    · rfl
    · show Traced.mk (log ++ []) (.ok a) = _
      rw [List.append_nil])
  (fun _ _ => rfl)
  (by
    rintro α β γ ⟨log, e | a⟩ f g
    · rfl
    · rcases hf : (f a).result with e | b
      · simp [bind_ok (x := Traced.mk log (.ok a)) rfl, bind_error, hf]
      · simp [bind_ok (x := Traced.mk log (.ok a)) rfl, bind_ok, hf])

/-- `x`, entered as `w`. -/
def note (w : ω) (x : Except ε α) : Traced ω ε α := ⟨[w], x⟩

@[simp] theorem result_pure (a : α) : (pure a : Traced ω ε α).result = .ok a := rfl

@[simp] theorem log_pure (a : α) : (pure a : Traced ω ε α).log = [] := rfl

@[simp] theorem result_note (w : ω) (x : Except ε α) : (note w x).result = x := rfl

theorem result_bind (x : Traced ω ε α) (f : α → Traced ω ε β) :
    (x >>= f).result = x.result >>= fun a => (f a).result := by
  rcases h : x.result with e | a
  · rw [bind_error h]
    rfl
  · rw [bind_ok h]
    rfl

theorem log_bind_pure (x : Traced ω ε α) (f : α → β) : (x >>= fun a => pure (f a)).log = x.log := by
  rcases h : x.result with e | a
  · rw [bind_error h]
  · rw [bind_ok h]
    exact List.append_nil _

theorem result_mapM (f : β → Traced ω ε α) (l : List β) :
    (l.mapM f).result = l.mapM fun b => (f b).result := by
  induction l with
  | nil => rfl
  | cons b l ih =>
    rw [List.mapM_cons, List.mapM_cons, result_bind]
    refine congrArg _ (funext fun a => ?_)
    rw [result_bind, ih]
    rfl

/-! ### What holds of every entry -/

def Logs (P : ω → Prop) (x : Traced ω ε α) : Prop := ∀ w ∈ x.log, P w

variable {P : ω → Prop}

@[simp] theorem logs_pure (a : α) : Logs P (pure a : Traced ω ε α) := nofun

@[simp] theorem logs_note {w : ω} {x : Except ε α} : Logs P (note w x) ↔ P w := by simp [Logs, note]

theorem Logs.mono {Q : ω → Prop} {x : Traced ω ε α} (h : Logs P x) (hPQ : ∀ w, P w → Q w) : Logs Q x :=
  fun w hw => hPQ w (h w hw)

theorem logs_bind {x : Traced ω ε α} {f : α → Traced ω ε β} :
    Logs P (x >>= f) ↔ Logs P x ∧ ∀ a, x.result = .ok a → Logs P (f a) := by
  rcases h : x.result with e | a
  · rw [bind_error h]
    exact ⟨fun hx => ⟨hx, nofun⟩, fun hx => hx.1⟩
  · rw [bind_ok h]
    simp [Logs, or_imp, forall_and]

theorem logs_bind_ok {x : Traced ω ε α} {a : α} (h : x.result = .ok a) {f : α → Traced ω ε β} :
    Logs P (x >>= f) ↔ Logs P x ∧ Logs P (f a) := by
  rw [logs_bind, h]
  simp

theorem logs_mapM {f : β → Traced ω ε α} {l : List β} (h : ∀ b ∈ l, Logs P (f b)) : Logs P (l.mapM f) := by
  induction l with
  | nil => exact logs_pure _
  | cons b l ih =>
    rw [List.mapM_cons]
    refine logs_bind.2 ⟨h b (.head _), fun a _ => logs_bind.2 ⟨ih fun c hc => h c (.tail _ hc), ?_⟩⟩
    exact fun _ _ => logs_pure _

theorem Logs.head_mapM {f : β → Traced ω ε α} {b : β} {l : List β} (h : Logs P ((b :: l).mapM f)) :
    Logs P (f b) := by
  rw [List.mapM_cons] at h
  exact (logs_bind.1 h).1

end Traced
