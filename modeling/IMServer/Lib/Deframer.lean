import Mathlib.Data.List.Basic

/-!
# Incremental framing

A `Deframer` cuts frames off the front of a stream it has only seen a prefix of: from what is
buffered it either has to `wait`, or yields one `frame` and the elements after it, or gives up with
an error. Whatever it decides on a prefix it decides on every longer stream (`frame_append`,
`fail_append`), so the frames delivered do not depend on how the stream was cut into chunks
(`feed_eq_deliver`).
-/

inductive Pull (ε α β : Type)
  | wait
  | frame (b : β) (rest : List α)
  | fail (e : ε)

structure Deframer (ε α β : Type) where
  pull : List α → Pull ε α β
  rest_lt {xs : List α} {b : β} {r : List α} : pull xs = .frame b r → r.length < xs.length
  frame_append {xs : List α} {b : β} {r : List α} (ys : List α) :
    pull xs = .frame b r → pull (xs ++ ys) = .frame b (r ++ ys)
  fail_append {xs : List α} {e : ε} (ys : List α) : pull xs = .fail e → pull (xs ++ ys) = .fail e

namespace Deframer

variable {ε α β σ : Type} (F : Deframer ε α β) (f : σ → β → Except ε σ)

/-- Hand every complete frame to `f`, oldest first; the elements left over are returned. -/
def deliver (s : σ) (xs : List α) : Except ε (σ × List α) :=
  match h : F.pull xs with
  | .wait => .ok (s, xs)
  | .frame b r =>
    have := F.rest_lt h
    match f s b with
    | .ok s' => deliver s' r
    | .error e => .error e
  | .fail e => .error e
termination_by xs.length

variable {F f} {s : σ} {xs : List α}

theorem deliver_wait (h : F.pull xs = .wait) : F.deliver f s xs = .ok (s, xs) := by
  rw [deliver]
  split
  · rfl
  · next h' => rw [h] at h'; cases h'
  · next h' => rw [h] at h'; cases h'

theorem deliver_frame {b : β} {r : List α} (h : F.pull xs = .frame b r) :
    F.deliver f s xs = f s b >>= fun s' => F.deliver f s' r := by
  rw [deliver]
  split
  · next h' => rw [h] at h'; cases h'
  · next h' =>
    rw [h] at h'
    cases h'
    cases f s b <;> rfl
  · next h' => rw [h] at h'; cases h'

theorem deliver_fail {e : ε} (h : F.pull xs = .fail e) : F.deliver f s xs = .error e := by
  rw [deliver]
  split
  · next h' => rw [h] at h'; cases h'
  · next h' => rw [h] at h'; cases h'
  · next h' => rw [h] at h'; cases h'; rfl

theorem deliver_induct {P : List α → Prop} (wait : ∀ xs, F.pull xs = .wait → P xs)
    (frame : ∀ xs b r, F.pull xs = .frame b r → P r → P xs)
    (fail : ∀ xs e, F.pull xs = .fail e → P xs) (xs : List α) : P xs := by
  induction h : xs.length using Nat.strongRecOn generalizing xs with
  | _ n ih =>
    cases hp : F.pull xs with
    | wait => exact wait xs hp
    | frame b r => exact frame xs b r hp (ih r.length (h ▸ F.rest_lt hp) r rfl)
    | fail e => exact fail xs e hp

theorem deliver_append (ys : List α) :
    F.deliver f s (xs ++ ys) = F.deliver f s xs >>= fun p => F.deliver f p.1 (p.2 ++ ys) := by
  induction xs using F.deliver_induct generalizing s with
  | wait xs h => rw [deliver_wait h]; rfl
  | frame xs b r h ih =>
    rw [deliver_frame h, deliver_frame (F.frame_append ys h), bind_assoc]
    exact bind_congr fun s' => ih
  | fail xs e h => rw [deliver_fail h, deliver_fail (F.fail_append ys h)]; rfl

theorem pull_of_deliver {s' : σ} {r : List α} (h : F.deliver f s xs = .ok (s', r)) :
    F.pull r = .wait := by
  induction xs using F.deliver_induct generalizing s with
  | wait xs hp => rw [deliver_wait hp] at h; cases h; exact hp
  | frame xs b r hp ih =>
    rw [deliver_frame hp] at h
    cases hf : f s b with
    | error e => rw [hf] at h; cases h
    | ok s₁ => rw [hf] at h; exact ih h
  | fail xs e hp => rw [deliver_fail hp] at h; cases h

def feed (F : Deframer ε α β) (f : σ → β → Except ε σ) (p : σ × List α) (chunk : List α) :
    Except ε (σ × List α) :=
  F.deliver f p.1 (p.2 ++ chunk)

/-- Chunk by chunk or all at once: the same frames reach `f`, and the same elements are left. -/
theorem feed_eq_deliver (h : F.pull xs = .wait) (chunks : List (List α)) :
    chunks.foldlM (F.feed f) (s, xs) = F.deliver f s (xs ++ chunks.flatten) := by
  induction chunks generalizing s xs with
  | nil => simp [deliver_wait h, pure, Except.pure]
  | cons c chunks ih =>
    rw [List.foldlM_cons, List.flatten_cons, ← List.append_assoc, deliver_append, feed]
    cases hd : F.deliver f s (xs ++ c) with
    | error e => rfl
    | ok p => exact ih (pull_of_deliver hd)

/-! ### The frames of a stream -/

def frames (F : Deframer ε α β) (xs : List α) : List β :=
  match h : F.pull xs with
  | .wait => []
  | .frame b r =>
    have := F.rest_lt h
    b :: frames F r
  | .fail _ => []
termination_by xs.length

theorem frames_of_frame {b : β} {r : List α} (h : F.pull xs = .frame b r) : F.frames xs = b :: F.frames r := by
  rw [frames]
  split
  · next h' => rw [h] at h'; cases h'
  · next h' => rw [h] at h'; cases h'; rfl
  · next h' => rw [h] at h'; cases h'

theorem frames_of_wait (h : F.pull xs = .wait) : F.frames xs = [] := by
  rw [frames]
  split
  · rfl
  · next h' => rw [h] at h'; cases h'
  · rfl

/-- What one handler does to the frames of `xs` another one can follow. -/
theorem deliver_simulates {τ : Type} {g : τ → β → Except ε τ} {R : σ → τ → Prop} {s' : σ} {t : τ} {r : List α}
    (hsim : ∀ b ∈ F.frames xs, ∀ s t s', R s t → f s b = .ok s' → ∃ t', g t b = .ok t' ∧ R s' t')
    (hst : R s t) (h : F.deliver f s xs = .ok (s', r)) : ∃ t', F.deliver g t xs = .ok (t', r) ∧ R s' t' := by
  induction xs using F.deliver_induct generalizing s t with
  | wait xs hp =>
    rw [deliver_wait hp] at h
    cases h
    exact ⟨t, deliver_wait hp, hst⟩
  | frame xs b rest hp ih =>
    rw [frames_of_frame hp, List.forall_mem_cons] at hsim
    rw [deliver_frame hp] at h
    rcases hf : f s b with e | s₁
    · rw [hf] at h
      cases h
    · rw [hf] at h
      obtain ⟨t₁, hg, hst₁⟩ := hsim.1 s t s₁ hst hf
      obtain ⟨t', ht', hst'⟩ := ih hsim.2 hst₁ h
      exact ⟨t', by rw [deliver_frame hp, hg]; exact ht', hst'⟩
  | fail xs e hp =>
    rw [deliver_fail hp] at h
    cases h

/-- A handler that keeps the frames gets them all if any handler gets through. -/
theorem deliver_snoc {s' : σ} {r : List α} (h : F.deliver f s xs = .ok (s', r)) (acc : List β) :
    F.deliver (fun bs b => .ok (bs ++ [b])) acc xs = .ok (acc ++ F.frames xs, r) := by
  induction xs using F.deliver_induct generalizing s acc with
  | wait xs hp =>
    rw [deliver_wait hp] at h
    cases h
    rw [deliver_wait hp, frames_of_wait hp, List.append_nil]
  | frame xs b rest hp ih =>
    rw [deliver_frame hp] at h
    rcases hf : f s b with e | s₁
    · rw [hf] at h
      cases h
    · rw [hf] at h
      rw [deliver_frame hp, frames_of_frame hp]
      exact (ih h (acc ++ [b])).trans (by simp)
  | fail xs e hp =>
    rw [deliver_fail hp] at h
    cases h

/-- Every `b` that satisfies `Ok` is recovered from `encode b`, whatever follows it. -/
def Decodes (F : Deframer ε α β) (encode : β → List α) (Ok : β → Prop) : Prop :=
  ∀ b, Ok b → ∀ ys, F.pull (encode b ++ ys) = .frame b ys

theorem deliver_encode_append {encode : β → List α} {Ok : β → Prop} (hF : F.Decodes encode Ok)
    {bs : List β} (hbs : ∀ b ∈ bs, Ok b) :
    F.deliver f s (bs.flatMap encode ++ xs) = bs.foldlM f s >>= fun s' => F.deliver f s' xs := by
  induction bs generalizing s with
  | nil => rfl
  | cons b bs ih =>
    rw [List.flatMap_cons, List.append_assoc, deliver_frame (hF b (hbs b (by simp)) _),
      List.foldlM_cons, bind_assoc]
    exact bind_congr fun s' => ih fun b hb => hbs b (by simp [hb])

theorem deliver_encode {encode : β → List α} {Ok : β → Prop} (hF : F.Decodes encode Ok)
    {bs : List β} (hbs : ∀ b ∈ bs, Ok b) (ht : F.pull xs = .wait) :
    F.deliver f s (bs.flatMap encode ++ xs) = (bs.foldlM f s).map (·, xs) := by
  rw [deliver_encode_append hF hbs]
  cases bs.foldlM f s with
  | error e => rfl
  | ok s' => exact deliver_wait ht

def drain (F : Deframer ε α β) (xs : List α) : Except ε (List β × List α) :=
  F.deliver (fun bs b => .ok (bs ++ [b])) [] xs

theorem foldlM_snoc (acc bs : List β) :
    bs.foldlM (fun bs b => (.ok (bs ++ [b]) : Except ε (List β))) acc = .ok (acc ++ bs) := by
  induction bs generalizing acc with
  | nil => simp [pure, Except.pure]
  | cons b bs ih =>
    rw [List.foldlM_cons]
    exact (ih (acc ++ [b])).trans (by simp)

theorem drain_encode {encode : β → List α} {Ok : β → Prop} (hF : F.Decodes encode Ok)
    {bs : List β} (hbs : ∀ b ∈ bs, Ok b) (ht : F.pull xs = .wait) :
    F.drain (bs.flatMap encode ++ xs) = .ok (bs, xs) := by
  rw [drain, deliver_encode hF hbs ht, foldlM_snoc]
  rfl

end Deframer
