import Mathlib.Logic.Relation
import Mathlib.Data.List.Basic

/-!
# A pipe for a stream

Messages go in whole at one end; at the other end the stream comes out in pieces of any length, then
its end. In between stands a queue of what was not taken yet. The pipe is up, then closing, then down,
and a log has all of it in order.
-/

namespace Pipe

inductive Phase
  | opening
  | up
  | closing
  | down
deriving DecidableEq

/-- `ν` is what else there is to log. -/
inductive Entry (α ν : Type)
  | taken (message : List α)
  | wrote (piece : List α)
  | fin
  | down
  | note (n : ν)
deriving DecidableEq

namespace Entry
variable {α ν : Type}

def takenBytes : Entry α ν → List α
  | taken message => message
  | _ => []

def wroteBytes : Entry α ν → List α
  | wrote piece => piece
  | _ => []

/-- Something goes in or comes out. -/
def Moves : Entry α ν → Prop
  | taken _ => True
  | wrote _ => True
  | _ => False

instance : DecidablePred (Moves (α := α) (ν := ν))
  | taken _ => inferInstanceAs (Decidable True)
  | wrote _ => inferInstanceAs (Decidable True)
  | fin => inferInstanceAs (Decidable False)
  | down => inferInstanceAs (Decidable False)
  | note _ => inferInstanceAs (Decidable False)

end Entry

variable {α ν : Type}

/-- All that went in. -/
def taken (log : List (Entry α ν)) : List α := log.flatMap Entry.takenBytes

/-- All that came out. -/
def wrote (log : List (Entry α ν)) : List α := log.flatMap Entry.wroteBytes

@[simp] theorem taken_nil : taken ([] : List (Entry α ν)) = [] := rfl

@[simp] theorem wrote_nil : wrote ([] : List (Entry α ν)) = [] := rfl

@[simp] theorem taken_append (l₁ l₂ : List (Entry α ν)) : taken (l₁ ++ l₂) = taken l₁ ++ taken l₂ :=
  List.flatMap_append

@[simp] theorem wrote_append (l₁ l₂ : List (Entry α ν)) : wrote (l₁ ++ l₂) = wrote l₁ ++ wrote l₂ :=
  List.flatMap_append

@[simp] theorem taken_cons (e : Entry α ν) (l : List (Entry α ν)) : taken (e :: l) = e.takenBytes ++ taken l :=
  List.flatMap_cons

@[simp] theorem wrote_cons (e : Entry α ν) (l : List (Entry α ν)) : wrote (e :: l) = e.wroteBytes ++ wrote l :=
  List.flatMap_cons

attribute [simp] Entry.takenBytes Entry.wroteBytes Entry.Moves

end Pipe

open Pipe in
structure Pipe (α ν : Type) where
  phase : Phase := .opening
  queue : List α := []
  log : List (Entry α ν) := []

namespace Pipe
variable {α ν : Type} {late : Prop} {p q : Pipe α ν}

/-- Messages are taken while the pipe is up, or `late`, until it is down. -/
def Takes (late : Prop) (p : Pipe α ν) : Prop := p.phase = .up ∨ late ∧ p.phase ≠ .down

inductive Step (late : Prop) : Pipe α ν → Pipe α ν → Prop
  | pass {p : Pipe α ν} (message : List α) (n : Nat) (h : p.Takes late) (hempty : p.queue = []) :
    Step late p { p with queue := message.drop n, log := p.log ++ [.taken message, .wrote (message.take n)] }
  | enqueue {p : Pipe α ν} (message : List α) (h : p.Takes late) :
    Step late p { p with queue := p.queue ++ message, log := p.log ++ [.taken message] }
  | write {p : Pipe α ν} (n : Nat) (h : p.phase ≠ .down) (hqueue : p.queue ≠ []) :
    Step late p { p with queue := p.queue.drop n, log := p.log ++ [.wrote (p.queue.take n)] }
  | fin {p : Pipe α ν} (h : p.phase = .closing ∧ p.queue = [] ∨ p.phase = .down) :
    Step late p { p with log := p.log ++ [.fin] }
  | opened {p : Pipe α ν} (n : ν) (h : p.phase = .opening) :
    Step late p { p with phase := .up, log := p.log ++ [.note n] }
  | close {p : Pipe α ν} (h : p.phase = .up ∨ p.phase = .closing) : Step late p { p with phase := .closing }
  | down {p : Pipe α ν} (h : p.phase = .up ∨ p.phase = .closing) :
    Step late p { p with phase := .down, log := p.log ++ [.down] }
  | note {p : Pipe α ν} (n : ν) : Step late p { p with log := p.log ++ [.note n] }

abbrev Steps (late : Prop) : Pipe α ν → Pipe α ν → Prop := Relation.ReflTransGen (Step late)

section Split
variable {β : Type} {e : β} {log l before after : List β}

/-- Where an entry stands in a log that has got longer. -/
theorem split_of_notMem (h : log ++ l = before ++ e :: after) (hl : e ∉ l) :
    ∃ l', log = before ++ e :: l' ∧ after = l' ++ l := by
  rcases List.append_eq_append_iff.1 h with ⟨l', -, hl'⟩ | ⟨l', hlog, hafter⟩
  · exact absurd (hl' ▸ List.mem_append_right _ (.head _)) hl
  · cases l' with
    | nil =>
      rw [List.nil_append] at hafter
      exact absurd (hafter ▸ List.Mem.head _) hl
    | cons e' l' =>
      obtain ⟨rfl, htail⟩ := List.cons.inj hafter
      exact ⟨l', hlog, htail⟩

theorem split_concat (h : log ++ [e] = before ++ e :: after) :
    before = log ∧ after = [] ∨ ∃ l', log = before ++ e :: l' ∧ after = l' ++ [e] := by
  rcases List.append_eq_append_iff.1 h with ⟨l', hbefore, hl'⟩ | ⟨l', hlog, hafter⟩
  · cases l' with
    | nil => exact .inl ⟨by rw [hbefore, List.append_nil], (List.cons.inj hl').2.symm⟩
    | cons e' l' => simp at hl'
  · cases l' with
    | nil => exact .inl ⟨by rw [hlog, List.append_nil], (List.cons.inj hafter).2⟩
    | cons e' l' =>
      obtain ⟨rfl, htail⟩ := List.cons.inj hafter
      exact .inr ⟨l', hlog, htail⟩

end Split

theorem Steps.log_grows (h : Steps late p q) : p.log <+: q.log := by
  induction h with
  | refl => exact List.prefix_rfl
  | tail _ hstep ih =>
    refine ih.trans ?_
    cases hstep with
    | close hc => exact List.prefix_rfl
    | _ => exact List.prefix_append _ _

theorem Steps.stays_down (h : Steps late p q) (hp : p.phase = .down) : q.phase = .down := by
  induction h with
  | refl => exact hp
  | tail _ hstep ih =>
    cases hstep with
    | opened n ho => simp [ih] at ho
    | close hc => simp [ih] at hc
    | down hc => rfl
    | _ => exact ih

theorem Steps.taken_grows (h : Steps late p q) : taken p.log <+: taken q.log := by
  obtain ⟨l, hl⟩ := h.log_grows
  rw [← hl, taken_append]
  exact List.prefix_append _ _

theorem Steps.wrote_grows (h : Steps late p q) : wrote p.log <+: wrote q.log := by
  obtain ⟨l, hl⟩ := h.log_grows
  rw [← hl, wrote_append]
  exact List.prefix_append _ _

/-! ### Nothing is lost, doubled or out of order -/

def Exact (p : Pipe α ν) : Prop := wrote p.log ++ p.queue = taken p.log

theorem Step.exact (h : Step late p q) (hp : p.Exact) : q.Exact := by
  unfold Exact at hp ⊢
  cases h with
  | pass message n ht hempty =>
    rw [hempty, List.append_nil] at hp
    simp [hp]
  | enqueue message ht => simp [← hp]
  | write n hd hqueue => simp [← hp]
  | fin hf => simpa using hp
  | opened n ho => simpa using hp
  | close hc => exact hp
  | down hc => simpa using hp
  | note n => simpa using hp

theorem Steps.exact (h : Steps late p q) (hp : p.Exact) : q.Exact := by
  induction h with
  | refl => exact hp
  | tail _ hstep ih => exact hstep.exact ih

/-! ### The end of the stream -/

/-- The end comes after all that went in, unless the pipe was down before. -/
def FinLast (log : List (Entry α ν)) : Prop :=
  ∀ before after, log = before ++ .fin :: after → wrote before = taken before ∨ .down ∈ before

/-- The pipe is down exactly when the log says so, and all ends are where they should be. -/
structure Ended (p : Pipe α ν) : Prop where
  exact : p.Exact
  down_iff : .down ∈ p.log ↔ p.phase = .down
  finLast : FinLast p.log

theorem FinLast.append {log l : List (Entry α ν)} (h : FinLast log) (hl : .fin ∉ l) : FinLast (log ++ l) := by
  intro before after hsplit
  obtain ⟨l', hlog, -⟩ := split_of_notMem hsplit hl
  exact h before l' hlog

theorem FinLast.fin {log : List (Entry α ν)} (h : FinLast log) (hlog : wrote log = taken log ∨ .down ∈ log) :
    FinLast (log ++ [.fin]) := by
  intro before after hsplit
  rcases split_concat hsplit with ⟨rfl, -⟩ | ⟨l', hl', -⟩
  · exact hlog
  · exact h before l' hl'

theorem Step.ended (h : Step late p q) (hp : p.Ended) : q.Ended := by
  have hdown := hp.down_iff
  refine ⟨h.exact hp.exact, ?_, ?_⟩
  · cases h with
    | opened n ho => simp [hdown, ho]
    | close hc => rcases hc with hc | hc <;> simp [hdown, hc]
    | _ => simp [hdown]
  · cases h with
    | fin hf =>
      refine hp.finLast.fin ?_
      rcases hf with ⟨-, hempty⟩ | hd
      · have hexact : wrote p.log ++ p.queue = taken p.log := hp.exact
        rw [hempty, List.append_nil] at hexact
        exact .inl hexact
      · exact .inr (hdown.2 hd)
    | close hc => exact hp.finLast
    | _ => exact hp.finLast.append (by simp)

theorem Steps.ended (h : Steps late p q) (hp : p.Ended) : q.Ended := by
  induction h with
  | refl => exact hp
  | tail _ hstep ih => exact hstep.ended ih

/-! ### Nothing after it -/

/-- After the entry `e` nothing goes in or comes out. -/
def StillAfter (e : Entry α ν) (log : List (Entry α ν)) : Prop :=
  ∀ before after, log = before ++ e :: after → ∀ x ∈ after, ¬ x.Moves

theorem StillAfter.append {e : Entry α ν} {log l : List (Entry α ν)} (h : StillAfter e log)
    (hl : e ∉ l) (hstill : e ∈ log → ∀ x ∈ l, ¬ x.Moves) : StillAfter e (log ++ l) := by
  intro before after hsplit x hx
  obtain ⟨l', rfl, rfl⟩ := split_of_notMem hsplit hl
  rcases List.mem_append.1 hx with hx | hx
  · exact h before l' rfl x hx
  · exact hstill (List.mem_append_right _ (.head _)) x hx

theorem StillAfter.concat {e : Entry α ν} {log : List (Entry α ν)} (h : StillAfter e log) (he : ¬ e.Moves) :
    StillAfter e (log ++ [e]) := by
  intro before after hsplit x hx
  rcases split_concat hsplit with ⟨-, rfl⟩ | ⟨l', hl', rfl⟩
  · cases hx
  · rcases List.mem_append.1 hx with hx | hx
    · exact h before l' hl' x hx
    · rw [List.mem_singleton.1 hx]
      exact he

/-- Nothing moves once the pipe is down. -/
structure Quiet (p : Pipe α ν) : Prop where
  down_iff : .down ∈ p.log ↔ p.phase = .down
  stillAfter : StillAfter .down p.log

theorem Step.quiet (h : Step late p q) (hp : p.Quiet) : q.Quiet := by
  have hdown := hp.down_iff
  have hTakes : p.Takes late → .down ∉ p.log := by
    rintro (hup | ⟨-, hd⟩) hmem
    · simp [hdown.1 hmem] at hup
    · exact hd (hdown.1 hmem)
  constructor
  · cases h with
    | opened n ho => simp [hdown, ho]
    | close hc => rcases hc with hc | hc <;> simp [hdown, hc]
    | _ => simp [hdown]
  · cases h with
    | pass message n ht hempty => exact hp.stillAfter.append (by simp) fun hmem => absurd hmem (hTakes ht)
    | enqueue message ht => exact hp.stillAfter.append (by simp) fun hmem => absurd hmem (hTakes ht)
    | write n hd hqueue => exact hp.stillAfter.append (by simp) fun hmem => absurd (hdown.1 hmem) hd
    | fin hf => exact hp.stillAfter.append (by simp) fun _ => by simp
    | opened n ho => exact hp.stillAfter.append (by simp) fun _ => by simp
    | close hc => exact hp.stillAfter
    | down hc => exact hp.stillAfter.concat id
    | note n => exact hp.stillAfter.append (by simp) fun _ => by simp

theorem Steps.quiet (h : Steps late p q) (hp : p.Quiet) : q.Quiet := by
  induction h with
  | refl => exact hp
  | tail _ hstep ih => exact hstep.quiet ih

/-- Nothing moves after the end of the stream, nor is there anything left to move. -/
structure Sealed (p : Pipe α ν) : Prop where
  drained : .fin ∈ p.log → p.phase = .closing ∧ p.queue = [] ∨ p.phase = .down
  stillAfter : StillAfter .fin p.log

/-- When no message is taken late, the end is the end. -/
theorem Step.sealed (h : Step False p q) (hp : p.Sealed) : q.Sealed := by
  have hTakes : p.Takes False → .fin ∉ p.log := by
    rintro (hup | ⟨hf, -⟩) hmem
    · rcases hp.drained hmem with ⟨hc, -⟩ | hd
      · simp [hc] at hup
      · simp [hd] at hup
    · exact hf
  cases h with
  | pass message n ht hempty =>
    have hno := hTakes ht
    exact ⟨fun hmem => absurd hmem (by simpa using hno), hp.stillAfter.append (by simp) fun hmem => absurd hmem hno⟩
  | enqueue message ht =>
    have hno := hTakes ht
    exact ⟨fun hmem => absurd hmem (by simpa using hno), hp.stillAfter.append (by simp) fun hmem => absurd hmem hno⟩
  | write n hd hqueue =>
    have hno : .fin ∉ p.log := by
      intro hmem
      rcases hp.drained hmem with ⟨-, hempty⟩ | hdown
      · exact hqueue hempty
      · exact hd hdown
    exact ⟨fun hmem => absurd hmem (by simpa using hno), hp.stillAfter.append (by simp) fun hmem => absurd hmem hno⟩
  | fin hf => exact ⟨fun _ => hf, hp.stillAfter.concat id⟩
  | opened n ho =>
    have hno : .fin ∉ p.log := by
      intro hmem
      rcases hp.drained hmem with ⟨hc, -⟩ | hd
      · simp [hc] at ho
      · simp [hd] at ho
    exact ⟨fun hmem => absurd hmem (by simpa using hno), hp.stillAfter.append (by simp) fun _ => by simp⟩
  | close hc =>
    refine ⟨fun hmem => ?_, hp.stillAfter⟩
    rcases hp.drained hmem with ⟨-, hempty⟩ | hd
    · exact .inl ⟨rfl, hempty⟩
    · simp [hd] at hc
  | down hc => exact ⟨fun _ => .inr rfl, hp.stillAfter.append (by simp) fun _ => by simp⟩
  | note n => exact ⟨fun hmem => hp.drained (by simpa using hmem), hp.stillAfter.append (by simp) fun _ => by simp⟩

theorem Steps.sealed (h : Steps False p q) (hp : p.Sealed) : q.Sealed := by
  induction h with
  | refl => exact hp
  | tail _ hstep ih => exact hstep.sealed ih

end Pipe
