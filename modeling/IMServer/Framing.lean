import IMServer.OnRead

/-!
# Segmentation and hostile headers

Two facts about the loop of `onRead` on a connection's byte stream. A stream of complete frames is
delivered frame by frame however it was cut (`onRead_segmentation`). On arbitrary bytes the loop is
safe exactly as long as no negative length stands where a header is expected
(`onRead_safe_iff`): a negative header either makes `msg.assign` throw, or blocks the connection.
-/

namespace IMServer
open Endian

def frame (p : Bytes) : Bytes := leBytes 4 p.length ++ p

theorem header_leBytes {n : Nat} (hn : n < 2 ^ 31) (ys : Bytes) :
    (header (leBytes 4 n ++ ys)).toInt = n := by
  rw [header, List.take_left' (length_leBytes 4 n), int32OfBytes_leBytes hn]

theorem wire_decodes : wire.Decodes frame fun p => p.length < 2 ^ 31 := by
  intro p hp ys
  have hh : (header (frame p ++ ys)).toInt = p.length := by
    rw [frame, List.append_assoc]; exact header_leBytes hp _
  have hlen : (frame p ++ ys).length = 4 + p.length + ys.length := by simp [frame, Nat.add_assoc]
  have hd : (frame p ++ ys).drop 4 = p ++ ys := by
    rw [frame, List.append_assoc, List.drop_left' (length_leBytes 4 _)]
  rw [wire_pull, pull_of_nonneg (by omega) (by omega) (by omega), hh, Int.toNat_natCast, hd,
    ← List.drop_drop, hd, List.take_left, List.drop_left]

theorem eq_frame_of_pull {xs m r : Bytes} (h : pull xs = .frame m r) :
    xs = frame m ++ r ∧ m.length < 2 ^ 31 := by
  obtain ⟨h4, h0, hlen, hm, hr⟩ := pull_frame h
  have hlt := toInt_header_lt xs
  have hml : m.length = (header xs).toInt.toNat := by
    rw [hm, List.length_take, List.length_drop]; omega
  have hhead : leBytes 4 m.length = xs.take 4 := by
    rw [← int32Bytes_of_toInt (i := header xs) (by omega)]
    exact int32Bytes_int32OfBytes (by rw [List.length_take]; omega)
  refine ⟨?_, by omega⟩
  rw [frame, hhead, hm, hr, ← List.drop_drop, List.append_assoc, List.take_append_drop,
    List.take_append_drop]

/-! ### Any segmentation -/

section
variable {σ : Type}

/-- A `process` that returns, and the messages it has been handed. -/
def recorded (process : σ → Bytes → σ × Bool) (s : σ × List Bytes) (msg : Bytes) :
    Except Fault ((σ × List Bytes) × Bool) :=
  .ok (((process s.1 msg).1, s.2 ++ [msg]), (process s.1 msg).2)

def receive (process : σ → Bytes → Except Fault (σ × Bool)) (p : σ × Buffer) (chunk : Bytes) :
    Except Fault (σ × Buffer) :=
  p.2.append chunk >>= fun buf => onRead process p.1 buf

theorem receive_refines (process : σ → Bytes → Except Fault (σ × Bool)) (s : σ) (buf : Buffer)
    (chunk : Bytes) :
    (receive process (s, buf) chunk).map (fun p => (p.1, p.2.content)) =
      wire.feed (fun s m => (process s m).map Prod.fst) (s, buf.content) chunk := by
  obtain ⟨buf', hb, hc, -⟩ := buf.append_spec chunk
  have h : receive process (s, buf) chunk = onRead process s buf' := by rw [receive, hb]; rfl
  rw [h, onRead_refines, hc]
  rfl

theorem receive_chunks_refines (process : σ → Bytes → Except Fault (σ × Bool)) (chunks : List Bytes)
    (s : σ) (buf : Buffer) :
    (chunks.foldlM (receive process) (s, buf)).map (fun p => (p.1, p.2.content)) =
      chunks.foldlM (wire.feed fun s m => (process s m).map Prod.fst) (s, buf.content) := by
  induction chunks generalizing s buf with
  | nil => rfl
  | cons c chunks ih =>
    rw [List.foldlM_cons, List.foldlM_cons, ← receive_refines]
    cases receive process (s, buf) c with
    | error e => rfl
    | ok p => exact ih p.1 p.2

/-- Frames that arrive in any chunks are processed one after another, and a tail that has to wait
stays in the buffer. -/
theorem receive_frames (process : σ → Bytes → Except Fault (σ × Bool)) (s : σ) {buf : Buffer}
    {ps : List Bytes} {t : Bytes} {chunks : List Bytes} (hbuf : buf.content = [])
    (hps : ∀ p ∈ ps, p.length < 2 ^ 31) (ht : wire.pull t = .wait)
    (hcut : chunks.flatten = ps.flatMap frame ++ t) :
    (chunks.foldlM (receive process) (s, buf)).map (fun p => (p.1, p.2.content)) =
      (ps.foldlM (fun s m => (process s m).map Prod.fst) s).map (·, t) := by
  have hwait : wire.pull [] = .wait := rfl
  rw [receive_chunks_refines, hbuf, Deframer.feed_eq_deliver hwait, List.nil_append, hcut,
    Deframer.deliver_encode wire_decodes hps ht]

theorem foldlM_recorded (process : σ → Bytes → σ × Bool) (ps : List Bytes) (s : σ × List Bytes) :
    ∃ s', ps.foldlM (fun s m => (recorded process s m).map Prod.fst) s = .ok (s', s.2 ++ ps) := by
  induction ps generalizing s with
  | nil => exact ⟨s.1, by simp [pure, Except.pure]⟩
  | cons p ps ih =>
    obtain ⟨s', h⟩ := ih ((process s.1 p).1, s.2 ++ [p])
    exact ⟨s', by rw [List.foldlM_cons]; exact h.trans (by simp)⟩

theorem pull_prefix_wait {t p : Bytes} (hp : p.length < 2 ^ 31) (ht : t <+: frame p)
    (hne : t ≠ frame p) : wire.pull t = .wait := by
  obtain ⟨u, hu⟩ := ht
  have hlen := congrArg List.length hu
  have hu0 : 0 < u.length := List.length_pos_iff.2 fun h => hne (by rw [← hu, h, List.append_nil])
  simp only [frame, List.length_append, length_leBytes] at hlen
  rw [wire_pull, pull]
  split
  · next h4 =>
    have hh : (header t).toInt = p.length := by
      have := header_append u h4
      rw [← this, hu]; exact header_leBytes hp p
    rw [need_of_nonneg (by omega), if_pos (by omega)]
  · rfl

/-- Framing over any segmentation: however the frames of `ps` and a beginning `t` of a further one
are cut into chunks, `process` is handed exactly `ps`, each once and in order, and `t` stays unread. -/
theorem onRead_segmentation (process : σ → Bytes → σ × Bool) (s : σ) (buf : Buffer) (ps : List Bytes)
    (t p : Bytes) (chunks : List Bytes) (hbuf : buf.content = [])
    (hps : ∀ p ∈ ps, p.length < 2 ^ 31) (hp : p.length < 2 ^ 31) (ht : t <+: frame p)
    (hne : t ≠ frame p) (hcut : chunks.flatten = ps.flatMap frame ++ t) :
    ∃ s' buf', chunks.foldlM (receive (recorded process)) ((s, []), buf) = .ok ((s', ps), buf') ∧
      buf'.content = t := by
  obtain ⟨s', hs'⟩ := foldlM_recorded process ps (s, [])
  have href := receive_frames (recorded process) (s, []) hbuf hps (pull_prefix_wait hp ht hne) hcut
  rw [hs'] at href
  obtain ⟨⟨s₁, buf'⟩, hrun, heq⟩ := Except.map_eq_ok.1 href
  cases heq
  exact ⟨s', buf', hrun, rfl⟩

theorem onRead_segmentation_split_header :
    ∃ s' buf', [[1, 0], [0, 0, 7, 0, 0, 0], [0, 2, 0, 0]].foldlM
        (receive (recorded fun (n : Nat) _ => (n + 1, false))) ((0, []), Buffer.empty) =
      .ok ((s', [[7], []]), buf') ∧ buf'.content = [2, 0, 0] :=
  onRead_segmentation _ 0 Buffer.empty [[7], []] [2, 0, 0] [5, 6] _ rfl (by decide) (by decide)
    ⟨[0, 5, 6], rfl⟩ (by decide) rfl

end

/-! ### Hostile headers -/

inductive Iterates : Buffer → Buffer → Prop
  | refl (b : Buffer) : Iterates b b
  | step {b b₁ b₂ : Buffer} {m : Bytes} (h : onReadIter b = .ok (some (m, b₁)))
      (hs : Iterates b₁ b₂) : Iterates b b₂

/-- A turn of the loop returns consuming nothing, or consumes a header `n` with
`0 ≤ n ≤ readableBytes - 4` and the `n` bytes after it, which it passes to `process`. -/
def IterationOk (b : Buffer) : Prop :=
  onReadIter b = .ok none ∨
    ∃ m b', onReadIter b = .ok (some (m, b')) ∧ 0 ≤ (header b.content).toInt ∧
      4 + (header b.content).toInt.toNat ≤ b.readableBytes ∧
      m = (b.content.drop 4).take (header b.content).toInt.toNat ∧
      b'.content = b.content.drop (4 + (header b.content).toInt.toNat)

/-- The loop is safe on the bytes of `buf`: every turn is as it should be, and with any `process`
that returns, `onRead` returns, leaving nothing or the beginning of a frame. -/
structure OnReadSafe (buf : Buffer) : Prop where
  iteration : ∀ b, Iterates buf b → IterationOk b
  returns : ∀ (σ : Type) (process : σ → Bytes → σ × Bool) (s : σ),
    ∃ s' b, onRead (fun s m => .ok (process s m)) s buf = .ok (s', b) ∧
      (4 ≤ b.readableBytes → 0 ≤ (header b.content).toInt ∧
        b.readableBytes < 4 + (header b.content).toInt.toNat)

/-- After no number of complete frames does a negative length stand where a header is expected. -/
def NoNegativeHeader (xs : Bytes) : Prop :=
  ∀ (ps : List Bytes) (t : Bytes), (∀ p ∈ ps, p.length < 2 ^ 31) → xs = ps.flatMap frame ++ t →
    4 ≤ t.length → 0 ≤ (header t).toInt

namespace NoNegativeHeader
variable {xs : Bytes}

theorem front (h : NoNegativeHeader xs) (h4 : 4 ≤ xs.length) : 0 ≤ (header xs).toInt :=
  h [] xs (by simp) rfl h4

theorem pull_ne_fail (h : NoNegativeHeader xs) (e : Fault) : wire.pull xs ≠ .fail e := by
  intro hp
  obtain ⟨h4, -, hneg, -⟩ := pull_fail hp
  have := h.front h4
  omega

theorem rest {m r : Bytes} (h : NoNegativeHeader xs) (hp : wire.pull xs = .frame m r) :
    NoNegativeHeader r := by
  obtain ⟨hxs, hm⟩ := eq_frame_of_pull hp
  intro ps t hps hr
  refine h (m :: ps) t ?_ (by rw [hxs, hr, List.flatMap_cons, List.append_assoc])
  intro p hp'
  rcases List.mem_cons.1 hp' with rfl | hp'
  · exact hm
  · exact hps p hp'

end NoNegativeHeader

theorem iterationOk_of_noNegativeHeader {b : Buffer} (h : NoNegativeHeader b.content) :
    IterationOk b := by
  cases hp : wire.pull b.content with
  | wait => exact .inl (onReadIter_wait hp)
  | fail e => exact absurd hp (h.pull_ne_fail e)
  | frame m r =>
    obtain ⟨b', hb, hc⟩ := onReadIter_frame hp
    obtain ⟨-, h0, hlen, hm, hr⟩ := pull_frame hp
    exact .inr ⟨m, b', hb, h0, by rwa [← b.length_content], hm, hc.trans hr⟩

theorem noNegativeHeader_iter {b b' : Buffer} {m : Bytes} (h : NoNegativeHeader b.content)
    (hi : onReadIter b = .ok (some (m, b'))) : NoNegativeHeader b'.content := by
  cases hp : wire.pull b.content with
  | wait => rw [onReadIter_wait hp] at hi; cases hi
  | fail e => exact absurd hp (h.pull_ne_fail e)
  | frame m r =>
    obtain ⟨b₁, hb, hc⟩ := onReadIter_frame hp
    rw [hb] at hi
    cases hi
    rw [hc]
    exact h.rest hp

theorem noNegativeHeader_iterates {b b' : Buffer} (hs : Iterates b b')
    (h : NoNegativeHeader b.content) : NoNegativeHeader b'.content := by
  induction hs with
  | refl => exact h
  | step hi _ ih => exact ih (noNegativeHeader_iter h hi)

theorem deliver_of_noNegativeHeader {σ : Type} (f : σ → Bytes → σ) {xs : Bytes} (s : σ)
    (h : NoNegativeHeader xs) : ∃ s' r, wire.deliver (fun s m => .ok (f s m)) s xs = .ok (s', r) ∧
      (4 ≤ r.length → 0 ≤ (header r).toInt) := by
  induction xs using wire.deliver_induct generalizing s with
  | wait xs hp => exact ⟨s, xs, Deframer.deliver_wait hp, h.front⟩
  | fail xs e hp => exact absurd hp (h.pull_ne_fail e)
  | frame xs m r hp ih =>
    obtain ⟨s', r', hd, hr⟩ := ih (f s m) (h.rest hp)
    exact ⟨s', r', by rw [Deframer.deliver_frame hp]; exact hd, hr⟩

theorem foldlM_total {σ : Type} (f : σ → Bytes → σ) (ps : List Bytes) (s : σ) :
    ps.foldlM (fun s m => (.ok (f s m) : Except Fault σ)) s = .ok (ps.foldl f s) := by
  induction ps generalizing s with
  | nil => rfl
  | cons p ps ih => rw [List.foldlM_cons]; exact ih (f s p)

/-- Framing on arbitrary bytes: the loop is safe exactly when no negative length stands where it
looks for a header. -/
theorem onRead_safe_iff (buf : Buffer) : OnReadSafe buf ↔ NoNegativeHeader buf.content := by
  constructor
  · intro h ps t hps hxs h4
    obtain ⟨s', b, hrun, hb⟩ := h.returns Unit (fun _ _ => ((), true)) ()
    have href : Except.map (fun p : Unit × Buffer => (p.1, p.2.content)) _ =
        wire.deliver (fun (_ : Unit) (_ : Bytes) => .ok ()) () buf.content :=
      onRead_refines (fun _ _ => .ok ((), true)) () buf
    rw [hrun, hxs, Deframer.deliver_encode_append wire_decodes hps,
      foldlM_total (fun (_ : Unit) _ => ())] at href
    -- after the frames of `ps` the loop is in front of `t`
    cases hp : wire.pull t with
    | frame m r => exact (pull_frame hp).2.1
    | fail e =>
      have hd : wire.deliver (fun (_ : Unit) (_ : Bytes) => .ok ()) () t = .error e :=
        Deframer.deliver_fail hp
      exact absurd (href.trans hd) (by simp [Except.map])
    | wait =>
      have hd : wire.deliver (fun (_ : Unit) (_ : Bytes) => .ok ()) () t = .ok ((), t) :=
        Deframer.deliver_wait hp
      have hc : b.content = t := by
        have := href.trans hd
        simp only [Except.map, Except.ok.injEq, Prod.mk.injEq] at this
        exact this.2
      rw [← hc]
      exact (hb (by rw [← b.length_content, hc]; exact h4)).1
  · intro h
    refine ⟨fun b hb => iterationOk_of_noNegativeHeader (noNegativeHeader_iterates hb h), ?_⟩
    intro σ process s
    obtain ⟨s', r, hd, hr⟩ := deliver_of_noNegativeHeader (fun s m => (process s m).1) s h
    have href := (onRead_refines (fun s m => .ok (process s m)) s buf).trans hd
    obtain ⟨⟨s₁, b⟩, hrun, heq⟩ := Except.map_eq_ok.1 href
    cases heq
    refine ⟨_, b, hrun, fun h4 => ?_⟩
    rw [b.length_content] at hr
    have h0 := hr h4
    have hlt := pull_wait (Deframer.pull_of_deliver hd) (by rwa [b.length_content])
    rw [need_of_nonneg h0, b.length_content] at hlt
    exact ⟨h0, hlt⟩

/-- The header `-1` alone: `4 + (2 ^ 64 - 1)` wraps to `3`, the check passes and `msg.assign` throws. -/
theorem onRead_not_safe_minus_one :
    ∃ buf, Buffer.empty.append [0xFF, 0xFF, 0xFF, 0xFF] = .ok buf ∧ ¬ OnReadSafe buf := by
  obtain ⟨buf, hb, hc, -⟩ := Buffer.empty.append_spec [0xFF, 0xFF, 0xFF, 0xFF]
  refine ⟨buf, hb, fun h => ?_⟩
  have hp : wire.pull buf.content = .fail .lengthError := by rw [hc]; rfl
  rcases h.iteration buf (.refl buf) with hn | ⟨m, b', hs, -⟩
  · rw [onReadIter_fail hp] at hn; cases hn
  · rw [onReadIter_fail hp] at hs; cases hs

end IMServer
