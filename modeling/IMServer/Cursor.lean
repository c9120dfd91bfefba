import IMServer.ScalarReads

/-!
# The cursor of a reader

What can be done with readers, and when it leaves their cursors inside their messages. A scalar is
only read safely with two bytes to spare, a string read checks nothing, and `operator=` gives its
target a message of one byte: the number of the source's cursor as a character.
-/

namespace IMServer

inductive Read
  /-- `readData<T>` with `sizeof(T) = w` -/
  | scalar (w : Nat)
  /-- `readData(std::string&)` into a string of `n` bytes -/
  | str (n : Nat)
deriving DecidableEq

namespace Read

def size : Read → Nat
  | scalar w => w
  | str n => n

def Valid : Read → Prop
  | scalar w => 0 < w ∧ w < 2 ^ 63
  | str n => n ≤ maxSize

instance : DecidablePred Valid
  | scalar w => inferInstanceAs (Decidable (0 < w ∧ w < 2 ^ 63))
  | str n => inferInstanceAs (Decidable (n ≤ maxSize))

end Read

def lowByte (i : Int32) : UInt8 := UInt8.ofNat i.toUInt32.toNat

namespace BinaryReader

def readTraced (r : BinaryReader) : Read → Traced Access Fault (Option (Bytes × BinaryReader))
  | .scalar w => r.readDataTraced w
  | .str n => do return some (← r.readDataStrTraced n)

/-- What a read stores, `none` if it returns `false`. -/
def read (r : BinaryReader) (q : Read) : Except Fault (Option (Bytes × BinaryReader)) := (r.readTraced q).result

/-- `_msg = reader._msg; _msg = reader._index;` -/
def assign (r source : BinaryReader) : BinaryReader := { r with msg := [lowByte source.index] }

def reset (r : BinaryReader) : BinaryReader := { r with index := 0 }

/-- What reads return one after the other, up to one that leaves the message. -/
def outcomes (r : BinaryReader) : List Read → List (Except Fault (Option Bytes))
  | [] => []
  | q :: qs =>
    match r.read q with
    | .error e => [.error e]
    | .ok none => .ok none :: r.outcomes qs
    | .ok (some (data, r')) => .ok (some data) :: r'.outcomes qs

structure InRange (r : BinaryReader) : Prop where
  nonneg : 0 ≤ r.index.toInt
  le : r.index.toInt ≤ r.msg.length

end BinaryReader

/-- Bytes of a message that are not behind its end nor before the cursor. -/
def Access.Between (index : Int) (size : Nat) : Access → Prop
  | read off => index ≤ off ∧ off < size
  | resize _ => False
  | copy off n => n = 0 ∨ index ≤ off ∧ off + n ≤ size

inductive ReaderOp
  | make (msg : Bytes)
  /-- the implicit copy constructor -/
  | copy (j : Nat)
  | setMsg (i : Nat) (msg : Bytes)
  | reset (i : Nat)
  | read (i : Nat) (q : Read)
  | assign (i j : Nat)
deriving DecidableEq

namespace ReaderOp

/-- One operation on the readers there are. -/
def step (pool : List BinaryReader) : ReaderOp → Except Fault (List BinaryReader)
  | make msg => .ok (pool ++ [{ msg := msg }])
  | copy j =>
    match pool[j]? with
    | none => .error .nullPointer
    | some source => .ok (pool ++ [source])
  | setMsg i msg => .ok (pool.set i { msg := msg })
  | reset i => .ok (pool.modify i BinaryReader.reset)
  | read i q =>
    match pool[i]? with
    | none => .error .nullPointer
    | some r => (r.read q).map fun
      | none => pool
      | some (_, r') => pool.set i r'
  | assign i j =>
    match pool[i]?, pool[j]? with
    | some r, some source => .ok (if i = j then pool else pool.set i (r.assign source))
    | _, _ => .error .nullPointer

/-- The readers exist, and the sizes are those of objects. -/
def Valid (pool : List BinaryReader) : ReaderOp → Prop
  | make _ => True
  | copy j => j < pool.length
  | setMsg i _ => i < pool.length
  | reset i => i < pool.length
  | read i q => i < pool.length ∧ q.Valid
  | assign i j => i < pool.length ∧ j < pool.length

/-- A read stays between the cursor and the end, and returns `false` if it asks for more than is left;
after an assignment the target reads what the source would. -/
def Good (pool pool' : List BinaryReader) : ReaderOp → Prop
  | read i q => ∀ r, pool[i]? = some r →
    (∀ a ∈ (r.readTraced q).log, a.Between r.index.toInt r.msg.length) ∧
      (r.msg.length < r.index.toInt + q.size → r.read q = .ok none ∧ pool' = pool)
  | assign i j => ∀ target source, pool'[i]? = some target → pool'[j]? = some source →
    ∀ qs, (∀ q ∈ qs, q.Valid) → target.outcomes qs = source.outcomes qs
  | _ => True

end ReaderOp

def CursorsIn (pool : List BinaryReader) : Prop := ∀ r ∈ pool, r.InRange

/-- The operations return, each of them is good, and no cursor ever leaves its message. -/
def KeepsCursors : List BinaryReader → List ReaderOp → Prop
  | pool, [] => CursorsIn pool
  | pool, op :: ops =>
    CursorsIn pool ∧ ∃ pool', op.step pool = .ok pool' ∧ op.Good pool pool' ∧ KeepsCursors pool' ops

/-! ### The condition -/

namespace BinaryReader

/-- A scalar for which there are enough bytes has two more behind it, a string is no longer than what
is left, and the cursor stays an `int`. -/
def ReadFits (r : BinaryReader) : Read → Prop
  | .scalar w => r.index.toInt.toNat + w ≤ r.msg.length →
    r.index.toInt.toNat + w + 2 ≤ r.msg.length ∧ (r.index.toInt.toNat + w) % 2 ^ 32 < 2 ^ 31
  | .str n => r.index.toInt.toNat + n ≤ r.msg.length ∧ (r.index.toInt.toNat + n) % 2 ^ 32 < 2 ^ 31

instance (r : BinaryReader) : DecidablePred r.ReadFits
  | .scalar _ => inferInstanceAs (Decidable (_ → _))
  | .str _ => inferInstanceAs (Decidable (_ ∧ _))

/-- What the source has left is what the target has left of its one byte. -/
structure AssignFits (r source : BinaryReader) : Prop where
  index : r.index.toInt ≤ 1
  rest : source.msg.drop source.index.toInt.toNat = [lowByte source.index].drop r.index.toInt.toNat
  length : source.msg.length + 1 < 2 ^ 31

end BinaryReader

namespace ReaderOp

def Fits (pool : List BinaryReader) : ReaderOp → Prop
  | read i q => ∀ r, pool[i]? = some r → r.ReadFits q
  | assign i j => i = j ∨ ∀ r source, pool[i]? = some r → pool[j]? = some source → r.AssignFits source
  | _ => True

def AllValid : List BinaryReader → List ReaderOp → Prop
  | _, [] => True
  | pool, op :: ops => op.Valid pool ∧ ∀ pool', op.step pool = .ok pool' → AllValid pool' ops

def AllFit : List BinaryReader → List ReaderOp → Prop
  | _, [] => True
  | pool, op :: ops => op.Fits pool ∧ ∀ pool', op.step pool = .ok pool' → AllFit pool' ops

end ReaderOp

/-! ### One read -/

namespace BinaryReader
variable {r r' source : BinaryReader} {k w n : Nat} {q : Read}

theorem toInt_ofNat_eq (n : Nat) :
    (Int32.ofNat n).toInt =
      if n % 2 ^ 32 < 2 ^ 31 then ((n % 2 ^ 32 : Nat) : Int) else ((n % 2 ^ 32 : Nat) : Int) - 2 ^ 32 := by
  rw [Int32.toInt_ofNat', Int.bmod]
  simp only [Int32.size]
  split <;> split <;> omega

/-- The cursor behind a read of `n` bytes that were there. -/
theorem inRange_add (hk : r.index.toInt = k) (hle : k + n ≤ r.msg.length) :
    InRange { r with index := r.index + Int32.ofNat n } ↔ (k + n) % 2 ^ 32 < 2 ^ 31 := by
  have hindex : r.index + Int32.ofNat n = Int32.ofNat (k + n) := by rw [index_eq hk, ← Int32.ofNat_add]
  rw [hindex]
  constructor
  · intro h
    have hnonneg : 0 ≤ (Int32.ofNat (k + n)).toInt := h.nonneg
    rw [toInt_ofNat_eq] at hnonneg
    split at hnonneg <;> omega
  · intro h
    have hnext := toInt_ofNat_eq (k + n)
    rw [if_pos h] at hnext
    constructor
    · show 0 ≤ (Int32.ofNat (k + n)).toInt
      omega
    · show (Int32.ofNat (k + n)).toInt ≤ r.msg.length
      omega

theorem read_str (r : BinaryReader) (n : Nat) :
    r.read (.str n) = (r.readDataStr n).map some := by
  rw [read, readTraced, Traced.result_bind, result_readDataStrTraced]
  rfl

theorem read_scalar (r : BinaryReader) (w : Nat) : r.read (.scalar w) = r.readData w := result_readDataTraced r w

theorem log_str (r : BinaryReader) (n : Nat) : (r.readTraced (.str n)).log = [.copy r.index.toInt n] := by
  rw [readTraced, Traced.log_bind_pure, readDataStrTraced, Traced.log_bind_pure]
  rfl

theorem InRange.toNat (h : r.InRange) : r.index.toInt = r.index.toInt.toNat := by
  have := h.nonneg
  omega

/-- The property of a read of one reader. -/
structure ReadsWell (r : BinaryReader) (q : Read) : Prop where
  between : ∀ a ∈ (r.readTraced q).log, a.Between r.index.toInt r.msg.length
  refused : r.msg.length < r.index.toInt + q.size → r.read q = .ok none
  returns : ∃ o, r.read q = .ok o
  inRange : ∀ data r', r.read q = .ok (some (data, r')) → r'.InRange

theorem readsWell_str (h : r.InRange) : r.ReadsWell (.str n) ↔ r.ReadFits (.str n) := by
  have hk := h.toNat
  have hle := h.le
  have hrange := inRange_add (n := n) hk
  constructor
  · intro hwell
    have hleft : r.index.toInt.toNat + n ≤ r.msg.length := by
      by_contra hmore
      have hnone := hwell.refused (by show (r.msg.length : Int) < r.index.toInt + n; omega)
      rw [read_str] at hnone
      obtain ⟨p, -, hp⟩ := Except.map_eq_ok.1 hnone
      cases hp
    refine ⟨hleft, (hrange hleft).1 (hwell.inRange ((r.msg.drop r.index.toInt.toNat).take n) _ ?_)⟩
    rw [read_str, readDataStr, hk, memcpyFrom_within (by simpa using hleft)]
    rfl
  · rintro ⟨hleft, hint⟩
    have hread : r.read (.str n) = .ok (some ((r.msg.drop r.index.toInt.toNat).take n,
        { r with index := r.index + Int32.ofNat n })) := by
      rw [read_str, readDataStr, hk, memcpyFrom_within (by simpa using hleft)]
      rfl
    refine ⟨?_, ?_, ⟨_, hread⟩, ?_⟩
    · rw [log_str]
      intro a ha
      rw [List.mem_singleton.1 ha]
      exact .inr ⟨Int.le_refl _, by omega⟩
    · intro hmore
      have : (r.msg.length : Int) < r.index.toInt + n := hmore
      omega
    · intro data r' hdata
      obtain ⟨-, rfl⟩ := Prod.mk.inj (Option.some.inj (Except.ok_unique hread hdata))
      exact (hrange hleft).2 hint

theorem readsWell_scalar (h : r.InRange) (hw : 0 < w) (hsize : w < 2 ^ 63) :
    r.ReadsWell (.scalar w) ↔ r.ReadFits (.scalar w) := by
  have hk := h.toNat
  have hle := h.le
  have hrange := inRange_add (n := w) hk
  have hlt := Int32.toInt_lt r.index
  rcases readData_cases hk hw (by omega) with ⟨hshort, hlog, hread⟩ | ⟨henough, hlate, hlog⟩ | ⟨hsafe, hlog, hread⟩
  · rw [← read_scalar] at hread
    refine iff_of_true ⟨?_, fun _ => hread, ⟨_, hread⟩, ?_⟩ ?_
    · intro a ha
      rw [readTraced, hlog] at ha
      cases ha
    · intro data r' hdata
      cases hread.symm.trans hdata
    · intro henough
      omega
  · refine iff_of_false (fun hwell => hlog fun a ha => ?_) fun hfits => ?_
    · have hbetween := hwell.between a ha
      rcases a with off | m | ⟨off, m⟩
      · exact ⟨by have := hbetween.1; have := h.nonneg; omega, hbetween.2⟩
      · exact hbetween.elim
      · exact hbetween.imp_right fun hb => ⟨by have := hb.1; have := h.nonneg; omega, hb.2⟩
    · have := (hfits henough).1
      omega
  · rw [← read_scalar] at hread
    constructor
    · intro hwell _
      exact ⟨hsafe, (hrange (by omega)).1 (hwell.inRange _ _ hread)⟩
    · intro hfits
      refine ⟨?_, ?_, ⟨_, hread⟩, ?_⟩
      · intro a ha
        obtain ⟨off, rfl, hoff, hoff'⟩ := hlog a ha
        exact ⟨by omega, by omega⟩
      · intro hmore
        have : (r.msg.length : Int) < r.index.toInt + w := hmore
        omega
      · intro data r' hdata
        obtain ⟨-, rfl⟩ := Prod.mk.inj (Option.some.inj (Except.ok_unique hread hdata))
        exact (hrange (by omega)).2 (hfits (by omega)).2

theorem readsWell_iff (h : r.InRange) (hq : q.Valid) : r.ReadsWell q ↔ r.ReadFits q := by
  rcases q with w | n
  · exact readsWell_scalar h hq.1 hq.2
  · exact readsWell_str h

/-! ### Assignment -/

/-- The reader is at `k` and has `v` before it, the terminator of its string included. -/
structure Sees (r : BinaryReader) (k : Nat) (v : Bytes) : Prop where
  index : r.index.toInt = k
  le : k ≤ r.msg.length + 1
  rest : (r.msg ++ [0]).drop k = v

variable {v v' : Bytes}

theorem InRange.sees (h : r.InRange) :
    r.Sees r.index.toInt.toNat (r.msg.drop r.index.toInt.toNat ++ [0]) := by
  have := h.le
  have := h.nonneg
  exact ⟨h.toNat, by omega, List.drop_append_of_le_length (by omega)⟩

theorem Sees.length (h : r.Sees k v) : v.length + k = r.msg.length + 1 := by
  have := h.le
  rw [← h.rest, List.length_drop, List.length_append, List.length_singleton]
  omega

theorem Sees.readDataStr (h : r.Sees k v) (n : Nat) :
    r.readDataStr n =
      if n ≤ v.length then .ok (v.take n, { r with index := r.index + Int32.ofNat n })
      else .error .outOfBounds := by
  have hlen := h.length
  have hcopy : memcpyFrom r.msg r.index.toInt n =
      if n ≤ v.length then .ok (v.take n) else .error .outOfBounds := by
    rw [memcpyFrom, h.index]
    by_cases hn : n = 0
    · rw [if_pos hn, if_pos (by omega), hn, List.take_zero]
    rw [if_neg hn, Int.toNat_natCast, h.rest]
    by_cases hle : n ≤ v.length
    · rw [if_pos (by omega), if_pos hle]
    · rw [if_neg (by omega), if_neg hle]
  rw [BinaryReader.readDataStr, hcopy]
  split <;> rfl

theorem Sees.outcomes_str (h : r.Sees k v) (n : Nat) (qs : List Read) :
    r.outcomes (.str n :: qs) =
      if n ≤ v.length then .ok (some (v.take n)) :: outcomes { r with index := r.index + Int32.ofNat n } qs
      else [.error .outOfBounds] := by
  rw [outcomes, read_str, h.readDataStr]
  by_cases hn : n ≤ v.length
  · rw [if_pos hn, if_pos hn]
    rfl
  · rw [if_neg hn, if_neg hn]
    rfl

theorem Sees.add (h : r.Sees k v) (hint : k + v.length < 2 ^ 31) (hn : n ≤ v.length) :
    Sees { r with index := r.index + Int32.ofNat n } (k + n) (v.drop n) := by
  have hlen := h.length
  refine ⟨toInt_index_add h.index (by omega), ?_, ?_⟩
  · show k + n ≤ r.msg.length + 1
    omega
  · rw [← h.rest, List.drop_drop]

/-- With no more than one byte and the terminator left no scalar is read: it is refused, or the first
byte asked for is behind the terminator. -/
theorem Sees.read_scalar (h : r.Sees k v) (hint : k + v.length < 2 ^ 31) (hv : v.length ≤ 2) (hw : 0 < w)
    (hsize : w < 2 ^ 63) : r.read (.scalar w) = if v.length ≤ w then .ok none else .error .outOfBounds := by
  have hlen := h.length
  rw [BinaryReader.read_scalar]
  by_cases hshort : v.length ≤ w
  · rw [if_pos hshort, readData, if_pos]
    rw [toSize_index h.index (by omega)]
    omega
  · have hone : w = 1 := by omega
    rw [if_neg hshort, readData, if_neg (by rw [toSize_index h.index (by omega)]; omega), hone, h.index]
    have hbyte : cStr r.msg ((k : Int) + (1 : Nat) - (((0 : Nat) : Int) - 1)) = .error .outOfBounds :=
      if_neg (by omega)
    rw [List.range_one, List.mapM_cons, hbyte]
    rfl

theorem Sees.outcomes_eq {k' : Nat} {qs : List Read} (h : r.Sees k v) (h' : r'.Sees k' v)
    (hint : k + v.length < 2 ^ 31) (hint' : k' + v.length < 2 ^ 31) (hv : v.length ≤ 2)
    (hqs : ∀ q ∈ qs, q.Valid) : r.outcomes qs = r'.outcomes qs := by
  induction qs generalizing r r' v k k' with
  | nil => rfl
  | cons q qs ih =>
    obtain ⟨hq, hrest⟩ := List.forall_mem_cons.1 hqs
    rcases q with w | n
    · rw [outcomes, outcomes, h.read_scalar hint hv hq.1 hq.2, h'.read_scalar hint' hv hq.1 hq.2]
      by_cases hw : v.length ≤ w
      · rw [if_pos hw]
        exact congrArg _ (ih h h' hint hint' hv hrest)
      · rw [if_neg hw]
    · rw [h.outcomes_str, h'.outcomes_str]
      by_cases hn : n ≤ v.length
      · have hdrop : (v.drop n).length = v.length - n := List.length_drop
        rw [if_pos hn, if_pos hn]
        exact congrArg _ (ih (h.add hint hn) (h'.add hint' hn) (by omega) (by omega) (by omega) hrest)
      · rw [if_neg hn, if_neg hn]

/-- Readers that return the same have the same before them. -/
theorem Sees.view_eq {k' : Nat} (h : r.Sees k v) (h' : r'.Sees k' v') (hlen : v.length < maxSize)
    (hsame : ∀ qs, (∀ q ∈ qs, q.Valid) → r.outcomes qs = r'.outcomes qs) : v = v' := by
  have hstr : ∀ n, n ≤ maxSize → r.outcomes [.str n] = r'.outcomes [.str n] :=
    fun n hn => hsame _ (List.forall_mem_cons.2 ⟨hn, nofun⟩)
  have hshort : v'.length ≤ v.length := by
    by_contra hlong
    have heq := hstr (v.length + 1) hlen
    rw [h.outcomes_str, h'.outcomes_str, if_neg (by omega), if_pos (by omega)] at heq
    cases heq
  have heq := hstr v.length (by omega)
  rw [h.outcomes_str, h'.outcomes_str, if_pos (Nat.le_refl _)] at heq
  by_cases hle : v.length ≤ v'.length
  · rw [if_pos hle, List.take_length, List.take_of_length_le hshort] at heq
    exact Option.some.inj (Except.ok.inj (List.cons.inj heq).1)
  · rw [if_neg hle] at heq
    cases heq

theorem outcomes_none_iff : r.outcomes [q] = [.ok none] ↔ r.read q = .ok none := by
  rw [outcomes]
  rcases r.read q with e | _ | p <;> simp [outcomes]

/-- A cursor that has left the range of an `int` lets a scalar of `2 ^ 31` bytes through. -/
theorem Sees.wrapped (h : r.Sees k v) (hv : v.length ≤ 2) (hlong : 2 ^ 31 ≤ k + v.length) :
    read { r with index := r.index + Int32.ofNat v.length } (.scalar (2 ^ 31)) ≠ .ok none := by
  have hlen := h.length
  have hlt := Int32.toInt_lt r.index
  have hindex : (r.index + Int32.ofNat v.length).toInt = ((k + v.length : Nat) : Int) - 2 ^ 32 := by
    have := h.index
    rw [index_eq h.index, ← Int32.ofNat_add, toInt_ofNat_eq, if_neg (by omega), Nat.mod_eq_of_lt (by omega)]
  rw [BinaryReader.read_scalar]
  intro hnone
  rw [readData, if_neg] at hnone
  · obtain ⟨data, -, hsome⟩ := Except.bind_eq_ok.1 hnone
    cases hsome
  · show ¬ r.msg.length < (toSize (r.index + Int32.ofNat v.length) + 2 ^ 31) % 2 ^ 64
    rw [toSize, hindex]
    omega

/-- The property of an assignment between two readers. -/
structure AssignsWell (r source : BinaryReader) : Prop where
  outcomes : ∀ qs, (∀ q ∈ qs, q.Valid) → (r.assign source).outcomes qs = source.outcomes qs
  inRange : (r.assign source).InRange

theorem assignsWell_of_fits (h : r.InRange) (hsource : source.InRange) (hfits : r.AssignFits source) :
    r.AssignsWell source := by
  have hrange : (r.assign source).InRange := ⟨h.nonneg, hfits.index⟩
  have htarget := hrange.sees
  have hview : source.Sees source.index.toInt.toNat
      ((r.assign source).msg.drop (r.assign source).index.toInt.toNat ++ [0]) := by
    have hsees := hsource.sees
    rwa [hfits.rest] at hsees
  have hone : (r.assign source).msg.length = 1 := rfl
  have hlen := htarget.length
  have hlen' := hview.length
  have hmsg := hfits.length
  refine ⟨fun qs hqs => htarget.outcomes_eq hview ?_ ?_ ?_ hqs, hrange⟩
  · omega
  · omega
  · omega

theorem fits_of_assignsWell (hsource : source.InRange) (hwell : r.AssignsWell source) : r.AssignFits source := by
  have htarget := hwell.inRange.sees
  have hview := hsource.sees
  have hone : (r.assign source).msg.length = 1 := rfl
  have hlen := htarget.length
  have heq := htarget.view_eq hview (by unfold maxSize; omega) hwell.outcomes
  refine ⟨hwell.inRange.le, (List.append_cancel_right heq).symm, ?_⟩
  rw [← heq] at hview
  have hlen' := hview.length
  by_contra hlong
  -- both read all they have, and then a scalar that only the target refuses
  obtain ⟨v, hv⟩ : ∃ v, (r.assign source).msg.drop (r.assign source).index.toInt.toNat ++ [0] = v := ⟨_, rfl⟩
  rw [hv] at htarget hview hlen hlen'
  have hvalid : ∀ q ∈ [Read.str v.length, .scalar (2 ^ 31)], q.Valid := by
    refine List.forall_mem_cons.2 ⟨?_, List.forall_mem_singleton.2 ?_⟩
    · show v.length ≤ maxSize
      unfold maxSize
      omega
    · show 0 < 2 ^ 31 ∧ 2 ^ 31 < 2 ^ 63
      omega
  have hboth := hwell.outcomes _ hvalid
  rw [htarget.outcomes_str, hview.outcomes_str, if_pos (Nat.le_refl _), if_pos (Nat.le_refl _)] at hboth
  have hend := htarget.add (by omega) (Nat.le_refl _)
  rw [List.drop_length] at hend
  have hrefused := hend.read_scalar (w := 2 ^ 31) (by show _ + 0 < 2 ^ 31; omega) (by decide) (by omega) (by omega)
  rw [if_pos (by show 0 ≤ 2 ^ 31; omega)] at hrefused
  refine hview.wrapped (by omega) (by omega) (outcomes_none_iff.1 ?_)
  rw [← (List.cons.inj hboth).2]
  exact outcomes_none_iff.2 hrefused

theorem assignsWell_iff (h : r.InRange) (hsource : source.InRange) :
    r.AssignsWell source ↔ r.AssignFits source :=
  ⟨fits_of_assignsWell hsource, assignsWell_of_fits h hsource⟩

end BinaryReader

/-! ### One operation, and a run -/

section
variable {pool : List BinaryReader} {op : ReaderOp} {ops : List ReaderOp} {r : BinaryReader} {i : Nat}

theorem CursorsIn.set (h : CursorsIn pool) (hr : r.InRange) (i : Nat) : CursorsIn (pool.set i r) := by
  intro r' hr'
  rcases List.mem_or_eq_of_mem_set hr' with hmem | rfl
  · exact h r' hmem
  · exact hr

theorem CursorsIn.append (h : CursorsIn pool) (hr : r.InRange) : CursorsIn (pool ++ [r]) := by
  intro r' hr'
  rcases List.mem_append.1 hr' with hmem | hmem
  · exact h r' hmem
  · rw [List.mem_singleton.1 hmem]
    exact hr

theorem BinaryReader.inRange_start (msg : Bytes) : InRange { msg := msg } :=
  ⟨Int.le_refl 0, Int.natCast_nonneg msg.length⟩

/-- An operation returns, is good, and leaves every cursor inside its message. -/
def Keeps (pool : List BinaryReader) (op : ReaderOp) : Prop :=
  ∃ pool', op.step pool = .ok pool' ∧ op.Good pool pool' ∧ CursorsIn pool'

theorem keeps_read_iff (hin : CursorsIn pool) {q : Read} (hi : i < pool.length) (hq : q.Valid) :
    Keeps pool (.read i q) ↔ (ReaderOp.read i q).Fits pool := by
  obtain ⟨r, hr⟩ : ∃ r, pool[i]? = some r := ⟨_, List.getElem?_eq_getElem hi⟩
  have hstep : (ReaderOp.read i q).step pool = (r.read q).map fun
      | none => pool
      | some (_, r') => pool.set i r' := by
    rw [ReaderOp.step, hr]
  have hfits : (ReaderOp.read i q).Fits pool ↔ r.ReadsWell q := by
    rw [BinaryReader.readsWell_iff (hin r (List.mem_of_getElem? hr)) hq]
    exact ⟨fun h => h r hr, fun h r' hr' => Option.some.inj (hr.symm.trans hr') ▸ h⟩
  rw [hfits, Keeps, hstep]
  constructor
  · rintro ⟨pool', hmap, hgood, hin'⟩
    obtain ⟨hbetween, hrefused⟩ := hgood r hr
    obtain ⟨o, ho, hpool'⟩ := Except.map_eq_ok.1 hmap
    refine ⟨hbetween, fun hmore => (hrefused hmore).1, ⟨o, ho⟩, fun data r' hread => hin' r' ?_⟩
    rw [← hpool', Except.ok_unique ho hread]
    exact List.mem_set hi r'
  · intro hwell
    obtain ⟨o, ho⟩ := hwell.returns
    rw [ho]
    refine ⟨_, rfl, fun r' hr' => ?_, ?_⟩
    · obtain rfl := Option.some.inj (hr.symm.trans hr')
      refine ⟨hwell.between, fun hmore => ⟨hwell.refused hmore, ?_⟩⟩
      rw [Except.ok_unique ho (hwell.refused hmore)]
    · rcases o with _ | ⟨data, r'⟩
      · exact hin
      · exact hin.set (hwell.inRange data r' ho) i

theorem keeps_assign_iff (hin : CursorsIn pool) {j : Nat} (hi : i < pool.length) (hj : j < pool.length) :
    Keeps pool (.assign i j) ↔ (ReaderOp.assign i j).Fits pool := by
  obtain ⟨r, hr⟩ : ∃ r, pool[i]? = some r := ⟨_, List.getElem?_eq_getElem hi⟩
  obtain ⟨source, hsource⟩ : ∃ source, pool[j]? = some source := ⟨_, List.getElem?_eq_getElem hj⟩
  have hstep : (ReaderOp.assign i j).step pool = .ok (if i = j then pool else pool.set i (r.assign source)) := by
    rw [ReaderOp.step, hr, hsource]
  rw [Keeps, hstep]
  by_cases hij : i = j
  · refine iff_of_true ⟨_, rfl, fun target source' ht hs qs _ => ?_, ?_⟩ (.inl hij)
    · rw [if_pos hij, hij] at ht
      rw [if_pos hij] at hs
      rw [Option.some.inj (ht.symm.trans hs)]
    · rw [if_pos hij]
      exact hin
  rw [if_neg hij]
  have hset : (pool.set i (r.assign source))[i]? = some (r.assign source) := List.getElem?_set_self hi
  have hkept : (pool.set i (r.assign source))[j]? = some source := by rw [List.getElem?_set_ne hij, hsource]
  have hfits : (ReaderOp.assign i j).Fits pool ↔ r.AssignsWell source := by
    rw [BinaryReader.assignsWell_iff (hin r (List.mem_of_getElem? hr)) (hin source (List.mem_of_getElem? hsource))]
    refine ⟨fun h => (h.resolve_left hij) r source hr hsource, fun h => .inr fun r' source' hr' hs' => ?_⟩
    rwa [← Option.some.inj (hr.symm.trans hr'), ← Option.some.inj (hsource.symm.trans hs')]
  rw [hfits]
  constructor
  · rintro ⟨pool', hok, hgood, hin'⟩
    obtain rfl := Except.ok.inj hok
    exact ⟨hgood _ _ hset hkept, hin' _ (List.mem_of_getElem? hset)⟩
  · intro hwell
    refine ⟨_, rfl, fun target source' ht hs => ?_, hin.set hwell.inRange i⟩
    rw [← Option.some.inj (hset.symm.trans ht), ← Option.some.inj (hkept.symm.trans hs)]
    exact hwell.outcomes

theorem keeps_iff (hin : CursorsIn pool) (hvalid : op.Valid pool) : Keeps pool op ↔ op.Fits pool := by
  cases op with
  | make msg => exact iff_of_true ⟨_, rfl, trivial, hin.append (BinaryReader.inRange_start msg)⟩ trivial
  | copy j =>
    have hj : pool[j]? = some pool[j] := List.getElem?_eq_getElem hvalid
    refine iff_of_true ⟨pool ++ [pool[j]], ?_, trivial, hin.append (hin _ (List.getElem_mem hvalid))⟩ trivial
    rw [ReaderOp.step, hj]
  | setMsg i msg => exact iff_of_true ⟨_, rfl, trivial, hin.set (BinaryReader.inRange_start msg) i⟩ trivial
  | reset i =>
    have hset : pool.modify i BinaryReader.reset = pool.set i (BinaryReader.reset pool[i]) :=
      List.modify_eq_set_get _ hvalid
    refine iff_of_true ⟨_, rfl, trivial, ?_⟩ trivial
    rw [hset]
    exact hin.set (BinaryReader.inRange_start _) i
  | read i q => exact keeps_read_iff hin hvalid.1 hvalid.2
  | assign i j => exact keeps_assign_iff hin hvalid.1 hvalid.2

theorem KeepsCursors.cursorsIn (h : KeepsCursors pool ops) : CursorsIn pool := by
  cases ops with
  | nil => exact h
  | cons op ops => exact h.1

theorem keepsCursors_iff_of_cursorsIn (hin : CursorsIn pool) (hvalid : ReaderOp.AllValid pool ops) :
    KeepsCursors pool ops ↔ ReaderOp.AllFit pool ops := by
  induction ops generalizing pool with
  | nil => exact iff_of_true hin trivial
  | cons op ops ih =>
    obtain ⟨hop, hops⟩ := hvalid
    have hkeeps := keeps_iff hin hop
    constructor
    · rintro ⟨-, pool', hstep, hgood, hrest⟩
      refine ⟨hkeeps.1 ⟨pool', hstep, hgood, hrest.cursorsIn⟩, fun pool'' hstep' => ?_⟩
      obtain rfl := Except.ok_unique hstep hstep'
      exact (ih hrest.cursorsIn (hops _ hstep)).1 hrest
    · rintro ⟨hfits, hrest⟩
      obtain ⟨pool', hstep, hgood, hin'⟩ := hkeeps.2 hfits
      exact ⟨hin, pool', hstep, hgood, (ih hin' (hops _ hstep)).2 (hrest _ hstep)⟩

/-- Any operations, on readers that are made by them. -/
theorem keepsCursors_iff (hvalid : ReaderOp.AllValid [] ops) : KeepsCursors [] ops ↔ ReaderOp.AllFit [] ops :=
  keepsCursors_iff_of_cursorsIn nofun hvalid

theorem allValid_cons {pool' : List BinaryReader} (hstep : op.step pool = .ok pool') (h : op.Valid pool)
    (hrest : ReaderOp.AllValid pool' ops) : ReaderOp.AllValid pool (op :: ops) :=
  ⟨h, fun _ hstep' => Except.ok_unique hstep hstep' ▸ hrest⟩

theorem allFit_cons {pool' : List BinaryReader} (hstep : op.step pool = .ok pool') (h : op.Fits pool)
    (hrest : ReaderOp.AllFit pool' ops) : ReaderOp.AllFit pool (op :: ops) :=
  ⟨h, fun _ hstep' => Except.ok_unique hstep hstep' ▸ hrest⟩

/-- A scalar with two bytes to spare, these two as a string, and a scalar for which nothing is left. -/
theorem keepsCursors_reads :
    KeepsCursors [] [.make [1, 2, 3, 4, 5, 6], .read 0 (.scalar 4), .read 0 (.str 2), .read 0 (.scalar 8)] := by
  have hvalid : ReaderOp.AllValid []
      [.make [1, 2, 3, 4, 5, 6], .read 0 (.scalar 4), .read 0 (.str 2), .read 0 (.scalar 8)] := by
    refine allValid_cons rfl trivial (allValid_cons rfl ⟨by decide, by decide, by decide⟩ ?_)
    refine allValid_cons rfl ⟨by decide, by decide⟩ (allValid_cons rfl ⟨by decide, by decide, by decide⟩ trivial)
  refine (keepsCursors_iff hvalid).2 (allFit_cons rfl trivial (allFit_cons rfl ?_ ?_))
  · rintro r hr
    obtain rfl := Option.some.inj hr
    decide
  refine allFit_cons rfl ?_ (allFit_cons rfl ?_ trivial)
  · rintro r hr
    obtain rfl := Option.some.inj hr
    decide
  · rintro r hr
    obtain rfl := Option.some.inj hr
    decide

/-- Three bytes from a message of two: the terminator is copied and the cursor is behind the end. -/
theorem terminator_read_leaves :
    (ReaderOp.read 0 (.str 3)).step [{ msg := [1, 2] }] = .ok [{ msg := [1, 2], index := 3 }] ∧
      ¬ KeepsCursors [] [.make [1, 2], .read 0 (.str 3)] := by
  refine ⟨rfl, ?_⟩
  rintro ⟨-, pool, hmake, -, -, pool', hread, -, hin⟩
  obtain rfl := Except.ok.inj hmake
  obtain rfl := Except.ok.inj hread
  exact absurd (hin _ (.head _)).le (by decide)

end

end IMServer
