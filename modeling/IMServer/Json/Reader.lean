import IMServer.Json.Number
import IMServer.Lib.Run

/-!
# `Json::Reader`

The recursive-descent parser of the vendored jsoncpp with its default features: comments are
allowed and the root may be any value. `cur` is the document from `current_` to `end_`. Comments are
skipped and not kept, as with `collectComments` off; with it on, which is how the server calls `parse`,
the values are the same and carry their comments besides. The error texts are left out. The loops take
fuel; `parse` gives them enough (`parse_ne_diverges`).
-/

namespace IMServer.Json

inductive TokenType
  | endOfStream | objectBegin | objectEnd | arrayBegin | arrayEnd | string | number
  | true | false | null | arraySeparator | memberSeparator | comment | error
deriving Repr, DecidableEq

structure Token where
  type : TokenType
  /-- the bytes from `start_` to `end_` -/
  text : Bytes

def skipSpaces (cur : Bytes) : Bytes := cur.dropWhile fun c => c == 32 || c == 9 || c == 13 || c == 10

def matchPattern (pattern : String) (cur : Bytes) : Bool × Bytes :=
  if (ascii pattern).isPrefixOf cur then (true, cur.drop pattern.length) else (false, cur)

def readCStyleComment : Bytes → Bool × Bytes
  | [] => (false, [])
  | c :: cur => if c = 42 ∧ cur.head? = some 47 then (true, cur.tail) else readCStyleComment cur

def readCppStyleComment : Bytes → Bytes
  | [] => []
  | c :: cur => if c = 13 ∨ c = 10 then cur else readCppStyleComment cur

def readComment : Bytes → Bool × Bytes
  | [] => (false, [])
  | c :: cur =>
    if c = 42 then readCStyleComment cur
    else if c = 47 then (true, readCppStyleComment cur)
    else (false, cur)

def readNumber (cur : Bytes) : Bytes :=
  cur.dropWhile fun c => isDigit c || c == 46 || c == 101 || c == 69 || c == 43 || c == 45

def readString : Bytes → Bool × Bytes
  | [] => (false, [])
  | c :: cur =>
    if c = 92 then
      match cur with
      | [] => (false, [])
      | _ :: cur => readString cur
    else if c = 34 then (true, cur)
    else readString cur

def tokenAfter (c : UInt8) (cur : Bytes) : TokenType × Bytes :=
  let check (type : TokenType) (r : Bool × Bytes) := (if r.1 then type else .error, r.2)
  if c = 123 then (.objectBegin, cur)
  else if c = 125 then (.objectEnd, cur)
  else if c = 91 then (.arrayBegin, cur)
  else if c = 93 then (.arrayEnd, cur)
  else if c = 34 then check .string (readString cur)
  else if c = 47 then check .comment (readComment cur)
  else if isDigit c ∨ c = 45 then (.number, readNumber cur)
  else if c = 116 then check .true (matchPattern "rue" cur)
  else if c = 102 then check .false (matchPattern "alse" cur)
  else if c = 110 then check .null (matchPattern "ull" cur)
  else if c = 44 then (.arraySeparator, cur)
  else if c = 58 then (.memberSeparator, cur)
  else if c = 0 then (.endOfStream, cur)
  else (.error, cur)

/-- At the end of the document `getNextChar` returns 0, and so does a zero byte inside it. -/
def readToken (cur : Bytes) : Token × Bytes :=
  match skipSpaces cur with
  | [] => (⟨.endOfStream, []⟩, [])
  | c :: rest =>
    let (type, cur) := tokenAfter c rest
    (⟨type, (c :: rest).take (rest.length + 1 - cur.length)⟩, cur)

/-- `while (token.type_ == tokenComment) readToken(token);` -/
def skipComments : Nat → Token × Bytes → Except Fault (Token × Bytes)
  | 0, _ => .error .diverges
  | fuel + 1, (token, cur) =>
    if token.type = .comment then skipComments fuel (readToken cur) else .ok (token, cur)

def skipCommentTokens (fuel : Nat) (cur : Bytes) : Except Fault (Token × Bytes) :=
  skipComments fuel (readToken cur)

def recoverFromError (skipUntil : TokenType) : Nat → Bytes → Except Fault Bytes
  | 0, _ => .error .diverges
  | fuel + 1, cur =>
    let (skip, cur) := readToken cur
    if skip.type = skipUntil ∨ skip.type = .endOfStream then .ok cur
    else recoverFromError skipUntil fuel cur

/-! ### Strings -/

def codePointToUTF8 (cp : Nat) : Bytes :=
  if cp ≤ 0x7F then [UInt8.ofNat cp]
  else if cp ≤ 0x7FF then [UInt8.ofNat (0xC0 + cp / 2 ^ 6), UInt8.ofNat (0x80 + cp % 64)]
  else if cp ≤ 0xFFFF then
    [UInt8.ofNat (0xE0 + cp / 2 ^ 12), UInt8.ofNat (0x80 + cp / 2 ^ 6 % 64), UInt8.ofNat (0x80 + cp % 64)]
  else if cp ≤ 0x10FFFF then
    [UInt8.ofNat (0xF0 + cp / 2 ^ 18), UInt8.ofNat (0x80 + cp / 2 ^ 12 % 64),
      UInt8.ofNat (0x80 + cp / 2 ^ 6 % 64), UInt8.ofNat (0x80 + cp % 64)]
  else []

def hexDigit (c : UInt8) : Option Nat :=
  if 48 ≤ c ∧ c ≤ 57 then some (c.toNat - 48)
  else if 97 ≤ c ∧ c ≤ 102 then some (c.toNat - 97 + 10)
  else if 65 ≤ c ∧ c ≤ 70 then some (c.toNat - 65 + 10)
  else none

def decodeUnicodeEscapeSequence : Bytes → Option (Nat × Bytes)
  | a :: b :: c :: d :: cs => do
    let a ← hexDigit a
    let b ← hexDigit b
    let c ← hexDigit c
    let d ← hexDigit d
    return (((a * 16 + b) * 16 + c) * 16 + d, cs)
  | _ => none

def decodeUnicodeCodePoint (cs : Bytes) : Option (Nat × Bytes) := do
  let (unicode, cs) ← decodeUnicodeEscapeSequence cs
  if 0xD800 ≤ unicode ∧ unicode ≤ 0xDBFF then
    if cs.length < 6 then none
    else
      match cs with
      | 92 :: 117 :: cs => do
        let (pair, cs) ← decodeUnicodeEscapeSequence cs
        return (0x10000 + unicode % 0x400 * 2 ^ 10 + pair % 0x400, cs)
      | _ => none
  else return (unicode, cs)

def decodeEscape (escape : UInt8) : Option UInt8 :=
  if escape = 34 then some 34
  else if escape = 47 then some 47
  else if escape = 92 then some 92
  else if escape = 98 then some 8
  else if escape = 102 then some 12
  else if escape = 110 then some 10
  else if escape = 114 then some 13
  else if escape = 116 then some 9
  else none

/-- The characters between the quotes. Every turn consumes one, so the fuel is their number. -/
def decodeChars : Nat → Bytes → Option Bytes
  | _, [] => some []
  | 0, _ :: _ => none
  | fuel + 1, c :: cs =>
    if c = 34 then some []
    else if c = 92 then
      match cs with
      | [] => none
      | 117 :: cs => do
        let (unicode, cs) ← decodeUnicodeCodePoint cs
        let decoded ← decodeChars fuel cs
        return codePointToUTF8 unicode ++ decoded
      | escape :: cs => do
        let c ← decodeEscape escape
        let decoded ← decodeChars fuel cs
        return c :: decoded
    else do
      let decoded ← decodeChars fuel cs
      return c :: decoded

def decodeString (token : Bytes) : Option Bytes :=
  decodeChars token.length token.tail.dropLast

/-! ### Values -/

mutual

/-- The value, `none` if it was not read successfully, and where the reader stands afterwards. -/
def readValue : Nat → Bytes → Except Fault (Option Value × Bytes)
  | 0, _ => .error .diverges
  | fuel + 1, cur => do
    let (token, cur) ← skipCommentTokens (fuel + 1) cur
    match token.type with
    | .objectBegin => readObject fuel [] [] cur
    | .arrayBegin =>
      if (skipSpaces cur).head? = some 93 then return (some (.array []), (readToken cur).2)
      else readArray fuel [] cur
    | .number => return (← decodeNumber token.text, cur)
    | .string => return ((decodeString token.text).map .string, cur)
    | .true => return (some (.bool true), cur)
    | .false => return (some (.bool false), cur)
    | .null => return (some .null, cur)
    | _ => return (none, cur)

/-- One turn of the loop over the members: `name` is the name of the member before. -/
def readObject : Nat → Bytes → List (Bytes × Value) → Bytes → Except Fault (Option Value × Bytes)
  | 0, _, _, _ => .error .diverges
  | fuel + 1, name, members, cur => do
    let (tokenName, cur) ← skipCommentTokens (fuel + 1) cur
    if tokenName.type = .objectEnd ∧ name = [] then return (some (.object members), cur)
    if tokenName.type ≠ .string then return (none, ← recoverFromError .objectEnd (fuel + 1) cur)
    match decodeString tokenName.text with
    | none => return (none, ← recoverFromError .objectEnd (fuel + 1) cur)
    | some name =>
      let (colon, cur) := readToken cur
      if colon.type ≠ .memberSeparator then
        return (none, ← recoverFromError .objectEnd (fuel + 1) cur)
      match ← readValue fuel cur with
      | (none, cur) => return (none, ← recoverFromError .objectEnd (fuel + 1) cur)
      | (some value, cur) =>
        -- `currentValue()[name]`: the name is a C string, a later member replaces an earlier one
        let members := AssocMap.insert (cTrunc name) value members
        let (comma, cur) := readToken cur
        if comma.type ≠ .objectEnd ∧ comma.type ≠ .arraySeparator ∧ comma.type ≠ .comment then
          return (none, ← recoverFromError .objectEnd (fuel + 1) cur)
        let (comma, cur) ← skipComments (fuel + 1) (comma, cur)
        if comma.type = .objectEnd then return (some (.object members), cur)
        readObject fuel name members cur

/-- One turn of the loop over the items; any token but `]` passes for a separator. -/
def readArray : Nat → List Value → Bytes → Except Fault (Option Value × Bytes)
  | 0, _, _ => .error .diverges
  | fuel + 1, items, cur => do
    match ← readValue fuel cur with
    | (none, cur) => return (none, ← recoverFromError .arrayEnd (fuel + 1) cur)
    | (some value, cur) =>
      let (token, cur) ← skipCommentTokens (fuel + 1) cur
      if token.type = .arrayEnd then return (some (.array (items ++ [value])), cur)
      readArray fuel (items ++ [value]) cur

end

/-- `Reader::parse`: the root, `none` for the return value `false`. What follows the root is not
looked at, but for comments. -/
def parse (document : Bytes) : Except Fault (Option Value) := do
  let fuel := 2 * document.length + 2
  let (root, cur) ← readValue fuel document
  let _ ← skipCommentTokens fuel cur
  return root

/-! ### Every token consumes, so the reader comes to an end -/

theorem length_readCStyleComment (cur : Bytes) : (readCStyleComment cur).2.length ≤ cur.length := by
  induction cur with
  | nil => simp [readCStyleComment]
  | cons c cur ih =>
    rw [readCStyleComment]
    split
    · simp only [List.length_tail, List.length_cons]; omega
    · simp only [List.length_cons]; omega

theorem length_readCppStyleComment (cur : Bytes) : (readCppStyleComment cur).length ≤ cur.length := by
  induction cur with
  | nil => simp [readCppStyleComment]
  | cons c cur ih =>
    rw [readCppStyleComment]
    split <;> simp only [List.length_cons] <;> omega

theorem length_readComment (cur : Bytes) : (readComment cur).2.length ≤ cur.length := by
  cases cur with
  | nil => simp [readComment]
  | cons c cur =>
    rw [readComment, List.length_cons]
    split
    · have := length_readCStyleComment cur; omega
    · split
      · have := length_readCppStyleComment cur; simp only; omega
      · simp

theorem length_readString (cur : Bytes) : (readString cur).2.length ≤ cur.length := by
  induction cur using readString.induct with
  | case1 => simp [readString]
  | case2 => simp [readString]
  | case3 d cur ih => simp only [readString, ite_true, List.length_cons]; omega
  | case4 cur h =>
    rw [readString.eq_def]
    simp only [if_neg h, ite_true, List.length_cons]
    omega
  | case5 c cur h₁ h₂ ih =>
    rw [readString.eq_def]
    simp only [if_neg h₁, if_neg h₂, List.length_cons]
    omega

theorem length_matchPattern (pattern : String) (cur : Bytes) :
    (matchPattern pattern cur).2.length ≤ cur.length := by
  rw [matchPattern]
  split
  · simp only [List.length_drop]; omega
  · exact Nat.le_refl _

theorem length_tokenAfter (c : UInt8) (cur : Bytes) : (tokenAfter c cur).2.length ≤ cur.length := by
  have h₁ := length_readString cur
  have h₂ := length_readComment cur
  have h₃ : (readNumber cur).length ≤ cur.length := (List.dropWhile_suffix _).length_le
  have h₄ := fun p => length_matchPattern p cur
  have hite : ∀ {p : Prop} [Decidable p] {x y : TokenType × Bytes}, x.2.length ≤ cur.length →
      y.2.length ≤ cur.length → (if p then x else y).2.length ≤ cur.length := by
    intro p _ x y hx hy
    split
    · exact hx
    · exact hy
  unfold tokenAfter
  repeat' apply hite
  all_goals first | exact Nat.le_refl _ | exact h₁ | exact h₂ | exact h₃ | exact h₄ _

theorem length_skipSpaces (cur : Bytes) : (skipSpaces cur).length ≤ cur.length :=
  (List.dropWhile_suffix _).length_le

theorem length_readToken (cur : Bytes) : (readToken cur).2.length ≤ cur.length := by
  have h := length_skipSpaces cur
  unfold readToken
  split
  · simp
  · next c rest heq =>
    have := length_tokenAfter c rest
    rw [heq, List.length_cons] at h
    simp only
    omega

theorem length_readToken_lt {cur : Bytes} (h : (readToken cur).1.type ≠ .endOfStream) :
    (readToken cur).2.length < cur.length := by
  have hs := length_skipSpaces cur
  unfold readToken at h ⊢
  split at h
  · exact absurd rfl h
  · next c rest heq =>
    have := length_tokenAfter c rest
    rw [heq, List.length_cons] at hs
    simp only
    omega

/-- An outcome other than running out of fuel. -/
abbrev Comes {α : Type} (Q : α → Prop) (x : Except Fault α) : Prop := x.Ends (· ≠ .diverges) Q

theorem skipComments_comes {fuel : Nat} {p : Token × Bytes}
    (h : (if p.1.type = .comment then p.2.length + 1 else 0) < fuel) :
    Comes (fun q => q.2.length ≤ p.2.length ∧ (q = p ∨ q.1.type = .endOfStream ∨
      q.2.length < p.2.length)) (skipComments fuel p) := by
  induction fuel generalizing p with
  | zero => omega
  | succ fuel ih =>
    obtain ⟨token, cur⟩ := p
    rw [skipComments]
    split
    · next hc =>
      simp only [hc, ite_true] at h
      have hle := length_readToken cur
      have hlt : _ → (readToken cur).2.length < cur.length := length_readToken_lt
      refine (ih ?_).mono ?_
      · split
        · next hc' => have := hlt (by rw [hc']; decide); omega
        · omega
      · rintro q ⟨h₁, h₂⟩
        refine ⟨Nat.le_trans h₁ hle, ?_⟩
        rcases h₂ with rfl | h₂ | h₂
        · by_cases he : (readToken cur).1.type = .endOfStream
          · exact .inr (.inl he)
          · exact .inr (.inr (hlt he))
        · exact .inr (.inl h₂)
        · exact .inr (.inr (Nat.lt_of_lt_of_le h₂ hle))
    · exact ⟨Nat.le_refl _, .inl rfl⟩

theorem skipCommentTokens_comes {fuel : Nat} {cur : Bytes} (h : cur.length < fuel) :
    Comes (fun q => q.2.length ≤ cur.length ∧ (q.1.type ≠ .endOfStream → q.2.length < cur.length))
      (skipCommentTokens fuel cur) := by
  have hle := length_readToken cur
  have hlt : _ → (readToken cur).2.length < cur.length := length_readToken_lt
  refine (skipComments_comes ?_).mono ?_
  · split
    · next hc => have := hlt (by rw [hc]; decide); omega
    · omega
  · rintro q ⟨h₁, h₂⟩
    refine ⟨Nat.le_trans h₁ hle, fun he => ?_⟩
    rcases h₂ with rfl | h₂ | h₂
    · exact hlt he
    · exact absurd h₂ he
    · exact Nat.lt_of_lt_of_le h₂ hle

theorem recoverFromError_comes (skipUntil : TokenType) {fuel : Nat} {cur : Bytes}
    (h : cur.length < fuel) :
    Comes (fun q : Bytes => q.length ≤ cur.length) (recoverFromError skipUntil fuel cur) := by
  induction fuel generalizing cur with
  | zero => omega
  | succ fuel ih =>
    have hle := length_readToken cur
    rw [recoverFromError]
    simp only
    refine .ite (fun _ => hle) fun hne => ?_
    have : (readToken cur).2.length < cur.length := length_readToken_lt fun he => hne (.inr he)
    exact (ih (by omega)).mono fun q hq => Nat.le_trans hq hle

/-- What holds of `readValue`, `readObject` and `readArray`: a value read is a value consumed. -/
def Consumes (cur : Bytes) (r : Option Value × Bytes) : Prop :=
  r.2.length ≤ cur.length ∧ (r.1.isSome → r.2.length < cur.length)

theorem decodeNumber_comes (token : Bytes) : Comes (fun _ => True) (decodeNumber token) := by
  have h := decodeNumber_ne_diverges token
  cases hd : decodeNumber token with
  | ok v => exact trivial
  | error e => exact fun he => h (by rw [hd, he])

theorem recover_comes (skipUntil : TokenType) {fuel n : Nat} {cur : Bytes} (h : cur.length < fuel)
    (hcur : cur.length ≤ n) :
    Comes (fun r : Option Value × Bytes => r.2.length ≤ n)
      (do return (none, ← recoverFromError skipUntil fuel cur)) :=
  (recoverFromError_comes skipUntil h).bind fun _ hq => Nat.le_trans hq hcur

structure ReadersCome (fuel : Nat) : Prop where
  value : ∀ cur, 2 * cur.length < fuel → Comes (Consumes cur) (readValue fuel cur)
  object : ∀ name members cur, 2 * cur.length + 1 < fuel →
    Comes (fun r => r.2.length ≤ cur.length) (readObject fuel name members cur)
  array : ∀ items cur, 2 * cur.length + 1 < fuel →
    Comes (fun r => r.2.length ≤ cur.length) (readArray fuel items cur)

theorem readValue_comes {fuel : Nat} (ih : ReadersCome fuel) {cur : Bytes}
    (h : 2 * cur.length < fuel + 1) : Comes (Consumes cur) (readValue (fuel + 1) cur) := by
  rw [readValue]
  refine (skipCommentTokens_comes (by omega)).bind ?_
  rintro ⟨token, cur'⟩ ⟨hle, hlt⟩
  simp only at hle hlt ⊢
  split
  · next ht =>
    have hlt := hlt (by rw [ht]; decide)
    exact (ih.object _ _ _ (by omega)).mono fun r hr => ⟨by omega, fun _ => by omega⟩
  · next ht =>
    have hlt := hlt (by rw [ht]; decide)
    refine .ite (fun _ => ?_) fun _ =>
      (ih.array _ _ (by omega)).mono fun r hr => ⟨by omega, fun _ => by omega⟩
    have := length_readToken cur'
    exact ⟨by simp only; omega, fun _ => by simp only; omega⟩
  · next ht =>
    have hlt := hlt (by rw [ht]; decide)
    exact (decodeNumber_comes _).bind fun _ _ => ⟨hle, fun _ => hlt⟩
  · next ht => exact ⟨hle, fun _ => hlt (by rw [ht]; decide)⟩
  · next ht => exact ⟨hle, fun _ => hlt (by rw [ht]; decide)⟩
  · next ht => exact ⟨hle, fun _ => hlt (by rw [ht]; decide)⟩
  · next ht => exact ⟨hle, fun _ => hlt (by rw [ht]; decide)⟩
  · exact ⟨hle, nofun⟩

theorem readObject_comes {fuel : Nat} (ih : ReadersCome fuel) (name : Bytes)
    (members : List (Bytes × Value)) {cur : Bytes} (h : 2 * cur.length + 1 < fuel + 1) :
    Comes (fun r => r.2.length ≤ cur.length) (readObject (fuel + 1) name members cur) := by
  rw [readObject]
  refine (skipCommentTokens_comes (by omega)).bind ?_
  rintro ⟨tokenName, cur₁⟩ ⟨hle₁, hlt₁⟩
  simp only at hle₁ hlt₁ ⊢
  refine .ite (fun _ => hle₁) fun _ => .ite (fun _ => recover_comes _ (by omega) hle₁) fun hs => ?_
  have hlt₁ := hlt₁ (by rw [not_not.1 hs]; decide)
  split
  · exact recover_comes _ (by omega) hle₁
  · next name _ =>
    have hle₂ := length_readToken cur₁
    refine .ite (fun _ => recover_comes _ (by omega) (by omega)) fun _ => ?_
    refine (ih.value _ (by omega)).bind ?_
    rintro ⟨value, cur₃⟩ ⟨hle₃, hlt₃⟩
    simp only at hle₃ hlt₃
    cases value with
    | none => exact recover_comes _ (by omega) (by omega)
    | some value =>
      have hlt₃ := hlt₃ rfl
      have hle₄ := length_readToken cur₃
      refine .ite (fun _ => recover_comes _ (by omega) (by omega)) fun _ => ?_
      refine (skipComments_comes ?_).bind ?_
      · simp only
        split <;> omega
      · rintro ⟨comma, cur₅⟩ ⟨hle₅, -⟩
        simp only at hle₅ ⊢
        refine .ite (fun _ => ?_) fun _ => ?_
        · exact show cur₅.length ≤ _ by omega
        · exact (ih.object _ _ _ (by omega)).mono fun r hr => by omega

theorem readArray_comes {fuel : Nat} (ih : ReadersCome fuel) (items : List Value) {cur : Bytes}
    (h : 2 * cur.length + 1 < fuel + 1) :
    Comes (fun r => r.2.length ≤ cur.length) (readArray (fuel + 1) items cur) := by
  rw [readArray]
  refine (ih.value _ (by omega)).bind ?_
  rintro ⟨value, cur₁⟩ ⟨hle₁, hlt₁⟩
  simp only at hle₁ hlt₁
  cases value with
  | none => exact recover_comes _ (by omega) hle₁
  | some value =>
    have hlt₁ := hlt₁ rfl
    refine (skipCommentTokens_comes (by omega)).bind ?_
    rintro ⟨token, cur₂⟩ ⟨hle₂, -⟩
    simp only at hle₂
    refine .ite (fun _ => ?_) fun _ => ?_
    · exact show cur₂.length ≤ _ by omega
    · exact (ih.array _ _ (by omega)).mono fun r hr => by omega

theorem readers_come (fuel : Nat) : ReadersCome fuel := by
  induction fuel with
  | zero => exact ⟨fun _ h => by omega, fun _ _ _ h => by omega, fun _ _ h => by omega⟩
  | succ fuel ih =>
    exact ⟨fun _ h => readValue_comes ih h, fun _ _ _ h => readObject_comes ih _ _ h,
      fun _ _ h => readArray_comes ih _ h⟩

/-- The reader comes to an end on every document. -/
theorem parse_ne_diverges (document : Bytes) : parse document ≠ .error .diverges := by
  have h : Comes (fun _ => True) (parse document) := by
    refine ((readers_come _).value document (by omega)).bind ?_
    rintro ⟨root, cur⟩ ⟨hle, -⟩
    simp only at hle
    exact (skipCommentTokens_comes (by omega)).bind fun _ _ => trivial
  intro he
  rw [he] at h
  exact h rfl

end IMServer.Json
