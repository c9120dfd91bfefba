import IMServer.ClientSession
import IMServer.UserIds

/-!
# The text of a registration

`addUser` puts the user's names between quotes as they are. Read by the lexer of the database the
text is one `INSERT` with these names for its second and third value exactly if the names hold no
quote, and no backslash but in `\%` and `\_`.
-/

namespace IMServer
open Sql

/-- The text of the statement `addUser` submits for `user`. -/
def Store.insertText (s : Store) (user : User) : Bytes :=
  (Statement.insertUser (s.users.currentUserId + 1) user.userName user.nickName user.nickName).text

/-- One `INSERT` of five values, of which the second and the third are the literals `username` and
`nickname`. -/
def OneInsert (text username nickname : Bytes) : Prop :=
  ∃ vs, valuesBehind insertHeader text = some vs ∧ vs.length = 5 ∧ vs[1]? = some [.string username] ∧
    vs[2]? = some [.string nickname]

theorem tokens_insertHeader (rest : Bytes) :
    tokens (ascii "INSERT INTO user(user_id,username,nickname,password,register_time)" ++
      (ascii "VALUES(" ++ rest)) = (tokens rest).map (insertHeader ++ ·) := by
  have htable : ascii "INSERT INTO user(user_id,username,nickname,password,register_time)" =
      ascii "INSERT" ++ 32 :: (ascii "INTO" ++ 32 :: (ascii "user" ++ 40 :: (ascii "user_id" ++ 44 ::
        (ascii "username" ++ 44 :: (ascii "nickname" ++ 44 :: (ascii "password" ++ 44 ::
          (ascii "register_time" ++ 41 :: []))))))) := rfl
  have hvalues : ascii "VALUES(" = ascii "VALUES" ++ 40 :: [] := rfl
  rw [htable, hvalues]
  simp only [List.append_assoc, List.cons_append, List.nil_append]
  simp (disch := decide) only [tokens_word, tokens_space, tokens_symbol, Option.map_map]
  rfl

/-! ### The number in front -/

theorem isWord_of_mem_uintToString {n : Nat} {c : UInt8} (h : c ∈ uintToString n) : isWord c = true := by
  have hdigit : ∀ d : Fin 10, isWord (digitByte d.val) = true := by decide
  unfold uintToString at h
  split at h
  · rw [List.mem_singleton.1 h]; rfl
  · obtain ⟨d, hd, rfl⟩ := List.mem_map.1 h
    exact hdigit ⟨d, Nat.digits_lt_base (by omega) (List.mem_reverse.1 hd)⟩

theorem tokens_uintToString (n : Nat) (cs : Bytes) :
    tokens (uintToString n ++ comma :: cs) = (tokens (comma :: cs)).map (.word (uintToString n) :: ·) := by
  obtain ⟨d, ds, -, hd⟩ := head_uintToString n
  exact tokens_word (List.all_eq_true.2 fun c hc => isWord_of_mem_uintToString hc) (by simp [hd]) (by decide)

/-- The tokens of a number: a word, behind a sign if it is negative. -/
def intTokens (i : Int) : List Token :=
  if i < 0 then [.symbol 45, .word (uintToString i.natAbs)] else [.word (uintToString i.natAbs)]

theorem tokens_intToString (i : Int) (cs : Bytes) :
    tokens (intToString i ++ comma :: cs) = (tokens (comma :: cs)).map (intTokens i ++ ·) := by
  by_cases hi : i < 0
  · obtain ⟨d, ds, hd, hcons⟩ := head_uintToString i.natAbs
    have hne : ∀ d : Fin 10, digitByte d.val ≠ 45 := by decide
    have hsign : lexeme 45 (uintToString i.natAbs ++ comma :: cs) =
        some (some (.symbol 45), uintToString i.natAbs ++ comma :: cs) := by
      rw [hcons, lexeme, if_neg (by decide), if_neg (by decide), if_neg (by decide), if_neg, if_neg]
      · exact fun h => absurd h.1 (by decide)
      · simp [hne ⟨d, hd⟩]
    rw [intToString, intTokens, if_pos hi, if_pos hi, List.cons_append, tokens_cons hsign, tokens_uintToString,
      Option.map_map]
    rfl
  · rw [intToString, intTokens, if_neg hi, if_neg hi, tokens_uintToString]
    rfl

theorem values_intTokens (i : Int) (ts : List Token) :
    values 0 [] (intTokens i ++ .symbol comma :: ts) = (values 0 [] ts).map (intTokens i :: ·) := by
  unfold intTokens
  split <;> simp [values, comma]

/-! ### The literals -/

/-- The text behind the number and its comma. -/
def insertTail (username nickname : Bytes) : Bytes :=
  quote :: (username ++ quote :: comma :: quote :: (nickname ++ quote :: comma :: quote ::
    (nickname ++ quote :: comma :: ascii "NOW())")))

theorem insertUser_text (userId : Int32) (username nickname : Bytes) :
    (Statement.insertUser userId username nickname nickname).text =
      ascii "INSERT INTO user(user_id,username,nickname,password,register_time)" ++ (ascii "VALUES(" ++
        (intToString userId.toInt ++ comma :: insertTail username nickname)) := by
  have h₁ : ascii ",'" = [comma, quote] := rfl
  have h₂ : ascii "','" = [quote, comma, quote] := rfl
  have h₃ : ascii "',NOW())" = quote :: comma :: ascii "NOW())" := rfl
  rw [Statement.text, h₁, h₂, h₃, insertTail]
  simp only [List.append_assoc, List.cons_append, List.nil_append]

theorem valuesBehind_insertUser (userId : Int32) (username nickname : Bytes) :
    valuesBehind insertHeader (Statement.insertUser userId username nickname nickname).text =
      (valueList (insertTail username nickname)).map (intTokens userId.toInt :: ·) := by
  rw [valuesBehind, insertUser_text, tokens_insertHeader, tokens_intToString,
    tokens_symbol (by decide) (by decide) (by decide), valueList, Option.map_map, Option.map_map]
  rcases tokens (insertTail _ _) with _ | ts
  · rfl
  · simp [values_intTokens]

theorem valueList_now : valueList (ascii "NOW())") =
    some [[.word (ascii "NOW"), .symbol 40, .symbol 41]] := by
  have htext : ascii "NOW())" = ascii "NOW" ++ 40 :: 41 :: 41 :: [] := rfl
  rw [htext, valueList]
  simp (disch := decide) only [tokens_word, tokens_symbol, tokens_nil, Option.map_some]
  rfl

theorem verbatim_of_oneInsert {s : Store} {user : User}
    (h : OneInsert (s.insertText user) user.userName user.nickName) :
    Verbatim user.userName = true ∧ Verbatim user.nickName = true := by
  obtain ⟨vs, hvs, -, h₁, h₂⟩ := h
  rw [Store.insertText, valuesBehind_insertUser] at hvs
  obtain ⟨vs, htail, rfl⟩ := Option.map_eq_some_iff.1 hvs
  rw [List.getElem?_cons_succ] at h₁ h₂
  rcases vs with _ | ⟨v, vs⟩
  · cases h₁
  obtain rfl : v = [.string user.userName] := Option.some.inj h₁
  have hu := verbatim_of_valueList htail
  -- the first literal ends where it should, so the second starts where it should
  rw [insertTail, valueList_verbatim hu] at htail
  obtain ⟨vs', hrest, heq⟩ := Option.map_eq_some_iff.1 htail
  obtain rfl := (List.cons.inj heq).2
  rcases vs' with _ | ⟨v, vs⟩
  · cases h₂
  obtain rfl : v = [.string user.nickName] := Option.some.inj h₂
  exact ⟨hu, verbatim_of_valueList hrest⟩

theorem valuesBehind_verbatim (userId : Int32) {username nickname : Bytes} (hu : Verbatim username = true)
    (hn : Verbatim nickname = true) :
    valuesBehind insertHeader (Statement.insertUser userId username nickname nickname).text =
      some [intTokens userId.toInt, [.string username], [.string nickname], [.string nickname],
        [.word (ascii "NOW"), .symbol 40, .symbol 41]] := by
  rw [valuesBehind_insertUser, insertTail, valueList_verbatim hu, valueList_verbatim hn,
    valueList_verbatim hn, valueList_now]
  rfl

theorem oneInsert_of_verbatim (s : Store) {user : User} (hu : Verbatim user.userName = true)
    (hn : Verbatim user.nickName = true) : OneInsert (s.insertText user) user.userName user.nickName :=
  ⟨_, valuesBehind_verbatim _ hu hn, rfl, rfl, rfl⟩

/-- The names of a registration stay in their literals exactly if the database reads them back as
they are. -/
theorem registration_literals_iff (s : Store) (user : User) :
    OneInsert (s.insertText user) user.userName user.nickName ↔
      Verbatim user.userName = true ∧ Verbatim user.nickName = true :=
  ⟨verbatim_of_oneInsert, fun h => oneInsert_of_verbatim s h.1 h.2⟩

/-! ### The row that is written -/

theorem zero_notMem_intToString (i : Int) : 0 ∉ intToString i := by
  have hdigits : 0 ∉ uintToString i.natAbs := fun h => absurd (isWord_of_mem_uintToString h) (by decide)
  unfold intToString
  split
  · simpa using hdigits
  · exact hdigits

/-- Without a zero byte in the names the text reaches the database whole. -/
theorem cTrunc_insertUser (userId : Int32) {username nickname : Bytes} (hu : 0 ∉ username) (hn : 0 ∉ nickname) :
    cTrunc (Statement.insertUser userId username nickname nickname).text =
      (Statement.insertUser userId username nickname nickname).text := by
  refine cTrunc_of_notMem ?_
  have h₁ : 0 ∉ ascii "INSERT INTO user(user_id,username,nickname,password,register_time)" := by decide
  have h₂ : 0 ∉ ascii "VALUES(" := by decide
  have h₃ : 0 ∉ ascii "NOW())" := by decide
  rw [insertUser_text, insertTail]
  simp [h₁, h₂, h₃, hu, hn, zero_notMem_intToString, quote, comma]

theorem insertedValues_verbatim (userId : Int32) {username nickname : Bytes} (hu : Verbatim username = true)
    (hn : Verbatim nickname = true) (hu₀ : 0 ∉ username) (hn₀ : 0 ∉ nickname) :
    insertedValues userId username nickname nickname =
      some [intTokens userId.toInt, [.string username], [.string nickname], [.string nickname],
        [.word (ascii "NOW"), .symbol 40, .symbol 41]] := by
  rw [insertedValues, cTrunc_insertUser userId hu₀ hn₀, valuesBehind_verbatim userId hu hn]

/-- Names that stand for themselves are written as they are. -/
theorem insertedRow_verbatim (userId : Int32) {username nickname : Bytes} (hu : Verbatim username = true)
    (hn : Verbatim nickname = true) (hu₀ : 0 ∉ username) (hn₀ : 0 ∉ nickname) :
    insertedRow userId username nickname nickname =
      { userId := userId.toInt, username := username, nickname := nickname, password := nickname } := by
  rw [insertedRow, insertedValues_verbatim userId hu hn hu₀ hn₀]

/-- `{"username":"x'","nickname":"n"}` -/
def quoteInName : Bytes :=
  [123, 34, 117, 115, 101, 114, 110, 97, 109, 101, 34, 58, 34, 120, 39, 34, 44, 34, 110, 105, 99, 107, 110, 97,
    109, 101, 34, 58, 34, 110, 34, 125]

set_option maxRecDepth 10000 in
theorem registerRequest_quoteInName : ∃ root, Json.parse quoteInName = .ok (some root) ∧
    registerRequest root = .ok (some (ascii "x'", [], [])) := ⟨_, rfl, rfl⟩

theorem registration_quote_escapes :
    (∃ root, Json.parse quoteInName = .ok (some root) ∧
      registerRequest root = .ok (some (ascii "x'", [], []))) ∧
    ¬ OneInsert (Store.oneUserLoaded.insertText { User.new 0 with userName := ascii "x'" }) (ascii "x'") [] := by
  refine ⟨registerRequest_quoteInName, fun h => ?_⟩
  have hu : Verbatim (ascii "x'") = true := (verbatim_of_oneInsert h).1
  exact absurd hu (by decide)

end IMServer
