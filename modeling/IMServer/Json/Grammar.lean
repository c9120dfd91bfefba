import IMServer.Json.Reader

/-!
# The documents a reader understands

`Denotes text v` is the grammar of JSON, without comments, with the value each text stands for: an
object is the map its members build up, one after the other. What the grammar derives `Reader` reads
(`parse_of_denotes`), wherever blanks stand between the tokens. The reader accepts more than that,
such as `[1:2]`.
-/

namespace IMServer.Json

def isBlank (c : UInt8) : Bool := c == 32 || c == 9 || c == 13 || c == 10

def isNumberChar (c : UInt8) : Bool := isDigit c || c == 46 || c == 101 || c == 69 || c == 43 || c == 45

def Blank (ws : Bytes) : Prop := ∀ c ∈ ws, isBlank c = true

instance (ws : Bytes) : Decidable (Blank ws) := List.decidableBAll _ ws

/-- A number that stands in front of `rest` ends there. -/
def Stops (rest : Bytes) : Prop := ∀ c ∈ rest.head?, isNumberChar c = false

structure NumberText (t : Bytes) : Prop where
  head : ∃ c ∈ t.head?, isDigit c = true ∨ c = 45
  chars : ∀ c ∈ t, isNumberChar c = true

/-- A string with its quotes, where no quote that is not escaped stands before the last one. -/
def QuotedText (t : Bytes) : Prop := ∃ u, t = 34 :: u ∧ ∀ rest, readString (u ++ rest) = (true, rest)

mutual

inductive Denotes : Bytes → Value → Prop
  | null : Denotes (ascii "null") .null
  | bool (b : Bool) : Denotes (ascii (if b then "true" else "false")) (.bool b)
  | number {t : Bytes} {v : Value} : NumberText t → decodeNumber t = .ok (some v) → Denotes t v
  | string {t s : Bytes} : QuotedText t → decodeString t = some s → Denotes t (.string s)
  | emptyArray {ws : Bytes} : Blank ws → Denotes (91 :: (ws ++ [93])) (.array [])
  | array {t : Bytes} {items : List Value} : DenotesItems t items → Denotes (91 :: t) (.array items)
  | emptyObject {ws : Bytes} : Blank ws → Denotes (123 :: (ws ++ [125])) (.object [])
  | object {t : Bytes} {members : List (Bytes × Value)} : DenotesMembers t members →
      Denotes (123 :: t) (.object (members.foldl (fun m e => AssocMap.insert e.1 e.2 m) []))

/-- The items up to and with the closing bracket. -/
inductive DenotesItems : Bytes → List Value → Prop
  | last {ws t ws' : Bytes} {v : Value} : Blank ws → Denotes t v → Blank ws' →
      DenotesItems (ws ++ t ++ ws' ++ [93]) [v]
  | cons {ws t ws' ts : Bytes} {v : Value} {items : List Value} : Blank ws → Denotes t v → Blank ws' →
      DenotesItems ts items → DenotesItems (ws ++ t ++ ws' ++ 44 :: ts) (v :: items)

/-- The members up to and with the closing brace. -/
inductive DenotesMembers : Bytes → List (Bytes × Value) → Prop
  | last {ws t ws₁ : Bytes} {m : Bytes × Value} : Blank ws → DenotesMember t m → Blank ws₁ →
      DenotesMembers (ws ++ t ++ ws₁ ++ [125]) [m]
  | cons {ws t ws₁ ts : Bytes} {m : Bytes × Value} {members : List (Bytes × Value)} : Blank ws →
      DenotesMember t m → Blank ws₁ → DenotesMembers ts members →
      DenotesMembers (ws ++ t ++ ws₁ ++ 44 :: ts) (m :: members)

inductive DenotesMember : Bytes → Bytes × Value → Prop
  | mk {name s ws ws₁ t : Bytes} {v : Value} : QuotedText name → decodeString name = some s → Blank ws →
      Blank ws₁ → Denotes t v → DenotesMember (name ++ ws ++ 58 :: ws₁ ++ t) (cTrunc s, v)

end

/-! ### Tokens -/

theorem skipSpaces_blank {ws : Bytes} (h : Blank ws) (cur : Bytes) : skipSpaces (ws ++ cur) = skipSpaces cur :=
  List.dropWhile_append_of_pos h

theorem skipSpaces_cons {c : UInt8} (h : isBlank c = false) (cur : Bytes) : skipSpaces (c :: cur) = c :: cur :=
  List.dropWhile_cons_of_neg (by rw [Bool.not_eq_true]; exact h)

theorem readToken_blank {ws : Bytes} (h : Blank ws) (cur : Bytes) : readToken (ws ++ cur) = readToken cur := by
  unfold readToken
  rw [skipSpaces_blank h]

theorem readToken_cons {c : UInt8} {u rest : Bytes} {type : TokenType} (hc : isBlank c = false)
    (h : tokenAfter c (u ++ rest) = (type, rest)) :
    readToken (c :: u ++ rest) = (⟨type, c :: u⟩, rest) := by
  have hlen : (u ++ rest).length + 1 - rest.length = (c :: u).length := by
    simp only [List.length_append, List.length_cons]
    omega
  unfold readToken
  rw [List.cons_append, skipSpaces_cons hc]
  simp only [h, hlen]
  rw [← List.cons_append, List.take_left]

theorem readToken_string {t : Bytes} (h : QuotedText t) (rest : Bytes) :
    readToken (t ++ rest) = (⟨.string, t⟩, rest) := by
  obtain ⟨u, rfl, hu⟩ := h
  refine readToken_cons (by decide) ?_
  simp [tokenAfter, hu rest]

theorem readNumber_stops {u rest : Bytes} (hu : ∀ c ∈ u, isNumberChar c = true) (h : Stops rest) :
    readNumber (u ++ rest) = rest := by
  have hrest : rest.dropWhile isNumberChar = rest := by
    cases rest with
    | nil => rfl
    | cons c rest => exact List.dropWhile_cons_of_neg (by rw [h c rfl]; decide)
  exact (List.dropWhile_append_of_pos hu).trans hrest

theorem readToken_number {t rest : Bytes} (ht : NumberText t) (h : Stops rest) :
    readToken (t ++ rest) = (⟨.number, t⟩, rest) := by
  obtain ⟨⟨c, hhead, hc⟩, hchars⟩ := ht
  cases t with
  | nil => cases hhead
  | cons c' u =>
    obtain rfl : c' = c := by simpa using hhead
    have hstart : isBlank c' = false ∧ c' ≠ 123 ∧ c' ≠ 125 ∧ c' ≠ 91 ∧ c' ≠ 93 ∧ c' ≠ 34 ∧ c' ≠ 47 := by
      clear hchars hhead
      rcases hc with hc | rfl
      · simp only [isDigit, Bool.and_eq_true, decide_eq_true_eq] at hc
        simp only [isBlank, Bool.or_eq_false_iff, beq_eq_false_iff_ne]
        grind
      · decide
    obtain ⟨h₀, h₁, h₂, h₃, h₄, h₅, h₆⟩ := hstart
    refine readToken_cons h₀ ?_
    have hnum := readNumber_stops (fun x hx => hchars x (List.mem_cons_of_mem _ hx)) h
    simp [tokenAfter, h₁, h₂, h₃, h₄, h₅, h₆, hc, hnum]

theorem matchPattern_append (pattern : String) (rest : Bytes) (h : (ascii pattern).length = pattern.length) :
    matchPattern pattern (ascii pattern ++ rest) = (true, rest) := by
  rw [matchPattern, if_pos (List.isPrefixOf_iff_prefix.2 (List.prefix_append _ _)), ← h, List.drop_left]

theorem readToken_word (c : UInt8) (pattern : String) {type : TokenType} (hc : isBlank c = false)
    (h : ∀ cur, tokenAfter c cur = (if (matchPattern pattern cur).1 then type else .error, (matchPattern pattern cur).2))
    (hlen : (ascii pattern).length = pattern.length) (rest : Bytes) :
    readToken (c :: ascii pattern ++ rest) = (⟨type, c :: ascii pattern⟩, rest) := by
  refine readToken_cons hc ?_
  rw [h, matchPattern_append pattern rest hlen]
  rfl

theorem readToken_mark (c : UInt8) {type : TokenType} (hc : isBlank c = false)
    (h : ∀ cur, tokenAfter c cur = (type, cur)) (rest : Bytes) : readToken (c :: rest) = (⟨type, [c]⟩, rest) :=
  readToken_cons (u := []) hc (h rest)

theorem skipCommentTokens_of_readToken {fuel : Nat} {cur rest : Bytes} {token : Token}
    (h : readToken cur = (token, rest)) (hc : token.type ≠ .comment) :
    skipCommentTokens (fuel + 1) cur = .ok (token, rest) := by
  rw [skipCommentTokens, h, skipComments, if_neg hc]

/-! ### Where a value begins -/

/-- The first character of a value. -/
def startsValue (c : UInt8) : Bool :=
  c == 34 || c == 45 || c == 91 || c == 102 || c == 110 || c == 116 || c == 123 || isDigit c

theorem Denotes.starts {t : Bytes} {v : Value} (h : Denotes t v) : ∃ c u, t = c :: u ∧ startsValue c = true := by
  cases h with
  | null => exact ⟨_, _, rfl, by decide⟩
  | bool b => cases b <;> exact ⟨_, _, rfl, by decide⟩
  | number hn _ =>
    obtain ⟨⟨c, hhead, hc⟩, -⟩ := hn
    cases t with
    | nil => cases hhead
    | cons c' u =>
      obtain rfl : c' = c := by simpa using hhead
      exact ⟨c', u, rfl, by rcases hc with hc | rfl <;> simp [startsValue, *]⟩
  | string hq _ =>
    obtain ⟨u, rfl, -⟩ := hq
    exact ⟨_, _, rfl, by decide⟩
  | emptyArray _ => exact ⟨_, _, rfl, by decide⟩
  | array _ => exact ⟨_, _, rfl, by decide⟩
  | emptyObject _ => exact ⟨_, _, rfl, by decide⟩
  | object _ => exact ⟨_, _, rfl, by decide⟩

theorem Denotes.ne_bracket {t : Bytes} {v : Value} (h : Denotes t v) (rest : Bytes) :
    (skipSpaces (t ++ rest)).head? ≠ some 93 := by
  obtain ⟨c, u, rfl, hc⟩ := h.starts
  have hne : isBlank c = false ∧ c ≠ 93 := by
    simp only [startsValue, isDigit, Bool.or_eq_true, Bool.and_eq_true, beq_iff_eq, decide_eq_true_eq] at hc
    rcases hc with ((((((rfl | rfl) | rfl) | rfl) | rfl) | rfl) | rfl) | hc
    iterate 7 decide
    simp only [isBlank, Bool.or_eq_false_iff, beq_eq_false_iff_ne]
    grind
  rw [List.cons_append, skipSpaces_cons hne.1]
  simpa using hne.2

theorem DenotesItems.ne_bracket {t : Bytes} {items : List Value} (h : DenotesItems t items) (rest : Bytes) :
    (skipSpaces (t ++ rest)).head? ≠ some 93 := by
  cases h with
  | last hws ht hws' =>
    rw [List.append_assoc, List.append_assoc, List.append_assoc, skipSpaces_blank hws]
    exact ht.ne_bracket _
  | cons hws ht hws' hts =>
    rw [List.append_assoc, List.append_assoc, List.append_assoc, skipSpaces_blank hws]
    exact ht.ne_bracket _

theorem Blank.stops {ws : Bytes} (h : Blank ws) {rest : Bytes} (hrest : Stops rest) : Stops (ws ++ rest) := by
  cases ws with
  | nil => exact hrest
  | cons c ws =>
    rintro _ ⟨⟩
    have hc := h c (List.mem_cons_self ..)
    simp only [isBlank, Bool.or_eq_true, beq_iff_eq] at hc
    rcases hc with ((rfl | rfl) | rfl) | rfl <;> decide

theorem stops_cons {c : UInt8} (h : isNumberChar c = false) (rest : Bytes) : Stops (c :: rest) := by
  rintro _ ⟨⟩
  exact h

/-! ### The reader reads what the grammar derives -/

structure ReadersRead (fuel : Nat) : Prop where
  value : ∀ {ws t rest v}, Blank ws → Denotes t v → Stops rest → 2 * (ws ++ (t ++ rest)).length < fuel →
    readValue fuel (ws ++ (t ++ rest)) = .ok (some v, rest)
  object : ∀ {name acc t rest members}, DenotesMembers t members → 2 * (t ++ rest).length + 1 < fuel →
    readObject fuel name acc (t ++ rest) =
      .ok (some (.object (members.foldl (fun m e => AssocMap.insert e.1 e.2 m) acc)), rest)
  array : ∀ {acc t rest items}, DenotesItems t items → 2 * (t ++ rest).length + 1 < fuel →
    readArray fuel acc (t ++ rest) = .ok (some (.array (acc ++ items)), rest)

theorem readValue_reads {fuel : Nat} (ih : ReadersRead fuel) {ws t rest : Bytes} {v : Value} (hws : Blank ws)
    (ht : Denotes t v) (hrest : Stops rest) (hfuel : 2 * (ws ++ (t ++ rest)).length < fuel + 1) :
    readValue (fuel + 1) (ws ++ (t ++ rest)) = .ok (some v, rest) := by
  have hread {type : TokenType} {text cur : Bytes} (h : readToken (t ++ rest) = (⟨type, text⟩, cur))
      (hc : type ≠ .comment) : skipCommentTokens (fuel + 1) (ws ++ (t ++ rest)) = .ok (⟨type, text⟩, cur) :=
    skipCommentTokens_of_readToken ((readToken_blank hws _).trans h) hc
  rw [readValue]
  cases ht with
  | null =>
    rw [hread (readToken_word 110 "ull" (by decide) (fun _ => rfl) rfl rest) (by decide)]
    rfl
  | bool b =>
    cases b
    · rw [hread (readToken_word 102 "alse" (by decide) (fun _ => rfl) rfl rest) (by decide)]
      rfl
    · rw [hread (readToken_word 116 "rue" (by decide) (fun _ => rfl) rfl rest) (by decide)]
      rfl
  | number hn hd =>
    rw [hread (readToken_number hn hrest) (by decide)]
    simp only [Except.ok_bind, hd]
    rfl
  | string hq hd =>
    rw [hread (readToken_string hq rest) (by decide)]
    simp only [Except.ok_bind, hd]
    rfl
  | @emptyArray ws' hws' =>
    have hclose : readToken (ws' ++ [93] ++ rest) = (⟨.arrayEnd, [93]⟩, rest) := by
      rw [List.append_assoc, readToken_blank hws']
      exact readToken_mark 93 (by decide) (fun _ => rfl) rest
    have hhead : (skipSpaces (ws' ++ [93] ++ rest)).head? = some 93 := by
      rw [List.append_assoc, skipSpaces_blank hws']
      rfl
    have hopen : readToken (91 :: (ws' ++ [93]) ++ rest) = (⟨.arrayBegin, [91]⟩, ws' ++ [93] ++ rest) :=
      readToken_mark 91 (by decide) (fun _ => rfl) _
    rw [hread hopen (by decide)]
    simp only [Except.ok_bind]
    rw [if_pos hhead, hclose]
    rfl
  | @array t items hitems =>
    rw [hread (readToken_mark 91 (by decide) (fun _ => rfl) (t ++ rest)) (by decide)]
    simp only [Except.ok_bind]
    rw [if_neg (hitems.ne_bracket rest), ih.array hitems (by simp at hfuel ⊢; omega)]
    rfl
  | @emptyObject ws' hws' =>
    have hclose : readToken (ws' ++ [125] ++ rest) = (⟨.objectEnd, [125]⟩, rest) := by
      rw [List.append_assoc, readToken_blank hws']
      exact readToken_mark 125 (by decide) (fun _ => rfl) rest
    have hopen : readToken (123 :: (ws' ++ [125]) ++ rest) = (⟨.objectBegin, [123]⟩, ws' ++ [125] ++ rest) :=
      readToken_mark 123 (by decide) (fun _ => rfl) _
    rw [hread hopen (by decide)]
    simp only [Except.ok_bind]
    obtain ⟨fuel, rfl⟩ : ∃ n, fuel = n + 1 := Nat.exists_eq_succ_of_ne_zero (by simp at hfuel; omega)
    rw [readObject, skipCommentTokens_of_readToken hclose (by decide)]
    rfl
  | @object t members hmembers =>
    rw [hread (readToken_mark 123 (by decide) (fun _ => rfl) (t ++ rest)) (by decide)]
    simp only [Except.ok_bind]
    exact ih.object hmembers (by simp at hfuel ⊢; omega)

theorem readArray_reads {fuel : Nat} (ih : ReadersRead fuel) {acc : List Value} {t rest : Bytes} {items : List Value}
    (ht : DenotesItems t items) (hfuel : 2 * (t ++ rest).length + 1 < fuel + 1) :
    readArray (fuel + 1) acc (t ++ rest) = .ok (some (.array (acc ++ items)), rest) := by
  rw [readArray]
  cases ht with
  | @last ws t ws' v hws ht hws' =>
    have hclose : readToken (ws' ++ [93] ++ rest) = (⟨.arrayEnd, [93]⟩, rest) := by
      rw [List.append_assoc, readToken_blank hws']
      exact readToken_mark 93 (by decide) (fun _ => rfl) rest
    have hstops : Stops (ws' ++ [93] ++ rest) := by
      rw [List.append_assoc]
      exact hws'.stops (stops_cons (by decide) _)
    have hcur : ws ++ t ++ ws' ++ [93] ++ rest = ws ++ (t ++ (ws' ++ [93] ++ rest)) := by simp
    rw [hcur] at hfuel ⊢
    rw [ih.value hws ht hstops (by omega)]
    simp only [Except.ok_bind]
    rw [skipCommentTokens_of_readToken hclose (by decide)]
    rfl
  | @cons ws t ws' ts v items hws ht hws' hts =>
    have hcomma : readToken (ws' ++ 44 :: ts ++ rest) = (⟨.arraySeparator, [44]⟩, ts ++ rest) := by
      rw [List.append_assoc, readToken_blank hws']
      exact readToken_mark 44 (by decide) (fun _ => rfl) (ts ++ rest)
    have hstops : Stops (ws' ++ 44 :: ts ++ rest) := by
      rw [List.append_assoc]
      exact hws'.stops (stops_cons (by decide) _)
    have hcur : ws ++ t ++ ws' ++ 44 :: ts ++ rest = ws ++ (t ++ (ws' ++ 44 :: ts ++ rest)) := by simp
    rw [hcur] at hfuel ⊢
    rw [ih.value hws ht hstops (by omega)]
    simp only [Except.ok_bind]
    rw [skipCommentTokens_of_readToken hcomma (by decide)]
    simp only [Except.ok_bind]
    rw [if_neg (by decide), ih.array hts (by simp at hfuel ⊢; omega), List.append_assoc]
    rfl

/-- One turn of the loop over the members, when a brace or a comma follows. -/
theorem readObject_member {fuel : Nat} (ih : ReadersRead fuel) (name : Bytes) (acc : List (Bytes × Value))
    {ws t cur cur' : Bytes} {m : Bytes × Value} {comma : Token} (hws : Blank ws) (ht : DenotesMember t m)
    (hcur : Stops cur) (hcomma : readToken cur = (comma, cur'))
    (htype : comma.type = .objectEnd ∨ comma.type = .arraySeparator) (hlen : 2 * (ws ++ (t ++ cur)).length < fuel + 1) :
    ∃ name', readObject (fuel + 1) name acc (ws ++ (t ++ cur)) =
      if comma.type = .objectEnd then .ok (some (.object (AssocMap.insert m.1 m.2 acc)), cur')
      else readObject fuel name' (AssocMap.insert m.1 m.2 acc) cur' := by
  cases ht with
  | @mk quoted s ws₁ ws₂ t v hq hs hws₁ hws₂ ht =>
    have hcolon : readToken (ws₁ ++ 58 :: (ws₂ ++ (t ++ cur))) = (⟨.memberSeparator, [58]⟩, ws₂ ++ (t ++ cur)) := by
      rw [readToken_blank hws₁]
      exact readToken_mark 58 (by decide) (fun _ => rfl) _
    have hname : readToken (ws ++ (quoted ++ (ws₁ ++ 58 :: (ws₂ ++ (t ++ cur))))) =
        (⟨.string, quoted⟩, ws₁ ++ 58 :: (ws₂ ++ (t ++ cur))) := by
      rw [readToken_blank hws]
      exact readToken_string hq _
    have hshape : ws ++ (quoted ++ ws₁ ++ 58 :: ws₂ ++ t ++ cur) =
        ws ++ (quoted ++ (ws₁ ++ 58 :: (ws₂ ++ (t ++ cur)))) := by simp
    have hne : comma.type ≠ .comment := by rcases htype with h | h <;> rw [h] <;> decide
    have hok : ¬(comma.type ≠ .objectEnd ∧ comma.type ≠ .arraySeparator ∧ comma.type ≠ .comment) := by
      rintro ⟨h₁, h₂, -⟩
      exact htype.elim h₁ h₂
    refine ⟨s, ?_⟩
    rw [hshape] at hlen ⊢
    rw [readObject, skipCommentTokens_of_readToken hname (by simp)]
    simp only [Except.ok_bind]
    rw [if_neg (by simp), if_neg (by simp), hs]
    simp only [hcolon]
    rw [if_neg (by simp), ih.value hws₂ ht hcur (by simp at hlen ⊢; omega)]
    simp only [Except.ok_bind, hcomma]
    rw [if_neg hok, skipComments, if_neg hne]
    rfl

theorem readObject_reads {fuel : Nat} (ih : ReadersRead fuel) {name : Bytes} {acc : List (Bytes × Value)}
    {t rest : Bytes} {members : List (Bytes × Value)} (ht : DenotesMembers t members)
    (hfuel : 2 * (t ++ rest).length + 1 < fuel + 1) :
    readObject (fuel + 1) name acc (t ++ rest) =
      .ok (some (.object (members.foldl (fun m e => AssocMap.insert e.1 e.2 m) acc)), rest) := by
  cases ht with
  | @last ws t ws' m hws ht hws' =>
    have hclose : readToken (ws' ++ [125] ++ rest) = (⟨.objectEnd, [125]⟩, rest) := by
      rw [List.append_assoc, readToken_blank hws']
      exact readToken_mark 125 (by decide) (fun _ => rfl) rest
    have hstops : Stops (ws' ++ [125] ++ rest) := by
      rw [List.append_assoc]
      exact hws'.stops (stops_cons (by decide) _)
    have hcur : ws ++ t ++ ws' ++ [125] ++ rest = ws ++ (t ++ (ws' ++ [125] ++ rest)) := by simp
    rw [hcur] at hfuel ⊢
    obtain ⟨name', h⟩ := readObject_member ih name acc hws ht hstops hclose (.inl rfl) (by omega)
    rw [h]
    rfl
  | @cons ws t ws' ts m members hws ht hws' hts =>
    have hcomma : readToken (ws' ++ 44 :: ts ++ rest) = (⟨.arraySeparator, [44]⟩, ts ++ rest) := by
      rw [List.append_assoc, readToken_blank hws']
      exact readToken_mark 44 (by decide) (fun _ => rfl) (ts ++ rest)
    have hstops : Stops (ws' ++ 44 :: ts ++ rest) := by
      rw [List.append_assoc]
      exact hws'.stops (stops_cons (by decide) _)
    have hcur : ws ++ t ++ ws' ++ 44 :: ts ++ rest = ws ++ (t ++ (ws' ++ 44 :: ts ++ rest)) := by simp
    rw [hcur] at hfuel ⊢
    obtain ⟨name', h⟩ := readObject_member ih name acc hws ht hstops hcomma (.inr rfl) (by omega)
    rw [h, if_neg (by decide), ih.object hts (by simp at hfuel ⊢; omega)]
    rfl

theorem readers_read (fuel : Nat) : ReadersRead fuel := by
  induction fuel with
  | zero => exact ⟨fun _ _ _ h => by omega, fun _ h => by omega, fun _ h => by omega⟩
  | succ fuel ih =>
    exact ⟨fun h₁ h₂ h₃ h₄ => readValue_reads ih h₁ h₂ h₃ h₄, fun h₁ h₂ => readObject_reads ih h₁ h₂,
      fun h₁ h₂ => readArray_reads ih h₁ h₂⟩

/-- A text of the grammar, with blanks around it, is read as the value it stands for. -/
theorem parse_of_denotes {ws t ws' : Bytes} {v : Value} (hws : Blank ws) (ht : Denotes t v) (hws' : Blank ws') :
    parse (ws ++ (t ++ ws')) = .ok (some v) := by
  have hstops : Stops ws' := by
    rw [← List.append_nil ws']
    exact hws'.stops fun c hc => by cases hc
  have hend : readToken ws' = (⟨.endOfStream, []⟩, []) := by
    rw [← List.append_nil ws', readToken_blank hws']
    rfl
  rw [parse, (readers_read _).value hws ht hstops (by omega)]
  simp only [Except.ok_bind]
  rw [skipCommentTokens_of_readToken hend (by decide)]
  rfl

end IMServer.Json
