import Mathlib.Data.List.Basic

/-!
# Lexing SQL

Just enough of MySQL's lexer, in its default mode, to say what a statement is made of: words (names,
keywords and numbers), string literals and single characters. A literal ends at the first quote that
is neither doubled nor escaped; a backslash in it escapes the next character. White space and
comments separate tokens. Names in backticks are not read as such.

`Verbatim s` says that `s` may stand between two quotes and be read back as itself, and it is also
necessary for that when a comma follows the literal (`literal_iff`).
-/

namespace Sql

inductive Token
  | word (w : List UInt8)
  | string (s : List UInt8)
  | symbol (c : UInt8)
deriving DecidableEq

def quote : UInt8 := 39
def backslash : UInt8 := 92
def comma : UInt8 := 44

/-- What a backslash and the character behind it stand for. `\%` and `\_` are left as they are, and
before a character that needs no escape the backslash is dropped. -/
def unescape (c : UInt8) : List UInt8 :=
  if c = 48 then [0]
  else if c = 98 then [8]
  else if c = 110 then [10]
  else if c = 114 then [13]
  else if c = 116 then [9]
  else if c = 90 then [26]
  else if c = 37 ∨ c = 95 then [backslash, c]
  else [c]

/-- Behind the opening quote `q`: the text of the literal and what follows it, `none` if it does not
end. -/
def literal (q : UInt8) : List UInt8 → Option (List UInt8 × List UInt8)
  | [] => none
  | [c] => if c = q then some ([], []) else none
  | c :: d :: cs =>
    if c = q then
      if d = q then (literal q cs).map fun p => (q :: p.1, p.2)
      else some ([], d :: cs)
    else if c = backslash then (literal q cs).map fun p => (unescape d ++ p.1, p.2)
    else (literal q (d :: cs)).map fun p => (c :: p.1, p.2)

def blockComment : List UInt8 → Option (List UInt8)
  | [] => none
  | c :: cs => if c = 42 ∧ cs.head? = some 47 then some cs.tail else blockComment cs

def isSpace (c : UInt8) : Bool := c == 32 || (9 ≤ c && c ≤ 13)

def isWord (c : UInt8) : Bool :=
  (48 ≤ c && c ≤ 57) || (65 ≤ c && c ≤ 90) || (97 ≤ c && c ≤ 122) || c == 95 || c == 36 || 128 ≤ c

/-- The token that starts with `c`, `some none` for white space and comments. -/
def lexeme (c : UInt8) (cs : List UInt8) : Option (Option Token × List UInt8) :=
  if isSpace c then some (none, cs)
  else if c = 39 ∨ c = 34 then (literal c cs).map fun p => (some (.string p.1), p.2)
  else if isWord c then some (some (.word (c :: cs.takeWhile isWord)), cs.dropWhile isWord)
  else if c = 35 ∨ (c = 45 ∧ cs.head? = some 45 ∧ cs.tail.head?.all isSpace) then
    some (none, cs.dropWhile (· ≠ 10))
  else if c = 47 ∧ cs.head? = some 42 then (blockComment cs.tail).map fun r => (none, r)
  else some (some (.symbol c), cs)

theorem length_literal {q : UInt8} {s : List UInt8} {p : List UInt8 × List UInt8}
    (h : literal q s = some p) : p.2.length ≤ s.length := by
  induction s using literal.induct q generalizing p with
  | case1 => simp [literal] at h
  | case2 => simp [literal] at h; subst h; simp
  | case3 c hc => simp [literal, hc] at h
  | case4 cs ih =>
    simp only [literal, ite_true, Option.map_eq_some_iff] at h
    obtain ⟨r, hr, rfl⟩ := h
    have := ih hr
    simp only [List.length_cons]; omega
  | case5 d cs hd =>
    simp only [literal, ite_true, if_neg hd, Option.some.injEq] at h
    subst h; simp
  | case6 d cs hq ih =>
    simp only [literal, if_neg hq, ite_true, Option.map_eq_some_iff] at h
    obtain ⟨r, hr, rfl⟩ := h
    have := ih hr
    simp only [List.length_cons]; omega
  | case7 c d cs hq hb ih =>
    simp only [literal, if_neg hq, if_neg hb, Option.map_eq_some_iff] at h
    obtain ⟨r, hr, rfl⟩ := h
    have := ih hr
    simp only [List.length_cons] at this ⊢; omega

theorem length_blockComment {s r : List UInt8} (h : blockComment s = some r) : r.length ≤ s.length := by
  induction s with
  | nil => cases h
  | cons c cs ih =>
    rw [blockComment] at h
    split at h
    · cases h
      simp only [List.length_tail, List.length_cons]; omega
    · have := ih h
      simp only [List.length_cons]; omega

theorem length_lexeme {c : UInt8} {cs r : List UInt8} {t : Option Token}
    (h : lexeme c cs = some (t, r)) : r.length ≤ cs.length := by
  have hdrop : ∀ p : UInt8 → Bool, (cs.dropWhile p).length ≤ cs.length := fun p =>
    (List.dropWhile_suffix p).length_le
  unfold lexeme at h
  split at h
  · cases h; exact Nat.le_refl _
  · split at h
    · obtain ⟨p, hp, heq⟩ := Option.map_eq_some_iff.1 h
      cases heq
      exact length_literal hp
    · split at h
      · cases h; exact hdrop _
      · split at h
        · cases h; exact hdrop _
        · split at h
          · obtain ⟨p, hp, heq⟩ := Option.map_eq_some_iff.1 h
            cases heq
            have := length_blockComment hp
            rw [List.length_tail] at this
            omega
          · cases h; exact Nat.le_refl _

/-- The tokens of a text, `none` where a literal or a comment does not end. -/
def tokens : List UInt8 → Option (List Token)
  | [] => some []
  | c :: cs =>
    match h : lexeme c cs with
    | none => none
    | some (t, r) =>
      have := length_lexeme h
      (tokens r).map (t.toList ++ ·)
termination_by s => s.length

theorem tokens_nil : tokens [] = some [] := by rw [tokens]

theorem tokens_cons {c : UInt8} {cs r : List UInt8} {t : Option Token} (h : lexeme c cs = some (t, r)) :
    tokens (c :: cs) = (tokens r).map (t.toList ++ ·) := by
  rw [tokens]
  split
  · next h' => rw [h] at h'; cases h'
  · next h' => rw [h] at h'; cases h'; rfl

theorem tokens_cons_none {c : UInt8} {cs : List UInt8} (h : lexeme c cs = none) : tokens (c :: cs) = none := by
  rw [tokens]
  split
  · rfl
  · next h' => rw [h] at h'; cases h'

/-! ### Literals -/

section
variable {q c d : UInt8} {cs t : List UInt8}

theorem literal_quote_quote : literal q (q :: q :: cs) = (literal q cs).map fun p => (q :: p.1, p.2) := by
  rw [literal, if_pos rfl, if_pos rfl]

theorem literal_end (hd : d ≠ q) : literal q (q :: d :: cs) = some ([], d :: cs) := by
  rw [literal, if_pos rfl, if_neg hd]

theorem literal_backslash (hq : backslash ≠ q) :
    literal q (backslash :: d :: cs) = (literal q cs).map fun p => (unescape d ++ p.1, p.2) := by
  rw [literal, if_neg hq, if_pos rfl]

theorem literal_plain (hq : c ≠ q) (hb : c ≠ backslash) :
    literal q (c :: cs) = (literal q cs).map fun p => (c :: p.1, p.2) := by
  rcases cs with _ | ⟨d, cs⟩
  · simp [literal, hq]
  · rw [literal, if_neg hq, if_neg hb]

end

/-- Every quote is doubled or escaped nowhere, and every backslash is one of `\%` and `\_`. -/
def Verbatim : List UInt8 → Bool
  | [] => true
  | [c] => c ≠ quote && c ≠ backslash
  | c :: d :: cs =>
    if c = backslash then (d = 37 || d = 95) && Verbatim cs else c ≠ quote && Verbatim (d :: cs)

theorem literal_of_verbatim {s : List UInt8} (hs : Verbatim s = true) {d : UInt8} (hd : d ≠ quote)
    (t : List UInt8) : literal quote (s ++ quote :: d :: t) = some (s, d :: t) := by
  induction s using Verbatim.induct with
  | case1 => exact literal_end hd
  | case2 c =>
    simp only [Verbatim, Bool.and_eq_true, decide_eq_true_eq] at hs
    rw [List.singleton_append, literal_plain hs.1 hs.2, literal_end hd]
    rfl
  | case3 d cs ih =>
    simp only [Verbatim, ite_true, Bool.and_eq_true, Bool.or_eq_true, decide_eq_true_eq] at hs
    have hu : unescape d = [backslash, d] := by
      rcases hs.1 with rfl | rfl <;> rfl
    rw [List.cons_append, List.cons_append, literal_backslash (by decide), ih hs.2, hu]
    rfl
  | case4 c d cs hb ih =>
    simp only [Verbatim, if_neg hb, Bool.and_eq_true, decide_eq_true_eq] at hs
    rw [List.cons_append, literal_plain hs.1 hb, ih hs.2]
    rfl

theorem unescape_cases (c : UInt8) :
    unescape c = [backslash, c] ∧ (c = 37 ∨ c = 95) ∨
      ∃ e, unescape c = [e] ∧ (c = comma → e = comma) := by
  unfold unescape
  split_ifs with h₁ h₂ h₃ h₄ h₅ h₆ h₇
  · subst h₁; exact .inr ⟨_, rfl, by decide⟩
  · subst h₂; exact .inr ⟨_, rfl, by decide⟩
  · subst h₃; exact .inr ⟨_, rfl, by decide⟩
  · subst h₄; exact .inr ⟨_, rfl, by decide⟩
  · subst h₅; exact .inr ⟨_, rfl, by decide⟩
  · subst h₆; exact .inr ⟨_, rfl, by decide⟩
  · exact .inl ⟨rfl, h₇⟩
  · exact .inr ⟨c, rfl, fun h => h⟩

theorem map_cons_eq_some {o : Option (List UInt8 × List UInt8)} {e a : UInt8} {s r : List UInt8}
    (h : o.map (fun x => (e :: x.1, x.2)) = some (a :: s, r)) : e = a ∧ o = some (s, r) := by
  obtain ⟨⟨s', r'⟩, rfl, h⟩ := Option.map_eq_some_iff.1 h
  cases h
  exact ⟨rfl, rfl⟩

theorem literal_kept {d : UInt8} {cs t : List UInt8} (hu : unescape d = [backslash, d]) :
    literal quote (backslash :: d :: cs ++ t) =
      ((literal quote (cs ++ t)).map fun x => (d :: x.1, x.2)).map fun x => (backslash :: x.1, x.2) := by
  rw [List.cons_append, List.cons_append, literal_backslash (by decide), hu, Option.map_map]
  rfl

/-- Behind a closing quote that was swallowed comes the comma. -/
theorem literal_ne_comma {e c : UInt8} {p t r : List UInt8} (he : c ≠ comma) (hp : p ≠ []) (hc : comma ∉ p) :
    (literal quote (comma :: t)).map (fun x => (e :: x.1, x.2)) ≠ some (p ++ [c], r) := by
  intro h
  obtain ⟨a, p, rfl⟩ := List.exists_cons_of_ne_nil hp
  obtain ⟨-, h⟩ := map_cons_eq_some h
  rw [literal_plain (by decide) (by decide)] at h
  rcases p with _ | ⟨b, p⟩
  · exact he (map_cons_eq_some h).1.symm
  · exact hc (by simp [(map_cons_eq_some h).1])

/-- A literal whose text lags behind: once a quote or a backslash has been swallowed, the text read so
far owes the non-empty `p` to the characters still to come. The comma behind the closing quote would
have to be among them, so the debt is never paid. -/
theorem literal_ne_lagging {s p t r : List UInt8} (hp : p ≠ []) (hc : comma ∉ p) :
    literal quote (s ++ quote :: comma :: t) ≠ some (p ++ s, r) := by
  intro h
  induction s using literal.induct quote generalizing p with
  | case1 =>
    rw [List.nil_append, literal_end (by decide)] at h
    simp [hp] at h
  | case2 => exact literal_ne_comma (by decide) hp hc (literal_quote_quote.symm.trans h)
  | case3 c hq =>
    by_cases hb : c = backslash
    · subst hb
      exact literal_ne_comma (by decide) hp hc ((literal_backslash (by decide)).symm.trans h)
    · rw [List.singleton_append, literal_plain hq hb, literal_end (by decide)] at h
      obtain ⟨a, p, rfl⟩ := List.exists_cons_of_ne_nil hp
      simp at h
  | case4 cs ih =>
    obtain ⟨a, p, rfl⟩ := List.exists_cons_of_ne_nil hp
    obtain ⟨-, h⟩ := map_cons_eq_some (literal_quote_quote.symm.trans h)
    refine ih (p := p ++ [quote, quote]) (by simp) ?_ (by simpa using h)
    rw [List.mem_append, not_or]
    exact ⟨fun hm => hc (List.mem_cons_of_mem _ hm), by decide⟩
  | case5 d cs hd =>
    rw [List.cons_append, List.cons_append, literal_end hd] at h
    simp [hp] at h
  | case6 d cs hq ih =>
    obtain ⟨a, p, rfl⟩ := List.exists_cons_of_ne_nil hp
    have hp' : comma ∉ p := fun hm => hc (List.mem_cons_of_mem _ hm)
    rcases unescape_cases d with ⟨hu, hd⟩ | ⟨e, hu, hd⟩
    · -- both characters are kept, and the second is no backslash: the lag is at least two
      obtain ⟨-, hs⟩ := map_cons_eq_some ((literal_kept hu).symm.trans h)
      rcases p with _ | ⟨b, p⟩
      · obtain ⟨hdb, -⟩ := map_cons_eq_some hs
        rcases hd with rfl | rfl <;> exact absurd hdb (by decide)
      · obtain ⟨-, hs⟩ := map_cons_eq_some hs
        refine ih (p := p ++ [backslash, d]) (by simp) ?_ (by simpa using hs)
        rw [List.mem_append, not_or]
        refine ⟨fun hm => hp' (List.mem_cons_of_mem _ hm), ?_⟩
        rcases hd with rfl | rfl <;> decide
    · have hmap := (literal_backslash hq).symm.trans h
      rw [hu] at hmap
      obtain ⟨rfl, hs⟩ := map_cons_eq_some hmap
      refine ih (p := p ++ [backslash, d]) (by simp) ?_ (by simpa using hs)
      rw [List.mem_append, not_or]
      refine ⟨hp', ?_⟩
      rw [List.mem_cons, List.mem_singleton, not_or]
      exact ⟨by decide, fun he => hc (by simp [hd he.symm])⟩
  | case7 c d cs hq hb ih =>
    obtain ⟨a, p, rfl⟩ := List.exists_cons_of_ne_nil hp
    obtain ⟨rfl, h'⟩ := map_cons_eq_some ((literal_plain hq hb).symm.trans h)
    refine ih (p := p ++ [c]) (by simp) ?_ (by simpa using h')
    rw [List.mem_append, not_or, List.mem_singleton]
    exact ⟨fun hm => hc (List.mem_cons_of_mem _ hm), fun he => hc (by simp [he])⟩

theorem verbatim_of_literal {s t r : List UInt8}
    (h : literal quote (s ++ quote :: comma :: t) = some (s, r)) : Verbatim s = true := by
  induction s using literal.induct quote with
  | case1 => rfl
  | case2 =>
    have h := literal_quote_quote.symm.trans h
    rw [literal_plain (by decide) (by decide)] at h
    obtain ⟨-, h⟩ := map_cons_eq_some h
    simp at h
  | case3 c hq =>
    by_cases hb : c = backslash
    · subst hb
      have h := (literal_backslash (by decide)).symm.trans h
      rw [literal_plain (by decide) (by decide)] at h
      obtain ⟨-, h⟩ := map_cons_eq_some (e := quote) h
      simp at h
    · simp [Verbatim, hq, hb]
  | case4 cs ih =>
    obtain ⟨-, h⟩ := map_cons_eq_some (literal_quote_quote.symm.trans h)
    exact absurd h (literal_ne_lagging (p := [quote]) (by simp) (by decide))
  | case5 d cs hd =>
    rw [List.cons_append, List.cons_append, literal_end hd] at h
    simp at h
  | case6 d cs hq ih =>
    rcases unescape_cases d with ⟨hu, hd⟩ | ⟨e, hu, hd⟩
    · obtain ⟨-, h⟩ := map_cons_eq_some ((literal_kept hu).symm.trans h)
      obtain ⟨-, h⟩ := map_cons_eq_some h
      rw [Verbatim, if_pos rfl, ih h]
      simpa using hd
    · have h := (literal_backslash hq).symm.trans h
      rw [hu] at h
      obtain ⟨heq, h⟩ := map_cons_eq_some h
      have hd' : d ≠ comma := fun hdc => absurd (hd hdc ▸ heq) (by decide)
      refine absurd h (literal_ne_lagging (p := [d]) (by simp) ?_)
      rw [List.mem_singleton]
      exact fun h => hd' h.symm
  | case7 c d cs hq hb ih =>
    obtain ⟨-, h⟩ := map_cons_eq_some ((literal_plain hq hb).symm.trans h)
    rw [Verbatim, if_neg hb, ih h]
    simpa using hq

/-! ### Tokens -/

section
variable {c : UInt8} {cs r s : List UInt8}

theorem tokens_space (h : isSpace c = true) : tokens (c :: cs) = tokens cs := by
  rw [tokens_cons (t := none) (r := cs) (by rw [lexeme, if_pos h])]
  rcases tokens cs with _ | ts <;> rfl

theorem tokens_symbol (hs : isSpace c = false) (hw : isWord c = false)
    (hc : c ≠ 39 ∧ c ≠ 34 ∧ c ≠ 35 ∧ c ≠ 45 ∧ c ≠ 47) :
    tokens (c :: cs) = (tokens cs).map (.symbol c :: ·) := by
  refine tokens_cons (t := some (.symbol c)) ?_
  rw [lexeme, if_neg (by simp [hs]), if_neg (by simp [hc]), if_neg (by simp [hw]), if_neg (by simp [hc]),
    if_neg (by simp [hc])]

theorem tokens_literal (h : literal quote cs = some (s, r)) :
    tokens (quote :: cs) = (tokens r).map (.string s :: ·) := by
  refine tokens_cons (t := some (.string s)) ?_
  rw [lexeme, if_neg (by decide), if_pos (.inl rfl)]
  show (literal quote cs).map _ = _
  rw [h]
  rfl

theorem tokens_literal_none (h : literal quote cs = none) : tokens (quote :: cs) = none := by
  refine tokens_cons_none ?_
  rw [lexeme, if_neg (by decide), if_pos (.inl rfl)]
  show (literal quote cs).map _ = _
  rw [h]
  rfl

theorem not_isSpace_of_isWord (h : isWord c = true) : isSpace c = false ∧ ¬ (c = 39 ∨ c = 34) := by
  have : ∀ c : Fin 256, isWord (UInt8.ofNat c) = true →
      isSpace (UInt8.ofNat c) = false ∧ ¬ (UInt8.ofNat c = 39 ∨ UInt8.ofNat c = 34) := by decide +kernel
  have hc := this ⟨c.toNat, c.toNat_lt⟩
  simp only [UInt8.ofNat_toNat] at hc
  exact hc h

theorem tokens_word {w : List UInt8} (hw : w.all isWord = true) (hne : w ≠ []) (hc : isWord c = false) :
    tokens (w ++ c :: cs) = (tokens (c :: cs)).map (.word w :: ·) := by
  obtain ⟨a, w, rfl⟩ := List.exists_cons_of_ne_nil hne
  obtain ⟨ha, hw'⟩ := List.forall_mem_cons.1 (List.all_eq_true.1 hw)
  obtain ⟨hspace, hquote⟩ := not_isSpace_of_isWord ha
  refine tokens_cons (t := some (.word (a :: w))) ?_
  rw [lexeme, if_neg (by simp [hspace]), if_neg hquote, if_pos ha, List.append_eq,
    List.takeWhile_append_of_pos hw', List.dropWhile_append_of_pos hw', List.takeWhile_cons_of_neg (by simp [hc]),
    List.dropWhile_cons_of_neg (by simp [hc]), List.append_nil]

end

/-! ### Lists of values -/

/-- The values up to the closing parenthesis that ends the text, the one that is being read having
started with `cur`; `depth` parentheses are open in it. -/
def values : Nat → List Token → List Token → Option (List (List Token))
  | _, _, [] => none
  | depth, cur, t :: ts =>
    if t = .symbol 40 then values (depth + 1) (cur ++ [t]) ts
    else if t = .symbol 41 then
      if depth = 0 then if ts = [] then some [cur] else none
      else values (depth - 1) (cur ++ [t]) ts
    else if t = .symbol comma ∧ depth = 0 then (values 0 [] ts).map (cur :: ·)
    else values depth (cur ++ [t]) ts

theorem prefix_values {depth : Nat} {cur g : List Token} {ts : List Token} {gs : List (List Token)}
    (h : values depth cur ts = some (g :: gs)) : cur <+: g := by
  induction ts generalizing depth cur with
  | nil => cases h
  | cons t ts ih =>
    have hpre : ∀ {g : List Token}, cur ++ [t] <+: g → cur <+: g := fun h => (List.prefix_append _ _).trans h
    rw [values] at h
    split_ifs at h with h₁ h₂ h₃ h₄ h₅
    · exact hpre (ih h)
    · cases h; exact List.prefix_rfl
    · exact hpre (ih h)
    · obtain ⟨gs', -, h⟩ := Option.map_eq_some_iff.1 h
      cases h
      exact List.prefix_rfl
    · exact hpre (ih h)

def valueList (text : List UInt8) : Option (List (List Token)) := (tokens text).bind (values 0 [])

/-- The values of a statement that starts with `header`. -/
def valuesBehind (header : List Token) (text : List UInt8) : Option (List (List Token)) := do
  let ts ← tokens text
  if ts.take header.length = header then values 0 [] (ts.drop header.length) else none

theorem valueList_literal {s r x : List UInt8} (h : literal quote s = some (x, comma :: r)) :
    valueList (quote :: s) = (valueList r).map ([.string x] :: ·) := by
  rw [valueList, tokens_literal h, tokens_symbol (by decide) (by decide) (by decide), valueList]
  rcases tokens r with _ | ts
  · rfl
  · simp [values, comma]

theorem valueList_verbatim {s : List UInt8} (h : Verbatim s = true) (t : List UInt8) :
    valueList (quote :: (s ++ quote :: comma :: t)) = (valueList t).map ([.string s] :: ·) :=
  valueList_literal (literal_of_verbatim h (by decide) t)

/-- A text between quotes, before a comma, that comes out as a value of its own. -/
theorem verbatim_of_valueList {s t : List UInt8} {vs : List (List Token)}
    (h : valueList (quote :: (s ++ quote :: comma :: t)) = some ([.string s] :: vs)) : Verbatim s = true := by
  rcases hl : literal quote (s ++ quote :: comma :: t) with _ | ⟨x, r⟩
  · rw [valueList, tokens_literal_none hl] at h
    cases h
  · rw [valueList, tokens_literal hl] at h
    obtain ⟨ts, hts, h⟩ := Option.bind_eq_some_iff.1 h
    obtain ⟨ts', -, rfl⟩ := Option.map_eq_some_iff.1 hts
    have hvals : values 0 [.string x] ts' = some ([.string s] :: vs) := by simpa [values] using h
    have hx : x = s := by simpa using prefix_values hvals
    exact verbatim_of_literal (hx ▸ hl)

end Sql
