import IMServer.ClientSession
import IMServer.Json.RoundTrip

/-!
# What the handlers need of a document

The member accesses of `onRegisterResponse` and `onLoginResponse` without their side effects, and
how long the replies are.
-/

namespace IMServer
open Json

section
variable {v : Value}

theorem registerRequest_of_isObject (h : v.isObject = true) :
    registerRequest v =
      if !(v.member (ascii "username")).isString || !(v.member (ascii "nickname")).isString ||
          (v.member (ascii "password")).isString then .ok none
      else do
        let userName ← (v.member (ascii "username")).asString
        let nickName ← (v.member (ascii "nicknime")).asString
        let passWord ← (v.member (ascii "password")).asString
        return some (userName, nickName, passWord) := by
  obtain ⟨v₁, h₁, o₁⟩ := Value.SameMembers.resolveReference ⟨h, rfl⟩ (ascii "username")
  obtain ⟨v₂, h₂, o₂⟩ := o₁.resolveReference (ascii "nickname")
  obtain ⟨v₃, h₃, o₃⟩ := o₂.resolveReference (ascii "password")
  obtain ⟨v₄, h₄, o₄⟩ := o₃.resolveReference (ascii "username")
  obtain ⟨v₅, h₅, o₅⟩ := o₄.resolveReference (ascii "nicknime")
  obtain ⟨v₆, h₆, -⟩ := o₅.resolveReference (ascii "password")
  simp only [registerRequest, h₁, h₂, h₃, h₄, h₅, h₆, Except.ok_bind]
  cases (v.member (ascii "username")).isString with
  | false => rfl
  | true =>
    cases (v.member (ascii "nickname")).isString with
    | false => rfl
    | true => cases (v.member (ascii "password")).isString <;> rfl

theorem registerRequest_of_not_isObject (h : v.isObject = false) :
    registerRequest v = .error .assertion := by
  rw [registerRequest, Value.resolveReference_of_not_isObject h]
  rfl

theorem loginRequest_of_isObject (h : v.isObject = true) :
    loginRequest v =
      if !(v.member (ascii "password")).isString || !(v.member (ascii "stastus")).isInt then .ok none
      else do
        let password ← (v.member (ascii "password")).asString
        let _ ← (v.member (ascii "status")).asInt
        if (v.member (ascii "user")).isString then
          return some (.name (← (v.member (ascii "user")).asString), password)
        else
          return some (.id (← (v.member (ascii "user")).asInt), password) := by
  obtain ⟨v₁, h₁, o₁⟩ := Value.SameMembers.resolveReference ⟨h, rfl⟩ (ascii "password")
  obtain ⟨v₂, h₂, o₂⟩ := o₁.resolveReference (ascii "stastus")
  obtain ⟨v₃, h₃, o₃⟩ := o₂.resolveReference (ascii "password")
  obtain ⟨v₄, h₄, o₄⟩ := o₃.resolveReference (ascii "status")
  obtain ⟨v₅, h₅, o₅⟩ := o₄.resolveReference (ascii "user")
  obtain ⟨v₆, h₆, -⟩ := o₅.resolveReference (ascii "user")
  simp only [loginRequest, h₁, h₂, h₃, h₄, h₅, h₆, Except.ok_bind]
  cases (v.member (ascii "password")).isString with
  | false => rfl
  | true => cases (v.member (ascii "stastus")).isInt <;> rfl

theorem loginRequest_of_not_isObject (h : v.isObject = false) :
    loginRequest v = .error .assertion := by
  rw [loginRequest, Value.resolveReference_of_not_isObject h]
  rfl

def RegisterTypes (v : Value) : Prop :=
  (v.member (ascii "username")).isString = false ∨ (v.member (ascii "nickname")).isString = false ∨
    (v.member (ascii "password")).isString = true ∨
    ((v.member (ascii "nicknime")).isText = true ∧ (v.member (ascii "password")).isText = true)

def LoginTypes (v : Value) : Prop :=
  (v.member (ascii "password")).isString = false ∨ (v.member (ascii "stastus")).isInt = false ∨
    ((v.member (ascii "status")).isNumber = true ∧
      ((v.member (ascii "user")).isString = true ∨ (v.member (ascii "user")).isNumber = true))

theorem asString_returns (w : Value) : w.asString.Returns ↔ w.isText = true := by
  refine ⟨fun h => ?_, Value.asString_of_isText⟩
  by_contra hn
  rw [Value.asString_of_not_isText (by simpa using hn)] at h
  exact Except.not_returns_error _ h

theorem asInt_returns (w : Value) : w.asInt.Returns ↔ w.isNumber = true := by
  refine ⟨fun h => ?_, Value.asInt_of_isNumber⟩
  by_contra hn
  rw [Value.asInt_of_not_isNumber (by simpa using hn)] at h
  exact Except.not_returns_error _ h

theorem registerRequest_returns (v : Value) :
    (registerRequest v).Returns ↔ v.isObject = true ∧ RegisterTypes v := by
  cases ho : v.isObject with
  | false => simp [registerRequest_of_not_isObject ho]
  | true =>
    rw [registerRequest_of_isObject ho, RegisterTypes]
    cases hu : (v.member (ascii "username")).isString with
    | false => simp
    | true =>
      cases hn : (v.member (ascii "nickname")).isString with
      | false => simp
      | true =>
        cases hp : (v.member (ascii "password")).isString with
        | true => simp
        | false =>
          have hu := Value.isText_of_isString hu
          simp only [Bool.not_true, Bool.or_false, Bool.false_eq_true, ite_false]
          rw [Except.returns_bind₃, asString_returns, asString_returns, asString_returns]
          simp [hu]

theorem loginRequest_returns (v : Value) :
    (loginRequest v).Returns ↔ v.isObject = true ∧ LoginTypes v := by
  cases ho : v.isObject with
  | false => simp [loginRequest_of_not_isObject ho]
  | true =>
    rw [loginRequest_of_isObject ho, LoginTypes]
    cases hp : (v.member (ascii "password")).isString with
    | false => simp
    | true =>
      cases hs : (v.member (ascii "stastus")).isInt with
      | false => simp
      | true =>
        have hp := Value.isText_of_isString hp
        simp only [Bool.not_true, Bool.or_false, Bool.false_eq_true, ite_false]
        cases hu : (v.member (ascii "user")).isString with
        | true =>
          have hu := Value.isText_of_isString hu
          simp only [ite_true]
          rw [Except.returns_bind₃, asString_returns, asInt_returns, asString_returns]
          simp [hp, hu]
        | false =>
          simp only [Bool.false_eq_true, ite_false]
          rw [Except.returns_bind₃, asString_returns, asInt_returns, asInt_returns]
          simp [hp]

end

/-! ### Short replies and the long one -/

theorem registerResult_short {s s' : Store} {data res : Bytes} (h : registerResult s data = .ok (res, s')) :
    res.length < 128 := by
  obtain ⟨root, -, h⟩ := Except.bind_eq_ok.1 h
  cases root with
  | none => cases h; decide
  | some root =>
    obtain ⟨request, -, h⟩ := Except.bind_eq_ok.1 h
    cases request with
    | none => cases h; decide
    | some request =>
      obtain ⟨userName, nickName, passWord⟩ := request
      simp only at h
      split at h
      · cases h; decide
      · cases h; decide

/-- Members without members of their own: each has its name in the text, and three characters behind it. -/
theorem writeMembers_flat {style : Style} {ms : List (Bytes × Value)} (hflat : ∀ m ∈ ms, m.2.isFlat = true)
    (w : Styler) (hw : w.Ready) :
    ∃ w' t, Styler.writeMembers w style ms = .ok w' ∧ w.Appended w' t ∧
      (ms.map fun m => (valueToQuotedString m.1).length + 3).sum ≤ t.length := by
  induction ms generalizing w with
  | nil => exact ⟨w, [], rfl, ⟨by simp, rfl, rfl⟩, Nat.le_refl _⟩
  | cons m ms ih =>
    obtain ⟨hm, hms⟩ := List.forall_mem_cons.1 hflat
    obtain ⟨ws, -, hws⟩ := hw.writeIndent style
    have hname := (hws.trans (Styler.appended_append _ (valueToQuotedString m.1))).trans
      (Styler.appended_append _ (ascii " : "))
    have hready := hw.of_appended hname
    have hvalue := hname.trans (Styler.appended_append _ (flatText m.2))
    have hpush : ∀ w : Styler, w.Ready → w.pushValue (flatText m.2) = w.append (flatText m.2) := by
      intro w hw
      rw [Styler.pushValue, hw.addChildValues]
      rfl
    have hcolon : (ascii " : ").length = 3 := by decide
    rw [Styler.writeMembers, Styler.writeWithIndent, Styler.writeValue_flat hm, hpush _ hready]
    simp only [Except.ok_bind, List.map_cons, List.sum_cons]
    by_cases hlast : ms = []
    · subst hlast
      refine ⟨_, _, rfl, hvalue, ?_⟩
      simp only [List.length_append, List.map_nil, List.sum_nil]
      omega
    · have hcomma := hvalue.trans (Styler.appended_append _ (ascii ","))
      obtain ⟨w', t, hw', ha, hlen⟩ := ih hms _ (hw.of_appended hcomma)
      rw [if_neg (by simpa using hlast)]
      refine ⟨w', _, hw', hcomma.trans ha, ?_⟩
      simp only [List.length_append]
      omega

theorem length_toStyledString {ms : List (Bytes × Value)} (hflat : ∀ m ∈ ms, m.2.isFlat = true) :
    (ms.map fun m => (valueToQuotedString m.1).length + 3).sum ≤ (Value.object ms).toStyledString.length := by
  cases ms with
  | nil => exact Nat.zero_le _
  | cons m ms =>
    have hstyle : Blank Style.styledWriter.indentation := by decide
    have hready : Styler.Ready {} := ⟨blank_nil, rfl⟩
    obtain ⟨w₁, t, hmembers, ha, hlen⟩ := writeMembers_flat hflat _ (hready.indent hstyle (ascii "\x7b"))
    obtain ⟨w₂, ws, ws', hunindent, -, -, ha₂⟩ := Styler.enclosed hready (ascii "\x7b") (ascii "\x7d") ha
    have hwrite : Style.styledWriter.write (.object (m :: ms)) =
        .ok ((w₂.writeWithIndent .styledWriter (ascii "\x7d")).document ++ ascii "\n") := by
      rw [Style.write, Styler.writeValue, if_neg (by simp), hmembers]
      simp only [Except.ok_bind, hunindent]
      rfl
    rw [Value.toStyledString, hwrite]
    refine hlen.trans ?_
    show t.length ≤ ((w₂.writeWithIndent .styledWriter (ascii "\x7d")).document ++ ascii "\n").length
    rw [ha₂.document]
    simp only [List.length_append]
    omega

theorem mem_response {α : Type} {ms : List (String × α)} {m : Bytes × α} (h : m ∈ response ms) :
    ∃ p ∈ ms, m = (ascii p.1, p.2) := by
  have heq : response ms = (ms.map fun p => (ascii p.1, p.2)).foldl (fun m e => AssocMap.insert e.1 e.2 m) [] := by
    rw [response, List.foldl_map]
  rw [heq] at h
  rcases AssocMap.mem_foldl_insert h with h | h
  · cases h
  · obtain ⟨p, hp, rfl⟩ := List.mem_map.1 h
    exact ⟨p, hp, rfl⟩

theorem map_response {α β : Type} (f : α → β) (members : List (String × α)) :
    (response members).map (Prod.map id f) = response (members.map (Prod.map id f)) := by
  unfold response
  suffices hs : ∀ m, (members.foldl (fun m p => AssocMap.insert (ascii p.1) p.2 m) m).map (Prod.map id f) =
      (members.map (Prod.map id f)).foldl (fun m p => AssocMap.insert (ascii p.1) p.2 m)
        (m.map (Prod.map id f)) from hs []
  induction members with
  | nil => exact fun _ => rfl
  | cons p members ih =>
    intro m
    rw [List.foldl_cons, ih, AssocMap.map_insert, List.map_cons, List.foldl_cons]
    rfl

/-- The names alone make the reply to a successful login too long for the writer. -/
theorem length_text_success (user : User) : 128 ≤ (LoginResult.success user).text.length := by
  have hflat : ∀ m ∈ successResponse user, m.2.isFlat = true := by
    intro m hm
    obtain ⟨p, hp, rfl⟩ := mem_response hm
    simp only [List.mem_cons, List.not_mem_nil, or_false] at hp
    rcases hp with rfl | rfl | rfl | rfl | rfl | rfl | rfl | rfl | rfl | rfl | rfl | rfl | rfl <;> rfl
  refine Nat.le_trans ?_ (length_toStyledString hflat)
  have hsum : ((successResponse user).map fun m => (valueToQuotedString m.1).length + 3).sum =
      (((successResponse user).map (Prod.map id fun _ => ())).map fun m =>
        (valueToQuotedString m.1).length + 3).sum := by
    rw [List.map_map]
    rfl
  rw [hsum, successResponse, map_response]
  simp only [List.map_cons, List.map_nil, Prod.map_apply, id_eq]
  decide

theorem length_text_lt {r : LoginResult} (h : ∀ user, r ≠ .success user) : r.text.length < 128 := by
  cases r with
  | parseFailed => decide
  | typeError => decide
  | noRegister => decide
  | noPassword => decide
  | success user => exact absurd rfl (h user)

end IMServer
