import IMServer.Basic
import IMServer.Lib.AssocMap

/-!
# `Json::Value`

The value tree of the vendored jsoncpp, without the comments a value may carry. A member access on
anything but `null` or an object fails an assert, a conversion the type does not allow throws; `null`
becomes an object, and an absent member is created as `null`, when a member is asked for.
-/

namespace IMServer.Json

/-- A `double` that is not a NaN: `± mant * 2 ^ exp`, or an infinity. -/
inductive Double
  | finite (neg : Bool) (mant : Nat) (exp : Int)
  | inf (neg : Bool)
deriving Repr, DecidableEq

namespace Double

def absLe : Double → Nat → Bool
  | finite _ mant exp, n =>
    if 0 ≤ exp then mant * 2 ^ exp.toNat ≤ n else mant ≤ n * 2 ^ (-exp).toNat
  | inf _, _ => false

def isInt32 : Double → Bool
  | finite neg mant exp => (finite neg mant exp).absLe (if neg then 2 ^ 31 else 2 ^ 31 - 1)
  | inf _ => false

/-- `Int(d)`: the fraction is cut off. -/
def toInt32 : Double → Int32
  | finite neg mant exp =>
    let n := if 0 ≤ exp then mant * 2 ^ exp.toNat else mant / 2 ^ (-exp).toNat
    Int32.ofInt (if neg then -(n : Int) else n)
  | inf _ => 0

end Double

inductive Value
  | null
  | int (i : Int32)
  | uint (u : UInt32)
  | real (d : Double)
  | string (s : Bytes)
  | bool (b : Bool)
  | array (items : List Value)
  | object (members : List (Bytes × Value))

namespace Value

def isString : Value → Bool
  | string _ => true
  | _ => false

def isInt : Value → Bool
  | int _ => true
  | _ => false

/-- Strings are kept as C strings: what stands behind a zero byte is not read back. -/
def asString : Value → Except Fault Bytes
  | null => .ok []
  | string s => .ok (cTrunc s)
  | bool b => .ok (ascii (if b then "true" else "false"))
  | _ => .error .runtimeError

def asInt : Value → Except Fault Int32
  | null => .ok 0
  | int i => .ok i
  | uint u => if u.toNat < 2 ^ 31 - 1 then .ok u.toInt32 else .error .runtimeError
  | real d => if d.isInt32 then .ok d.toInt32 else .error .runtimeError
  | bool b => .ok (if b then 1 else 0)
  | _ => .error .runtimeError

/-- `operator[](const char*)`: the member, and the value after the call. -/
def resolveReference (v : Value) (key : Bytes) : Except Fault (Value × Value) :=
  match v with
  | null => .ok (null, object [(key, null)])
  | object members =>
    match AssocMap.find members key with
    | some m => .ok (m, object members)
    | none => .ok (null, object (AssocMap.insert key null members))
  | _ => .error .assertion

/-! ### Members without the side effect -/

def isObject : Value → Bool
  | null => true
  | object _ => true
  | _ => false

def member (v : Value) (key : Bytes) : Value :=
  match v with
  | object members => (AssocMap.find members key).getD null
  | _ => null

def isText : Value → Bool
  | null => true
  | string _ => true
  | bool _ => true
  | _ => false

def isNumber : Value → Bool
  | null => true
  | int _ => true
  | uint u => u.toNat < 2 ^ 31 - 1
  | real d => d.isInt32
  | bool _ => true
  | _ => false

theorem asString_of_isText {v : Value} (h : v.isText = true) : ∃ s, v.asString = .ok s := by
  cases v <;> first | exact ⟨_, rfl⟩ | simp [isText] at h

theorem asString_of_not_isText {v : Value} (h : v.isText = false) :
    v.asString = .error .runtimeError := by
  cases v <;> first | rfl | simp [isText] at h

theorem asInt_of_isNumber {v : Value} (h : v.isNumber = true) : ∃ i, v.asInt = .ok i := by
  cases v with
  | uint u => exact ⟨u.toInt32, if_pos (by simpa [isNumber] using h)⟩
  | real d => exact ⟨d.toInt32, if_pos h⟩
  | null => exact ⟨_, rfl⟩
  | int i => exact ⟨_, rfl⟩
  | bool b => exact ⟨_, rfl⟩
  | string s => simp [isNumber] at h
  | array xs => simp [isNumber] at h
  | object m => simp [isNumber] at h

theorem asInt_of_not_isNumber {v : Value} (h : v.isNumber = false) :
    v.asInt = .error .runtimeError := by
  cases v with
  | uint u => exact if_neg (by simpa [isNumber] using h)
  | real d => exact if_neg (by simpa [isNumber] using h)
  | null => simp [isNumber] at h
  | int i => simp [isNumber] at h
  | bool b => simp [isNumber] at h
  | string s => rfl
  | array xs => rfl
  | object m => rfl

theorem isText_of_isString {v : Value} (h : v.isString = true) : v.isText = true := by
  cases v <;> simp_all [isString, isText]

theorem resolveReference_of_not_isObject {v : Value} (h : v.isObject = false) (key : Bytes) :
    v.resolveReference key = .error .assertion := by
  cases v <;> first | rfl | simp [isObject] at h

/-- `v` is an object whose members are those of `root`. -/
structure SameMembers (v root : Value) : Prop where
  isObject : v.isObject = true
  member : v.member = root.member

theorem SameMembers.resolveReference {v root : Value} (h : v.SameMembers root) (key : Bytes) :
    ∃ v', v.resolveReference key = .ok (root.member key, v') ∧ v'.SameMembers root := by
  rw [← h.member]
  suffices hs : ∃ v', v.resolveReference key = .ok (v.member key, v') ∧ v'.isObject = true ∧
      v'.member = v.member by
    obtain ⟨v', h₁, h₂, h₃⟩ := hs
    exact ⟨v', h₁, h₂, h₃.trans h.member⟩
  cases v with
  | null =>
    refine ⟨_, rfl, rfl, ?_⟩
    funext k
    simp only [Value.member, AssocMap.find_cons]
    split <;> rfl
  | object m =>
    unfold Value.resolveReference
    cases hf : AssocMap.find m key with
    | some w => exact ⟨object m, by simp [Value.member, hf], rfl, rfl⟩
    | none =>
      refine ⟨_, by simp [Value.member, hf]; rfl, rfl, ?_⟩
      funext k
      simp only [Value.member, AssocMap.find_insert]
      split
      · next hk => subst hk; simp [hf]
      · rfl
  | int i => exact absurd h.isObject (by simp [Value.isObject])
  | uint u => exact absurd h.isObject (by simp [Value.isObject])
  | real d => exact absurd h.isObject (by simp [Value.isObject])
  | string s => exact absurd h.isObject (by simp [Value.isObject])
  | bool b => exact absurd h.isObject (by simp [Value.isObject])
  | array xs => exact absurd h.isObject (by simp [Value.isObject])

end Value

end IMServer.Json
