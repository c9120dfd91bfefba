import IMServer.Decimal
import IMServer.Json.Value

/-!
# Numbers of a document

`decodeNumber` keeps short integers exact and gives everything else to `sscanf("%lf")`, which is
modelled with the rounding of IEEE binary64. A number of exactly 32 characters that goes that way
is terminated one byte behind the buffer it was copied to.
-/

namespace IMServer.Json

def roundDouble (neg : Bool) (num den : Nat) : Double :=
  if num = 0 then .finite neg 0 0
  else
    let scale (k : Int) : Nat × Nat :=
      if 0 ≤ k then (num, den * 2 ^ k.toNat) else (num * 2 ^ (-k).toNat, den)
    let k₀ : Int := max (-1074) ((num.log2 : Int) - den.log2 - 53)
    let k := if 2 ^ 53 ≤ (scale k₀).1 / (scale k₀).2 then k₀ + 1 else k₀
    let (n, d) := scale k
    let q := n / d
    let r := n % d
    let m := if d < 2 * r ∨ (2 * r = d ∧ q % 2 = 1) then q + 1 else q
    if 971 < k ∨ (k = 971 ∧ 2 ^ 53 ≤ m) then .inf neg else .finite neg m k

def scanExponent (text : Bytes) : Int :=
  match text with
  | e :: cs =>
    if e = 101 ∨ e = 69 then
      let (neg, cs) := match cs with
        | 45 :: cs => (true, cs)
        | 43 :: cs => (false, cs)
        | cs => (false, cs)
      let (n, _, _) := takeDigits 0 0 cs
      if neg then -(n : Int) else n
    else 0
  | [] => 0

/-- `sscanf(text, "%lf", &value)`: the longest beginning of `text` that is a decimal number. -/
def sscanf (text : Bytes) : Option Double :=
  let (neg, cs) := match text with
    | 45 :: cs => (true, cs)
    | 43 :: cs => (false, cs)
    | cs => (false, cs)
  let (whole, n, cs) := takeDigits 0 0 cs
  let (mant, n', frac, cs) := match cs with
    | 46 :: cs => let (m, k, cs) := takeDigits whole 0 cs; (m, n + k, k, cs)
    | cs => (whole, n, 0, cs)
  if n' = 0 then none
  else
    let exp := scanExponent cs - frac
    some (if 0 ≤ exp then roundDouble neg (mant * 10 ^ exp.toNat) 1
      else roundDouble neg mant (10 ^ (-exp).toNat))

def bufferSize : Nat := 32

def decodeDouble (token : Bytes) : Except Fault (Option Value) :=
  if token.length = bufferSize then .error .outOfBounds -- `buffer[length] = 0`
  else .ok ((sscanf token).map .real)

/-- The loop of `decodeNumber` over the digits: `none` when the token has to be read as a double,
`some none` when it is no number. -/
def decodeDigits (threshold value : Nat) : Bytes → Option (Option Nat)
  | [] => some (some value)
  | c :: cs =>
    if c < 48 ∨ 57 < c then some none
    else if threshold ≤ value then none
    else decodeDigits threshold (value * 10 + (c.toNat - 48)) cs

def decodeNumber (token : Bytes) : Except Fault (Option Value) :=
  let isDouble := token.any (fun c => c == 46 || c == 101 || c == 69 || c == 43) ||
    token.tail.any (· == 45)
  if isDouble then decodeDouble token
  else
    let isNegative := token.head? = some 45
    let digits := if isNegative then token.tail else token
    let threshold := (if isNegative then 2 ^ 31 else 2 ^ 32 - 1) / 10
    match decodeDigits threshold 0 digits with
    | none => decodeDouble token
    | some none => .ok none
    | some (some value) =>
      if isNegative then .ok (some (.int (Int32.ofInt (-(value : Int)))))
      else if value ≤ 2 ^ 31 - 1 then .ok (some (.int (Int32.ofNat value)))
      else .ok (some (.uint (UInt32.ofNat value)))

theorem decodeDouble_ne_diverges (token : Bytes) : decodeDouble token ≠ .error .diverges := by
  unfold decodeDouble
  split <;> simp

theorem decodeNumber_ne_diverges (token : Bytes) : decodeNumber token ≠ .error .diverges := by
  unfold decodeNumber
  simp only
  split
  · exact decodeDouble_ne_diverges token
  · split
    · exact decodeDouble_ne_diverges token
    · simp
    · split
      · simp
      · split <;> simp

end IMServer.Json
