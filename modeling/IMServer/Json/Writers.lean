import IMServer.Json.Scalars

/-!
# The writers of jsoncpp

`FastWriter` puts a value on one line. `StyledWriter` and `StyledStreamWriter` give every member a line
of its own, and an array one line as long as it is short and flat: they write its items to
`childValues_` first to see how long the line would be. The values here have no comments; the
styled writers would write them too.
-/

namespace IMServer.Json

def Value.isArray : Value → Bool
  | array _ => true
  | _ => false

def Value.size : Value → Nat
  | array items => items.length
  | object members => members.length
  | _ => 0

def boolToString (value : Bool) : Bytes := ascii (if value then "true" else "false")

namespace FastWriter

mutual

def writeValue (yamlCompatiblityEnabled : Bool) (document : Bytes) : Value → Bytes
  | .null => document ++ ascii "null"
  | .int i => document ++ intToString i.toInt
  | .uint u => document ++ uintToString u.toNat
  | .real d => document ++ d.valueToString
  | .string s => document ++ valueToQuotedString s
  | .bool b => document ++ boolToString b
  | .array items => writeItems yamlCompatiblityEnabled true (document ++ ascii "[") items ++ ascii "]"
  | .object members =>
    writeMembers yamlCompatiblityEnabled true (document ++ ascii "\x7b") members ++ ascii "\x7d"

def writeItems (yamlCompatiblityEnabled first : Bool) (document : Bytes) : List Value → Bytes
  | [] => document
  | value :: items =>
    let document := if first then document else document ++ ascii ","
    writeItems yamlCompatiblityEnabled false (writeValue yamlCompatiblityEnabled document value) items

def writeMembers (yamlCompatiblityEnabled first : Bool) (document : Bytes) : List (Bytes × Value) → Bytes
  | [] => document
  | (name, value) :: members =>
    let document := if first then document else document ++ ascii ","
    let document := document ++ valueToQuotedString name
    let document := document ++ if yamlCompatiblityEnabled then ascii ": " else ascii ":"
    writeMembers yamlCompatiblityEnabled false (writeValue yamlCompatiblityEnabled document value) members

end

def write (yamlCompatiblityEnabled : Bool) (root : Value) : Bytes :=
  writeValue yamlCompatiblityEnabled [] root ++ ascii "\n"

end FastWriter

/-- What the two styled writers do differently: `StyledWriter` does not begin a line that is begun, and
`StyledStreamWriter` is told what to indent with. -/
structure Style where
  looksBack : Bool
  indentation : Bytes

def indentSize : Nat := 3

def Style.styledWriter : Style := ⟨true, List.replicate indentSize 32⟩

def Style.styledStreamWriter (indentation : Bytes) : Style := ⟨false, indentation⟩

structure Styler where
  document : Bytes := []
  childValues : List Bytes := []
  indentString : Bytes := []
  addChildValues : Bool := false

def rightMargin : Nat := 74

namespace Styler

def append (w : Styler) (text : Bytes) : Styler := { w with document := w.document ++ text }

def pushValue (w : Styler) (value : Bytes) : Styler :=
  if w.addChildValues then { w with childValues := w.childValues ++ [value] } else w.append value

def writeIndent (w : Styler) (style : Style) : Styler :=
  if style.looksBack then
    match w.document.getLast? with
    | none => w.append w.indentString
    | some last =>
      if last = 32 then w else if last ≠ 10 then w.append (10 :: w.indentString) else w.append w.indentString
  else w.append (10 :: w.indentString)

def writeWithIndent (w : Styler) (style : Style) (value : Bytes) : Styler := (w.writeIndent style).append value

def indent (w : Styler) (style : Style) : Styler := { w with indentString := w.indentString ++ style.indentation }

def unindent (w : Styler) (style : Style) : Except Fault Styler :=
  if style.indentation.length ≤ w.indentString.length then
    .ok { w with indentString := w.indentString.take (w.indentString.length - style.indentation.length) }
  else .error .assertion

/-- `pushItems` is the loop that writes the items, which go to `childValues`. -/
def isMultineArray (w : Styler) (items : List Value)
    (pushItems : Styler → Nat → Except Fault (Styler × Nat)) : Except Fault (Bool × Styler) := do
  let w := { w with childValues := [] }
  if rightMargin ≤ items.length * 3 ∨ items.any (fun v => (v.isArray || v.isObject) && decide (0 < v.size)) then
    return (true, w)
  let (w, lineLength) ← pushItems { w with addChildValues := true } (4 + (items.length - 1) * 2)
  return (decide (rightMargin ≤ lineLength), { w with addChildValues := false })

/-- `n` lines with what stands in `childValues` from `index` on. -/
def writeChildValues (w : Styler) (style : Style) (index : Nat) : Nat → Except Fault Styler
  | 0 => .ok w
  | n + 1 =>
    match w.childValues[index]? with
    | none => .error .outOfBounds
    | some child =>
      let w := w.writeWithIndent style child
      if n = 0 then .ok w else writeChildValues (w.append (ascii ",")) style (index + 1) n

def writeArrayValue (w : Styler) (style : Style) (items : List Value)
    (pushItems : Styler → Nat → Except Fault (Styler × Nat)) (writeItems : Styler → Except Fault Styler) :
    Except Fault Styler :=
  if items.isEmpty then .ok (w.pushValue (ascii "[]"))
  else do
    let (isArrayMultiLine, w) ← w.isMultineArray items pushItems
    if isArrayMultiLine then
      let w := (w.writeWithIndent style (ascii "[")).indent style
      let w ← if w.childValues.isEmpty then writeItems w else w.writeChildValues style 0 items.length
      let w ← w.unindent style
      return w.writeWithIndent style (ascii "]")
    if w.childValues.length ≠ items.length then .error .assertion
    else return w.append (ascii "[ " ++ (ascii ", ").intercalate w.childValues ++ ascii " ]")

mutual

def writeValue (w : Styler) (style : Style) : Value → Except Fault Styler
  | .null => .ok (w.pushValue (ascii "null"))
  | .int i => .ok (w.pushValue (intToString i.toInt))
  | .uint u => .ok (w.pushValue (uintToString u.toNat))
  | .real d => .ok (w.pushValue d.valueToString)
  | .string s => .ok (w.pushValue (valueToQuotedString s))
  | .bool b => .ok (w.pushValue (boolToString b))
  | .array items =>
    w.writeArrayValue style items (fun w lineLength => pushItems w style 0 lineLength items)
      fun w => writeItems w style items
  | .object members =>
    if members.isEmpty then .ok (w.pushValue (ascii "\x7b\x7d"))
    else do
      let w ← writeMembers ((w.writeWithIndent style (ascii "\x7b")).indent style) style members
      let w ← w.unindent style
      return w.writeWithIndent style (ascii "\x7d")

/-- The loop of `isMultineArray`. -/
def pushItems (w : Styler) (style : Style) (index lineLength : Nat) : List Value → Except Fault (Styler × Nat)
  | [] => .ok (w, lineLength)
  | value :: items => do
    let w ← writeValue w style value
    match w.childValues[index]? with
    | none => .error .outOfBounds
    | some child => pushItems w style (index + 1) (lineLength + child.length) items

def writeItems (w : Styler) (style : Style) : List Value → Except Fault Styler
  | [] => .ok w
  | childValue :: items => do
    let w ← writeValue (w.writeIndent style) style childValue
    if items.isEmpty then return w
    writeItems (w.append (ascii ",")) style items

def writeMembers (w : Styler) (style : Style) : List (Bytes × Value) → Except Fault Styler
  | [] => .ok w
  | (name, childValue) :: members => do
    let w := w.writeWithIndent style (valueToQuotedString name)
    let w ← writeValue (w.append (ascii " : ")) style childValue
    if members.isEmpty then return w
    writeMembers (w.append (ascii ",")) style members

end

end Styler

/-- `StyledWriter::write` and `StyledStreamWriter::write` -/
def Style.write (style : Style) (root : Value) : Except Fault Bytes := do
  let w ← Styler.writeValue {} style root
  return w.document ++ ascii "\n"

/-- No assertion of the writer fails for what can be read back (`writers_round_trip`). -/
def Value.toStyledString (value : Value) : Bytes := (Style.styledWriter.write value).toOption.getD []

end IMServer.Json
