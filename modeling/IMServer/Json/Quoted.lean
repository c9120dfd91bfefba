import IMServer.Decimal

/-!
# Strings as the writers write them

Every writer of jsoncpp calls `valueToQuotedString`, for the names of members too. It takes a C string.
-/

namespace IMServer.Json

/-- The characters of a `char` that is signed. -/
def isControlCharacter (ch : UInt8) : Bool := 0 < ch && ch ≤ 0x1F

def hexUpper (d : Nat) : UInt8 := if d < 10 then UInt8.ofNat (48 + d) else UInt8.ofNat (55 + d)

def escapeChar (c : UInt8) : Bytes :=
  if c = 34 then [92, 34]
  else if c = 92 then [92, 92]
  else if c = 8 then [92, 98]
  else if c = 12 then [92, 102]
  else if c = 10 then [92, 110]
  else if c = 13 then [92, 114]
  else if c = 9 then [92, 116]
  else if isControlCharacter c then [92, 117, 48, 48, hexUpper (c.toNat / 16), hexUpper (c.toNat % 16)]
  else [c]

def isSpecial (c : UInt8) : Bool :=
  c == 34 || c == 92 || c == 8 || c == 12 || c == 10 || c == 13 || c == 9 || isControlCharacter c

def valueToQuotedString (value : Bytes) : Bytes :=
  let value := cTrunc value
  if value.any isSpecial then 34 :: value.flatMap escapeChar ++ [34] else 34 :: value ++ [34]

end IMServer.Json
