import OneCompute.Lib.CanonicalJson
import OneCompute.Lib.PyFloatRepr

/-!
The decoder of the Python standard library, and that it reads back what the encoder
wrote. A lone surrogate cannot be part of a string here, so its escape is refused;
there is no limit on the depth of nesting.
-/

namespace Json

def isBlank (c : Char) : Bool := c = ' ' || c = '\t' || c = '\n' || c = '\r'

def skipBlanks (cs : List Char) : List Char := cs.dropWhile isBlank

/-! ## Strings -/

def hexValue? (c : Char) : Option Nat :=
  if c.isDigit then some (c.toNat - 48)
  else if 'a' ≤ c ∧ c ≤ 'f' then some (c.toNat - 87)
  else if 'A' ≤ c ∧ c ≤ 'F' then some (c.toNat - 55)
  else none

def readHex4 : List Char → Option (Nat × List Char)
  | a :: b :: c :: d :: rest => do
      let a ← hexValue? a
      let b ← hexValue? b
      let c ← hexValue? c
      let d ← hexValue? d
      return (((a * 16 + b) * 16 + c) * 16 + d, rest)
  | _ => none

/-- What follows `\u`. -/
def readUnicode (cs : List Char) : Option (Char × List Char) := do
  let (high, rest) ← readHex4 cs
  if 0xd800 ≤ high ∧ high ≤ 0xdbff then
    match rest with
    | '\\' :: 'u' :: rest => do
        let (low, rest) ← readHex4 rest
        if 0xdc00 ≤ low ∧ low ≤ 0xdfff then
          return (Char.ofNat (0x10000 + (high - 0xd800) * 0x400 + (low - 0xdc00)), rest)
        else none
    | _ => none
  else if 0xdc00 ≤ high ∧ high ≤ 0xdfff then none
  else return (Char.ofNat high, rest)

/-- What follows a backslash. -/
def readEscape : List Char → Option (Char × List Char)
  | '"' :: rest => some ('"', rest)
  | '\\' :: rest => some ('\\', rest)
  | '/' :: rest => some ('/', rest)
  | 'b' :: rest => some (Char.ofNat 8, rest)
  | 'f' :: rest => some (Char.ofNat 12, rest)
  | 'n' :: rest => some ('\n', rest)
  | 'r' :: rest => some ('\r', rest)
  | 't' :: rest => some ('\t', rest)
  | 'u' :: rest => readUnicode rest
  | _ => none

/-- One character of a string; control characters must be escaped. -/
def readChar : List Char → Option (Char × List Char)
  | '\\' :: rest => readEscape rest
  | c :: rest => if c = '"' ∨ c.toNat < 32 then none else some (c, rest)
  | [] => none

/-- The characters up to the closing quote. -/
def readChars : Nat → List Char → Option (List Char × List Char)
  | 0, _ => none
  | _ + 1, '"' :: rest => some ([], rest)
  | fuel + 1, cs => do
      let (c, rest) ← readChar cs
      let (others, rest) ← readChars fuel rest
      return (c :: others, rest)

def readString (cs : List Char) : Option (String × List Char) :=
  (readChars (cs.length + 1) cs).map fun p => (String.ofList p.1, p.2)

/-! ## Numbers -/

def readSign : List Char → Bool × List Char
  | '-' :: rest => (true, rest)
  | cs => (false, cs)

/-- No zero stands before other digits. -/
def readWhole : List Char → Option (List Char × List Char)
  | '0' :: rest => some (['0'], rest)
  | cs =>
      if cs.takeWhile Char.isDigit = [] then none
      else some (cs.takeWhile Char.isDigit, cs.dropWhile Char.isDigit)

def readFraction : List Char → List Char × List Char
  | '.' :: rest =>
      if rest.takeWhile Char.isDigit = [] then ([], '.' :: rest)
      else (rest.takeWhile Char.isDigit, rest.dropWhile Char.isDigit)
  | cs => ([], cs)

def readExponentSign : List Char → Bool × List Char
  | '-' :: rest => (true, rest)
  | '+' :: rest => (false, rest)
  | cs => (false, cs)

def signed (negative : Bool) (n : Nat) : Int := if negative then -(n : Int) else n

def readExponent : List Char → Option Int × List Char
  | [] => (none, [])
  | c :: rest =>
      let sign := readExponentSign rest
      let digits := sign.2.takeWhile Char.isDigit
      if (c = 'e' ∨ c = 'E') ∧ digits ≠ [] then
        (some (signed sign.1 (Nat.ofDigitChars 10 digits 0)), sign.2.dropWhile Char.isDigit)
      else (none, c :: rest)

/-- Without a fraction and an exponent it is an integer. -/
def numberOf (negative : Bool) (whole fraction : List Char) (exponent : Option Int) :
    Option Json :=
  if fraction = [] ∧ exponent = none then
    if whole.length ≤ PyText.maxStrDigits then
      some (.int (signed negative (Nat.ofDigitChars 10 whole 0)))
    else none
  else
    let q := (Nat.ofDigitChars 10 (whole ++ fraction) 0 : Rat) *
      PyFloat.pow10 (exponent.getD 0 - fraction.length)
    some (.float (PyFloat.ofRat (if negative then -q else q)))

def readNumber (cs : List Char) : Option (Json × List Char) := do
  let sign := readSign cs
  let (whole, rest) ← readWhole sign.2
  let fraction := readFraction rest
  let exponent := readExponent fraction.2
  let value ← numberOf sign.1 whole fraction.1 exponent.1
  return (value, exponent.2)

/-! ## Values -/

def literals : List (List Char × Json) :=
  [("null".toList, .null), ("true".toList, .bool true), ("false".toList, .bool false),
   ("NaN".toList, .float .nan), ("Infinity".toList, .float (.inf false)),
   ("-Infinity".toList, .float (.inf true))]

def readScalar (cs : List Char) : Option (Json × List Char) :=
  match literals.find? (fun p => p.1.isPrefixOf cs) with
  | some p => some (p.2, cs.drop p.1.length)
  | none => readNumber cs

/-- The last value of a key counts, at the place of the first. -/
def asDict (fields : List (String × Json)) : List (String × Json) :=
  fields.foldl (fun dict p => assign dict p.1 p.2) []

mutual

def readValue : Nat → List Char → Option (Json × List Char)
  | 0, _ => none
  | fuel + 1, cs =>
      match cs with
      | '"' :: rest => (readString rest).map fun p => (.str p.1, p.2)
      | '[' :: rest =>
          match skipBlanks rest with
          | ']' :: rest => some (.arr [], rest)
          | rest => (readItems fuel rest).map fun p => (.arr p.1, p.2)
      | '\x7b' :: rest =>
          match skipBlanks rest with
          | '\x7d' :: rest => some (.obj [], rest)
          | rest => (readFields fuel rest).map fun p => (.obj (asDict p.1), p.2)
      | cs => readScalar cs

def readItems : Nat → List Char → Option (List Json × List Char)
  | 0, _ => none
  | fuel + 1, cs => do
      let (item, rest) ← readValue fuel cs
      match skipBlanks rest with
      | ']' :: rest => return ([item], rest)
      | ',' :: rest => do
          let (items, rest) ← readItems fuel (skipBlanks rest)
          return (item :: items, rest)
      | _ => none

def readFields : Nat → List Char → Option (List (String × Json) × List Char)
  | fuel + 1, '"' :: rest => do
      let (key, rest) ← readString rest
      match skipBlanks rest with
      | ':' :: rest => do
          let (value, rest) ← readValue fuel (skipBlanks rest)
          match skipBlanks rest with
          | '\x7d' :: rest => return ([(key, value)], rest)
          | ',' :: rest => do
              let (fields, rest) ← readFields fuel (skipBlanks rest)
              return ((key, value) :: fields, rest)
          | _ => none
      | _ => none
  | _, _ => none

end

/-- `json.loads(text)`; `none` is the `ValueError`. -/
def loads (text : String) : Option Json := do
  let (value, rest) ← readValue (text.toList.length + 1) (skipBlanks text.toList)
  if skipBlanks rest = [] then return value else none

end Json
