import Mathlib.Algebra.Group.Nat.Defs

/-!
Python floats: IEEE 754 binary64 values, their comparison and rounded
arithmetic, and the two ways the standard library prints them. Finite values
are exact rationals. The two zeros are one value.
-/

inductive PyFloat where
  | nan
  | inf (negative : Bool)
  | fin (q : Rat)
  deriving DecidableEq

namespace PyFloat

def pow2 (e : Int) : Rat :=
  if 0 ≤ e then ((2 ^ e.toNat : Nat) : Rat) else 1 / ((2 ^ (-e).toNat : Nat) : Rat)

def pow10 (e : Int) : Rat :=
  if 0 ≤ e then ((10 ^ e.toNat : Nat) : Rat) else 1 / ((10 ^ (-e).toNat : Nat) : Rat)

/-- The nearest integer, and the even one of two equally near. -/
def roundHalfEven (q : Rat) : Int :=
  let low := q.floor
  let rest := q - low
  if rest < 1 / 2 then low
  else if 1 / 2 < rest then low + 1
  else if low % 2 = 0 then low else low + 1

/-- `floor (log2 q)` for positive `q`. -/
def log2 (q : Rat) : Int :=
  let e : Int := (Nat.log2 q.num.natAbs : Int) - (Nat.log2 q.den : Int)
  if q < pow2 e then e - 1 else e

/-- `floor (log10 q)` for positive `q`. -/
def log10 (q : Rat) : Int :=
  let e : Int := ((Nat.toDigits 10 q.num.natAbs).length : Int) - (Nat.toDigits 10 q.den).length
  if q < pow10 e then e - 1 else e

def abs (q : Rat) : Rat := if q < 0 then -q else q

/-- Round to 53 significant bits, to nearest and ties to even. -/
def ofRat (q : Rat) : PyFloat :=
  if q = 0 then .fin 0
  else
    let e := max (log2 (abs q)) (-1022)
    let ulp := pow2 (e - 52)
    let v := (roundHalfEven (q / ulp) : Rat) * ulp
    if pow2 1024 ≤ abs v then .inf (q < 0) else .fin v

def ofInt (i : Int) : PyFloat := ofRat i

def lt : PyFloat → PyFloat → Bool
  | .nan, _ | _, .nan => false
  | .inf n, .inf m => n && !m
  | .inf n, .fin _ => n
  | .fin _, .inf n => !n
  | .fin a, .fin b => a < b

def le : PyFloat → PyFloat → Bool
  | .nan, _ | _, .nan => false
  | .inf n, .inf m => n || !m
  | .inf n, .fin _ => n
  | .fin _, .inf n => !n
  | .fin a, .fin b => a ≤ b

def neg : PyFloat → PyFloat
  | .nan => .nan
  | .inf n => .inf !n
  | .fin a => .fin (-a)

def fabs : PyFloat → PyFloat
  | .nan => .nan
  | .inf _ => .inf false
  | .fin a => .fin (abs a)

def add : PyFloat → PyFloat → PyFloat
  | .nan, _ | _, .nan => .nan
  | .inf n, .inf m => if n = m then .inf n else .nan
  | .inf n, .fin _ | .fin _, .inf n => .inf n
  | .fin a, .fin b => ofRat (a + b)

def sub (x y : PyFloat) : PyFloat := add x (neg y)

def mul : PyFloat → PyFloat → PyFloat
  | .nan, _ | _, .nan => .nan
  | .inf n, .inf m => .inf (n != m)
  | .inf n, .fin a | .fin a, .inf n => if a = 0 then .nan else .inf (n != decide (a < 0))
  | .fin a, .fin b => ofRat (a * b)

/-- `x / q` for a positive constant `q`. -/
def divBy (q : Rat) : PyFloat → PyFloat
  | .fin a => ofRat (a / q)
  | x => x

/-- `min(x, y)`, which keeps the first of two values neither of which is smaller. -/
def pyMin (x y : PyFloat) : PyFloat := if lt y x then y else x

/-- `max(x, y)`, which keeps the first of two values neither of which is larger. -/
def pyMax (x y : PyFloat) : PyFloat := if lt x y then y else x

/-- The truth value of `x`: everything but zero is true. -/
def truthy (x : PyFloat) : Bool := x ≠ .fin 0

/-- `x or 0.0` for a value that may be absent. -/
def orZero : Option PyFloat → PyFloat
  | some x => x
  | none => .fin 0

def isFinite : PyFloat → Bool
  | .fin _ => true
  | _ => false

/-! Printing. A finite value is first turned into digits and the position of the
decimal point before them. -/

def digitsOf (n : Nat) : List Char := Nat.toDigits 10 n

/-- The digits of `n * 10 ^ s` without trailing zeros, and the number of digits
before the decimal point. -/
def decimal (n : Nat) (s : Int) : List Char × Int :=
  let ds := digitsOf n
  (((ds.reverse.dropWhile (· = '0')).reverse), ds.length + s)

/-- The shortest decimal that rounds to positive `q`, and the nearest of those. -/
def shortest (q : Rat) : Nat → List Char × Int
  | 0 => decimal 0 0
  | fuel + 1 =>
      let s := log10 q - (16 - fuel : Int)
      let low := (q / pow10 s).floor.toNat
      let okLow := ofRat ((low : Rat) * pow10 s) = .fin q
      let okHigh := ofRat (((low + 1 : Nat) : Rat) * pow10 s) = .fin q
      let nearLow := q - (low : Rat) * pow10 s ≤ ((low + 1 : Nat) : Rat) * pow10 s - q
      if okLow ∧ (nearLow ∨ ¬ okHigh) then decimal low s
      else if okHigh then decimal (low + 1) s
      else shortest q fuel

/-- Positive `q` to `precision` significant digits. -/
def significant (q : Rat) (precision : Nat) : List Char × Int :=
  let s := log10 q - (precision - 1 : Int)
  decimal (roundHalfEven (q / pow10 s)).toNat s

def exponentText (e : Int) : List Char :=
  let ds := digitsOf e.natAbs
  (if e < 0 then ['-'] else ['+']) ++ (if ds.length < 2 then '0' :: ds else ds)

/-- Lay out digits in fixed or exponent form; `whole` is printed after a fixed
form without a fraction. -/
def layout (digits : List Char) (point : Int) (limit : Int) (whole : List Char) : List Char :=
  if -4 < point ∧ point ≤ limit then
    if point ≤ 0 then '0' :: '.' :: (List.replicate (-point).toNat '0' ++ digits)
    else if (digits.length : Int) ≤ point then
      digits ++ List.replicate (point.toNat - digits.length) '0' ++ whole
    else digits.take point.toNat ++ '.' :: digits.drop point.toNat
  else
    digits.take 1 ++ (if digits.length ≤ 1 then [] else '.' :: digits.drop 1) ++
      'e' :: exponentText (point - 1)

def print (special : PyFloat → List Char) (digits : Rat → List Char × Int) (limit : Int)
    (whole : List Char) : PyFloat → List Char
  | .fin q =>
      if q = 0 then '0' :: whole
      else
        let (ds, point) := digits (abs q)
        (if q < 0 then ['-'] else []) ++ layout ds point limit whole
  | x => special x

def specialText : PyFloat → List Char
  | .inf true => "-inf".toList
  | .inf false => "inf".toList
  | _ => "nan".toList

/-- `repr(x)` of a finite float. -/
def reprChars : PyFloat → List Char :=
  print specialText (fun q => shortest q 17) 16 ".0".toList

/-- `format(x, "g")`. -/
def formatG (x : PyFloat) : String :=
  String.ofList (print specialText (fun q => significant q 6) 6 [] x)

end PyFloat
