import OneCompute.Lib.PyNumber
import OneCompute.Lib.Results

/-!
Decoded JSON values as the operands of Python programs that do not check types:
numbers are ints or floats, and an operation between other types raises.
-/

/-- What an operation raises. -/
inductive PyException where
  | typeError (message : String)
  | valueError (message : String)
  | overflowError (message : String)
  | memoryError
  | lookupError
  | attributeError
  | zeroDivisionError
  deriving DecidableEq

namespace PyValue
open PyNumber (binary64)
open PyException

def typeName : Json → String
  | .null => "NoneType"
  | .bool _ => "bool"
  | .int _ => "int"
  | .float _ => "float"
  | .str _ => "str"
  | .arr _ => "list"
  | .obj _ => "dict"

/-- An `int`, a `bool` among them, or a `float`. -/
inductive Num where
  | int (i : Int)
  | float (x : PyFloat)
  deriving DecidableEq

namespace Num

def ofJson : Json → Option Num
  | .bool b => some (.int (if b then 1 else 0))
  | .int i => some (.int i)
  | .float x => some (.float x)
  | _ => none

def toJson : Num → Json
  | .int i => .int i
  | .float x => .float x

/-- The exact value, which numbers are compared by. -/
def value : Num → PyFloat
  | .int i => .fin i
  | .float x => x

def le (a b : Num) : Bool := PyFloat.le a.value b.value

def lt (a b : Num) : Bool := PyFloat.lt a.value b.value

/-- `float(number)` -/
def toFloat : Num → Except PyException PyFloat
  | .float x => .ok x
  | .int i =>
      match binary64.round i with
      | .fin q => .ok (.fin q)
      | _ => .error (overflowError "int too large to convert to float")

/-- An int that can be converted becomes a number. -/
theorem toFloat_int {i : Int} {y : PyFloat} (h : toFloat (.int i) = .ok y) :
    ∃ q, binary64.round i = .fin q ∧ y = .fin q := by
  unfold toFloat at h
  dsimp only at h
  split at h
  next q hq =>
    cases h
    exact ⟨q, hq, rfl⟩
  next => cases h

/-- An operation that keeps ints, and converts them next to a float. -/
def arith (onInt : Int → Int → Int) (onFloat : PyFloat → PyFloat → PyFloat) :
    Num → Num → Except PyException Num
  | .int i, .int j => .ok (.int (onInt i j))
  | a, b => do
      let x ← a.toFloat
      let y ← b.toFloat
      return .float (onFloat x y)

def add : Num → Num → Except PyException Num := arith (· + ·) binary64.add

def sub : Num → Num → Except PyException Num := arith (· - ·) binary64.sub

def mul : Num → Num → Except PyException Num := arith (· * ·) binary64.mul

@[simp] theorem add_int (i j : Int) : add (.int i) (.int j) = .ok (.int (i + j)) := rfl

@[simp] theorem sub_int (i j : Int) : sub (.int i) (.int j) = .ok (.int (i - j)) := rfl

@[simp] theorem le_int (i j : Int) : le (.int i) (.int j) = decide (i ≤ j) := by
  simp [le, value, PyFloat.le]

end Num

/-- The operands of a binary operator that takes numbers. -/
def operands (operator : String) (a b : Json) : Except PyException (Num × Num) :=
  match Num.ofJson a, Num.ofJson b with
  | some x, some y => .ok (x, y)
  | _, _ => .error (typeError ("unsupported operand type(s) for " ++ operator ++ ": '" ++
      typeName a ++ "' and '" ++ typeName b ++ "'"))

/-- The number that is compared with an int. -/
def comparable (operator : String) (value : Json) : Except PyException Num :=
  match Num.ofJson value with
  | some x => .ok x
  | none => .error (typeError ("'" ++ operator ++ "' not supported between instances of '" ++
      typeName value ++ "' and 'int'"))

/-- The value as an index or a bound, which a float is not. -/
def index : Num → Except PyException Int
  | .int i => .ok i
  | .float _ => .error (typeError "'float' object cannot be interpreted as an integer")

/-- `list(value)` -/
def elements (value : Json) : Except PyException (List Json) :=
  match value.pyList with
  | some items => .ok items
  | none => .error (typeError ("'" ++ typeName value ++ "' object is not iterable"))

end PyValue
