import Mathlib.Data.Rat.Floor
import OneCompute.Lib.Json
import OneCompute.Lib.PyFloatExact

/-!
Arithmetic on Python floats under a rounding of exact results, the `float` of a
JSON value, and the means of the standard library. With the identity as rounding,
floats are rationals.
-/

namespace PyNumber

/-- How the exact result of an operation becomes a float. -/
structure Rounding where
  round : Rat → PyFloat

def binary64 : Rounding := ⟨PyFloat.ofRat⟩

/-- Exact arithmetic in place of floats. -/
def exact : Rounding := ⟨.fin⟩

namespace Rounding
variable (R : Rounding)

def add : PyFloat → PyFloat → PyFloat
  | .nan, _ | _, .nan => .nan
  | .inf n, .inf m => if n = m then .inf n else .nan
  | .inf n, .fin _ | .fin _, .inf n => .inf n
  | .fin a, .fin b => R.round (a + b)

def sub (x y : PyFloat) : PyFloat := R.add x y.neg

def mul : PyFloat → PyFloat → PyFloat
  | .nan, _ | _, .nan => .nan
  | .inf n, .inf m => .inf (n != m)
  | .inf n, .fin a | .fin a, .inf n => if a = 0 then .nan else .inf (n != decide (a < 0))
  | .fin a, .fin b => R.round (a * b)

/-- `x / y` for `y` other than zero. -/
def div : PyFloat → PyFloat → PyFloat
  | .nan, _ | _, .nan => .nan
  | .inf _, .inf _ => .nan
  | .inf n, .fin b => .inf (n != decide (b < 0))
  | .fin _, .inf _ => .fin 0
  | .fin a, .fin b => R.round (a / b)

/-- A literal, or an integer that is converted. -/
def ofRat (q : Rat) : PyFloat := R.round q

/-- `sum(xs)`, rounded after every addition. -/
def sum (xs : List PyFloat) : PyFloat := xs.foldl R.add (.fin 0)

/-- What `math.fsum` keeps: partial sums, smallest first, and the sums of the summands that
are infinite and of those that are no numbers. -/
structure FSum where
  partials : List PyFloat := []
  specialSum : PyFloat := .fin 0
  infSum : PyFloat := .fin 0

/-- A summand is added to each partial sum in turn: the rounding errors that remain, and what
is carried to the end. -/
def carry : PyFloat → List PyFloat → List PyFloat × PyFloat
  | x, [] => ([], x)
  | x, p :: ps =>
      let (x, y) := if PyFloat.lt x.fabs p.fabs then (p, x) else (x, p)
      let hi := R.add x y
      let yr := R.sub hi x
      let lo := R.sub y yr
      let (errors, top) := carry hi ps
      (if lo = .fin 0 then errors else lo :: errors, top)

/-- A carry beyond the floats is an error, unless the summand was already. -/
def FSum.add (s : FSum) (x : PyFloat) : Except String FSum :=
  let (errors, top) := R.carry x s.partials
  if top = .fin 0 then .ok { s with partials := errors }
  else if top.isFinite then .ok { s with partials := errors ++ [top] }
  else if x.isFinite then .error "OverflowError"
  else
    .ok { partials := []
          specialSum := R.add s.specialSum x
          infSum := if x = .nan then s.infSum else R.add s.infSum x }

/-- The partial sums from the largest down, as long as adding them is exact. If the next one
points the same way as the error, a tie was none. -/
def collapse : PyFloat → List PyFloat → PyFloat
  | hi, [] => hi
  | x, y :: ps =>
      let hi := R.add x y
      let yr := R.sub hi x
      let lo := R.sub y yr
      if lo = .fin 0 then collapse hi ps
      else
        match ps with
        | [] => hi
        | p :: _ =>
            if PyFloat.lt lo (.fin 0) && PyFloat.lt p (.fin 0) ||
                PyFloat.lt (.fin 0) lo && PyFloat.lt (.fin 0) p then
              let y := R.mul lo (.fin 2)
              let x := R.add hi y
              if y = R.sub x hi then x else hi
            else hi

def FSum.total (s : FSum) : Except String PyFloat :=
  if s.specialSum = .fin 0 then
    match s.partials.reverse with
    | [] => .ok (.fin 0)
    | hi :: ps => .ok (R.collapse hi ps)
  else if s.infSum = .nan then .error "ValueError"
  else .ok s.specialSum

/-- `math.fsum(xs)` -/
def fsum (xs : List PyFloat) : Except String PyFloat := do
  let s ← xs.foldlM (FSum.add R) {}
  s.total R

/-- `statistics.fmean(xs)` of a list that is not empty. -/
def fmean (xs : List PyFloat) : Except String PyFloat := do
  let total ← R.fsum xs
  return R.div total (R.round xs.length)

/-- `round(x, 1)`. -/
def roundTenth : PyFloat → PyFloat
  | .fin q => R.round (PyFloat.roundHalfEven (q * 10) / 10)
  | x => x

end Rounding

/-- `max(xs)` of a list that is not empty. -/
def maxOf : List PyFloat → PyFloat
  | [] => .fin 0
  | x :: xs => xs.foldl PyFloat.pyMax x

/-! ## Conversions -/

inductive Failure where
  /-- `TypeError` or `ValueError`. -/
  | invalid
  | overflow
  deriving DecidableEq

/-- Decimal text after its sign: the digits, and the power of ten they are
multiplied by. -/
def decimalOfText (cs : List Char) : Option (Nat × Int) := do
  let (mantissa, exponent) := cs.span (fun c => c ≠ 'e' ∧ c ≠ 'E')
  let (whole, fraction) := mantissa.span (· ≠ '.')
  let digits (part : List Char) : Option (List Nat) :=
    if part = [] then some [] else PyText.groupedDigits part
  let ds ← digits whole
  let fs ← digits (fraction.drop 1)
  if ds = [] ∧ fs = [] then none
  else
    let e ← (match exponent with
      | [] => some (0 : Int)
      | _ :: '-' :: es => (PyText.groupedDigits es).map fun xs =>
          -((xs.foldl (fun n d => 10 * n + d) 0 : Nat) : Int)
      | _ :: '+' :: es => (PyText.groupedDigits es).map fun xs =>
          ((xs.foldl (fun n d => 10 * n + d) 0 : Nat) : Int)
      | _ :: es => (PyText.groupedDigits es).map fun xs =>
          ((xs.foldl (fun n d => 10 * n + d) 0 : Nat) : Int))
    return ((ds ++ fs).foldl (fun n d => 10 * n + d) 0, e - fs.length)

/-- `float(text)`. -/
def floatOfText (R : Rounding) (s : String) : Option PyFloat :=
  let cs := PyText.stripBy (fun c => PyText.isSpace c && !(28 ≤ c.toNat && c.toNat ≤ 31)) s.toList
  let (negative, body) := match cs with
    | '-' :: rest => (true, rest)
    | '+' :: rest => (false, rest)
    | rest => (false, rest)
  let name := String.ofList (body.map Char.toLower)
  if name = "inf" ∨ name = "infinity" then some (.inf negative)
  else if name = "nan" then some .nan
  else (decimalOfText body).map fun p =>
    let q := (p.1 : Rat) * PyFloat.pow10 p.2
    R.round (if negative then -q else q)

/-- `float(value)`. -/
def float (R : Rounding) : Json → Except Failure PyFloat
  | .bool b => .ok (.fin (if b then 1 else 0))
  | .int i =>
      match R.round i with
      | .fin q => .ok (.fin q)
      | _ => .error .overflow
  | .float x => .ok x
  | .str s =>
      match floatOfText R s with
      | some x => .ok x
      | none => .error .invalid
  | _ => .error .invalid

/-- `float(value)` where `TypeError` and `ValueError` are caught. -/
def floatOr (R : Rounding) (default : PyFloat) (value : Json) : Except String PyFloat :=
  match float R value with
  | .ok x => .ok x
  | .error .invalid => .ok default
  | .error .overflow => .error "OverflowError"

/-! ## Signs -/

/-- Rounding keeps the sign of what is not negative. -/
def Rounding.KeepsSign (R : Rounding) : Prop :=
  ∀ q v, 0 ≤ q → R.round q = .fin v → 0 ≤ v

theorem roundHalfEven_nonneg {q : Rat} (h : 0 ≤ q) : 0 ≤ PyFloat.roundHalfEven q := by
  have hfloor : 0 ≤ q.floor := Rat.le_floor_iff.mpr (by simpa using h)
  unfold PyFloat.roundHalfEven
  simp only
  split
  · exact hfloor
  · split
    · omega
    · split <;> omega

theorem binary64_keepsSign : binary64.KeepsSign := by
  intro q v hq hv
  simp only [binary64, PyFloat.ofRat] at hv
  split at hv
  · cases hv
    exact le_refl _
  · split at hv
    · cases hv
    · cases hv
      have hpos := PyFloat.pow2_pos (max (PyFloat.log2 (PyFloat.abs q)) (-1022) - 52)
      have hround := roundHalfEven_nonneg (div_nonneg hq hpos.le)
      exact mul_nonneg (by exact_mod_cast hround) hpos.le

/-- `t * w / s` is not negative when `t` and `w` are not and `s` is positive. -/
theorem Rounding.KeepsSign.mul_div {R : Rounding} (hR : R.KeepsSign) {t v : Rat} {w s : PyFloat}
    (ht : 0 ≤ t) (hw : w.lt (.fin 0) = false) (hs : s.le (.fin 0) = false)
    (h : R.div (R.mul (.fin t) w) s = .fin v) : 0 ≤ v := by
  have hquot : ∀ a, 0 ≤ a → R.div (.fin a) s = .fin v → 0 ≤ v := by
    intro a ha hv
    cases s with
    | nan => cases hv
    | inf n =>
        cases hv
        exact le_refl _
    | fin b =>
        have hb : 0 < b := by simpa [PyFloat.le] using hs
        exact hR (a / b) v (div_nonneg ha hb.le) hv
  have hinf : ∀ n, R.div (.inf n) s ≠ .fin v := by
    intro n hv
    cases s <;> cases hv
  cases w with
  | nan => cases h
  | inf n =>
      simp only [Rounding.mul] at h
      split at h
      · cases h
      · exact absurd h (hinf _)
  | fin b =>
      have hb : 0 ≤ b := by simpa [PyFloat.lt] using hw
      cases hprod : R.round (t * b) with
      | nan => simp [Rounding.mul, hprod, Rounding.div] at h
      | inf n =>
          rw [Rounding.mul, hprod] at h
          exact absurd h (hinf _)
      | fin a =>
          rw [Rounding.mul, hprod] at h
          exact hquot a (hR _ _ (mul_nonneg ht hb) hprod) h

/-! ## Exact arithmetic -/

section Exact
open PyFloat (pyMax pyMin)

@[simp] theorem exact_add (a b : Rat) : exact.add (.fin a) (.fin b) = .fin (a + b) := rfl

@[simp] theorem exact_sub (a b : Rat) : exact.sub (.fin a) (.fin b) = .fin (a - b) := by
  change PyFloat.fin (a + -b) = .fin (a - b)
  rw [sub_eq_add_neg]

@[simp] theorem exact_mul (a b : Rat) : exact.mul (.fin a) (.fin b) = .fin (a * b) := rfl

@[simp] theorem exact_div (a b : Rat) : exact.div (.fin a) (.fin b) = .fin (a / b) := rfl

@[simp] theorem pyMax_fin (a b : Rat) : pyMax (.fin a) (.fin b) = .fin (max a b) := by
  unfold pyMax PyFloat.lt
  by_cases h : a < b
  · simp [h, max_eq_right h.le]
  · simp [h, max_eq_left (not_lt.mp h)]

@[simp] theorem pyMin_fin (a b : Rat) : pyMin (.fin a) (.fin b) = .fin (min a b) := by
  unfold pyMin PyFloat.lt
  by_cases h : b < a
  · simp [h, min_eq_right h.le]
  · simp [h, min_eq_left (not_lt.mp h)]

/-- A float is brought between 0 and `m`, where NaN is at the upper end. -/
theorem clamp_mem {m : Rat} (hm : 0 ≤ m) (x : PyFloat) :
    ∃ p, pyMax (.fin 0) (pyMin (.fin m) x) = .fin p ∧ 0 ≤ p ∧ p ≤ m := by
  have hfin : ∀ q : Rat, ∃ p, pyMax (.fin 0) (pyMin (.fin m) (.fin q)) = .fin p ∧ 0 ≤ p ∧
      p ≤ m := by
    intro q
    rw [pyMin_fin, pyMax_fin]
    exact ⟨_, rfl, le_max_left _ _, max_le hm (min_le_left _ _)⟩
  have htop := hfin m
  rw [pyMin_fin, min_self] at htop
  cases x with
  | nan => exact htop
  | inf n =>
      cases n with
      | true => exact ⟨0, rfl, le_rfl, hm⟩
      | false => exact htop
  | fin q => exact hfin q

/-- One that lies there stays as it is. -/
theorem clamp_of_mem {m q : Rat} (h0 : 0 ≤ q) (hm : q ≤ m) :
    pyMax (.fin 0) (pyMin (.fin m) (.fin q)) = .fin q := by
  rw [pyMin_fin, pyMax_fin, min_eq_right hm, max_eq_right h0]

end Exact

end PyNumber
