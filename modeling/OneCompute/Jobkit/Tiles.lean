import Mathlib.Order.WithBot
import OneCompute.Jobkit.Execute
import OneCompute.Lib.PyNumber
import OneCompute.Lib.Spans

/-!
The job kinds whose work is split into tiles: a search over candidates, the rows of
an image and the rows of a synthetic dataset. `shouldYield k` is the answer to the
k-th poll. Where Python's random generator or its mathematics decide a value, that
value is a parameter.
-/

namespace OneCompute.Jobkit
open Spans (range)

/-- `int(input.get(key, default))` -/
def getInt (input : Dict) (key : String) (default : Int) : Option Int :=
  match Json.lookup input key with
  | none => some default
  | some value => pyInt value

/-- `float(input.get(key, default))` -/
def getFloat (input : Dict) (key : String) (default : PyFloat) : Option PyFloat :=
  match Json.lookup input key with
  | none => some default
  | some value => (PyNumber.float PyNumber.binary64 value).toOption

/-! ## Search -/

/-- What a search tile reports. Until a candidate has been scored the score is `⊥`,
the float −∞. -/
structure SearchOutput (σ : Type) where
  bestScore : WithBot σ
  bestParams : List PyFloat
  bestIndex : Int
  evaluated : Int
  yielded : Bool

section Search
variable {σ : Type} [LinearOrder σ]

/-- How candidates come about and are scored: `uniform s d` are the first `d` draws
of the generator seeded with `s`. -/
structure Objective (σ : Type) where
  uniform : Int → Nat → List PyFloat
  score : List PyFloat → σ

def optimizeK : Int := 1000003

namespace Objective
variable (o : Objective σ)

/-- `_optimize_config` -/
def config (index dims seed : Int) : List PyFloat := o.uniform (seed * optimizeK + index) dims.toNat

def consider (dims seed : Int) (best : SearchOutput σ) (i : Int) : SearchOutput σ :=
  let params := o.config i dims seed
  let score := o.score params
  if best.bestScore < score then ⟨score, params, i, best.evaluated + 1, best.yielded⟩
  else { best with evaluated := best.evaluated + 1 }

def search (dims seed : Int) (shouldYield : Nat → Bool) :
    Nat → List Int → SearchOutput σ → SearchOutput σ
  | _, [], best => best
  | polls, i :: rest, best =>
      if shouldYield polls then { best with yielded := true }
      else search dims seed shouldYield (polls + 1) rest (o.consider dims seed best i)

/-- `_optimize` -/
def optimize (shouldYield : Nat → Bool) (input : Dict) : Option (SearchOutput σ) := do
  let idxStart ← getInt input "idx_start" 0
  let idxEnd ← getInt input "idx_end" 0
  let dims ← getInt input "dims" 8
  let seed ← getInt input "seed" 0
  return o.search dims seed shouldYield 0 (range idxStart idxEnd) ⟨⊥, [], -1, 0, false⟩

theorem search_never (dims seed : Int) (polls : Nat) (candidates : List Int)
    (best : SearchOutput σ) :
    o.search dims seed (fun _ => false) polls candidates best =
      candidates.foldl (o.consider dims seed) best := by
  induction candidates generalizing polls best with
  | nil => rfl
  | cons i rest ih => exact ih (polls + 1) _

end Objective
end Search

/-! ## Rows of an image -/

/-- The part of the plane an image shows, and the bound on the iterations. -/
structure View where
  width : Int
  height : Int
  maxIter : Int
  xMin : PyFloat
  xMax : PyFloat
  yMin : PyFloat
  yMax : PyFloat

structure FractalOutput where
  width : Int
  rowStart : Int
  rowEnd : Int
  maxIter : Int
  rows : List (List Int)
  yielded : Bool

/-- The rows of one tile; `escape view px py` is the escape count of a pixel. -/
def fractalRows (escape : View → Int → Int → Int) (view : View) (shouldYield : Nat → Bool) :
    Nat → List Int → List (List Int) × Bool
  | _, [] => ([], false)
  | polls, py :: rest =>
      if shouldYield polls then ([], true)
      else
        let later := fractalRows escape view shouldYield (polls + 1) rest
        ((range 0 view.width).map (fun px => escape view px py) :: later.1, later.2)

/-- `_fractal` -/
def fractal (escape : View → Int → Int → Int) (shouldYield : Nat → Bool) (input : Dict) :
    Option FractalOutput := do
  let width ← getInt input "width" 900
  let height ← getInt input "height" 600
  let rowStart ← getInt input "row_start" 0
  let rowEnd ← getInt input "row_end" height
  let maxIter ← getInt input "max_iter" 120
  let xMin ← getFloat input "x_min" (.fin (-5 / 2))
  let xMax ← getFloat input "x_max" (.fin 1)
  let yMin ← getFloat input "y_min" (.fin (-5 / 4))
  let yMax ← getFloat input "y_max" (.fin (5 / 4))
  let view : View := ⟨width, height, maxIter, xMin, xMax, yMin, yMax⟩
  let (rows, yielded) := fractalRows escape view shouldYield 0 (range rowStart rowEnd)
  return ⟨width, rowStart, rowEnd, maxIter, rows, yielded⟩

theorem fractalRows_never (escape : View → Int → Int → Int) (view : View) (polls : Nat)
    (rows : List Int) :
    fractalRows escape view (fun _ => false) polls rows =
      (rows.map fun py => (range 0 view.width).map fun px => escape view px py, false) := by
  induction rows generalizing polls with
  | nil => rfl
  | cons py rest ih => simp [fractalRows, ih]

/-- `z = z * z + c` until it escapes, at most `fuel` more times. -/
def iterate (cx cy : PyFloat) : Nat → PyFloat → PyFloat → Int → Int
  | 0, _, _, count => count
  | fuel + 1, zr, zi, count =>
      if (PyFloat.add (zr.mul zr) (zi.mul zi)).le (.fin 4) then
        iterate cx cy fuel (PyFloat.add (PyFloat.sub (zr.mul zr) (zi.mul zi)) cx)
          (PyFloat.add ((PyFloat.mul (.fin 2) zr).mul zi) cy) (count + 1)
      else count

/-- The escape count in binary64, of an image whose sides are floats. -/
def mandelbrot (view : View) (px py : Int) : Int :=
  let step (low high : PyFloat) (side : Int) : PyFloat :=
    if side = 0 then .fin 0 else PyNumber.binary64.div (high.sub low) (PyFloat.ofInt side)
  let cx := view.xMin.add ((PyFloat.ofInt px).mul (step view.xMin view.xMax view.width))
  let cy := view.yMin.add ((PyFloat.ofInt py).mul (step view.yMin view.yMax view.height))
  iterate cx cy view.maxIter.toNat (.fin 0) (.fin 0) 0

/-! ## Rows of a synthetic dataset -/

def synthFirst : List String :=
  ["Ada", "Bjarne", "Grace", "Linus", "Margaret", "Dennis", "Barbara", "Ken",
    "Radia", "Guido", "Anita", "Donald", "Joan", "Alan", "Karen", "Brian"]

def synthLast : List String :=
  ["Lovelace", "Hopper", "Torvalds", "Hamilton", "Ritchie", "Liskov", "Perlman",
    "Thompson", "Knuth", "Goldberg", "Turing", "Borg", "Cerf", "Allen", "Wing"]

def synthRoles : List String :=
  ["Software Engineer", "Data Scientist", "Product Manager", "SRE",
    "Security Engineer", "ML Engineer", "Designer", "Engineering Manager"]

def synthTeams : List String :=
  ["Platform", "Infrastructure", "Growth", "Security", "Research",
    "Payments", "Mobile", "Developer Experience"]

/-- `choice seed k n`: which of `n` things the k-th choice of a generator seeded with
`seed` picks. -/
abbrev Choice := Int → Nat → Nat → Nat

/-- `format(index, "05d")` -/
def fiveDigits (index : Int) : String :=
  let digits := Nat.toDigits 10 index.natAbs
  let sign := if index < 0 then ['-'] else []
  String.ofList (sign ++ List.replicate (5 - (sign.length + digits.length)) '0' ++ digits)

def synthField (choice : Choice) (index : Int) (spec field : String) : String :=
  let pick (k : Nat) (pool : List String) := pool.getD (choice index k pool.length) ""
  let first := pick 0 synthFirst
  let last := pick 1 synthLast
  let name := first ++ " " ++ last
  let role := pick 2 synthRoles
  let team := pick 3 synthTeams
  let low := PyText.lower field
  if low = "name" then name
  else if low = "role" ∨ low = "title" then role
  else if low = "team" ∨ low = "department" then team
  else if low = "summary" ∨ low = "bio" then
    name ++ " is a " ++ role ++ " on the " ++ team ++ " team (" ++ spec ++ ")."
  else if low = "id" ∨ low = "employee_id" then "EMP-" ++ fiveDigits index
  else if low = "email" then PyText.lower (first ++ "." ++ last ++ "@example.com")
  else field ++ "-" ++ toString index

/-- `_synth_fallback_row`; `none` is the exception of a field that is no text. -/
def synthFallbackRow (choice : Choice) (index : Int) (spec : String) (fields : List Json) :
    Option Dict :=
  fields.foldlM (fun record field =>
    match field with
    | .str name => some (Json.assign record name (.str (synthField choice index spec name)))
    | _ => none) []

/-- A model that can be asked: `_ai_one` and `_parse_synth_record`. -/
structure Backend where
  name : String
  complete : String → Json → Int → String
  parse : String → List Json → Option Dict

def synthPrompt (index : Int) (spec : String) (fields : List String) : String :=
  "Generate ONE realistic synthetic record describing " ++ spec ++ ". " ++
    "Return ONLY a JSON object with exactly these keys: " ++ ", ".intercalate fields ++ ". " ++
    "No prose, no markdown, no code fence. Record #" ++ toString index ++ "."

def fieldNames (fields : List Json) : Option (List String) :=
  fields.mapM fun field => match field with | .str name => some name | _ => none

structure SynthOutput where
  rows : List Dict
  backend : String
  startIndex : Int
  yielded : Bool

structure SynthRequest where
  spec : String
  fields : List Json
  model : Json
  maxTokens : Int

def synthRow (choice : Choice) (backend : Option Backend) (req : SynthRequest) (index : Int) :
    Option Dict :=
  match backend with
  | none => synthFallbackRow choice index req.spec req.fields
  | some model => do
      let names ← fieldNames req.fields
      let text := model.complete (synthPrompt index req.spec names) req.model req.maxTokens
      match model.parse text req.fields with
      | some row => some row
      -- an answer that is no record is replaced by the stub
      | none => synthFallbackRow choice index req.spec req.fields

def synthRows (row : Int → Option Dict) (shouldYield : Nat → Bool) :
    Nat → List Int → Option (List Dict × Bool)
  | _, [] => some ([], false)
  | polls, index :: rest =>
      if shouldYield polls then some ([], true)
      else do
        let first ← row index
        let later ← synthRows row shouldYield (polls + 1) rest
        return (first :: later.1, later.2)

/-- `_ai_synth` -/
def aiSynth (choice : Choice) (backend : Option Backend) (shouldYield : Nat → Bool)
    (input : Dict) : Option SynthOutput := do
  let nRows ← getInt input "n_rows" 0
  let spec := ((Json.lookup input "spec").map Json.pyStr).getD "a software employee record"
  let fields ← match Json.lookup input "fields" with
    | none => some [.str "name", .str "role", .str "team", .str "summary"]
    | some value => Json.pyList value
  let model := (Json.lookup input "model").getD (.str "")
  let startIndex ← getInt input "start_index" 0
  let maxTokens ← getInt input "max_tokens" 160
  let (rows, yielded) ← synthRows (synthRow choice backend ⟨spec, fields, model, maxTokens⟩)
    shouldYield 0 (range startIndex (startIndex + nRows))
  return ⟨rows, (backend.map (·.name)).getD "fallback", startIndex, yielded⟩

theorem synthRows_never {row : Int → Option Dict} {record : Int → Dict}
    (h : ∀ i, row i = some (record i)) (polls : Nat) (indices : List Int) :
    synthRows row (fun _ => false) polls indices = some (indices.map record, false) := by
  induction indices generalizing polls with
  | nil => rfl
  | cons i rest ih => simp [synthRows, h, ih]

/-- Fields that are texts always make a record. -/
theorem synthFallbackRow_strings (choice : Choice) (index : Int) (spec : String)
    (names : List String) :
    synthFallbackRow choice index spec (names.map .str) = some (names.foldl (fun record name =>
      Json.assign record name (.str (synthField choice index spec name))) []) := by
  unfold synthFallbackRow
  generalize ([] : Dict) = record
  induction names generalizing record with
  | nil => rfl
  | cons name names ih => exact ih _

end OneCompute.Jobkit
