import OneCompute.Jobkit.Execute
import OneCompute.Lib.PyValue
import OneCompute.Worker.Agent

/-!
The summaries the dashboard reads: what is made of the outputs that were posted for
the tiles of a workload. Outputs are JSON objects of any shape. A reducer that
raises makes no summary; one that returns may have computed a value that no JSON
text stands for.
-/

namespace OneCompute.Workloads
open Jobkit (pyInt)
open PyNumber (binary64 float)
open Worker (truthy)

/-- A value of a summary: what JSON has, and the complex numbers it does not have. -/
inductive Out where
  | json (value : Json)
  | complex

abbrev Summary := List (String × Out)

/-- What the platform computes: the sum of numbers, `x ** 2` and the square root of
a number that is not negative. `none` is any exception. -/
structure Platform where
  sum : List PyValue.Num → Option PyValue.Num
  square : PyFloat → PyFloat
  root : Rat → PyFloat

/-- `d.get(key, default)` -/
def getOr (d : Dict) (key : String) (default : Json) : Json := (Json.lookup d key).getD default

/-- `float(value)`; `none` is any exception. -/
def floatOf (value : Json) : Option PyFloat := (float binary64 value).toOption

/-- `float(d[key])` -/
def floatAt (d : Dict) (key : String) : Option PyFloat := do floatOf (← Json.lookup d key)

/-- `x / n` of a float and an int. -/
def overInt (x : PyFloat) (n : Int) : Option PyFloat := do
  if n = 0 then none
  else
    let m ← (PyValue.Num.int n).toFloat.toOption
    return binary64.div x m

/-- `x * n` of a float and an int. -/
def timesInt (x : PyFloat) (n : Int) : Option PyFloat := do
  let m ← (PyValue.Num.int n).toFloat.toOption
  return binary64.mul x m

/-- `a / b` of ints, rounded once; of others as floats. -/
def trueDiv : PyValue.Num → PyValue.Num → Option PyFloat
  | .int i, .int j =>
      if j = 0 then none
      else
        match binary64.round (i / j) with
        | .fin q => some (.fin q)
        | _ => none
  | a, b => do
      let x ← a.toFloat.toOption
      let y ← b.toFloat.toOption
      if y = .fin 0 then none else return binary64.div x y

def fields (d : List (String × Json)) : Summary := d.map fun p => (p.1, .json p.2)

/-! ## Searches -/

def aggregateHashcrackOutputs (outputs : List Dict) : Option Summary := do
  let parts := outputs.filter fun r => !r.isEmpty
  let tried ← parts.mapM fun r => pyInt (getOr r "hashes_tried" (.int 0))
  let winner := parts.find? fun r => truthy (getOr r "found" .null)
  let target := parts.find? fun r => truthy (getOr r "target_prefix" .null)
  return fields [("found", .bool winner.isSome),
    ("target_prefix", target.elim .null (getOr · "target_prefix" .null)),
    ("nonce", winner.elim .null (getOr · "nonce" .null)),
    ("hash", winner.elim .null (getOr · "hash" .null)),
    ("hashes_tried", .int tried.sum), ("tiles", .int parts.length)]

/-- `a < b` of values that `int` takes; `none` is the `TypeError`. -/
def jsonLt (a b : Json) : Option Bool :=
  match PyValue.Num.ofJson a, PyValue.Num.ofJson b, a, b with
  | some x, some y, _, _ => some (x.lt y)
  | _, _, .str s, .str t => some (decide (s < t))
  | _, _, _, _ => none

/-- Whether a tile takes the place of the best one; a tie goes to the lower index. -/
def isBetter (tile best : Dict) (score bestScore : PyFloat) : Option Bool :=
  if PyFloat.lt bestScore score then some true
  else if score = bestScore ∧ score ≠ .nan then
    jsonLt (getOr tile "best_index" .null) (getOr best "best_index" .null)
  else some false

/-- The best tile so far and what has been evaluated. -/
def optimizeStep (acc : Option Dict × Int) (tile : Dict) : Option (Option Dict × Int) := do
  let evaluated ← pyInt (getOr tile "evaluated" (.int 0))
  let index ← pyInt (getOr tile "best_index" (.int (-1)))
  if index < 0 then return (acc.1, acc.2 + evaluated)
  else
    match acc.1 with
    | none => return (some tile, acc.2 + evaluated)
    | some best => do
        let score ← floatAt tile "best_score"
        let bestScore ← floatAt best "best_score"
        let better ← isBetter tile best score bestScore
        return (some (if better then tile else best), acc.2 + evaluated)

def aggregateOptimizeOutputs (outputs : List Dict) : Option Summary := do
  let (best, evaluated) ← outputs.foldlM optimizeStep (none, 0)
  match best with
  | none => return fields [("best_score", .float (.inf true)), ("best_params", .arr []),
      ("best_index", .int (-1)), ("evaluated", .int evaluated)]
  | some best => do
      let score ← floatAt best "best_score"
      let params ← (← Json.lookup best "best_params").pyList
      let index ← pyInt (← Json.lookup best "best_index")
      return fields [("best_score", .float score), ("best_params", .arr params),
        ("best_index", .int index), ("evaluated", .int evaluated)]

/-! ## Model calls -/

/-- `[x for out in outputs for x in read(out)]` -/
def gathered (read : Dict → Json) (outputs : List Dict) : Option (List Json) := do
  let lists ← outputs.mapM fun out => (read out).pyList
  return lists.flatten

/-- `value or []` -/
def orEmpty (value : Json) : Json := if truthy value then value else .arr []

/-- The summary of `ai.infer` and `ai.batch_infer`. -/
def inferSummary (outputs : List Dict) : Option Summary := do
  let results ← gathered (fun out => orEmpty (getOr out "results" .null)) outputs
  let first ← outputs.head?
  return fields [("count", .int results.length), ("backend", getOr first "backend" .null),
    ("results", .arr (results.take 200))]

/-- The rows of the tiles by their first index, and by their place where it is the
same. -/
def mergeSynthOutputs (outputs : List Dict) : Option (List Json) := do
  let keys ← outputs.mapM fun tile => pyInt (getOr tile "start_index" (.int 0))
  let ordered := (keys.zip outputs).zipIdx.insertionSort fun p q =>
    p.1.1 < q.1.1 ∨ p.1.1 = q.1.1 ∧ p.2 ≤ q.2
  gathered (fun tile => getOr tile "rows" (.arr [])) (ordered.map (·.1.2))

def synthSummary (outputs : List Dict) : Option Summary := do
  let rows ← mergeSynthOutputs outputs
  let first ← outputs.head?
  return fields [("count", .int rows.length), ("backend", getOr first "backend" .null),
    ("rows", .arr (rows.take 500))]

/-- `row.get` is there for objects only. -/
def asDict : Json → Option Dict
  | .obj d => some d
  | _ => none

/-- `groups.setdefault(label, []).append(score)` -/
def addScore (groups : List (String × List Int)) (label : String) (score : Int) :
    List (String × List Int) :=
  if groups.any (·.1 == label) then
    groups.map fun g => if g.1 == label then (g.1, g.2 ++ [score]) else g
  else groups ++ [(label, [score])]

/-- The label of a row, and its score between 0 and 10. -/
def gradedRow (row : Dict) : Option (String × Int) := do
  let score ← pyInt (getOr row "score" (.int 0))
  return ((getOr row "label" (.str "(unlabeled)")).pyStr, max 0 (min 10 score))

/-- The scores of the rows as they were posted. -/
def rawScores (rows : List Dict) : Option (List PyValue.Num) :=
  rows.mapM fun row => PyValue.Num.ofJson (getOr row "score" (.int 0))

def evalRows (outputs : List Dict) : Option (List Dict) := do
  let rows ← gathered (fun res => getOr res "results" (.arr []))
    (outputs.filter fun res => !res.isEmpty)
  rows.mapM asDict

def evalMean (F : Platform) (rows : List Dict) : Option PyFloat := do
  let scores ← rawScores rows
  let total ← F.sum scores
  trueDiv total (.int rows.length)

def leaderboard (groups : List (String × List Int)) : Option (List (String × PyFloat × Nat)) := do
  let entries ← groups.mapM fun g => do
    let mean ← trueDiv (.int g.2.sum) (.int g.2.length)
    return (g.1, mean, g.2.length)
  return entries.insertionSort fun p q => PyFloat.le p.2.1.neg q.2.1.neg

def aggregateEvalOutputs (F : Platform) (outputs : List Dict) : Option Summary := do
  let rows ← evalRows outputs
  if rows = [] then
    return fields [("n", .int 0), ("mean_score", .float (.fin 0)), ("leaderboard", .arr []),
      ("distribution", .arr (List.replicate 11 (.int 0)))]
  else
    let graded ← rows.mapM gradedRow
    let distribution := (List.range 11).map fun (i : Nat) =>
      Json.int (graded.countP fun g => g.2 = (i : Int))
    let board ← leaderboard (graded.foldl (fun groups g => addScore groups g.1 g.2) [])
    let mean ← evalMean F rows
    return fields [("n", .int rows.length), ("mean_score", .float mean),
      ("leaderboard", .arr (board.map fun entry => .obj [("label", .str entry.1),
        ("mean_score", .float entry.2.1), ("n", .int entry.2.2)])),
      ("distribution", .arr distribution)]

/-! ## Graphs -/

/-- The nodes, and the edges with their relation. -/
structure Graph where
  nodes : List String := []
  edges : List (String × String × String) := []

def Graph.addNode (g : Graph) (name : String) : Graph :=
  if name ≠ "" ∧ name ∉ g.nodes then { g with nodes := g.nodes ++ [name] } else g

def Graph.addEdge (g : Graph) (edge : Dict) : Graph :=
  let source := (getOr edge "source" (.str "")).pyStr
  let relation := (getOr edge "relation" (.str "")).pyStr
  let target := (getOr edge "target" (.str "")).pyStr
  if source ≠ "" ∧ target ≠ "" ∧ (source, relation, target) ∉ g.edges then
    (({ g with edges := g.edges ++ [(source, relation, target)] }).addNode source).addNode target
  else g

def Graph.addTile (g : Graph) (res : Dict) : Option Graph :=
  if res.isEmpty then some g
  else do
    let nodes ← (getOr res "nodes" (.arr [])).pyList
    let edges ← (← (getOr res "edges" (.arr [])).pyList).mapM asDict
    return edges.foldl Graph.addEdge (nodes.foldl (fun g node => g.addNode node.pyStr) g)

def aggregateGraphOutputs (outputs : List Dict) : Option Summary := do
  let g ← outputs.foldlM Graph.addTile {}
  return fields [("nodes", .arr (g.nodes.map .str)),
    ("edges", .arr (g.edges.map fun e => .obj [("source", .str e.1), ("relation", .str e.2.1),
      ("target", .str e.2.2)])),
    ("node_count", .int g.nodes.length), ("edge_count", .int g.edges.length)]

/-! ## Risk -/

/-- `[r for r in results if r and "hist" in r and r.get("paths")]` -/
def usableParts (outputs : List Dict) : List Dict :=
  outputs.filter fun r => (Json.lookup r "hist").isSome && truthy (getOr r "paths" .null)

/-- `x ** 2` of a float, which raises on overflow. -/
def squared (F : Platform) : PyFloat → Option PyFloat
  | .fin q =>
      match F.square (.fin q) with
      | .fin r => some (.fin r)
      | _ => none
  | .inf _ => some (.inf false)
  | .nan => some .nan

/-- `for i, value in enumerate(values): hist[i] += value` -/
def addHist : List PyValue.Num → List Json → Option (List PyValue.Num)
  | hist, [] => some hist
  | [], _ :: _ => none
  | count :: hist, value :: values => do
      let x ← PyValue.Num.ofJson value
      let total ← (count.add x).toOption
      let rest ← addHist hist values
      return total :: rest

/-- What a tile reports: its paths, its share of the mean and of the second moment,
its worst return and its counts. -/
structure Moments where
  n : Int
  share : PyFloat
  second : PyFloat
  worst : PyFloat
  values : List Json

def momentsOf (F : Platform) (part : Dict) : Option Moments := do
  let n ← pyInt (← Json.lookup part "paths")
  let mean ← floatAt part "mean_return"
  let stdev ← floatAt part "stdev"
  let share ← timesInt mean n
  let second ← timesInt (binary64.add (← squared F stdev) (← squared F mean)) n
  let worst ← floatAt part "worst_return"
  let values ← (← Json.lookup part "hist").pyList
  return ⟨n, share, second, worst, values⟩

/-- What is summed up over the tiles. -/
structure Pool where
  paths : Int := 0
  weightedMean : PyFloat := .fin 0
  weightedSq : PyFloat := .fin 0
  worst : PyFloat := .fin 0
  hist : List PyValue.Num

def Pool.add (F : Platform) (pool : Pool) (part : Dict) : Option Pool := do
  let m ← momentsOf F part
  let hist ← addHist pool.hist m.values
  return { paths := pool.paths + m.n
           weightedMean := binary64.add pool.weightedMean m.share
           weightedSq := binary64.add pool.weightedSq m.second
           worst := PyFloat.pyMin pool.worst m.worst
           hist := hist }

/-- The axis of the merged histogram. -/
structure Axis where
  lo : PyFloat
  hi : PyFloat
  nbins : Nat
  width : PyFloat

/-- `lo + (i + 0.5) * width` -/
def Axis.center (axis : Axis) (i : Nat) : PyFloat :=
  binary64.add axis.lo (binary64.mul (binary64.add (.fin i) (.fin (1 / 2))) axis.width)

def axisOf (part : Dict) : Option Axis := do
  let lo ← floatAt part "hist_lo"
  let hi ← floatAt part "hist_hi"
  let nbins := (← (← Json.lookup part "hist").pyList).length
  let width ← if nbins = 0 then some (.fin 1) else overInt (binary64.sub hi lo) nbins
  return ⟨lo, hi, nbins, width⟩

/-- The bin in which the count reaches `rank`, and the return it stands for. -/
def returnAt? (axis : Axis) (rank : PyFloat) :
    Nat → PyValue.Num → List PyValue.Num → Option (Int × PyFloat)
  | _, _, [] => some (axis.nbins - 1, axis.hi)
  | i, cum, count :: rest => do
      let cum ← (cum.add count).toOption
      if PyFloat.le rank cum.value then return (i, axis.center i)
      else returnAt? axis rank (i + 1) cum rest

/-- The value at risk for a level, and the mean loss beyond it. -/
def riskOf (F : Platform) (axis : Axis) (hist : List PyValue.Num) (paths : Int) (level : PyFloat) :
    Option (PyFloat × PyFloat) := do
  let tail ← timesInt (binary64.sub (.fin 1) level) paths
  let (idx, ret) ← returnAt? axis tail 0 (.int 0) hist
  let bins := hist.take (idx + 1).toNat
  let tailCount ← F.sum bins
  let terms ← bins.zipIdx.mapM fun p => do
    return PyValue.Num.float (binary64.mul (← p.1.toFloat.toOption) (axis.center p.2))
  let tailSum ← F.sum terms
  let mean ← if tailCount.value = .fin 0 then some ret else trueDiv tailSum tailCount
  return (ret.neg, mean.neg)

/-- The statistics of the merged tiles, before the root of the variance is taken. -/
structure Stats where
  paths : Int
  mean : PyFloat
  variance : PyFloat
  worst : PyFloat
  hist : List PyValue.Num
  lo : PyFloat
  hi : PyFloat
  risk95 : PyFloat × PyFloat
  risk99 : PyFloat × PyFloat

/-- `total / paths if paths else 0.0` -/
def perPath (total : PyFloat) (paths : Int) : Option PyFloat :=
  if paths = 0 then some (.fin 0) else overInt total paths

def poolStats (F : Platform) (first : Dict) (parts : List Dict) : Option Stats := do
  let axis ← axisOf first
  let pool ← parts.foldlM (Pool.add F) { hist := List.replicate axis.nbins (.int 0) }
  let mean ← perPath pool.weightedMean pool.paths
  let second ← perPath pool.weightedSq pool.paths
  let variance := if pool.paths = 0 then .fin 0 else binary64.sub second (binary64.mul mean mean)
  let risk95 ← riskOf F axis pool.hist pool.paths (binary64.ofRat (95 / 100))
  let risk99 ← riskOf F axis pool.hist pool.paths (binary64.ofRat (99 / 100))
  return ⟨pool.paths, mean, variance, pool.worst, pool.hist, axis.lo, axis.hi, risk95, risk99⟩

/-- `variance ** 0.5` -/
def halfPower (F : Platform) : PyFloat → Out
  | .fin q => if q < 0 then .complex else .json (.float (F.root q))
  | .inf _ => .json (.float (.inf false))
  | .nan => .json (.float .nan)

def Stats.summary (F : Platform) (s : Stats) : Summary :=
  [("paths", .json (.int s.paths)), ("mean_return", .json (.float s.mean)),
    ("stdev", halfPower F s.variance), ("worst_return", .json (.float s.worst)),
    ("hist", .json (.arr (s.hist.map PyValue.Num.toJson))), ("hist_lo", .json (.float s.lo)),
    ("hist_hi", .json (.float s.hi)), ("var_95", .json (.float s.risk95.1)),
    ("cvar_95", .json (.float s.risk95.2)), ("var_99", .json (.float s.risk99.1)),
    ("cvar_99", .json (.float s.risk99.2))]

def aggregateMontecarloOutputs (F : Platform) (outputs : List Dict) : Option Summary :=
  match usableParts outputs with
  | [] => some (fields [("paths", .int 0)])
  | first :: rest => (poolStats F first (first :: rest)).map (Stats.summary F)

/-- No output, an exception and the other kinds make no summary. -/
def aggregateWorkload (F : Platform) (kind : String) (outputs : List Dict) : Option Summary :=
  if outputs = [] then none
  else if kind = "montecarlo" then aggregateMontecarloOutputs F outputs
  else if kind = "hashcrack" then aggregateHashcrackOutputs outputs
  else if kind = "optimize" then aggregateOptimizeOutputs outputs
  else if kind = "ai.eval" then aggregateEvalOutputs F outputs
  else if kind = "ai.graph" then aggregateGraphOutputs outputs
  else if kind = "ai.infer" ∨ kind = "ai.batch_infer" then inferSummary outputs
  else if kind = "ai.synth" then synthSummary outputs
  else none

end OneCompute.Workloads
