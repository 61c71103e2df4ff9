import OneCompute.Lib.PyValue
import OneCompute.Worker.Agent
import OneCompute.Workloads.Partition

/-!
The builders of the launchable workloads as the launch endpoint calls them: the
parameter object becomes keyword arguments of any type, and what is built are the
plain specifications of jobs, before their validation.
-/

namespace OneCompute.Workloads
open PyNumber (binary64)
open PyValue (comparable elements index)
open PyException (typeError valueError memoryError)

def Raised.exception : Raised → PyException
  | .valueError message => PyException.valueError message
  | .overflowError message => PyException.overflowError message

/-! ## Arguments -/

/-- Passing `params` as keyword arguments next to those that are `given`. -/
def bindKeywords (function : String) (given names : List String) (params : Dict) :
    Except PyException Unit :=
  match params.find? fun p => given.contains p.1 with
  | some p => .error (typeError (function ++ "() got multiple values for keyword argument '" ++
      p.1 ++ "'"))
  | none =>
      match params.find? fun p => !names.contains p.1 with
      | some p => .error (typeError (function ++ "() got an unexpected keyword argument '" ++
          p.1 ++ "'"))
      | none => .ok ()

def argument (params : Dict) (name : String) (default : Json) : Json :=
  (Json.lookup params name).getD default

/-- `if value <= 0: raise ValueError(message)` -/
def positive (message : String) (value : Json) : Except PyException PyValue.Num := do
  let x ← comparable "<=" value
  if x.le (.int 0) then .error (valueError message) else return x

/-- `list(default if value is None else value)` -/
def elementsOr (default : List Json) : Json → Except PyException (List Json)
  | .null => .ok default
  | value => elements value

/-! ## Ranges -/

/-- `divmod(x, n)` of a float that is not negative and a positive int. -/
def divmod (n : Int) : PyFloat → PyFloat × PyFloat
  | .fin q =>
      let rest := q - n * (q / n).floor
      match binary64.div (binary64.sub (.fin q) (.fin rest)) (.fin n) with
      | .fin d => (.fin (if 1 / 2 < d - d.floor then d.floor + 1 else d.floor), .fin rest)
      | d => (d, .fin rest)
  | _ => (.nan, .nan)

/-- The ranges of the given sizes, from `start` on. -/
def floatSpans : PyValue.Num → List PyFloat → Except PyException (List (PyValue.Num × PyValue.Num))
  | _, [] => .ok []
  | start, size :: sizes => do
      let stop ← start.add (.float size)
      let rest ← floatSpans stop sizes
      return (start, stop) :: rest

def floatSizes (x : PyFloat) (n : Int) : List PyFloat :=
  (List.range n.toNat).map fun (i : Nat) =>
    binary64.add (divmod n x).1 (.fin (if PyFloat.lt (.fin i) (divmod n x).2 then 1 else 0))

def evenRangesOf (n : Int) : PyValue.Num → Except PyException (List (PyValue.Num × PyValue.Num))
  | .int total => ((evenRanges total n).mapError Raised.exception).map
      (List.map fun r => (.int r.1, .int r.2))
  | .float x =>
      if n ≤ 0 then .error (valueError "n must be positive")
      else if PyFloat.lt x (.fin 0) then .error (valueError "total must be non-negative")
      else floatSpans (.int 0) (floatSizes x n)

section Weighted
variable (sum : List PyFloat → PyFloat)

/-- A float total cannot be handed out: its leftover is no index. -/
def weightedRangesOf (weights : List PyFloat) :
    PyValue.Num → Except PyException (List (PyValue.Num × PyValue.Num))
  | .int total => ((weightedRanges binary64 sum total weights).mapError Raised.exception).map
      (List.map fun r => (.int r.1, .int r.2))
  | .float x =>
      if weights = [] then .error (valueError "weights must be non-empty")
      else if PyFloat.lt x (.fin 0) then .error (valueError "total must be non-negative")
      else if weights.any (·.lt (.fin 0)) then .error (valueError "weights must be non-negative")
      else if (sum weights).le (.fin 0) then
        .error (valueError "weights must sum to a positive value")
      else do
        let floors ← ((weights.map fun w => binary64.div (binary64.mul x w) (sum weights)).mapM
          truncate).mapError Raised.exception
        let _ ← PyValue.Num.sub (.float x) (.int floors.sum)
        .error (typeError
          "slice indices must be integers or None or have an __index__ method")

/-- The ranges of a builder, which takes one weight for each tile. -/
def rangesOf (nTiles : Int) (weights : Option (List PyFloat)) (total : PyValue.Num) :
    Except PyException (List (PyValue.Num × PyValue.Num)) :=
  match weights with
  | none => evenRangesOf nTiles total
  | some ws =>
      if (ws.length : Int) ≠ nTiles then .error (valueError "weights length must equal n_tiles")
      else weightedRangesOf sum ws total

end Weighted

/-! ## Specifications -/

/-- The specification of a job. -/
def spec (kind : String) (input : Dict) (units : Json) : Dict :=
  [("kind", .str kind), ("input", .obj input), ("units", units)]

/-- One specification for each range with something in it, in order. -/
def specsOf (ranges : List (PyValue.Num × PyValue.Num))
    (job : Nat → PyValue.Num → PyValue.Num → Except PyException Dict) :
    Except PyException (List Dict) :=
  (ranges.zipIdx.filter fun r => !(r.1.2.le r.1.1)).mapM fun r => job r.2 r.1.1 r.1.2

/-- `items[start:end]` -/
def slice (items : List Json) (start stop : PyValue.Num) : Except PyException (List Json) := do
  let i ← (index start).mapError fun _ => typeError
    "slice indices must be integers or None or have an __index__ method"
  let j ← (index stop).mapError fun _ => typeError
    "slice indices must be integers or None or have an __index__ method"
  return (items.take j.toNat).drop i.toNat

/-! ## Default data -/

def defaultPrompts : List String :=
  ["Summarize the OneCompute demo in one sentence.",
   "List two risks for idle compute harvesting.", "Draft a friendly worker opt-in message.",
   "Explain why measured throughput beats TOPS.", "Name one good batch workload for OneCompute.",
   "Write a short judge-facing value prop.", "Describe the instant-yield moment.",
   "Suggest a trust signal for worker results.", "Create a concise dashboard headline.",
   "Explain the ghost bar in plain English.", "Name a privacy-preserving safeguard.",
   "Close the pitch with an honest ceiling claim."]

/-- The text before and after the topic. -/
def inferTemplates : List (String × String) :=
  [("Explain ", " in two sentences for a new engineer."),
   ("List three real-world risks of ", "."), ("Write a one-line analogy for ", "."),
   ("Name one common misconception about ", "."), ("Give a concrete production example of ", "."),
   ("Summarize ", " as a single tweet.")]

def inferTopics : List String :=
  ["idle compute harvesting", "distributed scheduling", "model evaluation",
   "Monte-Carlo simulation", "proof-of-work", "vector search", "lease-based work queues",
   "synthetic data", "knowledge graphs", "sandbox isolation", "CPU utilization", "load balancing"]

/-- The questions, each with a strong and a weak answer. -/
def evalQuestions : List (String × String × String) :=
  [("What does a load balancer do?",
    "It spreads incoming requests across multiple servers so no single one is overwhelmed.",
    "It makes the internet faster."),
   ("Why use a write-ahead log?",
    "Changes are durably appended before being applied, so a crash can be recovered without data loss.",
    "To write logs ahead of time."),
   ("What is a race condition?",
    "A bug where the outcome depends on the unpredictable timing of concurrent operations on shared state.",
    "When two computers race."),
   ("What is idempotency?",
    "An operation is idempotent if applying it multiple times has the same effect as applying it once.",
    "Doing something once."),
   ("Why shard a database?",
    "To split data across nodes so capacity and throughput scale horizontally beyond one machine.",
    "To break the database."),
   ("What is a Merkle tree?",
    "A tree of hashes where each node hashes its children, enabling efficient tamper-evident verification.",
    "A kind of plant.")]

def evalItem (label question answer : String) : Json :=
  .obj [("question", .str question), ("answer", .str answer), ("label", .str label)]

def defaultEvalItems : List Json :=
  (evalQuestions.map fun qa => evalItem "strong-model" qa.1 qa.2.1) ++
    evalQuestions.map fun qa => evalItem "weak-model" qa.1 qa.2.2

def defaultDocs : List String :=
  ["Northwind Robotics acquired Beacon Vision to strengthen its perception stack.",
   "Beacon Vision was founded by Dana Okoro, who now leads Northwind Robotics research.",
   "Northwind Robotics builds the Atlas Picker, a warehouse arm used by Cedar Logistics.",
   "Cedar Logistics operates fulfillment centers in Reno, Memphis, and Dover.",
   "The Atlas Picker runs on the Helios controller, designed by the Northwind hardware team.",
   "Helios uses the Orion vision model trained by Dana Okoro's group.",
   "Cedar Logistics partnered with Northwind Robotics to automate the Memphis center.",
   "Orion was evaluated against the Pelican benchmark maintained by Beacon Vision.",
   "Pelican measures grasp success on the Cedar Logistics package dataset.",
   "Northwind Robotics reports to its parent company, Lumen Industrial.",
   "Lumen Industrial also owns Beacon Vision after the acquisition.",
   "Dana Okoro previously advised the Orion project at Lumen Industrial."]

/-! ## Builders -/

section Builders
variable (sum : List PyFloat → PyFloat) (nTiles : Int) (params : Dict)
  (weights : Option (List PyFloat))

/-- `if n_tiles <= 0: raise` -/
def requireTiles : Except PyException Unit :=
  if nTiles ≤ 0 then .error (valueError "n_tiles must be positive") else .ok ()

/-- The specifications of a total that is divided between the tiles. -/
def dividedSpecs (total : PyValue.Num)
    (job : Nat → PyValue.Num → PyValue.Num → Except PyException Dict) :
    Except PyException (List Dict) := do
  let ranges ← rangesOf sum nTiles weights total
  specsOf ranges job

def buildFractalSpecs : Except PyException (List Dict) := do
  bindKeywords "build_fractal_jobs" ["n_tiles", "weights"] ["width", "height", "max_iter"] params
  requireTiles nTiles
  let width := argument params "width" (.int 900)
  let maxIter := argument params "max_iter" (.int 120)
  let _ ← positive "width and height must be positive" width
  let height ← positive "width and height must be positive" (argument params "height" (.int 600))
  let _ ← positive "max_iter must be positive" maxIter
  dividedSpecs sum nTiles weights height fun _ start stop => do
    let units ← stop.sub start
    return spec "fractal" [("width", width), ("height", argument params "height" (.int 600)),
      ("row_start", start.toJson), ("row_end", stop.toJson), ("max_iter", maxIter),
      ("x_min", .float (.fin (-5 / 2))), ("x_max", .float (.fin 1)),
      ("y_min", .float (.fin (-5 / 4))), ("y_max", .float (.fin (5 / 4)))] units.toJson

def buildOptimizeSpecs : Except PyException (List Dict) := do
  bindKeywords "build_optimize_jobs" ["n_tiles", "weights"] ["n_candidates", "dims", "seed"] params
  requireTiles nTiles
  let nCandidates ← positive "n_candidates must be positive"
    (argument params "n_candidates" (.int 30000))
  let _ ← positive "dims must be positive" (argument params "dims" (.int 8))
  dividedSpecs sum nTiles weights nCandidates fun _ start stop => do
    let units ← stop.sub start
    return spec "optimize" [("idx_start", start.toJson), ("idx_end", stop.toJson),
      ("dims", argument params "dims" (.int 8)), ("seed", argument params "seed" (.int 0))]
      units.toJson

def synthFields : List Json := [.str "name", .str "role", .str "team", .str "summary"]

def buildSynthSpecs : Except PyException (List Dict) := do
  bindKeywords "build_synth_jobs" ["n_tiles", "weights"] ["total_rows", "fields", "model", "spec"]
    params
  requireTiles nTiles
  let totalRows ← positive "total_rows must be positive" (argument params "total_rows" (.int 300))
  let fields ← elementsOr synthFields (argument params "fields" .null)
  dividedSpecs sum nTiles weights totalRows fun _ start stop => do
    let rows ← stop.sub start
    return spec "ai.synth" [("n_rows", rows.toJson),
      ("spec", argument params "spec" (.str "a software employee record")), ("fields", .arr fields),
      ("model", argument params "model" (.str "")), ("start_index", start.toJson)] rows.toJson

def buildMontecarloSpecs : Except PyException (List Dict) := do
  bindKeywords "build_montecarlo_jobs" ["n_tiles", "weights"]
    ["total_paths", "horizon_days", "mu", "sigma", "hist_lo", "hist_hi", "hist_bins"] params
  requireTiles nTiles
  let totalPaths ← positive "total_paths must be positive"
    (argument params "total_paths" (.int 1000000))
  let horizonDays := argument params "horizon_days" (.int 252)
  let _ ← positive "horizon_days must be positive" horizonDays
  dividedSpecs sum nTiles weights totalPaths fun index start stop => do
    let paths ← stop.sub start
    return spec "montecarlo" [("n_paths", paths.toJson), ("horizon_days", horizonDays),
      ("mu", argument params "mu" (.float (binary64.ofRat (7 / 100)))),
      ("sigma", argument params "sigma" (.float (binary64.ofRat (20 / 100)))),
      ("seed", .int (index + 1)),
      ("hist_lo", argument params "hist_lo" (.float (.fin (-1)))),
      ("hist_hi", argument params "hist_hi" (.float (.fin 2))),
      ("hist_bins", argument params "hist_bins" (.int 120))] paths.toJson

def buildHashcrackSpecs : Except PyException (List Dict) := do
  bindKeywords "build_hashcrack_jobs" ["n_tiles", "weights"]
    ["keyspace", "target_prefix", "prefix", "nonce_start"] params
  requireTiles nTiles
  let keyspace ← positive "keyspace must be positive" (argument params "keyspace" (.int 24000000))
  let target := argument params "target_prefix" (.str "000000")
  if !Worker.truthy target then .error (valueError "target_prefix must be non-empty")
  else
    dividedSpecs sum nTiles weights keyspace fun _ start stop => do
      let nonceStart := argument params "nonce_start" (.int 0)
      let (first, low) ← PyValue.operands "+" nonceStart start.toJson
      let nonceLow ← first.add low
      let nonceHigh ← first.add stop
      let units ← stop.sub start
      return spec "hashcrack" [("prefix", argument params "prefix" (.str "onecompute")),
        ("target_prefix", target), ("nonce_start", nonceLow.toJson),
        ("nonce_end", nonceHigh.toJson)] units.toJson

/-- `topic or ...` in a template. -/
def inferPrompt (topic : Json) (i : Nat) : Json :=
  let template := inferTemplates.getD (i % inferTemplates.length) ("", "")
  let subject := if Worker.truthy topic then topic.pyStr
    else inferTopics.getD (i % inferTopics.length) ""
  .str (template.1 ++ subject ++ template.2)

/-- `while len(prompts) < n_prompts`, which never ends for the infinite float. -/
def promptCount : PyValue.Num → Except PyException Nat
  | .int n => .ok n.toNat
  | .float (.fin q) => .ok (-((-q).floor)).toNat
  | .float .nan => .ok 0
  | .float (.inf _) => .error memoryError

def buildInferSpecs : Except PyException (List Dict) := do
  bindKeywords "build_infer_jobs" ["n_tiles", "weights"]
    ["n_prompts", "topic", "model", "max_tokens"] params
  requireTiles nTiles
  let nPrompts ← positive "n_prompts must be positive" (argument params "n_prompts" (.int 120))
  let count ← promptCount nPrompts
  let prompts := (List.range count).map (inferPrompt (argument params "topic" .null))
  dividedSpecs sum nTiles weights nPrompts fun _ start stop => do
    let part ← slice prompts start stop
    let units ← stop.sub start
    return spec "ai.infer" [("prompts", .arr part), ("model", argument params "model" (.str "")),
      ("max_tokens", argument params "max_tokens" (.int 80))] units.toJson

/-- The items of a list are divided between the tiles. -/
def sharedSpecs (message : String) (items : List Json)
    (job : List Json → Dict) (kind : String) : Except PyException (List Dict) :=
  if items = [] then .error (valueError message)
  else
    dividedSpecs sum nTiles weights (.int items.length) fun _ start stop => do
      let part ← slice items start stop
      let units ← stop.sub start
      return spec kind (job part) units.toJson

def buildEvalSpecs : Except PyException (List Dict) := do
  bindKeywords "build_eval_jobs" ["n_tiles", "weights"] ["items", "rubric", "model"] params
  requireTiles nTiles
  let items ← elementsOr defaultEvalItems (argument params "items" .null)
  sharedSpecs sum nTiles weights "no items to evaluate" items (fun part =>
    [("items", .arr part),
      ("rubric", argument params "rubric" (.str "correctness, clarity, and completeness")),
      ("model", argument params "model" (.str ""))]) "ai.eval"

def buildGraphSpecs : Except PyException (List Dict) := do
  bindKeywords "build_graph_jobs" ["n_tiles", "weights"] ["docs", "model"] params
  requireTiles nTiles
  let corpus ← elementsOr (defaultDocs.map .str) (argument params "docs" .null)
  sharedSpecs sum nTiles weights "no documents to process" corpus (fun part =>
    [("docs", .arr part), ("model", argument params "model" (.str ""))]) "ai.graph"

/-- `range(0, stop, step)` -/
def steps (stop step : Nat) : List Nat := (List.range ((stop + step - 1) / step)).map (· * step)

/-- The prompts, sliced by `slice_size`; the number of tiles is not asked for. -/
def buildPromptSpecs : Except PyException (List Dict) := do
  bindKeywords "build_prompt_jobs" [] ["prompts", "slice_size", "model", "max_tokens"] params
  let sliceSize ← positive "slice_size must be positive" (argument params "slice_size" (.int 3))
  let maxTokens := argument params "max_tokens" (.int 48)
  let _ ← positive "max_tokens must be positive" maxTokens
  let prompts ← elementsOr (defaultPrompts.map .str) (argument params "prompts" .null)
  let size ← index sliceSize
  return (steps prompts.length size.toNat).map fun start =>
    let part := (prompts.drop start).take size.toNat
    spec "ai.batch_infer" [("prompts", .arr part), ("model", argument params "model" (.str "")),
      ("max_tokens", maxTokens)] (.int part.length)

/-- Every job gets as many items as the others. -/
def generateSpecs : Except PyException (List Dict) := do
  bindKeywords "generate_jobs" ["n_jobs"] ["items_per_job", "op"] params
  if nTiles < 0 then .error (valueError "n_jobs must be non-negative")
  else do
    let itemsPerJob := argument params "items_per_job" (.int 200)
    let count ← positive "items_per_job must be positive" itemsPerJob
    (List.range nTiles.toNat).mapM fun (i : Nat) => do
      let n ← index count
      let items := (Spans.range (i * n) (i * n + n)).map Json.int
      return spec "data.transform" [("items", .arr items), ("op", argument params "op" (.str "square"))]
        itemsPerJob

end Builders

def buildWorkloadSpecs (sum : List PyFloat → PyFloat) (kind : String) (nTiles : Int) (params : Dict)
    (weights : Option (List PyFloat)) : Except PyException (List Dict) :=
  if kind = "fractal" then buildFractalSpecs sum nTiles params weights
  else if kind = "optimize" then buildOptimizeSpecs sum nTiles params weights
  else if kind = "ai.synth" then buildSynthSpecs sum nTiles params weights
  else if kind = "ai.batch_infer" then buildPromptSpecs params
  else if kind = "data.transform" then generateSpecs nTiles params
  else if kind = "montecarlo" then buildMontecarloSpecs sum nTiles params weights
  else if kind = "hashcrack" then buildHashcrackSpecs sum nTiles params weights
  else if kind = "ai.infer" then buildInferSpecs sum nTiles params weights
  else if kind = "ai.eval" then buildEvalSpecs sum nTiles params weights
  else if kind = "ai.graph" then buildGraphSpecs sum nTiles params weights
  else .error (valueError ("unknown or non-launchable workload kind: " ++ PyText.repr kind))

/-! ## How many -/

section Count
variable {sum : List PyFloat → PyFloat} {nTiles : Int} {params : Dict}
  {weights : Option (List PyFloat)} {specs : List Dict}

theorem map_mapError_ok {α β : Type} {x : Except Raised α} {f : α → β} {b : β}
    (h : (x.mapError Raised.exception).map f = .ok b) : ∃ a, x = .ok a ∧ f a = b := by
  cases x with
  | error e => cases h
  | ok a => exact ⟨a, rfl, Except.ok.inj h⟩

theorem floatSpans_length {start : PyValue.Num} {sizes : List PyFloat}
    {ranges : List (PyValue.Num × PyValue.Num)}
    (h : floatSpans start sizes = .ok ranges) : ranges.length = sizes.length := by
  induction sizes generalizing start ranges with
  | nil =>
      cases h
      rfl
  | cons size sizes ih =>
      obtain ⟨stop, -, h⟩ := Results.bind_eq_ok.mp h
      obtain ⟨rest, hrest, h⟩ := Results.bind_eq_ok.mp h
      cases h
      rw [List.length_cons, List.length_cons, ih hrest]

theorem evenRangesOf_length {total : PyValue.Num} {ranges : List (PyValue.Num × PyValue.Num)}
    (h : evenRangesOf nTiles total = .ok ranges) : ranges.length = nTiles.toNat := by
  cases total with
  | int i =>
      obtain ⟨rs, hrs, rfl⟩ := map_mapError_ok h
      unfold evenRanges at hrs
      split at hrs
      · cases hrs
      split at hrs
      · cases hrs
      cases hrs
      rw [List.length_map, Spans.spans_length, evenSizes, List.length_map, List.length_range]
  | float x =>
      simp only [evenRangesOf] at h
      split at h
      · cases h
      split at h
      · cases h
      rw [floatSpans_length h, floatSizes, List.length_map, List.length_range]

theorem handOut_length (floors : List Int) (winners : List Nat) :
    (handOut floors winners).length = floors.length := by
  unfold handOut
  induction winners generalizing floors with
  | nil => rfl
  | cons i winners ih => rw [List.foldl_cons, ih, List.length_modify]

theorem weightedRangesOf_length {ws : List PyFloat} {total : PyValue.Num}
    {ranges : List (PyValue.Num × PyValue.Num)}
    (h : weightedRangesOf sum ws total = .ok ranges) : ranges.length = ws.length := by
  cases total with
  | int i =>
      obtain ⟨rs, hrs, rfl⟩ := map_mapError_ok h
      unfold weightedRanges at hrs
      repeat' split at hrs
      all_goals try cases hrs
      obtain ⟨sizes, hsizes, hrs⟩ := Results.bind_eq_ok.mp hrs
      cases hrs
      obtain ⟨ss, hss, hsizes⟩ := Results.bind_eq_ok.mp hsizes
      obtain ⟨fs, hfs, hsizes⟩ := Results.bind_eq_ok.mp hsizes
      cases hsizes
      rw [List.length_map, Spans.spans_length, handOut_length]
      exact floors_length (Results.bind_eq_ok.mpr ⟨ss, hss, hfs⟩)
  | float x =>
      simp only [weightedRangesOf] at h
      repeat' split at h
      all_goals try cases h
      obtain ⟨fs, -, h⟩ := Results.bind_eq_ok.mp h
      obtain ⟨left, -, h⟩ := Results.bind_eq_ok.mp h
      cases h

/-- A builder has one range for each tile. -/
theorem rangesOf_length {total : PyValue.Num} {ranges : List (PyValue.Num × PyValue.Num)}
    (h : rangesOf sum nTiles weights total = .ok ranges) : ranges.length = nTiles.toNat := by
  cases weights with
  | none => exact evenRangesOf_length h
  | some ws =>
      unfold rangesOf at h
      dsimp only at h
      split at h
      · cases h
      next hlength =>
        rw [weightedRangesOf_length h]
        omega

/-- Whatever is built has at most `n` specifications. -/
def AtMost (n : Nat) (built : Except PyException (List Dict)) : Prop :=
  ∀ specs, built = .ok specs → specs.length ≤ n

theorem atMost_error (n : Nat) (e : PyException) : AtMost n (.error e) := by
  rintro specs ⟨⟩

theorem atMost_bind {α : Type} {n : Nat} {x : Except PyException α}
    {f : α → Except PyException (List Dict)} (h : ∀ a, AtMost n (f a)) : AtMost n (x >>= f) := by
  intro specs hspecs
  obtain ⟨a, -, hf⟩ := Results.bind_eq_ok.mp hspecs
  exact h a specs hf

theorem dividedSpecs_atMost (total : PyValue.Num)
    (job : Nat → PyValue.Num → PyValue.Num → Except PyException Dict) :
    AtMost nTiles.toNat (dividedSpecs sum nTiles weights total job) := by
  intro specs h
  obtain ⟨ranges, hranges, h⟩ := Results.bind_eq_ok.mp h
  have hfilter := List.length_filter_le
    (fun r : (PyValue.Num × PyValue.Num) × Nat => !(r.1.2.le r.1.1))
    ranges.zipIdx
  rw [List.length_zipIdx, rangesOf_length hranges] at hfilter
  exact (Results.mapM_forall₂ h).length_eq ▸ hfilter

theorem sharedSpecs_atMost (message : String) (items : List Json) (job : List Json → Dict)
    (kind : String) :
    AtMost nTiles.toNat (sharedSpecs sum nTiles weights message items job kind) := by
  unfold sharedSpecs
  split
  · exact atMost_error _ _
  · exact dividedSpecs_atMost _ _

/-- One job is generated for each tile. -/
theorem generateSpecs_atMost : AtMost nTiles.toNat (generateSpecs nTiles params) := by
  refine atMost_bind fun _ => ?_
  split
  · exact atMost_error _ _
  · refine atMost_bind fun _ specs h => ?_
    rw [← (Results.mapM_forall₂ h).length_eq, List.length_range]

/-- No builder that is given the number of tiles builds more. -/
theorem buildWorkloadSpecs_atMost {kind : String} (hkind : kind ≠ "ai.batch_infer") :
    AtMost nTiles.toNat (buildWorkloadSpecs sum kind nTiles params weights) := by
  unfold buildWorkloadSpecs
  rw [if_neg hkind]
  split
  · exact atMost_bind fun _ => atMost_bind fun _ => atMost_bind fun _ => atMost_bind fun _ =>
      atMost_bind fun _ => dividedSpecs_atMost _ _
  split
  · exact atMost_bind fun _ => atMost_bind fun _ => atMost_bind fun _ => atMost_bind fun _ =>
      dividedSpecs_atMost _ _
  split
  · exact atMost_bind fun _ => atMost_bind fun _ => atMost_bind fun _ => atMost_bind fun _ =>
      dividedSpecs_atMost _ _
  split
  · exact generateSpecs_atMost
  split
  · exact atMost_bind fun _ => atMost_bind fun _ => atMost_bind fun _ => atMost_bind fun _ =>
      dividedSpecs_atMost _ _
  split
  · refine atMost_bind fun _ => atMost_bind fun _ => atMost_bind fun _ => ?_
    dsimp only
    split
    · exact atMost_error _ _
    · exact dividedSpecs_atMost _ _
  split
  · exact atMost_bind fun _ => atMost_bind fun _ => atMost_bind fun _ => atMost_bind fun _ =>
      dividedSpecs_atMost _ _
  split
  · exact atMost_bind fun _ => atMost_bind fun _ => atMost_bind fun _ => sharedSpecs_atMost _ _ _ _
  split
  · exact atMost_bind fun _ => atMost_bind fun _ => atMost_bind fun _ => sharedSpecs_atMost _ _ _ _
  · exact atMost_error _ _

/-- What the prompts of a launch are, and how many go into a slice. -/
structure Sliced (params : Dict) (prompts : List Json) (size : Nat) : Prop where
  items : elementsOr (defaultPrompts.map .str) (argument params "prompts" .null) = .ok prompts
  number : PyValue.Num.ofJson (argument params "slice_size" (.int 3)) = some (.int size)
  positive : 0 < size

theorem positive_ok {message : String} {value : Json} {x : PyValue.Num}
    (h : positive message value = .ok x) : PyValue.Num.ofJson value = some x ∧ x.le (.int 0) = false := by
  obtain ⟨y, hy, h⟩ := Results.bind_eq_ok.mp h
  unfold comparable at hy
  split at hy
  next hnum =>
    cases hy
    split at h
    · cases h
    next hpos =>
      cases h
      exact ⟨hnum, by simpa using hpos⟩
  next => cases hy

/-- Prompts are cut into slices, one job each, however many there are. -/
theorem buildPromptSpecs_length (h : buildPromptSpecs params = .ok specs) :
    ∃ prompts size, Sliced params prompts size ∧
      specs.length = (prompts.length + size - 1) / size := by
  obtain ⟨-, -, h⟩ := Results.bind_eq_ok.mp h
  obtain ⟨sliceSize, hsize, h⟩ := Results.bind_eq_ok.mp h
  obtain ⟨-, -, h⟩ := Results.bind_eq_ok.mp h
  obtain ⟨prompts, hprompts, h⟩ := Results.bind_eq_ok.mp h
  obtain ⟨size, hindex, h⟩ := Results.bind_eq_ok.mp h
  cases h
  cases sliceSize with
  | float x => cases hindex
  | int i =>
      cases hindex
      obtain ⟨hnum, hpos⟩ := positive_ok hsize
      have hlt : 0 < size := by simpa using hpos
      refine ⟨prompts, size.toNat, ⟨hprompts, ?_, by omega⟩, ?_⟩
      · rw [hnum, Int.toNat_of_nonneg hlt.le]
      · rw [List.length_map, steps, List.length_map, List.length_range]

end Count

end OneCompute.Workloads
