import OneCompute.Jobkit.HashSearch

/-!
The Monte-Carlo simulation of a portfolio: one tile simulates its paths in many small
chunks and merges their moments and histograms.
-/

namespace OneCompute.Jobkit
open PyNumber (binary64)
open Workloads (evenSizes truncate)

/-- What Python's random generator and its mathematics decide: `gauss s k` is the k-th
draw of the generator seeded with `s`, `exp` may raise, and `sum` adds up floats. -/
structure Simulator where
  gauss : Int → Nat → PyFloat
  exp : PyFloat → Except String PyFloat
  sqrt : PyFloat → PyFloat
  sum : List PyFloat → PyFloat

structure McTask where
  seed : Int
  nPaths : Int
  steps : Int
  mu : PyFloat
  sigma : PyFloat
  lo : PyFloat
  hi : PyFloat
  nbins : Int
  deriving DecidableEq

structure McPart where
  count : Int
  total : PyFloat
  totalSq : PyFloat
  worst : PyFloat
  hist : List Int
  deriving DecidableEq

/-- An integer where a float is needed. -/
def intFloat (i : Int) : Except String PyFloat :=
  match binary64.round i with
  | .fin q => .ok (.fin q)
  | _ => .error "int too large to convert to float"

/-- `x / n if n else 1.0` -/
def dividedBy (x : PyFloat) (n : Int) : Except String PyFloat :=
  if n = 0 then .ok (.fin 1) else (intFloat n).map (binary64.div x)

/-- `int(x)` -/
def intOf (x : PyFloat) : Except String Int :=
  match truncate x with
  | .ok i => .ok i
  | .error (.valueError message) => .error message
  | .error (.overflowError message) => .error message

def IndexSized (n : Int) : Prop := -2 ^ 63 ≤ n ∧ n < 2 ^ 63

instance (n : Int) : Decidable (IndexSized n) := inferInstanceAs (Decidable (_ ∧ _))

/-- `[0] * n` -/
def zeros (n : Int) : Except String (List Int) :=
  if IndexSized n then .ok (List.replicate n.toNat 0)
  else .error "cannot fit 'int' into an index-sized integer"

/-- `hist[i] += 1` -/
def bump (hist : List Int) (i : Int) : Except String (List Int) :=
  let index := if i < 0 then i + hist.length else i
  if 0 ≤ index ∧ index < hist.length then .ok (hist.modify index.toNat (· + 1))
  else .error "list index out of range"

/-- The bin of the histogram a return falls into, before it is clamped. -/
def bucketOf (task : McTask) (width ret : PyFloat) : Except String Int :=
  if width.truthy then intOf (binary64.div (binary64.sub ret task.lo) width) else .ok 0

namespace Simulator
variable (S : Simulator)

/-- The draws of one path are those from `first` on. -/
def logReturn (task : McTask) (drift vol : PyFloat) (first : Nat) : PyFloat :=
  (List.range task.steps.toNat).foldl (fun logRet step =>
    binary64.add logRet (binary64.add drift (binary64.mul vol (S.gauss task.seed (first + step)))))
    (.fin 0)

def mcPath (task : McTask) (drift vol width : PyFloat) (part : McPart) (path : Nat) :
    Except String McPart := do
  let grown ← S.exp (S.logReturn task drift vol (path * task.steps.toNat))
  let ret := binary64.sub grown (.fin 1)
  let bucket ← bucketOf task width ret
  let hist ← bump part.hist (min (task.nbins - 1) (max 0 bucket))
  return { part with
    total := binary64.add part.total ret
    totalSq := binary64.add part.totalSq (binary64.mul ret ret)
    worst := if ret.lt part.worst then ret else part.worst
    hist := hist }

/-- `_mc_chunk` -/
def mcChunk (task : McTask) : Except String McPart := do
  let dt ← dividedBy (.fin 1) task.steps
  let variance := binary64.mul (binary64.mul (.fin (1 / 2)) task.sigma) task.sigma
  let drift := binary64.mul (binary64.sub task.mu variance) dt
  let vol := binary64.mul task.sigma (S.sqrt dt)
  let width ← dividedBy (binary64.sub task.hi task.lo) task.nbins
  let hist ← zeros task.nbins
  (List.range task.nPaths.toNat).foldlM (S.mcPath task drift vol width)
    ⟨task.nPaths, .fin 0, .fin 0, .fin 0, hist⟩

end Simulator

/-- What a tile simulates. -/
structure McInput where
  nPaths : Int
  steps : Int
  mu : PyFloat
  sigma : PyFloat
  seed : Int
  lo : PyFloat
  hi : PyFloat
  nbins : Int

def montecarloInput (input : Dict) : Option McInput := do
  let nPaths ← getInt input "n_paths" 200000
  let steps ← getInt input "horizon_days" 252
  let mu ← getFloat input "mu" (binary64.round (7 / 100))
  let sigma ← getFloat input "sigma" (binary64.round (1 / 5))
  let seed ← getInt input "seed" 0
  let lo ← getFloat input "hist_lo" (.fin (-1))
  let hi ← getFloat input "hist_hi" (.fin 2)
  let nbins ← getInt input "hist_bins" 120
  return ⟨nPaths, max 1 steps, mu, sigma, seed, lo, hi, nbins⟩

/-- Many small chunks of paths, each with a seed of its own; none is empty. -/
def montecarloTasks (cores : Nat) (job : McInput) : List McTask :=
  let nChunks := max (cores : Int) (min 2048 ((job.nPaths + 1999) / 2000))
  ((evenSizes job.nPaths nChunks).zipIdx.filter fun chunk => 0 < chunk.1).map fun chunk =>
    ⟨job.seed * 1000003 + chunk.2, chunk.1, job.steps, job.mu, job.sigma, job.lo, job.hi, job.nbins⟩

structure McOutput where
  paths : Int
  meanReturn : PyFloat
  stdev : PyFloat
  worstReturn : PyFloat
  hist : List Int
  histLo : PyFloat
  histHi : PyFloat
  horizonDays : Int
  yielded : Bool
  deriving DecidableEq

namespace Simulator
variable (S : Simulator)

/-- The histograms of all parts have the same length. -/
def montecarloOutput (job : McInput) (parts : List McPart) (yielded : Bool) :
    Except String McOutput := do
  let count := (parts.map (·.count)).sum
  let total := S.sum (parts.map (·.total))
  let totalSq := S.sum (parts.map (·.totalSq))
  let worst := match parts.map (·.worst) with
    | [] => .fin 0
    | x :: xs => xs.foldl PyFloat.pyMin x
  let zero ← zeros job.nbins
  let hist := parts.foldl (fun hist part => List.zipWith (· + ·) hist part.hist) zero
  let paths ← intFloat count
  let mean := if count = 0 then .fin 0 else binary64.div total paths
  let variance := if count = 0 then .fin 0
    else binary64.sub (binary64.div totalSq paths) (binary64.mul mean mean)
  return ⟨count, mean, S.sqrt (PyFloat.pyMax (.fin 0) variance), worst, hist, job.lo, job.hi,
    job.steps, yielded⟩

/-- `_montecarlo`; `none` is any exception. -/
def montecarlo (host : Host) (shouldYield : Nat → Bool) (input : Dict) : Option McOutput := do
  let job ← montecarloInput input
  let (parts, yielded) ←
    (parallelMap host S.mcChunk (montecarloTasks host.cores job) shouldYield).toOption
  (S.montecarloOutput job parts yielded).toOption

/-! ## Paths -/

variable {S}

theorem mcPath_count {task : McTask} {drift vol width : PyFloat} {part later : McPart} {path : Nat}
    (h : S.mcPath task drift vol width part path = .ok later) : later.count = part.count := by
  unfold mcPath at h
  obtain ⟨_, -, h⟩ := Results.bind_eq_ok.mp h
  obtain ⟨_, -, h⟩ := Results.bind_eq_ok.mp h
  obtain ⟨_, -, h⟩ := Results.bind_eq_ok.mp h
  cases h
  rfl

theorem mcPaths_count {task : McTask} {drift vol width : PyFloat} {part later : McPart}
    {paths : List Nat} (h : paths.foldlM (S.mcPath task drift vol width) part = .ok later) :
    later.count = part.count := by
  induction paths generalizing part with
  | nil =>
      cases h
      rfl
  | cons path paths ih =>
      rw [List.foldlM_cons] at h
      obtain ⟨next, hnext, h⟩ := Results.bind_eq_ok.mp h
      rw [ih h, mcPath_count hnext]

/-- A chunk that does not raise has simulated all its paths. -/
theorem mcChunk_count {task : McTask} {part : McPart} (h : S.mcChunk task = .ok part) :
    part.count = task.nPaths := by
  unfold mcChunk at h
  obtain ⟨_, -, h⟩ := Results.bind_eq_ok.mp h
  obtain ⟨_, -, h⟩ := Results.bind_eq_ok.mp h
  obtain ⟨_, -, h⟩ := Results.bind_eq_ok.mp h
  exact mcPaths_count h

theorem montecarloTasks_pos {cores : Nat} {job : McInput} {task : McTask}
    (h : task ∈ montecarloTasks cores job) : 0 < task.nPaths := by
  obtain ⟨chunk, hchunk, rfl⟩ := List.mem_map.mp h
  simpa using (List.mem_filter.mp hchunk).2

theorem sum_positive {sizes : List Int} (h : ∀ s ∈ sizes, 0 ≤ s) (k : Nat) :
    (((sizes.zipIdx k).filter fun chunk => 0 < chunk.1).map (·.1)).sum = sizes.sum := by
  induction sizes generalizing k with
  | nil => rfl
  | cons size sizes ih =>
      have hrest := ih (fun s hs => h s (List.mem_cons_of_mem _ hs)) (k + 1)
      rw [List.zipIdx_cons, List.sum_cons]
      by_cases hpos : 0 < size
      · rw [List.filter_cons_of_pos (by simpa using hpos), List.map_cons, List.sum_cons, hrest]
      · have hsize := h size List.mem_cons_self
        rw [List.filter_cons_of_neg (by simpa using hpos), hrest]
        omega

theorem montecarloTasks_sum (cores : Nat) (job : McInput) :
    ((montecarloTasks cores job).map (·.nPaths)).sum = max 0 job.nPaths := by
  unfold montecarloTasks
  rw [List.map_map]
  by_cases hpos : 0 < job.nPaths
  · have hchunks : 0 < max (cores : Int) (min 2048 ((job.nPaths + 1999) / 2000)) := by
      omega
    rw [max_eq_right hpos.le]
    exact (sum_positive (Workloads.evenSizes_nonneg hchunks hpos.le) 0).trans
      (Workloads.evenSizes_sum hchunks)
  · have hzero : max 0 job.nPaths = 0 := by omega
    have hnone : ((evenSizes job.nPaths (max (cores : Int)
        (min 2048 ((job.nPaths + 1999) / 2000)))).zipIdx.filter fun chunk => 0 < chunk.1) = [] := by
      rw [List.filter_eq_nil_iff]
      rintro ⟨size, i⟩ hmem
      have hsize := Workloads.evenSizes_nonpos (by omega) size (List.fst_mem_of_mem_zipIdx hmem)
      simpa using hsize
    rw [hnone, hzero]
    rfl

/-! ## Missing chunks -/

variable (S) in
/-- The output was made from one result of every chunk. -/
def AllChunks (host : Host) (job : McInput) (out : McOutput) : Prop :=
  ∃ parts, EveryResult S.mcChunk (montecarloTasks host.cores job) parts ∧
    S.montecarloOutput job parts false = .ok out

variable (S) in
/-- The paths of the chunks that do not raise. -/
def survivingPaths (tasks : List McTask) : Int :=
  ((tasks.filter fun task => (S.mcChunk task).toOption.isSome).map (·.nPaths)).sum

variable (S) in
/-- Merging the chunks that do not raise does not raise either. -/
def Merges (host : Host) (job : McInput) : Prop :=
  IndexSized job.nbins ∧
    ∃ paths, intFloat (S.survivingPaths (montecarloTasks host.cores job)) = .ok paths

theorem montecarloOutput_ok {job : McInput} {parts : List McPart} {yielded : Bool}
    {out : McOutput} (h : S.montecarloOutput job parts yielded = .ok out) :
    IndexSized job.nbins ∧ (∃ paths, intFloat (parts.map (·.count)).sum = .ok paths) ∧
      out.paths = (parts.map (·.count)).sum := by
  unfold montecarloOutput at h
  obtain ⟨_, hzero, h⟩ := Results.bind_eq_ok.mp h
  obtain ⟨paths, hpaths, h⟩ := Results.bind_eq_ok.mp h
  cases h
  refine ⟨?_, ⟨paths, hpaths⟩, rfl⟩
  unfold zeros at hzero
  split at hzero
  · assumption
  · cases hzero

theorem montecarloOutput_exists {job : McInput} {parts : List McPart} (yielded : Bool)
    (hnbins : IndexSized job.nbins)
    (hpaths : ∃ paths, intFloat (parts.map (·.count)).sum = .ok paths) :
    ∃ out, S.montecarloOutput job parts yielded = .ok out := by
  obtain ⟨paths, hpaths⟩ := hpaths
  unfold montecarloOutput zeros
  rw [if_pos hnbins]
  dsimp only [bind, Except.bind]
  rw [hpaths]
  exact ⟨_, rfl⟩

theorem count_surviving {tasks : List McTask} {parts : List McPart}
    (h : parts.Perm (tasks.filterMap fun task => (S.mcChunk task).toOption)) :
    (parts.map (·.count)).sum = S.survivingPaths tasks := by
  rw [(h.map _).sum_eq]
  unfold survivingPaths
  clear h
  induction tasks with
  | nil => rfl
  | cons task tasks ih =>
      cases hpart : S.mcChunk task with
      | error e =>
          have hnone : (S.mcChunk task).toOption = none := by
            rw [hpart]
            rfl
          rw [List.filterMap_cons, hnone, List.filter_cons_of_neg (by simp [hnone])]
          exact ih
      | ok part =>
          have hsome : (S.mcChunk task).toOption = some part := by
            rw [hpart]
            rfl
          rw [List.filterMap_cons, hsome, List.filter_cons_of_pos (by simp [hsome])]
          exact congrArg₂ (· + ·) (mcChunk_count hpart) ih

/-- What the chunks of a simulation are merged from. -/
theorem montecarlo_parts {host : Host} {input : Dict} {job : McInput}
    (hjob : montecarloInput input = some job) {out : McOutput}
    (h : S.montecarlo host never input = some out) :
    ∃ parts yielded, parallelMap host S.mcChunk (montecarloTasks host.cores job) never =
      .ok (parts, yielded) ∧ S.montecarloOutput job parts yielded = .ok out := by
  unfold montecarlo at h
  obtain ⟨job', hjob', h⟩ := Option.bind_eq_some_iff.mp h
  rw [hjob] at hjob'
  cases hjob'
  obtain ⟨⟨parts, yielded⟩, hparts, hout⟩ := Option.bind_eq_some_iff.mp h
  exact ⟨parts, yielded, Results.toOption_eq_some.mp hparts, Results.toOption_eq_some.mp hout⟩

/-- A simulation leaves out no chunk exactly when it does not use the pool, no chunk
raises, or what is left cannot be merged. -/
theorem montecarlo_complete_iff {host : Host} {input : Dict} {job : McInput}
    (hjob : montecarloInput input = some job)
    (hhost : host.Completes (montecarloTasks host.cores job).length) :
    (∀ out, S.montecarlo host never input = some out → S.AllChunks host job out) ↔
      host.pooled (montecarloTasks host.cores job) = false ∨
      (∀ task ∈ montecarloTasks host.cores job, ∃ part, S.mcChunk task = .ok part) ∨
      ¬ S.Merges host job := by
  constructor
  · intro hall
    by_contra hcond
    push Not at hcond
    obtain ⟨hpooled, ⟨task, htask, hraises⟩, hnbins, hpaths⟩ := hcond
    obtain ⟨parts, hpool, hperm⟩ := runPool_perm S.mcChunk hhost
    rw [← count_surviving hperm] at hpaths
    obtain ⟨out, hout⟩ := montecarloOutput_exists (S := S) false hnbins hpaths
    have hmap : parallelMap host S.mcChunk (montecarloTasks host.cores job) never =
        .ok (parts, false) := by
      unfold parallelMap
      rw [if_pos (by simpa using hpooled), hpool]
    have hrun : S.montecarlo host never input = some out := by
      unfold montecarlo
      rw [hjob]
      dsimp only [bind, Option.bind]
      rw [hmap]
      dsimp only [Except.toOption]
      rw [hout]
    obtain ⟨_, ⟨inOrder, hmapM, -⟩, -⟩ := hall out hrun
    obtain ⟨part, hpart⟩ := mapM_ok_iff.mp ⟨inOrder, hmapM⟩ task htask
    exact hraises part hpart
  · intro hcond out hout
    obtain ⟨parts, yielded, hmap, hmerge⟩ := montecarlo_parts hjob hout
    have hyielded := parallelMap_yielded hhost hmap
    subst hyielded
    refine ⟨parts, ?_, hmerge⟩
    by_cases hsafe : host.pooled (montecarloTasks host.cores job) = false ∨
        ∀ task ∈ montecarloTasks host.cores job, ∃ part, S.mcChunk task = .ok part
    · exact (parallelMap_complete_iff S.mcChunk hhost).mpr hsafe parts false hmap
    · obtain ⟨hpooled, -⟩ := not_or.mp hsafe
      have hlost : ¬ S.Merges host job := by
        rcases hcond with hp | hok | hlost
        · exact absurd (.inl hp) hsafe
        · exact absurd (.inr hok) hsafe
        · exact hlost
      obtain ⟨results, hpool, hperm⟩ := runPool_perm S.mcChunk hhost
      unfold parallelMap at hmap
      rw [if_pos (by simpa using hpooled), hpool] at hmap
      cases hmap
      obtain ⟨hnbins, hpaths, -⟩ := montecarloOutput_ok hmerge
      rw [count_surviving hperm] at hpaths
      exact absurd ⟨hnbins, hpaths⟩ hlost

end Simulator

/-! ## Both paths -/

/-- The pool agrees with the loop exactly when no task raises, and an executor leaves
out no chunk exactly when it does not use the pool, no chunk raises, or it raises itself. -/
theorem parallel_paths_iff (S : Simulator) (digest : String → Int → Except String String) :
    (∀ (τ ρ ε : Type) (fn : τ → Except ε ρ) (tasks : List τ) (host : Host),
      host.Completes tasks.length →
        (Agree fn tasks (.ok (runPool fn tasks never 0 host.rounds (List.range tasks.length)))
            (runInProcess fn never 0 tasks) ↔
          ∀ task ∈ tasks, ∃ result, fn task = .ok result)) ∧
    (∀ (host : Host) (input : Dict) (job : McInput), montecarloInput input = some job →
      host.Completes (montecarloTasks host.cores job).length →
        ((∀ out, S.montecarlo host never input = some out → S.AllChunks host job out) ↔
          host.pooled (montecarloTasks host.cores job) = false ∨
          (∀ task ∈ montecarloTasks host.cores job, ∃ part, S.mcChunk task = .ok part) ∨
          ¬ S.Merges host job)) ∧
    ∀ (host : Host) (input : Dict) (job : HashInput), hashInput input = some job →
      host.Completes (hashTasks host.cores job.pre job.target job.start job.stop).length →
        ((∀ out, hashcrack digest host never input = some out → ∃ parts,
            EveryResult (hashChunk digest)
              (hashTasks host.cores job.pre job.target job.start job.stop) parts ∧
            out = hashOutput job.pre job.target job.start job.stop parts false) ↔
          host.pooled (hashTasks host.cores job.pre job.target job.start job.stop) = false ∨
          ∀ task ∈ hashTasks host.cores job.pre job.target job.start job.stop,
            ∃ part, hashChunk digest task = .ok part) := by
  refine ⟨?_, ?_, ?_⟩
  · intro τ ρ ε fn tasks host hhost
    exact pool_agrees_iff fn hhost
  · intro host input job hjob hhost
    exact Simulator.montecarlo_complete_iff hjob hhost
  · intro host input job hjob hhost
    exact hashcrack_complete_iff hjob hhost

/-- Two cores, and a pool that returns both futures at once. -/
def twoCores : Host := ⟨2, true, [[0, 1]]⟩

/-- The mathematics of a portfolio without drift and volatility. -/
def flat : Simulator := ⟨fun _ _ => .fin 0, fun _ => .ok (.fin 1), id, binary64.sum⟩

def flatInput (bins : Int) : Dict :=
  [("n_paths", .int 2), ("horizon_days", .int 1), ("mu", .int 0), ("sigma", .int 0),
    ("hist_bins", .int bins)]

def flatJob (bins : Int) : McInput := ⟨2, 1, .fin 0, .fin 0, 0, .fin (-1), .fin 2, bins⟩

theorem flat_chunks :
    ∀ task ∈ montecarloTasks 2 (flatJob 4), ∃ part, flat.mcChunk task = .ok part := by
  have hall : ∀ task ∈ montecarloTasks 2 (flatJob 4), (flat.mcChunk task).toOption.isSome = true := by
    decide +kernel
  intro task htask
  obtain ⟨part, hpart⟩ := Option.isSome_iff_exists.mp (hall task htask)
  exact ⟨part, Results.toOption_eq_some.mp hpart⟩

theorem parallel_paths_two :
    Agree flat.mcChunk (montecarloTasks 2 (flatJob 4))
      (.ok (runPool flat.mcChunk (montecarloTasks 2 (flatJob 4)) never 0 [[0, 1]] (List.range 2)))
      (runInProcess flat.mcChunk never 0 (montecarloTasks 2 (flatJob 4))) ∧
    ∀ out, flat.montecarlo twoCores never (flatInput 4) = some out →
      flat.AllChunks twoCores (flatJob 4) out := by
  have hboth := parallel_paths_iff flat fun _ _ => .ok ""
  exact ⟨(hboth.1 _ _ _ flat.mcChunk (montecarloTasks 2 (flatJob 4)) twoCores
      (List.Perm.refl _)).mpr flat_chunks,
    (hboth.2.1 twoCores (flatInput 4) (flatJob 4) rfl (List.Perm.refl _)).mpr
      (.inr (.inl flat_chunks))⟩

/-- Without bins every chunk raises: the loop raises, and the pool reports no paths. -/
theorem noBins_silent :
    (∃ out, flat.montecarlo twoCores never (flatInput 0) = some out ∧ out.paths = 0 ∧
      ¬ flat.AllChunks twoCores (flatJob 0) out) ∧
    flat.montecarlo ⟨2, false, []⟩ never (flatInput 0) = none ∧
    ¬ Agree flat.mcChunk (montecarloTasks 2 (flatJob 0))
      (.ok (runPool flat.mcChunk (montecarloTasks 2 (flatJob 0)) never 0 [[0, 1]] (List.range 2)))
      (runInProcess flat.mcChunk never 0 (montecarloTasks 2 (flatJob 0))) := by
  have hraises : ¬ ∀ task ∈ montecarloTasks 2 (flatJob 0), ∃ part, flat.mcChunk task = .ok part := by
    intro hall
    obtain ⟨parts, hparts⟩ := mapM_ok_iff.mpr hall
    have herror : (montecarloTasks 2 (flatJob 0)).mapM flat.mcChunk =
        .error "list index out of range" := by
      decide +kernel
    rw [herror] at hparts
    cases hparts
  refine ⟨⟨⟨0, .fin 0, .fin 0, .fin 0, [], .fin (-1), .fin 2, 1, false⟩, ?_, rfl, ?_⟩, ?_, ?_⟩
  · decide +kernel
  · rintro ⟨parts, ⟨inOrder, hall, -⟩, -⟩
    exact hraises (mapM_ok_iff.mp ⟨inOrder, hall⟩)
  · decide +kernel
  · have hhost : twoCores.Completes (montecarloTasks 2 (flatJob 0)).length := List.Perm.refl _
    intro hagree
    exact hraises ((pool_agrees_iff flat.mcChunk hhost).mp hagree)

end OneCompute.Jobkit
