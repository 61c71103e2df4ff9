import OneCompute.Workloads.Hashcrack
import OneCompute.Workloads.Optimize
import OneCompute.Workloads.Specs

/-!
The builders on arguments of the declared types, given or by default: what they specify
are the jobs of the typed builders.
-/

namespace OneCompute.Workloads
open PyNumber (binary64)
open Spans (nonempty)

/-- The specification a job is validated from. -/
def specOf (job : SubmitRequest) : Dict := spec job.kind.text job.input (.int job.units)

/-- The specifications of the jobs of a typed builder. -/
def specified (jobs : Except Raised (List SubmitRequest)) : Except PyException (List Dict) :=
  (jobs.mapError Raised.exception).map (List.map specOf)

section Divided
variable {sum : List PyFloat → PyFloat} {nTiles : Int} {weights : Option (List PyFloat)}

theorem rangesOf_int (total : Int) : rangesOf sum nTiles weights (.int total) =
    ((split binary64 sum total nTiles weights).mapError Raised.exception).map
      (List.map fun r => (.int r.1, .int r.2)) := by
  cases weights with
  | none => rfl
  | some ws =>
      unfold rangesOf split
      dsimp only
      split <;> rfl

/-- An int total is divided into the jobs of its ranges. -/
theorem dividedSpecs_int {total : Int}
    {job : Nat → PyValue.Num → PyValue.Num → Except PyException Dict}
    (typed : (Int × Int) × Nat → SubmitRequest)
    (h : ∀ i a b, job i (.int a) (.int b) = .ok (specOf (typed ((a, b), i)))) :
    dividedSpecs sum nTiles weights (.int total) job =
      specified (do
        let ranges ← split binary64 sum total nTiles weights
        return (ranges.zipIdx.filter fun r => r.1.1 < r.1.2).map typed) := by
  unfold dividedSpecs specified
  rw [rangesOf_int]
  cases split binary64 sum total nTiles weights with
  | error e => rfl
  | ok ranges =>
      change specsOf (ranges.map fun r => (PyValue.Num.int r.1, PyValue.Num.int r.2)) job = .ok _
      unfold specsOf
      rw [List.zipIdx_map, List.filter_map, List.map_map]
      have hfilter : (fun r : (PyValue.Num × PyValue.Num) × Nat => !(r.1.2.le r.1.1)) ∘
          Prod.map (fun r : Int × Int => (PyValue.Num.int r.1, PyValue.Num.int r.2)) id =
          fun r : (Int × Int) × Nat => decide (r.1.1 < r.1.2) := by
        funext r
        rw [Bool.eq_iff_iff]
        simp
      rw [hfilter, List.mapM_map]
      exact (Results.mapM_ok fun r _ => h r.2 r.1.1 r.1.2)

/-- A job that does not depend on the number of its range. -/
theorem dividedSpecs_nonempty {total : Int}
    {job : Nat → PyValue.Num → PyValue.Num → Except PyException Dict}
    (typed : Int × Int → SubmitRequest)
    (h : ∀ i a b, job i (.int a) (.int b) = .ok (specOf (typed (a, b)))) :
    dividedSpecs sum nTiles weights (.int total) job =
      specified (do
        let ranges ← split binary64 sum total nTiles weights
        return (nonempty ranges).map typed) := by
  rw [dividedSpecs_int (fun r => typed r.1) h]
  have hranges : ∀ ranges : List (Int × Int),
      (ranges.zipIdx.filter fun r => decide (r.1.1 < r.1.2)).map (fun r => typed r.1) =
        (nonempty ranges).map typed := by
    intro ranges
    have hfilter := @List.filter_map _ _ Prod.fst (fun r : Int × Int => decide (r.1 < r.2))
      ranges.zipIdx
    rw [List.zipIdx_map_fst] at hfilter
    rw [nonempty, hfilter, List.map_map]
    rfl
  simp only [hranges]

theorem positive_int (message : String) (i : Int) : positive message (.int i) =
    if i ≤ 0 then .error (.valueError message) else .ok (.int i) := by
  change (if (PyValue.Num.int i).le (.int 0) then _ else _) = _
  rw [PyValue.Num.le_int]
  simp only [decide_eq_true_eq]
  rfl

end Divided

/-- A check that both builders make. -/
theorem checked_specified {α : Type} {c : Prop} [Decidable c] {message : String} {a : α}
    {f : α → Except PyException (List Dict)} {rest : Except Raised (List SubmitRequest)}
    (h : f a = specified rest) :
    (if c then .error (PyException.valueError message) else .ok a) >>= f =
      specified (if c then .error (.valueError message) else rest) := by
  split
  · rfl
  · exact h

section Builders
variable {sum : List PyFloat → PyFloat} {nTiles : Int} {weights : Option (List PyFloat)}
  {params : Dict}

/-- The arguments of `build_optimize_jobs`. -/
structure OptimumArguments (params : Dict) (nCandidates dims seed : Int) : Prop where
  nCandidates : argument params "n_candidates" (.int 30000) = .int nCandidates
  dims : argument params "dims" (.int 8) = .int dims
  seed : argument params "seed" (.int 0) = .int seed

theorem buildOptimizeSpecs_typed {nCandidates dims seed : Int}
    (h : OptimumArguments params nCandidates dims seed) :
    buildOptimizeSpecs sum nTiles params weights =
      bindKeywords "build_optimize_jobs" ["n_tiles", "weights"] ["n_candidates", "dims", "seed"]
        params >>= fun _ => specified (buildOptimizeJobs sum nTiles nCandidates dims seed weights) := by
  unfold buildOptimizeSpecs
  congr 1
  funext _
  rw [h.nCandidates, h.dims, h.seed]
  refine checked_specified ?_
  rw [positive_int]
  refine checked_specified ?_
  rw [positive_int]
  refine checked_specified ?_
  exact dividedSpecs_nonempty (optimizeJob dims seed) fun _ _ _ => rfl

/-- The arguments of `build_hashcrack_jobs`. -/
structure HashArguments (params : Dict) (keyspace : Int) (targetPre pre : String)
    (nonceStart : Int) : Prop where
  keyspace : argument params "keyspace" (.int 24000000) = .int keyspace
  targetPre : argument params "target_prefix" (.str "000000") = .str targetPre
  pre : argument params "prefix" (.str "onecompute") = .str pre
  nonceStart : argument params "nonce_start" (.int 0) = .int nonceStart

theorem buildHashcrackSpecs_typed {keyspace nonceStart : Int} {targetPre pre : String}
    (h : HashArguments params keyspace targetPre pre nonceStart) :
    buildHashcrackSpecs sum nTiles params weights =
      bindKeywords "build_hashcrack_jobs" ["n_tiles", "weights"]
        ["keyspace", "target_prefix", "prefix", "nonce_start"] params >>= fun _ =>
        specified (buildHashcrackJobs sum nTiles keyspace targetPre pre nonceStart weights) := by
  unfold buildHashcrackSpecs
  congr 1
  funext _
  rw [h.keyspace, h.targetPre, h.pre, h.nonceStart]
  refine checked_specified ?_
  rw [positive_int]
  refine checked_specified ?_
  change (if !Worker.truthy (.str targetPre) then _ else _) = _
  simp only [Worker.truthy, ne_eq, Bool.not_eq_true', decide_eq_false_iff_not, not_not]
  split
  · rfl
  · exact dividedSpecs_nonempty (hashcrackJob targetPre pre nonceStart) fun _ _ _ => rfl

end Builders

end OneCompute.Workloads
