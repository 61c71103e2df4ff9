import Mathlib.Algebra.BigOperators.Fin
import Mathlib.Algebra.Order.Chebyshev
import Mathlib.Algebra.Order.Floor.Ring
import Mathlib.Analysis.Real.Sqrt
import Mathlib.Data.List.OfFn
import OneCompute.Lib.Lists
import OneCompute.Lib.TailMean

/-!
The summaries of a Monte-Carlo run in exact arithmetic: what a chunk, a tile and the whole
run report of their sample returns, and the figures of risk read off the merged histogram.
-/

namespace OneCompute.Workloads
open TailMean (firstSum firstSum_succ meanOr)

section Summaries
variable {K : Type} [Field K] [LinearOrder K] [FloorRing K]

/-- The bins of the histogram. -/
structure Bins (K : Type) where
  lo : K
  hi : K
  nbins : Nat

/-- What a chunk returns. -/
structure Chunk (K : Type) where
  count : Nat
  total : K
  totalSq : K
  worst : K
  hist : List Nat

/-- What a tile reports. -/
structure Tile (K : Type) where
  paths : Nat
  meanReturn : K
  stdev : K
  worstReturn : K
  hist : List Nat
  histLo : K
  histHi : K

/-- `int(x)` -/
def wholePart (x : K) : Int := if x < 0 then ⌈x⌉ else ⌊x⌋

namespace Bins
variable (b : Bins K)

def width : K := if b.nbins = 0 then 1 else (b.hi - b.lo) / b.nbins

def center (i : Nat) : K := b.lo + (i + 1 / 2) * b.width

/-- The bin of a return; the outer bins take what lies beyond them. -/
def bucket (ret : K) : Nat :=
  let bucket := if b.width = 0 then 0 else wholePart ((ret - b.lo) / b.width)
  (min ((b.nbins : Int) - 1) (max 0 bucket)).toNat

def addReturn (c : Chunk K) (ret : K) : Chunk K :=
  { c with
    total := c.total + ret
    totalSq := c.totalSq + ret * ret
    worst := if ret < c.worst then ret else c.worst
    hist := c.hist.modify (b.bucket ret) (· + 1) }

/-- `_mc_chunk`, from the returns of its paths. -/
def mcChunk (returns : List K) : Chunk K :=
  returns.foldl b.addReturn ⟨returns.length, 0, 0, 0, List.replicate b.nbins 0⟩

end Bins

/-- Histograms of one length, added up. -/
def mergeHists (nbins : Nat) (hists : List (List Nat)) : List Nat :=
  hists.foldl (List.zipWith (· + ·)) (List.replicate nbins 0)

/-- `min(xs, default=0.0)` -/
def minOr (xs : List K) : K :=
  match xs with
  | [] => 0
  | x :: xs => xs.foldl min x

/-- `_montecarlo`, from the results of its chunks. -/
def montecarloTile (sqrt : K → K) (b : Bins K) (parts : List (Chunk K)) : Tile K :=
  let count := (parts.map Chunk.count).sum
  let total := (parts.map Chunk.total).sum
  let totalSq := (parts.map Chunk.totalSq).sum
  let mean := if count = 0 then 0 else total / count
  let variance := if count = 0 then 0 else totalSq / count - mean * mean
  ⟨count, mean, sqrt (max 0 variance), minOr (parts.map Chunk.worst),
    mergeHists b.nbins (parts.map Chunk.hist), b.lo, b.hi⟩

/-! ## The whole run -/

/-- The value at risk and the conditional value at risk, under the rounded percentage of
their level. -/
structure Risk (K : Type) where
  pct : Int
  var : K
  cvar : K

structure Aggregate (K : Type) where
  paths : Nat
  meanReturn : K
  stdev : K
  worstReturn : K
  hist : List Nat
  histLo : K
  histHi : K
  risk : List (Risk K)

/-- The bin where the cumulative count first reaches `rank`, and the return it stands for. -/
def returnAt (b : Bins K) (rank : K) : Nat → Nat → List Nat → Nat × K
  | _, _, [] => (b.nbins - 1, b.hi)
  | i, cum, count :: rest =>
      if rank ≤ ((cum + count : Nat) : K) then (i, b.center i)
      else returnAt b rank (i + 1) (cum + count) rest

/-- `round(x)`: the nearest integer, and the even one of two. -/
def roundEven (x : K) : Int :=
  if x - ⌊x⌋ < 1 / 2 then ⌊x⌋
  else if 1 / 2 < x - ⌊x⌋ then ⌊x⌋ + 1
  else if ⌊x⌋ % 2 = 0 then ⌊x⌋ else ⌊x⌋ + 1

def pctOf (level : K) : Int := roundEven (level * 100)

def riskAt (b : Bins K) (hist : List Nat) (paths : Nat) (level : K) : Risk K :=
  let (idx, ret) := returnAt b (paths * (1 - level)) 0 0 hist
  let tailCount := (hist.take (idx + 1)).sum
  let tailSum := ((List.range (idx + 1)).map fun i => (hist.getD i 0 : K) * b.center i).sum
  ⟨pctOf level, -ret, -(if tailCount = 0 then ret else tailSum / tailCount)⟩

/-- `aggregate_montecarlo`; `none` is the answer that has no paths. -/
def aggregateMontecarlo (sqrt : K → K) (results : List (Tile K)) (varLevels : List K) :
    Option (Aggregate K) :=
  match results.filter fun tile => tile.paths ≠ 0 with
  | [] => none
  | first :: rest =>
      let parts := first :: rest
      let b : Bins K := ⟨first.histLo, first.histHi, first.hist.length⟩
      let hist := mergeHists b.nbins (parts.map Tile.hist)
      let paths := (parts.map Tile.paths).sum
      let weightedMean := (parts.map fun tile => tile.meanReturn * (tile.paths : K)).sum
      let weightedSq :=
        (parts.map fun tile => (tile.stdev ^ 2 + tile.meanReturn ^ 2) * (tile.paths : K)).sum
      let worst := parts.foldl (fun worst tile => min worst tile.worstReturn) 0
      let mean := if paths = 0 then 0 else weightedMean / paths
      let variance := if paths = 0 then 0 else weightedSq / paths - mean * mean
      some ⟨paths, mean, sqrt variance, worst, hist, b.lo, b.hi, varLevels.map (riskAt b hist paths)⟩

/-- What the result holds under a percentage: of two levels that round alike, the later. -/
def Aggregate.riskUnder (a : Aggregate K) (pct : Int) : Option (Risk K) :=
  a.risk.reverse.find? fun r => r.pct = pct

end Summaries

/-! ## Chunks -/

section Lists
variable {K : Type} [Field K] [LinearOrder K]

/-- The least of zero and the returns. -/
def worstOf (xs : List K) : K := xs.foldl min 0

def sumSq (xs : List K) : K := (xs.map (· ^ 2)).sum

omit [LinearOrder K] in
@[simp] theorem sumSq_append (xs ys : List K) : sumSq (xs ++ ys) = sumSq xs + sumSq ys := by
  simp [sumSq]

theorem foldl_min (a : K) (xs : List K) (ha : a ≤ 0) : xs.foldl min a = min a (worstOf xs) := by
  have hassoc : xs.foldl min (min a 0) = min a (xs.foldl min 0) := List.foldl_assoc
  rwa [min_eq_left ha] at hassoc

theorem worstOf_nonpos (xs : List K) : worstOf xs ≤ 0 := by
  have h := foldl_min 0 xs le_rfl
  exact min_eq_right_iff.mp h.symm

theorem worstOf_append (xs ys : List K) : worstOf (xs ++ ys) = min (worstOf xs) (worstOf ys) := by
  rw [worstOf, List.foldl_append]
  exact foldl_min _ ys (worstOf_nonpos xs)

theorem foldl_worstOf (a : List K) (xss : List (List K)) :
    (xss.map worstOf).foldl min (worstOf a) = worstOf (a ++ xss.flatten) := by
  induction xss generalizing a with
  | nil => simp
  | cons xs xss ih =>
      rw [List.map_cons, List.foldl_cons, ← worstOf_append, ih, List.flatten_cons, List.append_assoc]

theorem minOr_worstOf (xss : List (List K)) : minOr (xss.map worstOf) = worstOf xss.flatten := by
  cases xss with
  | nil => rfl
  | cons xs xss => exact foldl_worstOf xs xss

theorem worstOf_isLeast (xs : List K) : IsLeast (insert 0 {x | x ∈ xs}) (worstOf xs) := by
  induction xs using List.reverseRecOn with
  | nil => simp [worstOf, IsLeast, lowerBounds]
  | append_singleton xs x ih =>
      have hstep : worstOf (xs ++ [x]) = min (worstOf xs) x := by simp [worstOf]
      rw [hstep]
      constructor
      · rcases min_choice (worstOf xs) x with h | h
        · rw [h]
          exact ih.1.imp_right fun hmem => List.mem_append_left _ hmem
        · rw [h]
          exact .inr (List.mem_append_right _ List.mem_cons_self)
      · rintro y (rfl | hy)
        · exact (min_le_left _ _).trans (ih.2 (.inl rfl))
        · rcases List.mem_append.mp hy with hy | hy
          · exact (min_le_left _ _).trans (ih.2 (.inr hy))
          · rw [List.mem_singleton.mp hy]
            exact min_le_right _ _

theorem worstOf_perm {xs ys : List K} (h : xs.Perm ys) : worstOf xs = worstOf ys :=
  h.foldl_eq 0

end Lists

section Hist
variable {K : Type} [Field K] [LinearOrder K] [FloorRing K] {b : Bins K}

/-- How many of the returns fall in each bin. -/
def Bins.histogram (b : Bins K) (xs : List K) : List Nat :=
  (List.range b.nbins).map fun i => xs.countP fun x => b.bucket x = i

@[simp] theorem histogram_length (xs : List K) : (b.histogram xs).length = b.nbins := by
  simp [Bins.histogram]

theorem histogram_nil : b.histogram ([] : List K) = List.replicate b.nbins 0 := by
  simp [Bins.histogram, List.map_const']

theorem histogram_append (xs ys : List K) :
    b.histogram (xs ++ ys) = List.zipWith (· + ·) (b.histogram xs) (b.histogram ys) := by
  simp [Bins.histogram, List.zipWith_map, List.zipWith_self]

theorem histogram_perm {xs ys : List K} (h : xs.Perm ys) : b.histogram xs = b.histogram ys :=
  List.map_congr_left fun _ _ => h.countP_eq _

theorem mergeHists_histogram (a : List K) (xss : List (List K)) :
    (xss.map b.histogram).foldl (List.zipWith (· + ·)) (b.histogram a) = b.histogram (a ++ xss.flatten) := by
  induction xss generalizing a with
  | nil => simp
  | cons xs xss ih =>
      rw [List.map_cons, List.foldl_cons, ← histogram_append, ih, List.flatten_cons, List.append_assoc]

/-- One more return is one more in its bin. -/
theorem modify_histogram (xs : List K) (x : K) :
    (b.histogram xs).modify (b.bucket x) (· + 1) = b.histogram (xs ++ [x]) := by
  refine List.ext_getElem (by simp) fun i hi _ => ?_
  simp only [Bins.histogram, List.getElem_modify, List.getElem_map, List.getElem_range, List.countP_append,
    List.countP_singleton]
  by_cases h : b.bucket x = i <;> simp [h]

/-- What the loop of a chunk has added up after some returns. -/
theorem foldl_addReturn (count : Nat) (xs : List K) :
    xs.foldl b.addReturn ⟨count, 0, 0, 0, List.replicate b.nbins 0⟩ =
      ⟨count, xs.sum, sumSq xs, worstOf xs, b.histogram xs⟩ := by
  induction xs using List.reverseRecOn with
  | nil => simp [histogram_nil, sumSq, worstOf]
  | append_singleton xs x ih =>
      rw [List.foldl_append, ih]
      simp only [List.foldl_cons, List.foldl_nil, Bins.addReturn, modify_histogram, List.sum_append,
        sumSq_append, worstOf, List.foldl_append]
      refine Chunk.mk.injEq .. ▸ ⟨rfl, by simp, by simp [sumSq, sq], ?_, rfl⟩
      rw [min_comm, min_def_lt]

end Hist

/-! ## Tiles -/

section Pool
variable {K : Type} [Field K] [LinearOrder K] [IsStrictOrderedRing K] [FloorRing K] {sqrt : K → K}
  {b : Bins K}

def meanOf (xs : List K) : K := if xs.length = 0 then 0 else xs.sum / (xs.length : K)

def varianceOf (xs : List K) : K :=
  if xs.length = 0 then 0 else sumSq xs / (xs.length : K) - meanOf xs * meanOf xs

/-- The summary of some returns, whatever chunks they came in. -/
def Bins.summary (sqrt : K → K) (b : Bins K) (xs : List K) : Tile K :=
  ⟨xs.length, meanOf xs, sqrt (varianceOf xs), worstOf xs, b.histogram xs, b.lo, b.hi⟩

omit [FloorRing K] in
theorem sum_sq_le (xs : List K) : xs.sum ^ 2 ≤ xs.length * sumSq xs := by
  have h := sq_sum_le_card_mul_sum_sq (s := (Finset.univ : Finset (Fin xs.length))) (f := xs.get)
  have hsum : ∀ f : K → K, ∑ i : Fin xs.length, f (xs.get i) = (xs.map f).sum := by
    intro f
    have hofFn : List.ofFn (fun i => f (xs.get i)) = xs.map f := by
      conv_rhs => rw [← List.ofFn_get xs]
      rw [List.map_ofFn]
      rfl
    rw [← List.sum_ofFn, hofFn]
  have hid := hsum id
  rw [List.map_id] at hid
  have hsq := hsum (· ^ 2)
  simp only [id] at hid
  rw [hid, hsq, Finset.card_univ, Fintype.card_fin] at h
  exact h

omit [FloorRing K] in
theorem varianceOf_nonneg (xs : List K) : 0 ≤ varianceOf xs := by
  unfold varianceOf meanOf
  split
  · exact le_rfl
  next hne =>
    have hpos : (0 : K) < xs.length := by exact_mod_cast Nat.pos_of_ne_zero hne
    have hle := sum_sq_le xs
    rw [sub_nonneg, div_mul_div_comm, div_le_div_iff₀ (mul_pos hpos hpos) hpos]
    nlinarith

theorem montecarloTile_eq (sqrt : K → K) (b : Bins K) (chunks : List (List K)) :
    montecarloTile sqrt b (chunks.map b.mcChunk) = b.summary sqrt chunks.flatten := by
  have hchunk : ∀ xs : List K, b.mcChunk xs = ⟨xs.length, xs.sum, sumSq xs, worstOf xs, b.histogram xs⟩ :=
    fun xs => foldl_addReturn xs.length xs
  have hcount : ((chunks.map b.mcChunk).map Chunk.count).sum = chunks.flatten.length := by
    simp [List.map_map, Function.comp_def, hchunk, List.length_flatten]
  have htotal : ((chunks.map b.mcChunk).map Chunk.total).sum = chunks.flatten.sum := by
    simp [List.map_map, Function.comp_def, hchunk, List.sum_flatten]
  have htotalSq : ((chunks.map b.mcChunk).map Chunk.totalSq).sum = sumSq chunks.flatten := by
    simp [List.map_map, Function.comp_def, hchunk, sumSq, List.sum_flatten]
  have hworst : minOr ((chunks.map b.mcChunk).map Chunk.worst) = worstOf chunks.flatten := by
    rw [← minOr_worstOf]
    simp [List.map_map, Function.comp_def, hchunk]
  have hhist : mergeHists b.nbins ((chunks.map b.mcChunk).map Chunk.hist) = b.histogram chunks.flatten := by
    have hmerge := mergeHists_histogram (b := b) [] chunks
    rw [histogram_nil, List.nil_append] at hmerge
    rw [← hmerge, mergeHists]
    simp [List.map_map, Function.comp_def, hchunk]
  have hstdev : sqrt (max 0 (varianceOf chunks.flatten)) = sqrt (varianceOf chunks.flatten) := by
    rw [max_eq_right (varianceOf_nonneg chunks.flatten)]
  unfold montecarloTile Bins.summary
  simp only [hcount, htotal, htotalSq, hworst, hhist]
  rw [← hstdev]
  rfl

/-! ## The run -/

/-- The figures of all returns, pooled. -/
def pooled (sqrt : K → K) (b : Bins K) (xs : List K) (varLevels : List K) : Aggregate K :=
  ⟨xs.length, meanOf xs, sqrt (varianceOf xs), worstOf xs, b.histogram xs, b.lo, b.hi,
    varLevels.map (riskAt b (b.histogram xs) xs.length)⟩

omit [FloorRing K] in
theorem varianceOf_mean (xs : List K) :
    (varianceOf xs + meanOf xs ^ 2) * (xs.length : K) = sumSq xs := by
  unfold varianceOf
  split
  next h =>
    obtain rfl := List.length_eq_zero_iff.mp h
    simp [sumSq]
  next h =>
    have hne : (xs.length : K) ≠ 0 := by exact_mod_cast h
    field_simp
    ring

omit [LinearOrder K] [IsStrictOrderedRing K] [FloorRing K] in
theorem meanOf_mul [CharZero K] (xs : List K) : meanOf xs * (xs.length : K) = xs.sum := by
  unfold meanOf
  split
  next h =>
    obtain rfl := List.length_eq_zero_iff.mp h
    simp
  next h =>
    have hne : (xs.length : K) ≠ 0 := by exact_mod_cast h
    field_simp

omit [IsStrictOrderedRing K] in
theorem foldl_worstReturn (sqrt : K → K) (b : Bins K) (a : List K) (xss : List (List K)) :
    (xss.map (b.summary sqrt)).foldl (fun worst tile => min worst tile.worstReturn) (worstOf a) =
      worstOf (a ++ xss.flatten) := by
  rw [← foldl_worstOf, List.foldl_map, List.foldl_map]
  rfl

/-- Summaries of tiles are merged to the summary of their returns. -/
theorem aggregate_summaries (hsqrt : ∀ x, 0 ≤ x → sqrt x ^ 2 = x) (xss : List (List K))
    (hne : xss.flatten ≠ []) (varLevels : List K) :
    aggregateMontecarlo sqrt (xss.map (b.summary sqrt)) varLevels =
      some (pooled sqrt b xss.flatten varLevels) := by
  have hfilter : (xss.map (b.summary sqrt)).filter (fun tile => tile.paths ≠ 0) =
      (xss.filter (fun xs => xs.length ≠ 0)).map (b.summary sqrt) := by
    rw [List.filter_map]
    rfl
  have hflatten : (xss.filter fun xs => xs.length ≠ 0).flatten = xss.flatten := by
    have hnonempty : (fun xs : List K => decide (xs.length ≠ 0)) = fun xs => !xs.isEmpty := by
      funext xs
      cases xs <;> simp
    rw [hnonempty]
    exact List.flatten_filter_not_isEmpty
  rw [← hflatten] at hne ⊢
  unfold aggregateMontecarlo
  rw [hfilter]
  generalize xss.filter (fun xs => xs.length ≠ 0) = parts at hne
  cases parts with
  | nil => exact absurd rfl hne
  | cons xs parts =>
      have hpaths : (((xs :: parts).map (b.summary sqrt)).map Tile.paths).sum =
          (xs :: parts).flatten.length := by
        simp only [List.map_map, List.length_flatten]
        rfl
      have hmean : (((xs :: parts).map (b.summary sqrt)).map fun tile =>
          tile.meanReturn * (tile.paths : K)).sum = (xs :: parts).flatten.sum := by
        rw [List.map_map, List.sum_flatten]
        exact congrArg List.sum (List.map_congr_left fun ys _ => meanOf_mul ys)
      have hsq : (((xs :: parts).map (b.summary sqrt)).map fun tile =>
          (tile.stdev ^ 2 + tile.meanReturn ^ 2) * (tile.paths : K)).sum = sumSq (xs :: parts).flatten := by
        rw [List.map_map, sumSq, List.map_flatten, List.sum_flatten, List.map_map]
        refine congrArg List.sum (List.map_congr_left fun ys _ => ?_)
        simp only [Function.comp_apply, Bins.summary, hsqrt _ (varianceOf_nonneg ys)]
        exact varianceOf_mean ys
      have hhist : mergeHists b.nbins (((xs :: parts).map (b.summary sqrt)).map Tile.hist) =
          b.histogram (xs :: parts).flatten := by
        have hmerge := mergeHists_histogram (b := b) [] (xs :: parts)
        rw [histogram_nil, List.nil_append] at hmerge
        rw [← hmerge, mergeHists, List.map_map]
        rfl
      have hworst := foldl_worstReturn sqrt b [] (xs :: parts)
      rw [List.nil_append] at hworst
      have hzero : worstOf ([] : List K) = 0 := rfl
      have hbins : (b.summary sqrt xs).hist.length = b.nbins := histogram_length xs
      rw [hzero] at hworst
      rw [List.map_cons] at *
      simp only [hbins, hpaths, hmean, hsq, hworst]
      rw [hhist]
      rfl

omit [IsStrictOrderedRing K] in
theorem pooled_perm {xs ys : List K} (h : xs.Perm ys) (varLevels : List K) :
    pooled sqrt b xs varLevels = pooled sqrt b ys varLevels := by
  have hsq : sumSq xs = sumSq ys := (h.map _).sum_eq
  have hmean : meanOf xs = meanOf ys := by rw [meanOf, meanOf, h.length_eq, h.sum_eq]
  have hvariance : varianceOf xs = varianceOf ys := by
    rw [varianceOf, varianceOf, h.length_eq, hsq, hmean]
  rw [pooled, pooled, h.length_eq, hmean, hvariance, worstOf_perm h, histogram_perm h]

/-! ## Figures of risk -/

omit [IsStrictOrderedRing K] in
/-- Every return falls in one of the bins. -/
theorem histogram_sum (hbins : 0 < b.nbins) (xs : List K) : (b.histogram xs).sum = xs.length := by
  induction xs using List.reverseRecOn with
  | nil => simp [histogram_nil]
  | append_singleton xs x ih =>
      have hbucket : b.bucket x < (b.histogram xs).length := by
        rw [histogram_length]
        simp only [Bins.bucket]
        omega
      rw [← modify_histogram, Lists.sum_modify hbucket fun _ => rfl, ih, List.length_append, List.length_singleton]

/-- The counts of a histogram as weights. -/
def weights (hist : List Nat) (i : Nat) : K := (hist.getD i 0 : Nat)

omit [FloorRing K] in
theorem weights_nonneg (hist : List Nat) (i : Nat) : (0 : K) ≤ weights hist i := Nat.cast_nonneg _

omit [LinearOrder K] [IsStrictOrderedRing K] [FloorRing K] in
theorem sum_take (hist : List Nat) (n : Nat) : (((hist.take n).sum : Nat) : K) = firstSum (weights hist) n := by
  induction n with
  | zero => simp
  | succ n ih =>
      rw [firstSum_succ, ← ih, List.take_add_one, List.sum_append, Nat.cast_add, weights,
        List.getD_eq_getElem?_getD]
      cases hist[n]? <;> simp

omit [IsStrictOrderedRing K] [FloorRing K] in
/-- The first bin at which a rank is reached that the whole histogram reaches. -/
theorem returnAt_spec {rank : K} {hist : List Nat} (hne : hist ≠ []) (i cum : Nat)
    (hrank : rank ≤ ((cum + hist.sum : Nat) : K)) :
    ∃ k, returnAt b rank i cum hist = (i + k, b.center (i + k)) ∧
      rank ≤ ((cum + (hist.take (k + 1)).sum : Nat) : K) ∧
      ∀ j < k, ((cum + (hist.take (j + 1)).sum : Nat) : K) < rank := by
  induction hist generalizing i cum with
  | nil => exact absurd rfl hne
  | cons count hist ih =>
      by_cases hhere : rank ≤ ((cum + count : Nat) : K)
      · refine ⟨0, ?_, by simpa using hhere, by simp⟩
        rw [returnAt, if_pos hhere, Nat.add_zero]
      · have hrest : hist ≠ [] := by
          rintro rfl
          exact hhere (by simpa using hrank)
        have hlater : rank ≤ ((cum + count + hist.sum : Nat) : K) := by
          rwa [List.sum_cons, ← Nat.add_assoc] at hrank
        obtain ⟨k, hk, hreach, hbelow⟩ := ih hrest (i + 1) (cum + count) hlater
        refine ⟨k + 1, ?_, ?_, ?_⟩
        · rw [returnAt, if_neg hhere, hk, Nat.add_right_comm i 1 k, Nat.add_assoc]
        · simpa [Nat.add_assoc] using hreach
        · intro j hj
          cases j with
          | zero => simpa using not_le.mp hhere
          | succ j => simpa [Nat.add_assoc] using hbelow j (Nat.lt_of_succ_lt_succ hj)

/-- The bin that a level's figures are read off. -/
structure ReadAt (b : Bins K) (hist : List Nat) (level : K) (idx : Nat) : Prop where
  risk : riskAt b hist hist.sum level =
    ⟨pctOf level, -b.center idx, -meanOr (weights hist) b.center idx⟩
  reached : (hist.sum : K) * (1 - level) ≤ firstSum (weights hist) (idx + 1)
  below : ∀ j < idx, firstSum (weights hist) (j + 1) < (hist.sum : K) * (1 - level)

theorem riskAt_read {hist : List Nat} (hne : hist ≠ []) {level : K} (hlevel : 0 ≤ level) :
    ∃ idx, ReadAt b hist level idx := by
  have hrank : (hist.sum : K) * (1 - level) ≤ ((0 + hist.sum : Nat) : K) := by
    have hsum : (0 : K) ≤ hist.sum := Nat.cast_nonneg _
    rw [Nat.zero_add]
    nlinarith
  obtain ⟨idx, hread, hreached, hbelow⟩ := returnAt_spec (b := b) hne 0 0 hrank
  simp only [Nat.zero_add, sum_take] at hread hreached hbelow
  refine ⟨idx, ?_, hreached, hbelow⟩
  have hempty : (hist.take (idx + 1)).sum = 0 ↔ firstSum (weights hist) (idx + 1) = (0 : K) := by
    rw [← sum_take, Nat.cast_eq_zero]
  have hcvar : (if (hist.take (idx + 1)).sum = 0 then b.center idx
      else ((List.range (idx + 1)).map fun i => (hist.getD i 0 : K) * b.center i).sum /
        ((hist.take (idx + 1)).sum : K)) = meanOr (weights hist) b.center idx := by
    rw [meanOr, sum_take]
    exact if_congr hempty rfl rfl
  rw [riskAt, hread]
  exact congrArg (Risk.mk (pctOf level) (-b.center idx)) (congrArg Neg.neg hcvar)

omit [FloorRing K] in
theorem center_mono (hwidth : 0 ≤ b.width) : Monotone b.center := by
  intro i j hij
  have hcast : (i : K) ≤ j := by exact_mod_cast hij
  have := mul_le_mul_of_nonneg_right (add_le_add_left hcast (1 / 2)) hwidth
  simpa [Bins.center] using this

/-- The higher the level, the further out its bin. -/
theorem ReadAt.antitone {hist : List Nat} {low high : K} {i j : Nat} (hlow : ReadAt b hist low i)
    (hhigh : ReadAt b hist high j) (hle : low ≤ high) : j ≤ i := by
  by_contra hlt
  have hbelow := hhigh.below i (not_le.mp hlt)
  have hrank : (hist.sum : K) * (1 - high) ≤ (hist.sum : K) * (1 - low) :=
    mul_le_mul_of_nonneg_left (by linarith) (Nat.cast_nonneg _)
  linarith [hlow.reached]

/-- An empty tail ends with the first bin. -/
theorem ReadAt.first {hist : List Nat} {level : K} {idx : Nat} (h : ReadAt b hist level idx)
    (hempty : firstSum (weights hist) (idx + 1) = (0 : K)) : idx = 0 := by
  cases idx with
  | zero => rfl
  | succ j =>
      have hbelow := h.below j (Nat.lt_succ_self j)
      have hnonneg := TailMean.firstSum_nonneg (weights_nonneg (K := K) hist) (j + 1)
      linarith [h.reached]

theorem risk_order (hwidth : 0 ≤ b.width) {hist : List Nat} (hne : hist ≠ []) {level : K}
    (hlevel : 0 ≤ level) :
    (riskAt b hist hist.sum level).var ≤ (riskAt b hist hist.sum level).cvar := by
  obtain ⟨idx, h⟩ := riskAt_read (b := b) hne hlevel
  rw [h.risk]
  exact neg_le_neg (TailMean.meanOr_le (weights_nonneg hist) (center_mono hwidth) idx)

theorem risk_mono (hwidth : 0 ≤ b.width) {hist : List Nat} (hne : hist ≠ []) {low high : K}
    (hlow : 0 ≤ low) (hle : low ≤ high) :
    (riskAt b hist hist.sum low).var ≤ (riskAt b hist hist.sum high).var ∧
      (riskAt b hist hist.sum low).cvar ≤ (riskAt b hist hist.sum high).cvar := by
  obtain ⟨i, hi⟩ := riskAt_read (b := b) hne hlow
  obtain ⟨j, hj⟩ := riskAt_read (b := b) hne (hlow.trans hle)
  have hji := hi.antitone hj hle
  rw [hi.risk, hj.risk]
  exact ⟨neg_le_neg (center_mono hwidth hji),
    neg_le_neg (TailMean.meanOr_mono (weights_nonneg hist) (center_mono hwidth) hji hj.first)⟩

theorem roundEven_mono {x y : K} (h : x ≤ y) : roundEven x ≤ roundEven y := by
  have hfloor := Int.floor_le_floor h
  have hcast : ∀ {a b : Int}, a + 1 ≤ b → (a : K) + 1 ≤ b := fun hab => by exact_mod_cast hab
  unfold roundEven
  rcases hfloor.eq_or_lt with heq | hlt
  · rw [heq]
    have hrest : x - (⌊y⌋ : K) ≤ y - ⌊y⌋ := sub_le_sub_right h _
    split_ifs <;> first | omega | linarith
  · split_ifs <;> omega

omit [IsStrictOrderedRing K] in
@[simp] theorem riskAt_pct (b : Bins K) (hist : List Nat) (paths : Nat) (level : K) :
    (riskAt b hist paths level).pct = pctOf level := rfl

omit [IsStrictOrderedRing K] in
/-- A percentage holds the figures of one of the levels that round to it. -/
theorem riskUnder_mem (sqrt : K → K) (b : Bins K) (xs : List K) {varLevels : List K} {level : K} (h : level ∈ varLevels) :
    ∃ level' ∈ varLevels, pctOf level' = pctOf level ∧
      (pooled sqrt b xs varLevels).riskUnder (pctOf level) =
        some (riskAt b (b.histogram xs) xs.length level') := by
  have hmem : riskAt b (b.histogram xs) xs.length level ∈
      (varLevels.map (riskAt b (b.histogram xs) xs.length)).reverse :=
    List.mem_reverse.mpr (List.mem_map_of_mem h)
  have hfound : ((varLevels.map (riskAt b (b.histogram xs) xs.length)).reverse.find?
      fun r => r.pct = pctOf level).isSome := by
    rw [List.find?_isSome]
    exact ⟨_, hmem, decide_eq_true rfl⟩
  obtain ⟨r, hr⟩ := Option.isSome_iff_exists.mp hfound
  obtain ⟨level', hlevel', rfl⟩ := List.mem_map.mp (List.mem_reverse.mp (List.mem_of_find?_eq_some hr))
  refine ⟨level', hlevel', ?_, hr⟩
  have hpct := List.find?_some hr
  rwa [decide_eq_true_eq, riskAt_pct] at hpct

end Pool

/-- Tiles of chunks are merged to the figures of all returns, and the figures of risk are
ordered as their definitions are. -/
theorem montecarlo_pooling {lo hi : ℝ} {nbins : Nat} (hrange : lo < hi) (hbins : 0 < nbins)
    {samples : List ℝ} (hne : samples ≠ []) {tiles : List (List (List ℝ))}
    (hperm : samples.Perm tiles.flatten.flatten) {varLevels : List ℝ}
    (hlevels : ∀ level ∈ varLevels, 0 ≤ level ∧ level ≤ 1) :
    ∃ agg, aggregateMontecarlo Real.sqrt
        (tiles.map fun chunks => montecarloTile Real.sqrt ⟨lo, hi, nbins⟩
          (chunks.map (Bins.mcChunk ⟨lo, hi, nbins⟩))) varLevels = some agg ∧
      agg.paths = samples.length ∧
      agg.meanReturn = samples.sum / samples.length ∧
      agg.stdev ^ 2 + agg.meanReturn ^ 2 = (samples.map (· ^ 2)).sum / samples.length ∧
      IsLeast (insert 0 {x | x ∈ samples}) agg.worstReturn ∧
      agg.hist = (List.range nbins).map (fun i => samples.countP fun x =>
        Bins.bucket ⟨lo, hi, nbins⟩ x = i) ∧
      ∀ low ∈ varLevels, ∀ high ∈ varLevels, low < high → pctOf low ≠ pctOf high →
        ∃ atLow atHigh, agg.riskUnder (pctOf low) = some atLow ∧
          agg.riskUnder (pctOf high) = some atHigh ∧
          atLow.var ≤ atLow.cvar ∧ atHigh.var ≤ atHigh.cvar ∧
          atLow.var ≤ atHigh.var ∧ atLow.cvar ≤ atHigh.cvar := by
  have hwidth : 0 ≤ Bins.width ⟨lo, hi, nbins⟩ := by
    rw [Bins.width, if_neg hbins.ne']
    exact div_nonneg (sub_nonneg.mpr hrange.le) (Nat.cast_nonneg _)
  have hflatten : (tiles.map List.flatten).flatten ≠ [] := by
    rw [List.flatten_flatten] at hperm
    exact fun h => hne (h ▸ hperm).eq_nil
  have htiles : (tiles.map fun chunks => montecarloTile Real.sqrt ⟨lo, hi, nbins⟩
      (chunks.map (Bins.mcChunk ⟨lo, hi, nbins⟩))) =
      (tiles.map List.flatten).map (Bins.summary Real.sqrt ⟨lo, hi, nbins⟩) := by
    rw [List.map_map]
    exact List.map_congr_left fun chunks _ => montecarloTile_eq Real.sqrt _ chunks
  have hpooled : pooled Real.sqrt ⟨lo, hi, nbins⟩ (tiles.map List.flatten).flatten varLevels =
      pooled Real.sqrt ⟨lo, hi, nbins⟩ samples varLevels := by
    rw [List.flatten_flatten] at hperm
    exact pooled_perm hperm.symm varLevels
  have hlen : samples.length ≠ 0 := fun h => hne (List.length_eq_zero_iff.mp h)
  have hpos : (samples.length : ℝ) ≠ 0 := by exact_mod_cast hlen
  refine ⟨pooled Real.sqrt ⟨lo, hi, nbins⟩ samples varLevels, ?_, rfl, if_neg hlen, ?_,
    worstOf_isLeast samples, rfl, ?_⟩
  · rw [htiles, aggregate_summaries (fun x hx => Real.sq_sqrt hx) _ hflatten, hpooled]
  · rw [pooled, Real.sq_sqrt (varianceOf_nonneg samples), eq_div_iff hpos]
    exact varianceOf_mean samples
  · intro low hlow high hhigh hlt hpct
    obtain ⟨low', hlow', hlowPct, hatLow⟩ := riskUnder_mem Real.sqrt ⟨lo, hi, nbins⟩ samples hlow
    obtain ⟨high', hhigh', hhighPct, hatHigh⟩ := riskUnder_mem Real.sqrt ⟨lo, hi, nbins⟩ samples hhigh
    have hhist : Bins.histogram ⟨lo, hi, nbins⟩ samples ≠ [] := by
      intro h
      have hlength := histogram_length (b := ⟨lo, hi, nbins⟩) samples
      rw [h] at hlength
      exact hbins.ne hlength
    have hsum : (Bins.histogram ⟨lo, hi, nbins⟩ samples).sum = samples.length := histogram_sum hbins samples
    -- Levels that round apart keep their order.
    have horder : low' ≤ high' := by
      by_contra hgt
      have hback : pctOf high' ≤ pctOf low' := roundEven_mono (by linarith)
      have hforth : pctOf low ≤ pctOf high := roundEven_mono (by linarith)
      omega
    obtain ⟨hvar, hcvar⟩ := risk_mono hwidth hhist (hlevels low' hlow').1 horder
    have hsame := risk_order hwidth hhist (hlevels low' hlow').1
    have hsame' := risk_order hwidth hhist (hlevels high' hhigh').1
    rw [hsum] at hvar hcvar hsame hsame'
    exact ⟨_, _, hatLow, hatHigh, hsame, hsame', hvar, hcvar⟩

theorem montecarlo_pooling_two : ∃ agg, aggregateMontecarlo Real.sqrt
    ([[[1]], [[0]]].map fun chunks => montecarloTile Real.sqrt ⟨0, 2, 2⟩
      (chunks.map (Bins.mcChunk ⟨0, 2, 2⟩))) [19 / 20, 99 / 100] = some agg ∧ agg.paths = 2 ∧
    agg.meanReturn = ([0, 1] : List ℝ).sum / 2 := by
  have hrange : (0 : ℝ) < 2 := two_pos
  have hperm : ([0, 1] : List ℝ).Perm ([[[1]], [[0]]] : List (List (List ℝ))).flatten.flatten :=
    List.Perm.swap 1 0 []
  have hlevels : ∀ level ∈ ([19 / 20, 99 / 100] : List ℝ), 0 ≤ level ∧ level ≤ 1 := by norm_num
  obtain ⟨agg, h, hpaths, hmean, -⟩ :=
    montecarlo_pooling hrange (Nat.succ_pos 1) (List.cons_ne_nil 0 [1]) hperm hlevels
  exact ⟨agg, h, hpaths, by simpa using hmean⟩

end OneCompute.Workloads
