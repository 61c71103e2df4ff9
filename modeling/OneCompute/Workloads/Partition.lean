import OneCompute.Lib.Lists
import OneCompute.Lib.PyFloatExact
import OneCompute.Lib.PyNumber
import OneCompute.Lib.Results
import OneCompute.Lib.Spans
import Mathlib.Algebra.BigOperators.Group.List.Basic

/-!
Splitting the work of a workload into contiguous tiles: evenly, or in proportion
to the weights of the machines.
-/

namespace OneCompute.Workloads
open PyNumber (Rounding)
open Spans (spans range nonempty)

/-- What a builder raises, with its message. -/
inductive Raised where
  | valueError (message : String)
  | overflowError (message : String)
  deriving DecidableEq

/-- `int(x)` of a float. -/
def truncate : PyFloat → Except Raised Int
  | .fin q => .ok (if q < 0 then -((-q).floor) else q.floor)
  | .inf _ => .error (.overflowError "cannot convert float infinity to integer")
  | .nan => .error (.valueError "cannot convert float NaN to integer")

def evenSizes (total n : Int) : List Int :=
  (List.range n.toNat).map fun (i : Nat) => total / n + if (i : Int) < total % n then 1 else 0

def evenRanges (total n : Int) : Except Raised (List (Int × Int)) :=
  if n ≤ 0 then .error (.valueError "n must be positive")
  else if total < 0 then .error (.valueError "total must be non-negative")
  else .ok (spans 0 (evenSizes total n))

/-! ## In proportion to weights

`sum` is the interpreter's sum of floats, which rounds after every addition or
compensates for what it has rounded away. -/

section Weighted
variable (R : Rounding) (sum : List PyFloat → PyFloat)

/-- `total * w / weight_sum` -/
def share (total : Int) (weightSum w : PyFloat) : Except Raised PyFloat :=
  match R.round total with
  | .fin t => .ok (R.div (R.mul (.fin t) w) weightSum)
  | _ => .error (.overflowError "int too large to convert to float")

def shares (total : Int) (weights : List PyFloat) : Except Raised (List PyFloat) :=
  weights.mapM (share R total (sum weights))

/-- `shares[i] - floors[i]` -/
def remainder (shares : List PyFloat) (floors : List Int) (i : Nat) : PyFloat :=
  R.sub (shares.getD i (.fin 0)) (R.round (floors.getD i 0))

/-- The tiles by their remainders, the largest first and then by index. -/
def order (shares : List PyFloat) (floors : List Int) : List Nat :=
  (List.range floors.length).insertionSort fun i j =>
    PyFloat.lt (remainder R shares floors j) (remainder R shares floors i) = true ∨
      remainder R shares floors i = remainder R shares floors j ∧ i ≤ j

/-- `xs[:k]` -/
def upTo {α : Type} (k : Int) (xs : List α) : List α :=
  if 0 ≤ k then xs.take k.toNat else xs.take (xs.length - (-k).toNat)

def handOut (floors : List Int) (winners : List Nat) : List Int :=
  winners.foldl (fun sizes i => sizes.modify i (· + 1)) floors

def floors (total : Int) (weights : List PyFloat) : Except Raised (List Int) := do
  let shares ← shares R sum total weights
  shares.mapM truncate

def weightedSizes (total : Int) (weights : List PyFloat) : Except Raised (List Int) := do
  let shares ← shares R sum total weights
  let floors ← shares.mapM truncate
  let leftover := total - floors.sum
  return handOut floors (upTo leftover (order R shares floors))

def weightedRanges (total : Int) (weights : List PyFloat) : Except Raised (List (Int × Int)) :=
  if weights = [] then .error (.valueError "weights must be non-empty")
  else if total < 0 then .error (.valueError "total must be non-negative")
  else if weights.any (·.lt (.fin 0)) then .error (.valueError "weights must be non-negative")
  else if (sum weights).le (.fin 0) then
    .error (.valueError "weights must sum to a positive value")
  else do
    let sizes ← weightedSizes R sum total weights
    return spans 0 sizes

/-- The ranges of a builder, which takes one weight for each tile. -/
def split (total nTiles : Int) (weights : Option (List PyFloat)) :
    Except Raised (List (Int × Int)) :=
  match weights with
  | none => evenRanges total nTiles
  | some ws =>
      if (ws.length : Int) ≠ nTiles then .error (.valueError "weights length must equal n_tiles")
      else weightedRanges R sum total ws

/-- What flooring the shares leaves over. -/
def leftover (total : Int) (weights : List PyFloat) : Int :=
  match floors R sum total weights with
  | .ok floors => total - floors.sum
  | .error _ => 0

/-- The leftover can be handed out, at most one to a tile. -/
def Fits (total : Int) (weights : Option (List PyFloat)) : Prop :=
  ∀ ws, weights = some ws → 0 ≤ leftover R sum total ws ∧ leftover R sum total ws ≤ ws.length

/-- What is left over once every tile has got one more. -/
def unassigned (total : Int) (weights : Option (List PyFloat)) : Int :=
  match weights with
  | none => 0
  | some ws => leftover R sum total ws - ws.length

end Weighted

/-! ## Sizes -/

private theorem sum_replicate_add (n : Nat) (base extra : Int) (he : 0 ≤ extra) (hn : extra ≤ n) :
    ((List.range n).map fun (i : Nat) => base + if (i : Int) < extra then 1 else 0).sum =
      base * n + extra := by
  induction n generalizing extra with
  | zero =>
      obtain rfl : extra = 0 := by omega
      simp
  | succ n ih =>
      rw [List.range_succ, List.map_append, List.sum_append]
      simp only [List.map_cons, List.map_nil, List.sum_cons, List.sum_nil]
      by_cases hlt : (n : Int) < extra
      · obtain rfl : extra = n + 1 := by omega
        have hsame : ((List.range n).map fun (i : Nat) =>
            base + if (i : Int) < n + 1 then 1 else 0) =
            (List.range n).map fun (i : Nat) => base + if (i : Int) < n then 1 else 0 := by
          apply List.map_congr_left
          intro i hi
          have := List.mem_range.mp hi
          rw [if_pos (by omega), if_pos (by omega)]
        rw [hsame, ih n (by omega) (by omega), if_pos hlt]
        push_cast
        ring
      · rw [ih extra he (by omega), if_neg hlt]
        push_cast
        ring

theorem evenSizes_sum {total n : Int} (hn : 0 < n) : (evenSizes total n).sum = total := by
  have hmod := Int.emod_nonneg total (by omega : n ≠ 0)
  have hlt := Int.emod_lt_of_pos total hn
  have hcast : ((n.toNat : Nat) : Int) = n := Int.toNat_of_nonneg (by omega)
  rw [evenSizes, sum_replicate_add _ _ _ hmod (by omega), hcast]
  have := Int.mul_ediv_add_emod total n
  rw [mul_comm]
  exact this

theorem evenSizes_nonneg {total n : Int} (hn : 0 < n) (ht : 0 ≤ total) :
    ∀ s ∈ evenSizes total n, 0 ≤ s := by
  intro s hs
  obtain ⟨i, -, rfl⟩ := List.mem_map.mp hs
  have := Int.ediv_nonneg ht (by omega : 0 ≤ n)
  split <;> omega

theorem evenSizes_nonpos {total n : Int} (ht : total ≤ 0) : ∀ s ∈ evenSizes total n, s ≤ 0 := by
  intro s hs
  obtain ⟨i, hi, rfl⟩ := List.mem_map.mp hs
  have hn : 0 < n := by
    have := List.mem_range.mp hi
    omega
  have hdiv : total / n ≤ 0 := Int.ediv_nonpos_of_nonpos_of_neg ht hn
  have hparts := Int.mul_ediv_add_emod total n
  split
  next hmod =>
    -- a remainder makes the quotient negative
    by_contra hpos
    have hzero : total / n = 0 := by omega
    rw [hzero] at hparts
    omega
  next => omega

theorem handOut_sum {floors : List Int} {winners : List Nat}
    (h : ∀ i ∈ winners, i < floors.length) :
    (handOut floors winners).sum = floors.sum + winners.length := by
  unfold handOut
  induction winners generalizing floors with
  | nil => simp
  | cons i winners ih =>
      rw [List.foldl_cons, ih, Lists.sum_modify (h i List.mem_cons_self) fun _ => rfl, List.length_cons]
      · push_cast
        ring
      · intro j hj
        rw [List.length_modify]
        exact h j (List.mem_cons_of_mem _ hj)

theorem handOut_nonneg {floors : List Int} {winners : List Nat} (h : ∀ s ∈ floors, 0 ≤ s) :
    ∀ s ∈ handOut floors winners, 0 ≤ s := by
  unfold handOut
  induction winners generalizing floors with
  | nil => exact h
  | cons i winners ih =>
      apply ih
      intro s hs
      obtain ⟨j, hj⟩ := List.mem_iff_getElem?.mp hs
      rw [List.getElem?_modify] at hj
      obtain ⟨t, ht, rfl⟩ := Option.map_eq_some_iff.mp hj
      have := h t (List.mem_of_getElem? ht)
      split <;> omega

/-- How many elements `xs[:k]` has of `n`. -/
theorem upTo_length {α : Type} (k : Int) (xs : List α) :
    ((upTo k xs).length : Int) =
      if 0 ≤ k then min k xs.length else max 0 ((xs.length : Int) + k) := by
  unfold upTo
  split
  · rw [List.length_take]
    omega
  · rw [List.length_take]
    omega

section Weighted
variable {R : Rounding} {sum : List PyFloat → PyFloat} {total : Int} {weights : List PyFloat}

private theorem truncate_nonneg {q : Rat} {i : Int} (hq : 0 ≤ q) (h : truncate (.fin q) = .ok i) :
    0 ≤ i := by
  rw [truncate, if_neg (not_lt.mpr hq)] at h
  cases h
  exact Rat.le_floor_iff.mpr (by simpa using hq)

theorem floors_length {fs : List Int} (h : floors R sum total weights = .ok fs) :
    fs.length = weights.length := by
  obtain ⟨ss, hss, hfs⟩ := Results.bind_eq_ok.mp h
  rw [← (Results.mapM_forall₂ hfs).length_eq, ← (Results.mapM_forall₂ hss).length_eq]

theorem floors_nonneg (hR : R.KeepsSign) (ht : 0 ≤ total)
    (hw : weights.any (·.lt (.fin 0)) = false) (hsum : (sum weights).le (.fin 0) = false)
    {fs : List Int} (h : floors R sum total weights = .ok fs) : ∀ f ∈ fs, 0 ≤ f := by
  obtain ⟨ss, hss, hfs⟩ := Results.bind_eq_ok.mp h
  intro f hf
  obtain ⟨x, hx, hxf⟩ := Results.mapM_mem hfs f hf
  obtain ⟨w, hmem, hwx⟩ := Results.mapM_mem hss x hx
  have hw' : w.lt (.fin 0) = false := by
    simpa using List.any_eq_false.mp hw w hmem
  cases x with
  | nan => cases hxf
  | inf n => cases hxf
  | fin q =>
      apply truncate_nonneg ?_ hxf
      unfold share at hwx
      cases hround : R.round total with
      | nan => simp [hround] at hwx
      | inf n => simp [hround] at hwx
      | fin t =>
          have ht' : (0 : Rat) ≤ t := hR _ _ (by exact_mod_cast ht) hround
          rw [hround] at hwx
          exact hR.mul_div ht' hw' hsum (Except.ok.inj hwx)

/-- What weighting makes of the floors: they keep their places, and the leftover
goes to that many of them if it can. -/
theorem weightedSizes_spec (hR : R.KeepsSign) (ht : 0 ≤ total)
    (hw : weights.any (·.lt (.fin 0)) = false) (hsum : (sum weights).le (.fin 0) = false)
    {sizes : List Int} (h : weightedSizes R sum total weights = .ok sizes) :
    (∀ s ∈ sizes, 0 ≤ s) ∧
      sizes.sum = total - leftover R sum total weights +
        (if 0 ≤ leftover R sum total weights
          then min (leftover R sum total weights) weights.length
          else max 0 (weights.length + leftover R sum total weights)) := by
  obtain ⟨ss, hss, h⟩ := Results.bind_eq_ok.mp h
  obtain ⟨fs, hfs, h⟩ := Results.bind_eq_ok.mp h
  cases h
  have hfloors : floors R sum total weights = .ok fs := Results.bind_eq_ok.mpr ⟨ss, hss, hfs⟩
  have hleft : leftover R sum total weights = total - fs.sum := by
    unfold leftover
    rw [hfloors]
  have hperm : (order R ss fs).Perm (List.range fs.length) := List.perm_insertionSort _ _
  have hlen : (order R ss fs).length = weights.length := by
    rw [hperm.length_eq, List.length_range, floors_length hfloors]
  have hvalid : ∀ i ∈ upTo (total - fs.sum) (order R ss fs), i < fs.length := by
    intro i hi
    have hmem : i ∈ order R ss fs := by
      unfold upTo at hi
      split at hi <;> exact List.mem_of_mem_take hi
    exact List.mem_range.mp (hperm.mem_iff.mp hmem)
  refine ⟨handOut_nonneg (floors_nonneg hR ht hw hsum hfloors), ?_⟩
  rw [handOut_sum hvalid, upTo_length, hlen, hleft]
  omega

/-- The ranges of a builder are consecutive. They end at `total` exactly when the
leftover fits, and before it exactly when too much is left over. -/
theorem split_spec {R : Rounding} (hR : R.KeepsSign) {total nTiles : Int}
    {weights : Option (List PyFloat)} {rs : List (Int × Int)}
    (h : split R sum total nTiles weights = .ok rs) :
    ∃ sizes, rs = spans 0 sizes ∧ (∀ s ∈ sizes, 0 ≤ s) ∧
      (sizes.sum = total ↔ Fits R sum total weights) ∧
      ∀ y, y < total → (sizes.sum ≤ y ↔ total - unassigned R sum total weights ≤ y) := by
  cases weights with
  | none =>
      unfold split evenRanges at h
      simp only at h
      split at h
      · cases h
      next hn =>
        split at h
        · cases h
        next ht =>
          cases h
          have hsum : (evenSizes total nTiles).sum = total := evenSizes_sum (by omega)
          refine ⟨_, rfl, evenSizes_nonneg (by omega) (by omega), ?_, ?_⟩
          · refine ⟨?_, fun _ => hsum⟩
            intro _ ws hws
            cases hws
          · intro y hy
            rw [hsum]
            simp [unassigned]
  | some ws =>
      unfold split weightedRanges at h
      simp only at h
      split at h
      · cases h
      split at h
      · cases h
      split at h
      · cases h
      next ht =>
        split at h
        · cases h
        next hw =>
          split at h
          · cases h
          next hs =>
            obtain ⟨sizes, hsizes, h⟩ := Results.bind_eq_ok.mp h
            cases h
            obtain ⟨hnonneg, hsum⟩ := weightedSizes_spec hR (by omega) (by simpa using hw)
              (by simpa using hs) hsizes
            have hfits : Fits R sum total (some ws) ↔
                0 ≤ leftover R sum total ws ∧ leftover R sum total ws ≤ ws.length := by
              refine ⟨fun hf => hf ws rfl, ?_⟩
              intro hf ws' hws'
              cases hws'
              exact hf
            refine ⟨sizes, rfl, hnonneg, ?_, ?_⟩
            · rw [hfits, hsum]
              split <;> omega
            · intro y hy
              unfold unassigned
              rw [hsum]
              simp only
              split <;> omega

end Weighted

/-- The float next to 2 ^ 54 + 3 is one more, and the only tile gets that many. -/
theorem hugeSplit : split PyNumber.binary64 PyNumber.binary64.sum (2 ^ 54 + 3) 1 (some [.fin 1]) =
    .ok (spans 0 [2 ^ 54 + 4]) := by
  decide +kernel

theorem unevenSplit : split PyNumber.binary64 PyNumber.binary64.sum 4 2 (some [.fin 1, .fin 2]) =
    .ok [(0, 1), (1, 4)] := by
  decide +kernel

theorem unevenSplit_fits :
    Fits PyNumber.binary64 PyNumber.binary64.sum 4 (some [.fin 1, .fin 2]) := by
  rintro ws ⟨⟩
  decide +kernel

end OneCompute.Workloads
