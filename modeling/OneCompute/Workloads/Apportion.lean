import OneCompute.Lib.LargestRemainder
import OneCompute.Lib.PyMean
import OneCompute.Workloads.Partition

/-!
Weighted ranges in exact arithmetic are the split of the largest remainder.
-/

namespace OneCompute.Workloads
open LargestRemainder (Ranked seats)
open PyFloat (val)
open PyNumber (exact)
open Spans (spans)

/-! ## Weights -/

/-- Weights that can be split by. -/
structure Weighted (qs : List ℚ) : Prop where
  nonneg : ∀ q ∈ qs, 0 ≤ q
  pos : 0 < qs.sum

/-- The exact proportional share of the `i`-th weight. -/
def shareOf (total : Int) (qs : List ℚ) (i : Nat) : ℚ := total * qs.getD i 0 / qs.sum

theorem sum_fin (qs : List ℚ) : exact.sum (qs.map .fin) = .fin qs.sum := by
  have hfin : ∀ x ∈ qs.map PyFloat.fin, x.isFinite = true := by
    intro x hx
    obtain ⟨q, -, rfl⟩ := List.mem_map.mp hx
    rfl
  rw [PyNumber.sum_exact hfin, List.map_map]
  exact congrArg PyFloat.fin (congrArg List.sum (List.map_id qs))

/-- A weight whose share is an integer part is a rational. -/
theorem fin_of_share {total : Int} {s w x : PyFloat} {i : Int}
    (hshare : share exact total s w = .ok x) (hx : truncate x = .ok i) : ∃ q, w = .fin q := by
  unfold share at hshare
  have hshare := Except.ok.inj hshare
  cases w with
  | fin q => exact ⟨q, rfl⟩
  | nan =>
      cases s <;> cases hshare <;> cases hx
  | inf n =>
      change exact.div (if (total : ℚ) = 0 then .nan else _) s = x at hshare
      split at hshare <;> cases s <;> cases hshare <;> cases hx

theorem fin_weights {total : Int} {ws : List PyFloat} {fs : List Int}
    (h : floors exact exact.sum total ws = .ok fs) : ∃ qs : List ℚ, ws = qs.map .fin := by
  obtain ⟨ss, hss, hfs⟩ := Results.bind_eq_ok.mp h
  have hall : ∀ w ∈ ws, ∃ q, w = .fin q := by
    intro w hw
    obtain ⟨x, hx, hshare⟩ := Results.forall₂_mem_left (Results.mapM_forall₂ hss) hw
    obtain ⟨i, -, htrunc⟩ := Results.forall₂_mem_left (Results.mapM_forall₂ hfs) hx
    exact fin_of_share hshare htrunc
  refine ⟨ws.map val, ?_⟩
  rw [List.map_map]
  apply (List.map_id ws).symm.trans
  apply List.map_congr_left
  intro w hw
  obtain ⟨q, rfl⟩ := hall w hw
  rfl

/-! ## Sizes -/

section Sizes
variable {total : Int} {qs : List ℚ}

theorem getD_fin {f : ℚ → ℚ} (hf : f 0 = 0) (i : Nat) :
    (qs.map fun q => PyFloat.fin (f q)).getD i (.fin 0) = .fin (f (qs.getD i 0)) := by
  rw [List.getD_eq_getElem?_getD, List.getD_eq_getElem?_getD, List.getElem?_map]
  cases qs[i]? with
  | none => exact congrArg PyFloat.fin hf.symm
  | some q => rfl

theorem shares_exact (total : Int) (qs : List ℚ) :
    shares exact exact.sum total (qs.map .fin) = .ok (qs.map fun q => .fin (total * q / qs.sum)) := by
  unfold shares
  rw [sum_fin, Results.mapM_ok (g := fun w => .fin (total * val w / qs.sum)), List.map_map]
  · rfl
  · intro w hw
    obtain ⟨q, -, rfl⟩ := List.mem_map.mp hw
    rfl

theorem truncate_floor {x : ℚ} (h : 0 ≤ x) : truncate (.fin x) = .ok ⌊x⌋ := by
  rw [truncate, if_neg (not_lt.mpr h)]
  rfl

theorem Weighted.share_nonneg (h : Weighted qs) (ht : 0 ≤ total) {q : ℚ} (hq : q ∈ qs) :
    0 ≤ (total : ℚ) * q / qs.sum := by
  have htotal : (0 : ℚ) ≤ total := by exact_mod_cast ht
  exact div_nonneg (mul_nonneg htotal (h.nonneg q hq)) h.pos.le

theorem Weighted.floors_exact (h : Weighted qs) (ht : 0 ≤ total) :
    (qs.map fun q => PyFloat.fin (total * q / qs.sum)).mapM truncate =
      .ok (qs.map fun q => ⌊total * q / qs.sum⌋) := by
  rw [Results.mapM_ok (g := fun x => ⌊val x⌋), List.map_map]
  · rfl
  · intro x hx
    obtain ⟨q, hq, rfl⟩ := List.mem_map.mp hx
    exact truncate_floor (h.share_nonneg ht hq)

theorem order_sorted {ss : List PyFloat} {fs : List Int} {g : Nat → ℚ}
    (hg : ∀ i, remainder exact ss fs i = .fin (g i)) :
    (order exact ss fs).Pairwise fun i j => g j < g i ∨ g i = g j ∧ i ≤ j := by
  have hrel : ∀ i j : Nat, (PyFloat.lt (remainder exact ss fs j) (remainder exact ss fs i) = true ∨
      remainder exact ss fs i = remainder exact ss fs j ∧ i ≤ j) ↔
        (g j < g i ∨ g i = g j ∧ i ≤ j) := by
    intro i j
    rw [hg, hg]
    simp [PyFloat.lt]
  have htotal : Std.Total fun i j : Nat =>
      PyFloat.lt (remainder exact ss fs j) (remainder exact ss fs i) = true ∨
        remainder exact ss fs i = remainder exact ss fs j ∧ i ≤ j := by
    constructor
    intro i j
    rw [hrel, hrel]
    rcases lt_trichotomy (g i) (g j) with hlt | heq | hgt
    · exact .inr (.inl hlt)
    · rcases Nat.le_total i j with hle | hle
      · exact .inl (.inr ⟨heq, hle⟩)
      · exact .inr (.inr ⟨heq.symm, hle⟩)
    · exact .inl (.inl hgt)
  have htrans : IsTrans Nat fun i j : Nat =>
      PyFloat.lt (remainder exact ss fs j) (remainder exact ss fs i) = true ∨
        remainder exact ss fs i = remainder exact ss fs j ∧ i ≤ j := by
    constructor
    intro i j k
    rw [hrel, hrel, hrel]
    rintro (hij | ⟨hij, hle⟩) (hjk | ⟨hjk, hle'⟩)
    · exact .inl (hjk.trans hij)
    · exact .inl (hjk ▸ hij)
    · exact .inl (hij ▸ hjk)
    · exact .inr ⟨hij.trans hjk, hle.trans hle'⟩
  exact (List.pairwise_insertionSort _ _).imp fun {i j} h => (hrel i j).mp h

theorem remainder_exact (total : Int) (qs : List ℚ) (i : Nat) :
    remainder exact (qs.map fun q => .fin (total * q / qs.sum))
      (qs.map fun q => ⌊total * q / qs.sum⌋) i = .fin (Int.fract (shareOf total qs i)) := by
  have hfloor : (qs.map fun q => ⌊total * q / qs.sum⌋).getD i 0 = ⌊shareOf total qs i⌋ := by
    unfold shareOf
    rw [List.getD_eq_getElem?_getD, List.getD_eq_getElem?_getD, List.getElem?_map]
    cases qs[i]? with
    | none => simp
    | some q => rfl
  unfold remainder
  rw [getD_fin (f := fun q => total * q / qs.sum) (by simp), hfloor]
  exact PyNumber.exact_sub _ _

theorem range_getD {α β : Type} (f : α → β) (xs : List α) (d : α) :
    (List.range xs.length).map (fun i => f (xs.getD i d)) = xs.map f := by
  apply List.ext_getElem
  · simp
  · intro i hi hi'
    simp only [List.length_map] at hi'
    simp [List.getD_eq_getElem?_getD, List.getElem?_eq_getElem hi']

/-- The tiles by the remainders of their exact shares. -/
def ranking (total : Int) (qs : List ℚ) : List Nat :=
  order exact (qs.map fun q => .fin (total * q / qs.sum)) (qs.map fun q => ⌊total * q / qs.sum⌋)

theorem ranking_perm (total : Int) (qs : List ℚ) :
    (ranking total qs).Perm (List.range qs.length) := by
  have hperm := List.perm_insertionSort (fun i j : Nat =>
    PyFloat.lt (remainder exact (qs.map fun q => .fin (total * q / qs.sum))
        (qs.map fun q => ⌊total * q / qs.sum⌋) j)
      (remainder exact (qs.map fun q => .fin (total * q / qs.sum))
        (qs.map fun q => ⌊total * q / qs.sum⌋) i) = true ∨
      remainder exact (qs.map fun q => .fin (total * q / qs.sum))
        (qs.map fun q => ⌊total * q / qs.sum⌋) i =
      remainder exact (qs.map fun q => .fin (total * q / qs.sum))
        (qs.map fun q => ⌊total * q / qs.sum⌋) j ∧ i ≤ j)
    (List.range (qs.map fun q => ⌊total * q / qs.sum⌋).length)
  rw [List.length_map] at hperm
  unfold ranking order
  rw [List.length_map]
  exact hperm

/-- What flooring the exact shares leaves over. -/
def surplus (total : Int) (qs : List ℚ) : Int :=
  total - (qs.map fun q => ⌊total * q / qs.sum⌋).sum

/-- The sizes of the split by the largest remainder. -/
def exactSizes (total : Int) (qs : List ℚ) : List Int :=
  (List.range qs.length).map (seats (shareOf total qs) (ranking total qs) (surplus total qs).toNat)

theorem Weighted.surplus_eq (h : Weighted qs) (total : Int) :
    (((ranking total qs).map fun i => Int.fract (shareOf total qs i)).sum : ℚ) =
      surplus total qs := by
  rw [((ranking_perm total qs).map _).sum_eq, ← LargestRemainder.leftover_eq]
  have hshares : (List.range qs.length).map (shareOf total qs) =
      qs.map fun q => total * q / qs.sum :=
    range_getD (fun q => total * q / qs.sum) qs 0
  have hfloors : ((List.range qs.length).map fun i => ⌊shareOf total qs i⌋) =
      qs.map fun q => ⌊total * q / qs.sum⌋ :=
    range_getD (fun q => ⌊total * q / qs.sum⌋) qs 0
  have hsum : (qs.map fun q => total * q / qs.sum).sum = total := by
    have hscale : ∀ (c : ℚ) (xs : List ℚ), (xs.map fun q => c * q / qs.sum).sum = c * xs.sum / qs.sum := by
      intro c xs
      induction xs with
      | nil => simp
      | cons x xs ih =>
          rw [List.map_cons, List.sum_cons, List.sum_cons, ih]
          ring
    rw [hscale, mul_div_assoc, div_self h.pos.ne', mul_one]
  rw [hshares, hfloors, hsum]
  unfold surplus
  push_cast
  rfl

theorem Weighted.surplus_nonneg (h : Weighted qs) (total : Int) : 0 ≤ surplus total qs := by
  have hsum : (0 : ℚ) ≤ ((ranking total qs).map fun i => Int.fract (shareOf total qs i)).sum := by
    apply List.sum_nonneg
    intro x hx
    obtain ⟨i, -, rfl⟩ := List.mem_map.mp hx
    exact Int.fract_nonneg _
  rw [h.surplus_eq] at hsum
  exact_mod_cast hsum

theorem Weighted.ranked (h : Weighted qs) (total : Int) :
    Ranked (shareOf total qs) (ranking total qs) (surplus total qs).toNat := by
  constructor
  · apply (order_sorted (remainder_exact total qs)).imp
    rintro i j (hlt | ⟨heq, -⟩)
    · exact hlt.le
    · exact heq.ge
  · rw [h.surplus_eq]
    have hcast := Int.toNat_of_nonneg (h.surplus_nonneg total)
    exact_mod_cast hcast.symm

theorem handOut_getElem? (floors : List Int) (winners : List Nat) (i : Nat) :
    (handOut floors winners)[i]? = floors[i]?.map (· + (winners.count i : Int)) := by
  unfold handOut
  induction winners generalizing floors with
  | nil => simp
  | cons w winners ih =>
      rw [List.foldl_cons, ih, List.getElem?_modify, List.count_cons]
      cases floors[i]? with
      | none => rfl
      | some f =>
          by_cases hw : w = i
          · subst hw
            simp
            ring
          · simp [hw]

theorem Weighted.handOut_eq (h : Weighted qs) (total : Int) :
    handOut (qs.map fun q => ⌊total * q / qs.sum⌋)
        (upTo (surplus total qs) (ranking total qs)) =
      exactSizes total qs := by
  have hnodup : ((ranking total qs).take (surplus total qs).toNat).Nodup :=
    ((ranking_perm total qs).nodup_iff.mpr List.nodup_range).sublist (List.take_sublist _ _)
  unfold upTo exactSizes
  rw [if_pos (h.surplus_nonneg total)]
  apply List.ext_getElem?
  intro i
  rw [handOut_getElem?, List.getElem?_map, List.getElem?_map]
  by_cases hi : i < qs.length
  · rw [List.getElem?_range hi, List.getElem?_eq_getElem hi, hnodup.count]
    simp only [Option.map_some]
    unfold seats shareOf
    rw [List.getD_eq_getElem?_getD, List.getElem?_eq_getElem hi]
    simp
  · rw [List.getElem?_eq_none (by simpa using hi), List.getElem?_eq_none (by simpa using hi)]
    rfl

theorem Weighted.sizes_exact (h : Weighted qs) (ht : 0 ≤ total) :
    weightedSizes exact exact.sum total (qs.map .fin) = .ok (exactSizes total qs) := by
  unfold weightedSizes
  rw [shares_exact]
  dsimp only [bind, Except.bind]
  rw [h.floors_exact ht]
  exact congrArg Except.ok (h.handOut_eq total)

/-! ## Ranges -/

/-- What is accepted as weights is exact, and the sizes are those of the largest remainder. -/
theorem weightedSizes_exact {ws : List PyFloat} {sizes : List Int} (ht : 0 ≤ total)
    (hneg : ¬ ws.any (·.lt (.fin 0)) = true) (hsum : ¬ (exact.sum ws).le (.fin 0) = true)
    (h : weightedSizes exact exact.sum total ws = .ok sizes) :
    ∃ qs, ws = qs.map .fin ∧ Weighted qs ∧ sizes = exactSizes total qs := by
  have hfloors : ∃ fs, floors exact exact.sum total ws = .ok fs := by
    obtain ⟨ss, hss, hrest⟩ := Results.bind_eq_ok.mp h
    obtain ⟨fs, hfs, -⟩ := Results.bind_eq_ok.mp hrest
    exact ⟨fs, Results.bind_eq_ok.mpr ⟨ss, hss, hfs⟩⟩
  obtain ⟨fs, hfs⟩ := hfloors
  obtain ⟨qs, rfl⟩ := fin_weights hfs
  have hw : Weighted qs := by
    constructor
    · intro q hq
      by_contra hlt
      apply hneg
      rw [List.any_eq_true]
      exact ⟨.fin q, List.mem_map_of_mem hq, by simpa [PyFloat.lt] using hlt⟩
    · rw [sum_fin] at hsum
      simpa [PyFloat.le] using hsum
  rw [hw.sizes_exact ht] at h
  cases h
  exact ⟨qs, rfl, hw, rfl⟩

theorem weightedRanges_exact {ws : List PyFloat} {ranges : List (Int × Int)}
    (h : weightedRanges exact exact.sum total ws = .ok ranges) :
    ∃ qs, ws = qs.map .fin ∧ Weighted qs ∧ 0 ≤ total ∧ ranges = spans 0 (exactSizes total qs) := by
  unfold weightedRanges at h
  split at h
  · cases h
  split at h
  · cases h
  split at h
  · cases h
  split at h
  · cases h
  next htotal hneg hsum =>
    obtain ⟨sizes, hsizes, h⟩ := Results.bind_eq_ok.mp h
    cases h
    obtain ⟨qs, hqs, hw, rfl⟩ := weightedSizes_exact (by omega) hneg hsum hsizes
    exact ⟨qs, hqs, hw, by omega, rfl⟩

theorem getD_of_getElem? {i : Nat} {q : ℚ} (h : qs[i]? = some q) :
    shareOf total qs i = total * q / qs.sum := by
  unfold shareOf
  rw [List.getD_eq_getElem?_getD, h]
  rfl

theorem Weighted.seats_nonneg (h : Weighted qs) (ht : 0 ≤ total) : ∀ s ∈ exactSizes total qs, 0 ≤ s := by
  intro s hs
  obtain ⟨i, hi, rfl⟩ := List.mem_map.mp hs
  have hlt := List.mem_range.mp hi
  have hshare : 0 ≤ shareOf total qs i := by
    rw [getD_of_getElem? (List.getElem?_eq_getElem hlt)]
    exact h.share_nonneg ht (List.getElem_mem hlt)
  have hfloor := Int.floor_nonneg.mpr hshare
  unfold seats
  split <;> omega

theorem Weighted.seats_sum (h : Weighted qs) (total : Int) :
    (exactSizes total qs).sum = total := by
  have hperm := ranking_perm total qs
  have hsum := (h.ranked total).sum_seats (hperm.nodup_iff.mpr List.nodup_range)
  rw [(hperm.map _).sum_eq, (hperm.map _).sum_eq] at hsum
  have hfloors : ((List.range qs.length).map fun i => ⌊shareOf total qs i⌋) =
      qs.map fun q => ⌊total * q / qs.sum⌋ :=
    range_getD (fun q => ⌊total * q / qs.sum⌋) qs 0
  unfold exactSizes
  rw [hsum, hfloors, Int.toNat_of_nonneg (h.surplus_nonneg total)]
  unfold surplus
  omega

/-- With equal weights everyone's share is the same. -/
theorem Weighted.share_even (h : Weighted qs) (hsame : ∀ v ∈ qs, ∀ w ∈ qs, v = w) {i : Nat}
    (hi : i < qs.length) : shareOf total qs i = (total : ℚ) / (qs.length : ℚ) := by
  have hmem : qs[i] ∈ qs := List.getElem_mem hi
  have hall : qs = List.replicate qs.length qs[i] :=
    List.eq_replicate_iff.mpr ⟨rfl, fun v hv => hsame v hv _ hmem⟩
  have hsum : qs.sum = qs.length * qs[i] := by
    have := congrArg List.sum hall
    rwa [List.sum_replicate, nsmul_eq_mul] at this
  have hpos := h.pos
  rw [hsum] at hpos
  rw [getD_of_getElem? (List.getElem?_eq_getElem hi), hsum]
  exact mul_div_mul_right _ _ (right_ne_zero_of_mul hpos.ne')

theorem Weighted.ranking_even (h : Weighted qs) (hsame : ∀ v ∈ qs, ∀ w ∈ qs, v = w) (total : Int) :
    ranking total qs = List.range qs.length := by
  unfold ranking order
  rw [List.length_map]
  apply List.Pairwise.insertionSort_eq
  apply List.pairwise_lt_range.imp_of_mem
  intro i j hi hj hlt
  right
  rw [remainder_exact, remainder_exact, h.share_even hsame (List.mem_range.mp hi),
    h.share_even hsame (List.mem_range.mp hj)]
  exact ⟨rfl, hlt.le⟩

theorem Weighted.surplus_even (h : Weighted qs) (hsame : ∀ v ∈ qs, ∀ w ∈ qs, v = w) (total : Int) :
    surplus total qs = total % qs.length := by
  have hfloors : (qs.map fun q => ⌊total * q / qs.sum⌋) =
      List.replicate qs.length (total / (qs.length : ℤ)) := by
    rw [← range_getD _ qs 0, List.eq_replicate_iff]
    refine ⟨by simp, ?_⟩
    intro f hf
    obtain ⟨i, hi, rfl⟩ := List.mem_map.mp hf
    rw [← Rat.floor_intCast_div_natCast]
    exact congrArg Int.floor (h.share_even hsame (List.mem_range.mp hi))
  unfold surplus
  rw [hfloors, List.sum_replicate, nsmul_eq_mul, Int.emod_def]

/-- With equal weights the first get the surplus, as in an even split. -/
theorem Weighted.seats_even (h : Weighted qs) (hsame : ∀ v ∈ qs, ∀ w ∈ qs, v = w) (total : Int) :
    exactSizes total qs =
      evenSizes total qs.length := by
  have hle := (h.ranked total).le_length
  rw [h.ranking_even hsame, List.length_range] at hle
  unfold exactSizes evenSizes
  rw [h.ranking_even hsame, Int.toNat_natCast]
  apply List.map_congr_left
  intro i hi
  have hnonneg := h.surplus_nonneg total
  have hmem : i ∈ (List.range qs.length).take (surplus total qs).toNat ↔
      (i : Int) < total % qs.length := by
    rw [← h.surplus_even hsame, List.take_range, List.mem_range]
    omega
  unfold seats
  rw [h.share_even hsame (List.mem_range.mp hi), Rat.floor_intCast_div_natCast]
  simp only [hmem]

theorem exactSizes_getElem? {i : Nat} (hi : i < qs.length) :
    (exactSizes total qs)[i]? =
      some (seats (shareOf total qs) (ranking total qs) (surplus total qs).toNat i) := by
  unfold exactSizes
  rw [List.getElem?_map, List.getElem?_range hi]
  rfl

/-- A heavier weight never gets less. -/
theorem Weighted.seats_mono (h : Weighted qs) (ht : 0 ≤ total) {i j : Nat} {v w : ℚ}
    (hv : qs[i]? = some v) (hw : qs[j]? = some w) (hlt : v < w) :
    seats (shareOf total qs) (ranking total qs) (surplus total qs).toNat i ≤
      seats (shareOf total qs) (ranking total qs) (surplus total qs).toNat j := by
  have hranked := h.ranked total
  by_cases hzero : total = 0
  · -- of nothing everyone gets nothing
    have hnone : ∀ k, seats (shareOf total qs) (ranking total qs) (surplus total qs).toNat k = 0 := by
      intro k
      have hshare : shareOf total qs k = 0 := by
        simp [shareOf, hzero]
      rcases hranked.seats_floor_or_ceil k with hk | hk
      · rw [hk, hshare, Int.floor_zero]
      · rw [hk, hshare, Int.ceil_zero]
    rw [hnone, hnone]
  · have hj : j ∈ ranking total qs :=
      (ranking_perm total qs).mem_iff.mpr (List.mem_range.mpr (List.getElem?_eq_some_iff.mp hw).1)
    apply hranked.seats_mono hj
    rw [getD_of_getElem? hv, getD_of_getElem? hw]
    have htotal : (0 : ℚ) < total := by exact_mod_cast (by omega : 0 < total)
    exact div_lt_div_of_pos_right (mul_lt_mul_of_pos_left hlt htotal) h.pos

/-! ## The split -/

/-- In exact arithmetic weighted ranges cover the work once and in order, every size is
the floor or the ceiling of the exact share, a heavier weight never gets less, and equal
weights split evenly. -/
theorem weightedRanges_largest_remainder {ws : List PyFloat} {ranges : List (Int × Int)}
    (h : weightedRanges exact exact.sum total ws = .ok ranges) :
    ∃ qs : List ℚ, ws = qs.map .fin ∧ ranges.length = ws.length ∧
      Spans.Consecutive 0 total ranges ∧
      (∀ (i : Nat) q r, qs[i]? = some q → ranges[i]? = some r →
        r.2 - r.1 = ⌊total * q / qs.sum⌋ ∨ r.2 - r.1 = ⌈total * q / qs.sum⌉) ∧
      (∀ (i j : Nat) v w r s, qs[i]? = some v → qs[j]? = some w → ranges[i]? = some r →
        ranges[j]? = some s → v < w → r.2 - r.1 ≤ s.2 - s.1) ∧
      ((∀ v ∈ qs, ∀ w ∈ qs, v = w) → evenRanges total ws.length = .ok ranges) := by
  obtain ⟨qs, rfl, hw, ht, rfl⟩ := weightedRanges_exact h
  have hranked := hw.ranked total
  have hsize : ∀ (i : Nat) q r, qs[i]? = some q →
      (spans 0 (exactSizes total qs))[i]? = some r →
      r.2 - r.1 = seats (shareOf total qs) (ranking total qs) (surplus total qs).toNat i := by
    intro i q r hq hr
    have hsizes := Spans.spans_getElem? 0 (exactSizes total qs) i
    rw [hr, exactSizes_getElem? (List.getElem?_eq_some_iff.mp hq).1] at hsizes
    exact Option.some.inj hsizes
  refine ⟨qs, rfl, ?_, ?_, ?_, ?_, ?_⟩
  · rw [Spans.spans_length, exactSizes, List.length_map, List.length_map, List.length_range]
  · have hcover : Spans.Consecutive 0 (0 + (exactSizes total qs).sum) _ :=
      Spans.spans_consecutive (hw.seats_nonneg ht)
    rwa [hw.seats_sum, Int.zero_add] at hcover
  · intro i q r hq hr
    rw [hsize i q r hq hr, ← getD_of_getElem? hq]
    exact hranked.seats_floor_or_ceil i
  · intro i j v w r s hv hw' hr hs hlt
    rw [hsize i v r hv hr, hsize j w s hw' hs]
    exact hw.seats_mono ht hv hw' hlt
  · intro hsame
    have hlen : 0 < qs.length := by
      apply List.length_pos_of_ne_nil
      rintro rfl
      exact absurd hw.pos (by simp)
    unfold evenRanges
    rw [List.length_map, if_neg (by omega), if_neg (by omega), hw.seats_even hsame]

/-- The exact shares are 35/9, 7/9 and 21/9. -/
theorem weightedRanges_largest_remainder_uneven :
    let ranges : List (Int × Int) := [(0, 4), (4, 5), (5, 7)]
    weightedRanges exact exact.sum 7 [.fin 5, .fin 1, .fin 3] = .ok ranges ∧
    ∃ qs : List ℚ, [PyFloat.fin 5, .fin 1, .fin 3] = qs.map .fin ∧ Spans.Consecutive 0 7 ranges ∧
      (∀ (i : Nat) q r, qs[i]? = some q → ranges[i]? = some r →
        r.2 - r.1 = ⌊7 * q / qs.sum⌋ ∨ r.2 - r.1 = ⌈7 * q / qs.sum⌉) ∧
      ∀ (i j : Nat) v w r s, qs[i]? = some v → qs[j]? = some w → ranges[i]? = some r →
        ranges[j]? = some s → v < w → r.2 - r.1 ≤ s.2 - s.1 := by
  intro ranges
  have h : weightedRanges exact exact.sum 7 [.fin 5, .fin 1, .fin 3] = .ok ranges := by
    decide +kernel
  obtain ⟨qs, hqs, -, hspans, hquota, horder, -⟩ := weightedRanges_largest_remainder h
  exact ⟨h, qs, hqs, hspans, hquota, horder⟩

end Sizes

end OneCompute.Workloads
