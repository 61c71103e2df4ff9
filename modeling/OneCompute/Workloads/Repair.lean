import OneCompute.Lib.Levelling
import OneCompute.Workloads.Apportion

/-!
The count-only split: proportional counts, whose zeros are then filled with units
borrowed one at a time from the largest of them.
-/

namespace OneCompute.Workloads
open Levelling (Levelled ahead taken)
open PyNumber (Rounding exact)

/-- `[i for i in range(n) if counts[i] == 0]` -/
def zeros (counts : List Int) : List Nat :=
  (List.range counts.length).filter fun i => counts.getD i 0 = 0

/-- `max(range(n), key=lambda i: (counts[i], -i))` -/
def donor (counts : List Int) : Nat :=
  (List.range counts.length).foldl
    (fun best i => if counts.getD best 0 < counts.getD i 0 then i else best) 0

/-- One round of the loop, `none` once it breaks. -/
def repairStep (counts : List Int) : Option (List Int) :=
  match zeros counts with
  | [] => none
  | first :: _ =>
      if counts.getD (donor counts) 0 ≤ 1 then none
      else some ((counts.modify (donor counts) (· - 1)).modify first (· + 1))

/-- `none` when the loop has not come to an end after that many rounds. -/
def repair : Nat → List Int → Option (List Int)
  | 0, _ => none
  | rounds + 1, counts =>
      match repairStep counts with
      | none => some counts
      | some next => repair rounds next

/-- The counts before any zero is filled. -/
def weightedCounts (R : Rounding) (sum : List PyFloat → PyFloat) (totalUnits : Int)
    (weights : List PyFloat) : Except Raised (List Int) :=
  if weights = [] then .error (.valueError "weights must be non-empty")
  else if totalUnits < 0 then .error (.valueError "total_units must be non-negative")
  else if weights.any (·.lt (.fin 0)) then .error (.valueError "weights must be non-negative")
  else if (sum weights).le (.fin 0) then
    .error (.valueError "weights must sum to a positive value")
  else weightedSizes R sum totalUnits weights

def weightedPartition (R : Rounding) (sum : List PyFloat → PyFloat) (rounds : Nat) (totalUnits : Int)
    (weights : List PyFloat) : Option (Except Raised (List Int)) :=
  match weightedCounts R sum totalUnits weights with
  | .error e => some (.error e)
  | .ok counts =>
      if weights.length ≤ totalUnits then (repair rounds counts).map .ok else some (.ok counts)

/-! ## One round -/

theorem donor_spec {counts : List Int} (hne : counts ≠ []) :
    donor counts < counts.length ∧ ∀ j < counts.length,
      counts.getD j 0 < counts.getD (donor counts) 0 ∨
        counts.getD j 0 = counts.getD (donor counts) 0 ∧ donor counts ≤ j := by
  have hscan : ∀ n, (List.range (n + 1)).foldl
      (fun best i => if counts.getD best 0 < counts.getD i 0 then i else best) 0 < n + 1 ∧
      ∀ j < n + 1, counts.getD j 0 < counts.getD ((List.range (n + 1)).foldl
          (fun best i => if counts.getD best 0 < counts.getD i 0 then i else best) 0) 0 ∨
        counts.getD j 0 = counts.getD ((List.range (n + 1)).foldl
          (fun best i => if counts.getD best 0 < counts.getD i 0 then i else best) 0) 0 ∧
        (List.range (n + 1)).foldl
          (fun best i => if counts.getD best 0 < counts.getD i 0 then i else best) 0 ≤ j := by
    intro n
    induction n with
    | zero =>
        refine ⟨by simp, ?_⟩
        intro j hj
        obtain rfl : j = 0 := by omega
        simp
    | succ n ih =>
        rw [List.range_succ, List.foldl_append, List.foldl_cons, List.foldl_nil]
        generalize (List.range (n + 1)).foldl
          (fun best i => if counts.getD best 0 < counts.getD i 0 then i else best) 0 = best at ih ⊢
        obtain ⟨hbest, hmax⟩ := ih
        split
        next hlt =>
          refine ⟨by omega, ?_⟩
          intro j hj
          by_cases hjn : j = n + 1
          · exact .inr ⟨by rw [hjn], by omega⟩
          · rcases hmax j (by omega) with hless | ⟨heq, -⟩
            · exact .inl (by omega)
            · exact .inl (by omega)
        next hge =>
          refine ⟨by omega, ?_⟩
          intro j hj
          by_cases hjn : j = n + 1
          · subst hjn
            by_cases heq : counts.getD (n + 1) 0 = counts.getD best 0
            · exact .inr ⟨heq, by omega⟩
            · exact .inl (by omega)
          · exact hmax j (by omega)
  obtain ⟨n, hn⟩ : ∃ n, counts.length = n + 1 :=
    ⟨counts.length - 1, by have := List.length_pos_of_ne_nil hne; omega⟩
  unfold donor
  rw [hn]
  exact hscan n

theorem mem_zeros {counts : List Int} {i : Nat} :
    i ∈ zeros counts ↔ i < counts.length ∧ counts.getD i 0 = 0 := by
  simp [zeros]

/-- What one round does: a unit goes from the largest count to the first zero. -/
theorem repairStep_some {counts next : List Int} (h : repairStep counts = some next) :
    ∃ first, first ∈ zeros counts ∧ 1 < counts.getD (donor counts) 0 ∧
      next.length = counts.length ∧ next.sum = counts.sum ∧
      ∀ j, next.getD j 0 = if j = first then 1
        else if j = donor counts then counts.getD j 0 - 1 else counts.getD j 0 := by
  unfold repairStep at h
  split at h
  · cases h
  next first rest hzeros =>
    split at h
    · cases h
    next hdonor =>
      cases h
      have hmem : first ∈ zeros counts := by
        rw [hzeros]
        exact List.mem_cons_self
      obtain ⟨hlt, hzero⟩ := mem_zeros.mp hmem
      have hd := (donor_spec (List.ne_nil_of_length_pos (Nat.zero_lt_of_lt hlt))).1
      have hlt' : first < (counts.modify (donor counts) (· - 1)).length := by
        rwa [List.length_modify]
      refine ⟨first, hmem, by omega, by simp, ?_, ?_⟩
      · rw [Lists.sum_modify hlt' fun _ => rfl, Lists.sum_modify hd fun x => Int.sub_eq_add_neg]
        omega
      · intro j
        rw [Lists.getD_modify _ _ _ _ _ hlt', Lists.getD_modify _ _ _ _ _ hd]
        by_cases hj : j = first
        · subst hj
          have hne : ¬ j = donor counts := by
            rintro heq
            rw [← heq] at hdonor
            omega
          rw [if_pos rfl, if_pos rfl, if_neg hne, hzero]
          rfl
        · rw [if_neg hj, if_neg hj]

theorem repairStep_none {counts : List Int} (h : repairStep counts = none) :
    zeros counts = [] ∨ zeros counts ≠ [] ∧ counts.getD (donor counts) 0 ≤ 1 := by
  unfold repairStep at h
  split at h
  next hnil => exact .inl hnil
  next first rest hzeros =>
    split at h
    next hle => exact .inr ⟨by rw [hzeros]; simp, hle⟩
    next => cases h

/-- Every round leaves one zero less. -/
theorem zeros_decrease {counts next : List Int} (h : repairStep counts = some next) :
    (zeros next).length < (zeros counts).length := by
  obtain ⟨first, hmem, hdonor, hlen, -, hnext⟩ := repairStep_some h
  have hfilter : zeros next = (zeros counts).filter (· ≠ first) := by
    unfold zeros
    rw [hlen, List.filter_filter]
    apply List.filter_congr
    intro j _
    rw [hnext]
    by_cases hj : j = first
    · simp [hj]
    · by_cases hd : j = donor counts
      · subst hd
        have hnext : ¬ counts.getD (donor counts) 0 - 1 = 0 := by omega
        have hbefore : ¬ counts.getD (donor counts) 0 = 0 := by omega
        rw [if_neg hj, if_pos rfl, decide_eq_false hnext, decide_eq_false hbefore, Bool.and_false]
      · simp [hj, hd]
  rw [hfilter, List.length_filter_lt_length_iff_exists]
  exact ⟨first, hmem, by simp⟩

/-! ## The loop -/

/-- What the rounds have made of the counts `c`. -/
structure Repairing (c counts : List Int) : Prop where
  length : counts.length = c.length
  sum : counts.sum = c.sum
  filled : ∀ i, c.getD i 0 = 0 → counts.getD i 0 = 0 ∨ counts.getD i 0 = 1
  kept : ∀ i, 1 ≤ c.getD i 0 → 1 ≤ counts.getD i 0 ∧ counts.getD i 0 ≤ c.getD i 0
  levelled : Levelled (List.range c.length) (c.getD · 0) (counts.getD · 0)

theorem Repairing.refl (c : List Int) : Repairing c c where
  length := rfl
  sum := rfl
  filled := fun _ h => .inl h
  kept := fun _ h => ⟨h, le_rfl⟩
  levelled := Levelled.refl _ _

theorem Repairing.step {c counts next : List Int} (hc : ∀ i, 0 ≤ c.getD i 0)
    (h : Repairing c counts) (hstep : repairStep counts = some next) : Repairing c next := by
  obtain ⟨first, hmem, hdonor, hlen, hsum, hnext⟩ := repairStep_some hstep
  obtain ⟨hlt, hfirst⟩ := mem_zeros.mp hmem
  obtain ⟨hd, htall⟩ := donor_spec (List.ne_nil_of_length_pos (Nat.zero_lt_of_lt hlt))
  have hne : donor counts ≠ first := by
    intro heq
    rw [heq] at hdonor
    omega
  have hwas : c.getD first 0 = 0 := by
    by_contra hpos
    have := h.kept first (by have := hc first; omega)
    omega
  have hgave : 1 ≤ c.getD (donor counts) 0 := by
    by_contra hzero
    rcases h.filled (donor counts) (by have := hc (donor counts); omega) with hd | hd <;> omega
  constructor
  · rw [hlen, h.length]
  · rw [hsum, h.sum]
  · intro i hi
    rw [hnext]
    split
    · exact .inr rfl
    · have hid : i ≠ donor counts := by
        rintro rfl
        omega
      rw [if_neg hid]
      exact h.filled i hi
  · intro i hi
    have hif : i ≠ first := by
      rintro rfl
      omega
    have := h.kept i hi
    rw [hnext, if_neg hif]
    split
    next heq =>
      subst heq
      omega
    next => exact this
  · rw [← h.length]
    have hlevelled := h.levelled
    rw [← h.length] at hlevelled
    apply hlevelled.take (List.mem_range.mpr hd)
    · intro j hj
      exact htall j (List.mem_range.mp hj)
    · rw [hnext, if_neg hne, if_pos rfl]
    · intro j _ hj
      rw [hnext]
      by_cases hjf : j = first
      · rw [if_pos hjf, hjf, hwas]
        exact .inr ⟨le_rfl, by omega⟩
      · rw [if_neg hjf, if_neg hj]
        exact .inl rfl

theorem sum_lt_length {counts : List Int} (hle : ∀ x ∈ counts, x ≤ 1) (hzero : 0 ∈ counts) :
    counts.sum < counts.length := by
  have hall : ∀ xs : List Int, (∀ x ∈ xs, x ≤ 1) → xs.sum ≤ xs.length := by
    intro xs hxs
    have := List.sum_le_card_nsmul xs 1 hxs
    rwa [nsmul_eq_mul, mul_one] at this
  induction counts with
  | nil => cases hzero
  | cons x counts ih =>
      have hx := hle x List.mem_cons_self
      have hrest : ∀ y ∈ counts, y ≤ 1 := fun y hy => hle y (List.mem_cons_of_mem _ hy)
      rw [List.sum_cons, List.length_cons]
      rcases List.mem_cons.mp hzero with rfl | hmem
      · have := hall counts hrest
        omega
      · have := ih hrest hmem
        omega

/-- The loop comes to an end, and then no zero is left if there are units enough. -/
theorem repair_spec {c : List Int} (hc : ∀ i, 0 ≤ c.getD i 0) (henough : c.length ≤ c.sum)
    {counts : List Int} (h : Repairing c counts) :
    ∃ result, (∀ rounds, (zeros counts).length < rounds → repair rounds counts = some result) ∧
      Repairing c result ∧ zeros result = [] := by
  induction hn : (zeros counts).length using Nat.strong_induction_on generalizing counts with
  | _ n ih =>
      subst hn
      cases hstep : repairStep counts with
      | none =>
          refine ⟨counts, ?_, h, ?_⟩
          · intro rounds hrounds
            obtain ⟨rounds, rfl⟩ := Nat.exists_eq_succ_of_ne_zero (Nat.ne_of_gt (Nat.zero_lt_of_lt hrounds))
            unfold repair
            rw [hstep]
          · rcases repairStep_none hstep with hnone | ⟨hsome, hlow⟩
            · exact hnone
            · -- with nothing to borrow there would be too few units
              exfalso
              obtain ⟨first, hfirst⟩ := List.exists_mem_of_ne_nil _ hsome
              obtain ⟨hlt, hzero⟩ := mem_zeros.mp hfirst
              have htall := (donor_spec (List.ne_nil_of_length_pos (Nat.zero_lt_of_lt hlt))).2
              have hget : ∀ i (hi : i < counts.length), counts.getD i 0 = counts[i] := by
                intro i hi
                rw [List.getD_eq_getElem?_getD, List.getElem?_eq_getElem hi]
                rfl
              have hle : ∀ x ∈ counts, x ≤ 1 := by
                intro x hx
                obtain ⟨i, hi, rfl⟩ := List.mem_iff_getElem.mp hx
                rw [← hget i hi]
                rcases htall i hi with hless | ⟨heq, -⟩ <;> omega
              have hmem : 0 ∈ counts := by
                rw [← hzero, hget first hlt]
                exact List.getElem_mem hlt
              have := sum_lt_length hle hmem
              have hsum := h.sum
              have hlength := h.length
              omega
      | some next =>
          have hless := zeros_decrease hstep
          obtain ⟨result, hruns, hresult⟩ := ih _ hless (h.step hc hstep) rfl
          refine ⟨result, ?_, hresult⟩
          intro rounds hrounds
          obtain ⟨rounds, rfl⟩ := Nat.exists_eq_succ_of_ne_zero (Nat.ne_of_gt (Nat.zero_lt_of_lt hrounds))
          unfold repair
          rw [hstep]
          exact hruns rounds (by omega)

/-! ## Shares -/

/-- A strictly heavier weight never receives fewer units. -/
def Tracks (qs : List ℚ) (counts : List Int) : Prop :=
  ∀ (i j : Nat) v w a b, qs[i]? = some v → qs[j]? = some w → counts[i]? = some a →
    counts[j]? = some b → v < w → a ≤ b

/-- The units that are borrowed for the zeros end between a share and a lighter, later
one, at a height that both have. -/
def Separates (qs : List ℚ) (counts : List Int) : Prop :=
  ∃ (i j : Nat) (height : Int) (v w : ℚ), i < j ∧ qs[i]? = some v ∧ qs[j]? = some w ∧ w < v ∧
    2 ≤ height ∧ height ≤ counts.getD i 0 ∧ height ≤ counts.getD j 0 ∧
    ahead (List.range counts.length) (counts.getD · 0) height i < (zeros counts).length ∧
    (zeros counts).length ≤ ahead (List.range counts.length) (counts.getD · 0) height j

section Shares
variable {c counts : List Int}

theorem Repairing.pos (hc : ∀ i, 0 ≤ c.getD i 0) (h : Repairing c counts)
    (hzeros : zeros counts = []) {i : Nat} (hi : i < c.length) : 1 ≤ counts.getD i 0 := by
  have hne : counts.getD i 0 ≠ 0 := by
    intro hzero
    have hmem := mem_zeros.mpr ⟨by rwa [h.length], hzero⟩
    rw [hzeros] at hmem
    cases hmem
  by_cases hzero : c.getD i 0 = 0
  · rcases h.filled i hzero with heq | heq
    · exact absurd heq hne
    · omega
  · have := hc i
    exact (h.kept i (by omega)).1

/-- One unit is taken for every zero. -/
theorem Repairing.taken_eq (hc : ∀ i, 0 ≤ c.getD i 0) (h : Repairing c counts)
    (hzeros : zeros counts = []) :
    taken (List.range c.length) (c.getD · 0) (counts.getD · 0) = (zeros c).length := by
  have hsum : ∀ js : List Nat, (∀ j ∈ js, j < c.length) →
      (((js.map fun j => (c.getD j 0 - counts.getD j 0).toNat).sum : Nat) : Int) =
        (js.map (c.getD · 0)).sum - (js.map (counts.getD · 0)).sum +
          (js.filter fun j => c.getD j 0 = 0).length := by
    intro js hjs
    induction js with
    | nil => rfl
    | cons j js ih =>
        have hj := hjs j List.mem_cons_self
        have hrest := ih fun k hk => hjs k (List.mem_cons_of_mem _ hk)
        have hpos := h.pos hc hzeros hj
        rw [List.map_cons, List.sum_cons, List.map_cons, List.sum_cons, List.map_cons, List.sum_cons]
        rw [Nat.cast_add, hrest]
        by_cases hzero : c.getD j 0 = 0
        · rw [List.filter_cons_of_pos (by simpa using hzero), List.length_cons]
          rcases h.filled j hzero with heq | heq <;> omega
        · rw [List.filter_cons_of_neg (by simpa using hzero)]
          have := hc j
          have := (h.kept j (by omega)).2
          omega
  have hc' : (List.range c.length).map (c.getD · 0) = c :=
    (range_getD id c 0).trans (List.map_id c)
  have hcounts : (List.range c.length).map (counts.getD · 0) = counts := by
    rw [← h.length]
    exact (range_getD id counts 0).trans (List.map_id counts)
  have hall := hsum (List.range c.length) fun j hj => List.mem_range.mp hj
  rw [hc', hcounts, h.sum, Int.sub_self, Int.zero_add] at hall
  exact Int.ofNat_inj.mp hall

/-- The repair keeps the order of the shares exactly when it separates none. -/
theorem Repairing.tracks_iff {qs : List ℚ} (hlen : c.length = qs.length)
    (hc : ∀ i, 0 ≤ c.getD i 0) (hmono : ∀ (i j : Nat) v w, qs[i]? = some v → qs[j]? = some w →
      v < w → c.getD i 0 ≤ c.getD j 0)
    (h : Repairing c counts) (hzeros : zeros counts = []) :
    Tracks qs counts ↔ ¬ Separates qs c := by
  have hfloor : ∀ j ∈ List.range c.length, 1 ≤ counts.getD j 0 :=
    fun j hj => h.pos hc hzeros (List.mem_range.mp hj)
  have hgone : ∀ {i : Nat} {height : Int}, i < c.length → 2 ≤ height → height ≤ c.getD i 0 →
      (counts.getD i 0 < height ↔
        ahead (List.range c.length) (c.getD · 0) height i < (zeros c).length) := by
    intro i height hi htwo hle
    rw [← h.taken_eq hc hzeros]
    exact h.levelled.gone_iff hfloor (List.mem_range.mpr hi) htwo hle
  have hget : ∀ {i : Nat}, i < c.length → counts[i]? = some (counts.getD i 0) := by
    intro i hi
    rw [← h.length] at hi
    rw [List.getD_eq_getElem?_getD, List.getElem?_eq_getElem hi]
    rfl
  have hlt : ∀ {i : Nat} {v : ℚ}, qs[i]? = some v → i < c.length := by
    intro i v hv
    rw [hlen]
    exact (List.getElem?_eq_some_iff.mp hv).1
  constructor
  · rintro htracks ⟨i, j, height, v, w, -, hv, hw, hwv, htwo, hi, hj, hbefore, hafter⟩
    have hilow := (hgone (hlt hv) htwo hi).mpr hbefore
    have hjhigh : ¬ counts.getD j 0 < height := by
      rw [hgone (hlt hw) htwo hj]
      omega
    have := htracks j i w v _ _ hw hv (hget (hlt hw)) (hget (hlt hv)) hwv
    omega
  · intro hnone i j v w a b hv hw ha hb hvw
    rw [hget (hlt hv)] at ha
    rw [hget (hlt hw)] at hb
    cases ha
    cases hb
    by_contra hless
    -- the heavier share has lost a unit at a height where the lighter one has kept its own
    apply hnone
    have hjpos := hfloor j (List.mem_range.mpr (hlt hw))
    have hcij := hmono i j v w hv hw hvw
    have hci : 1 ≤ c.getD i 0 := by
      by_contra hzero
      have := hc i
      rcases h.filled i (by omega) with heq | heq <;> omega
    have hkept := (h.kept i hci).2
    have hlost : counts.getD j 0 + 1 ≤ c.getD j 0 := by omega
    have hkeeps : 2 ≤ counts.getD i 0 := by omega
    have hfirst : counts.getD i 0 < counts.getD j 0 + 1 ∨
        counts.getD i 0 = counts.getD j 0 + 1 ∧ j < i :=
      h.levelled j (List.mem_range.mpr (hlt hw)) i (List.mem_range.mpr (hlt hv))
        _ _ (lt_add_one _) hlost hkeeps le_rfl
    rcases hfirst with hlow | ⟨heq, hji⟩
    · omega
    · refine ⟨j, i, counts.getD i 0, w, v, hji, hw, hv, hvw, by omega, by omega, hkept, ?_, ?_⟩
      · rw [← hgone (hlt hw) (by omega) (by omega)]
        omega
      · rw [← not_lt, ← hgone (hlt hv) (by omega) hkept]
        omega

end Shares

theorem weightedCounts_exact {total : Int} {ws : List PyFloat} {counts : List Int}
    (h : weightedCounts exact exact.sum total ws = .ok counts) :
    ∃ qs, ws = qs.map .fin ∧ Weighted qs ∧ 0 ≤ total ∧ counts = exactSizes total qs := by
  unfold weightedCounts at h
  split at h
  · cases h
  split at h
  · cases h
  split at h
  · cases h
  split at h
  · cases h
  next htotal hneg hsum =>
    obtain ⟨qs, hqs, hw, hcounts⟩ := weightedSizes_exact (by omega) hneg hsum h
    exact ⟨qs, hqs, hw, by omega, hcounts⟩

/-- In exact arithmetic the loop ends, every share gets a unit and the shares add up to
the total; they track the weights exactly when the borrowed units separate none of them. -/
theorem weightedPartition_shares (total : Int) (ws : List PyFloat) :
    ∃ result, (∀ rounds, ws.length < rounds →
        weightedPartition exact exact.sum rounds total ws = some result) ∧
      ∀ counts, result = .ok counts → ws.length ≤ total → ∃ qs : List ℚ, ws = qs.map .fin ∧
        counts.length = ws.length ∧ (∀ x ∈ counts, 1 ≤ x) ∧ counts.sum = total ∧
        (Tracks qs counts ↔ ¬ Separates qs (exactSizes total qs)) := by
  cases hcounts : weightedCounts exact exact.sum total ws with
  | error e =>
      refine ⟨.error e, ?_, ?_⟩
      · intro rounds _
        unfold weightedPartition
        rw [hcounts]
      · intro counts h
        cases h
  | ok start =>
      obtain ⟨qs, rfl, hw, ht, rfl⟩ := weightedCounts_exact hcounts
      have hlen : (exactSizes total qs).length = qs.length := by
        simp [exactSizes]
      by_cases henough : ((qs.map PyFloat.fin).length : Int) ≤ total
      · have hc : ∀ i, 0 ≤ (exactSizes total qs).getD i 0 := by
          intro i
          rw [List.getD_eq_getElem?_getD]
          cases hi : (exactSizes total qs)[i]? with
          | none => exact le_rfl
          | some x => exact hw.seats_nonneg ht x (List.mem_of_getElem? hi)
        have hmono : ∀ (i j : Nat) v w, qs[i]? = some v → qs[j]? = some w → v < w →
            (exactSizes total qs).getD i 0 ≤ (exactSizes total qs).getD j 0 := by
          intro i j v w hv hw' hlt
          rw [List.getD_eq_getElem?_getD, List.getD_eq_getElem?_getD,
            exactSizes_getElem? (List.getElem?_eq_some_iff.mp hv).1,
            exactSizes_getElem? (List.getElem?_eq_some_iff.mp hw').1]
          exact hw.seats_mono ht hv hw' hlt
        have hunits : ((exactSizes total qs).length : Int) ≤ (exactSizes total qs).sum := by
          rw [hw.seats_sum, hlen]
          rwa [List.length_map] at henough
        obtain ⟨result, hruns, hrepaired, hzeros⟩ := repair_spec hc hunits (Repairing.refl _)
        refine ⟨.ok result, ?_, ?_⟩
        · intro rounds hrounds
          have hfew : (zeros (exactSizes total qs)).length ≤ qs.length := by
            rw [← hlen]
            exact (List.length_filter_le _ _).trans_eq List.length_range
          rw [List.length_map] at hrounds
          unfold weightedPartition
          rw [hcounts]
          dsimp only
          rw [if_pos henough, hruns rounds (by omega)]
          rfl
        · intro counts h _
          cases h
          have hlength := hrepaired.length
          refine ⟨qs, rfl, by rw [hlength, hlen, List.length_map], ?_, ?_, ?_⟩
          · intro x hx
            obtain ⟨i, hi, rfl⟩ := List.mem_iff_getElem.mp hx
            have hpos := hrepaired.pos hc hzeros (by omega : i < (exactSizes total qs).length)
            rwa [List.getD_eq_getElem?_getD, List.getElem?_eq_getElem hi] at hpos
          · rw [hrepaired.sum, hw.seats_sum]
          · exact hrepaired.tracks_iff hlen hc hmono hzeros
      · refine ⟨.ok (exactSizes total qs), ?_, ?_⟩
        · intro rounds _
          unfold weightedPartition
          rw [hcounts]
          dsimp only
          rw [if_neg henough]
        · intro counts _ h
          exact absurd h henough

/-- Two equal counts lend to a third: the heavier one, which comes first, is left with less. -/
theorem lentByHeavier : weightedPartition exact exact.sum 4 6 [.fin 10, .fin 9, .fin 1] =
      some (.ok [2, 3, 1]) ∧
    ¬ Tracks [10, 9, 1] [2, 3, 1] := by
  refine ⟨by decide +kernel, ?_⟩
  intro htracks
  have := htracks 1 0 9 10 3 2 rfl rfl rfl rfl (by norm_num)
  omega

end OneCompute.Workloads
