import OneCompute.Workloads.RiskBounds

/-!
When the histogram and the losses of pooled tiles are numbers: counts are whole, so they add
up exactly, and a mean loss is divided by a count of one at least.
-/

namespace OneCompute.Workloads
open PyFloat (pow2 pow2_pos pow2_mono pow2_add slack half_le_slack Below Within Ranged)
open PyNumber (binary64)

/-! ## The merged histogram -/

/-- The counts are whole numbers of magnitude `b` at most. -/
def Whole (b : Rat) (counts : List PyValue.Num) : Prop :=
  ∀ x ∈ counts, ∃ i : Int, x = .int i ∧ |(i : Rat)| ≤ b

theorem addHist_whole {a b : Rat} {hist total : List PyValue.Num} {values : List Json}
    (hb : 0 ≤ b) (hhist : Whole a hist)
    (hvalues : ∀ value ∈ values, ∀ x, PyValue.Num.ofJson value = some x →
      ∃ i : Int, x = .int i ∧ |(i : Rat)| ≤ b) (h : addHist hist values = some total) :
    Whole (a + b) total ∧ total.length = hist.length := by
  induction hist generalizing values total with
  | nil =>
      cases values with
      | nil =>
          cases h
          exact ⟨fun x hx => absurd hx List.not_mem_nil, rfl⟩
      | cons value values => cases h
  | cons count hist ih =>
      obtain ⟨i, rfl, hi⟩ := hhist count List.mem_cons_self
      have hrest : Whole a hist := fun x hx => hhist x (List.mem_cons_of_mem _ hx)
      cases values with
      | nil =>
          cases h
          refine ⟨fun x hx => ?_, rfl⟩
          obtain ⟨j, rfl, hj⟩ := hhist x hx
          exact ⟨j, rfl, by linarith⟩
      | cons value values =>
          obtain ⟨x, hx, h⟩ := Option.bind_eq_some_iff.mp h
          obtain ⟨sum, hsum, h⟩ := Option.bind_eq_some_iff.mp h
          obtain ⟨tail, htail, h⟩ := Option.bind_eq_some_iff.mp h
          cases h
          obtain ⟨j, rfl, hj⟩ := hvalues value List.mem_cons_self x hx
          cases hsum
          obtain ⟨hwhole, hlen⟩ := ih hrest (fun v hv => hvalues v (List.mem_cons_of_mem _ hv)) htail
          refine ⟨?_, congrArg Nat.succ hlen⟩
          intro y hy
          rcases List.mem_cons.mp hy with rfl | hy
          · refine ⟨i + j, rfl, ?_⟩
            rw [Int.cast_add]
            exact (abs_add_le _ _).trans (add_le_add hi hj)
          · exact hwhole y hy

theorem merged_whole {b : Rat} {lists : List (List Json)} {hist total : List PyValue.Num} {a : Rat}
    (hb : 0 ≤ b) (hhist : Whole a hist)
    (hlists : ∀ values ∈ lists, ∀ value ∈ values, ∀ x, PyValue.Num.ofJson value = some x →
      ∃ i : Int, x = .int i ∧ |(i : Rat)| ≤ b) (h : lists.foldlM addHist hist = some total) :
    Whole (a + lists.length * b) total ∧ total.length = hist.length := by
  induction lists generalizing hist a with
  | nil =>
      cases h
      refine ⟨?_, rfl⟩
      rw [List.length_nil, Nat.cast_zero, zero_mul, add_zero]
      exact hhist
  | cons values lists ih =>
      rw [List.foldlM_cons] at h
      obtain ⟨next, hnext, h⟩ := Option.bind_eq_some_iff.mp h
      obtain ⟨hwhole, hlen⟩ := addHist_whole hb hhist (hlists values List.mem_cons_self) hnext
      obtain ⟨htotal, hlen'⟩ := ih hwhole (fun v hv => hlists v (List.mem_cons_of_mem _ hv)) h
      refine ⟨?_, hlen'.trans hlen⟩
      rw [List.length_cons, Nat.cast_succ, add_mul, one_mul, add_comm (_ * b) b, ← add_assoc]
      exact htotal

/-! ## The tails -/

/-- An axis between ends of ordinary size. -/
structure Axis.Plain (axis : Axis) : Prop where
  lo : Below 0 (pow2 300) axis.lo
  hi : Below 0 (pow2 300) axis.hi
  bins : axis.nbins ≤ 2 ^ 50
  width : 0 < axis.nbins → Below 3 (pow2 301) axis.width

theorem ranged_pow2 {e : Int} (hlow : -1021 ≤ e) (hhigh : e ≤ 1022) : Ranged (pow2 e) :=
  .inr ⟨pow2_mono hlow, pow2_mono hhigh⟩

theorem Axis.Plain.center {axis : Axis} (h : axis.Plain) {i : Nat} (hi : i < axis.nbins) :
    Below 6 (pow2 400) (axis.center i) := by
  have hposition : Below 1 (pow2 51) (binary64.add (.fin i) (.fin (1 / 2))) := by
    refine @Below.round 0 _ _ ?_ (ranged_pow2 (by norm_num) (by norm_num)) (by norm_num)
    have hcast : (i : Rat) ≤ 2 ^ 50 := by exact_mod_cast (hi.le.trans h.bins)
    rw [slack, pow_zero, mul_one, abs_of_nonneg (by positivity),
      show pow2 51 = 2 ^ 51 by rw [PyFloat.pow2_eq]; norm_num]
    linarith
  have hproduct := Below.mul hposition (h.width (by omega))
    (by rw [← pow2_add]; exact ranged_pow2 (by norm_num) (by norm_num)) (by norm_num)
  rw [← pow2_add] at hproduct
  have hlo : Below 5 (pow2 352) axis.lo := (h.lo.later (by norm_num)).mono (pow2_mono (by norm_num))
  have htwice : pow2 352 + pow2 352 = pow2 353 := by
    rw [← two_mul, ← PyFloat.pow2_succ]
    rfl
  have hsum := Below.add hlo hproduct
    (by rw [show (51 : Int) + 301 = 352 by norm_num, htwice]
        exact ranged_pow2 (by norm_num) (by norm_num)) (by norm_num)
  exact hsum.mono ((show pow2 352 + pow2 (51 + 301) = pow2 353 from htwice).trans_le
    (pow2_mono (by norm_num)))

/-- The width of a bin is a part of the distance between the ends. -/
theorem width_bound {n : Nat} {p q : Rat} {width : PyFloat} (hone : (1 : Int) ≤ n)
    (hlen : n ≤ 2 ^ 50) (hp : |p| ≤ pow2 300) (hq : |q| ≤ pow2 300)
    (hwidth : overInt (binary64.sub (.fin q) (.fin p)) n = some width) :
    Below 3 (pow2 301) width := by
  obtain ⟨-, rfl⟩ := overInt_some hwidth
  have hcast : ((n : Int) : Rat) ≤ pow2 50 := by
    rw [show pow2 50 = ((2 ^ 50 : Nat) : Rat) by rw [PyFloat.pow2_eq]; norm_num]
    exact_mod_cast hlen
  have htwice : pow2 300 + pow2 300 = pow2 301 := by
    rw [← two_mul, ← PyFloat.pow2_succ]
    rfl
  have hdiff := Below.add (Below.of_abs hq) (Below.of_abs hp).neg
    (by rw [htwice]; exact ranged_pow2 (by norm_num) (by norm_num)) (by norm_num)
  rw [htwice] at hdiff
  have hpos' : (0 : Rat) < (n : Int) := by exact_mod_cast hone
  have hle : pow2 301 / (n : Int) ≤ pow2 301 :=
    div_le_self (pow2_pos _).le (by exact_mod_cast hone)
  have hlow : pow2 251 ≤ pow2 301 / (n : Int) := by
    rw [le_div_iff₀ hpos']
    refine (mul_le_mul_of_nonneg_left hcast (pow2_pos _).le).trans_eq ?_
    rw [← pow2_add]
    rfl
  refine (Below.div hdiff (Within.ofInt hone (hcast.trans (pow2_mono (by norm_num)))) hpos'
    (.inr ⟨(pow2_mono (by norm_num)).trans hlow, hle.trans (pow2_mono (by norm_num))⟩)
    (by norm_num)).mono hle

theorem axis_plain {part : Dict} {axis : Axis} (haxis : axisOf part = some axis)
    (hlo : ∀ x, floatAt part "hist_lo" = some x → ∃ p, x = .fin p ∧ |p| ≤ pow2 300)
    (hhi : ∀ x, floatAt part "hist_hi" = some x → ∃ p, x = .fin p ∧ |p| ≤ pow2 300)
    (hbins : ∀ values, postedHist part = some values → values.length ≤ 2 ^ 50) : axis.Plain := by
  obtain ⟨lo, hlo', h⟩ := Option.bind_eq_some_iff.mp haxis
  obtain ⟨hi, hhi', h⟩ := Option.bind_eq_some_iff.mp h
  obtain ⟨posted, hposted, h⟩ := Option.bind_eq_some_iff.mp h
  obtain ⟨values, hvalues, h⟩ := Option.bind_eq_some_iff.mp h
  obtain ⟨p, rfl, hp⟩ := hlo lo hlo'
  obtain ⟨q, rfl, hq⟩ := hhi hi hhi'
  have hlen := hbins values (Option.bind_eq_some_iff.mpr ⟨posted, hposted, hvalues⟩)
  dsimp only at h
  split at h
  next hzero =>
    cases h
    exact ⟨Below.of_abs hp, Below.of_abs hq, hlen, fun hpos => absurd hzero hpos.ne'⟩
  next hne =>
    obtain ⟨width, hwidth, h⟩ := Option.bind_eq_some_iff.mp h
    cases h
    exact ⟨Below.of_abs hp, Below.of_abs hq, hlen,
      fun hpos => width_bound (by exact_mod_cast hpos) hlen hp hq hwidth⟩

/-- The return a rank falls on is a center, or the upper end. -/
theorem returnAt_finite {axis : Axis} {rank ret : PyFloat} {i : Nat} {idx : Int}
    {cum : PyValue.Num} {hist : List PyValue.Num} (haxis : axis.Plain)
    (hlen : i + hist.length ≤ axis.nbins)
    (h : returnAt? axis rank i cum hist = some (idx, ret)) : ret.isFinite = true := by
  induction hist generalizing i cum with
  | nil =>
      cases h
      exact haxis.hi.isFinite
  | cons count hist ih =>
      rw [List.length_cons] at hlen
      obtain ⟨next, -, h⟩ := Option.bind_eq_some_iff.mp h
      split at h
      · cases h
        exact (haxis.center (by omega)).isFinite
      · exact ih (by omega) h

/-- A whole number other than zero is a float of half its magnitude at least. -/
theorem half_le_ofInt {i : Int} {y : Rat} (hi : i ≠ 0) (h : binary64.round i = .fin y) :
    1 / 2 ≤ |y| := by
  have hpos : ∀ {j : Int} {z : Rat}, 1 ≤ j → binary64.round j = .fin z → 1 / 2 ≤ |z| := by
    intro j z hj hz
    have h1 : (1 : Rat) ≤ j := by exact_mod_cast hj
    obtain ⟨rfl, -⟩ := PyNumber.binary64_round_fin (zero_le_one.trans h1) hz
    have hlow := @PyFloat.above_nearest 0 1 j (by simpa [slack] using h1)
      (.inr ((pow2_mono (by norm_num : (-1021 : Int) ≤ 0)).trans_eq rfl)) (by norm_num)
    rw [one_mul, zero_add] at hlow
    exact ((half_le_slack (by norm_num)).trans hlow).trans (le_abs_self _)
  rcases lt_or_gt_of_ne hi with hneg | hpos'
  · have hflip : binary64.round ((-i : Int) : Rat) = .fin (-y) := by
      rw [Int.cast_neg]
      change PyFloat.ofRat (-(i : Rat)) = _
      rw [PyFloat.ofRat_neg, show PyFloat.ofRat (i : Rat) = .fin y from h]
      rfl
    rw [← abs_neg]
    exact hpos (by omega) hflip
  · exact hpos (by omega) h

/-- A quotient by a whole number stays a number. -/
theorem trueDiv_finite {total : PyValue.Num} {i : Int} {t : Rat} {x : PyFloat}
    (ht : total.value = .fin t) (hbound : |t| ≤ pow2 1021)
    (h : trueDiv total (.int i) = some x) : x.isFinite = true := by
  cases total with
  | int j => exact trueDiv_int_finite h
  | float z =>
      cases ht
      unfold trueDiv at h
      obtain ⟨x', hx, h⟩ := Option.bind_eq_some_iff.mp h
      obtain rfl : PyFloat.fin t = x' := Option.some.inj hx
      obtain ⟨y, hy, h⟩ := Option.bind_eq_some_iff.mp h
      split at h
      · cases h
      next hzero =>
        cases h
        obtain ⟨q, hq, rfl⟩ := PyValue.Num.toFloat_int (Results.toOption_eq_some.mp hy)
        have hi : i ≠ 0 := by
          rintro rfl
          cases hq
          exact hzero rfl
        have hhalf := half_le_ofInt hi hq
        have hq0 : 0 < |q| := by linarith
        refine (@Below.round 0 (pow2 1022) (t / q) ?_ (ranged_pow2 (by norm_num) (by norm_num))
          (by norm_num)).isFinite
        rw [slack, pow_zero, mul_one, abs_div, div_le_iff₀ hq0]
        have htwice : pow2 1022 = 2 * pow2 1021 := by
          rw [show (1022 : Int) = 1021 + 1 by norm_num, PyFloat.pow2_succ]
        nlinarith [pow2_pos 1021]

theorem whole_ints {b : Rat} {counts : List PyValue.Num} (h : Whole b counts) :
    ∃ is : List Int, counts = is.map .int := by
  induction counts with
  | nil => exact ⟨[], rfl⟩
  | cons x counts ih =>
      obtain ⟨i, rfl, -⟩ := h x List.mem_cons_self
      obtain ⟨is, rfl⟩ := ih fun y hy => h y (List.mem_cons_of_mem _ hy)
      exact ⟨i :: is, rfl⟩

theorem isFinite_neg {x : PyFloat} (h : x.isFinite = true) : x.neg.isFinite = true := by
  cases x with
  | fin q => rfl
  | nan | inf _ => cases h

section Tail
variable {F : Platform} {axis : Axis} {counts : List PyValue.Num}

/-- What a bin adds to the sum of the tail. -/
theorem term_bound (haxis : axis.Plain) {i : Int} {j : Nat} {y : PyFloat}
    (hi : |(i : Rat)| ≤ pow2 340) (hj : j < axis.nbins)
    (hy : (PyValue.Num.int i).toFloat.toOption = some y) :
    ∃ v, binary64.mul y (axis.center j) = .fin v ∧ |v| ≤ pow2 741 := by
  obtain ⟨q, hq, rfl⟩ := PyValue.Num.toFloat_int (Results.toOption_eq_some.mp hy)
  have hcount : Below 1 (pow2 340) (.fin q) := by
    rw [← hq]
    exact @Below.round 0 _ _ (by simpa [slack] using hi) (ranged_pow2 (by norm_num) (by norm_num))
      (by norm_num)
  have hterm := Below.mul hcount (haxis.center hj)
    (by rw [← pow2_add]; exact ranged_pow2 (by norm_num) (by norm_num)) (by norm_num)
  obtain ⟨v, hv, hle⟩ := hterm.abs_le (by norm_num)
  refine ⟨v, hv, hle.trans_eq ?_⟩
  rw [← pow2_add, ← PyFloat.pow2_succ]
  rfl

/-- The loss at a level and the mean loss beyond it are numbers. -/
theorem tail_finite (hF : F.Sound) (haxis : axis.Plain) (hwhole : Whole (pow2 340) counts)
    (hlen : counts.length = axis.nbins) (paths : Int) (level : Rat) :
    TailFinite F axis counts paths level := by
  intro risk h
  obtain ⟨rank, -, h⟩ := Option.bind_eq_some_iff.mp h
  obtain ⟨⟨idx, ret⟩, hret, h⟩ := Option.bind_eq_some_iff.mp h
  obtain ⟨tailCount, hcount, h⟩ := Option.bind_eq_some_iff.mp h
  obtain ⟨terms, hterms, h⟩ := Option.bind_eq_some_iff.mp h
  obtain ⟨tailSum, hsum, h⟩ := Option.bind_eq_some_iff.mp h
  have hfinite := returnAt_finite haxis (by omega) hret
  have hbins : Whole (pow2 340) (counts.take (idx + 1).toNat) :=
    fun x hx => hwhole x (List.mem_of_mem_take hx)
  have hbinsLen : (counts.take (idx + 1).toNat).length ≤ axis.nbins :=
    (List.length_take_le' _ _).trans hlen.le
  have hall := Results.mapM_some_forall₂ hterms
  have hbound : ∀ x ∈ terms, ∃ p, x.value = .fin p ∧ |p| ≤ pow2 741 := by
    intro x hx
    obtain ⟨⟨count, j⟩, hmem, hx⟩ := Results.forall₂_mem_right hall hx
    obtain ⟨y, hy, hx⟩ := Option.bind_eq_some_iff.mp hx
    cases hx
    obtain ⟨i, rfl, hi⟩ := hbins count (List.fst_mem_of_mem_zipIdx hmem)
    have hj := List.snd_lt_of_mem_zipIdx hmem
    exact term_bound haxis hi (by omega) hy
  have htermsLen : terms.length ≤ 2 ^ 50 := by
    rw [← hall.length_eq, List.length_zipIdx]
    exact hbinsLen.trans haxis.bins
  have hcast : (terms.length : Rat) ≤ pow2 50 := by
    rw [show pow2 50 = ((2 ^ 50 : Nat) : Rat) by rw [PyFloat.pow2_eq]; norm_num]
    exact_mod_cast htermsLen
  obtain ⟨t, ht, hsmall⟩ := hF.sum terms (pow2 741) tailSum htermsLen
    ((pow2_mono (by norm_num : (0 : Int) ≤ 741)).trans' (le_of_eq rfl))
    (by
      refine (mul_le_mul_of_nonneg_right hcast (pow2_pos _).le).trans ?_
      rw [← pow2_add]
      exact pow2_mono (by norm_num)) hbound hsum
  obtain ⟨is, his⟩ := whole_ints hbins
  have htotal : tailCount = .int is.sum := by
    rw [his, hF.counts] at hcount
    exact (Option.some.inj hcount).symm
  dsimp only at h
  split at h
  · cases h
    exact ⟨isFinite_neg hfinite, isFinite_neg hfinite⟩
  · obtain ⟨mean, hmean, h⟩ := Option.bind_eq_some_iff.mp h
    cases h
    rw [htotal] at hmean
    exact ⟨isFinite_neg hfinite, isFinite_neg (trueDiv_finite ht hsmall hmean)⟩

end Tail

/-! ## The statistics are numbers -/

section Posted
variable {F : Platform} {outputs : List Dict}

/-- Every tile that is read has bounds. -/
theorem posted_bounds (hF : F.Sound) (h : PostedReturns outputs) {tiles : List Moments}
    (htiles : (usableParts outputs).mapM (momentsOf F) = some tiles) (hne : tiles ≠ []) :
    ∃ μ c, Bounded tiles μ c := by
  have hall := Results.mapM_some_forall₂ htiles
  have hlen := hall.length_eq
  have hbounds : ∀ m, ∃ b : Rat × Rat, m ∈ tiles →
      TileBounds (3 * tiles.length + 14) m b.1 b.2 := by
    intro m
    by_cases hm : m ∈ tiles
    · obtain ⟨part, hpart, hread⟩ := Results.forall₂_mem_right hall hm
      obtain ⟨μ, c, hb⟩ := tile_bounds hF h.length (h.tiles part hpart) hread
      rw [hlen] at hb
      exact ⟨(μ, c), fun _ => hb⟩
    · exact ⟨(0, 0), fun hm' => absurd hm' hm⟩
  choose b hb using hbounds
  exact ⟨fun m => (b m).1, fun m => (b m).2, hne, hlen ▸ h.length, fun m hm => hb m hm⟩

theorem posted_worst (h : PostedReturns outputs) {tiles : List Moments}
    (htiles : (usableParts outputs).mapM (momentsOf F) = some tiles) :
    ∀ m ∈ tiles, m.worst ≠ .inf true := by
  intro m hm hworst
  obtain ⟨part, hpart, hread⟩ := Results.forall₂_mem_right (Results.mapM_some_forall₂ htiles) hm
  obtain ⟨p, q, r, s, hreads⟩ := moments_reads hread (h.tiles part hpart)
  refine (h.tiles part hpart).worst ?_
  rw [← hworst]
  exact hreads.worst

theorem posted_whole (h : PostedReturns outputs) {tiles : List Moments} {n : Nat}
    {counts : List PyValue.Num} (htiles : (usableParts outputs).mapM (momentsOf F) = some tiles)
    (hcounts : (tiles.map (·.values)).foldlM addHist (List.replicate n (.int 0)) = some counts) :
    Whole (pow2 340) counts ∧ counts.length = n := by
  have hall := Results.mapM_some_forall₂ htiles
  have hlists : ∀ values ∈ tiles.map (·.values), ∀ value ∈ values, ∀ x,
      PyValue.Num.ofJson value = some x → ∃ i : Int, x = .int i ∧ |(i : Rat)| ≤ pow2 300 := by
    refine List.forall_mem_map.mpr fun m hm => ?_
    obtain ⟨part, hpart, hread⟩ := Results.forall₂_mem_right hall hm
    obtain ⟨p, q, r, s, hreads⟩ := moments_reads hread (h.tiles part hpart)
    exact (h.tiles part hpart).counts m.values hreads.values
  have hzero : Whole 0 (List.replicate n (PyValue.Num.int 0)) := by
    intro x hx
    rw [List.eq_of_mem_replicate hx]
    exact ⟨0, rfl, by simp⟩
  obtain ⟨hwhole, hlen⟩ := merged_whole (pow2_pos _).le hzero hlists hcounts
  refine ⟨fun x hx => ?_, hlen.trans List.length_replicate⟩
  obtain ⟨i, rfl, hi⟩ := hwhole x hx
  refine ⟨i, rfl, hi.trans ?_⟩
  have hcast : (tiles.length : Rat) ≤ pow2 40 := by
    rw [show pow2 40 = ((2 ^ 40 : Nat) : Rat) by rw [PyFloat.pow2_eq]; norm_num, ← hall.length_eq]
    exact_mod_cast h.length
  rw [zero_add, List.length_map, show (340 : Int) = 40 + 300 by norm_num, pow2_add]
  exact mul_le_mul_of_nonneg_right hcast (pow2_pos _).le

/-- What the tiles have posted adds up to numbers. -/
theorem posted_risk (hF : F.Sound) (h : PostedReturns outputs) : RiskSound F outputs := by
  intro first rest axis tiles counts hparts haxis htiles hcounts
  rw [← hparts] at htiles
  have hfirst : first ∈ (usableParts outputs).head? := by
    rw [hparts]
    rfl
  have hplain := axis_plain haxis (h.lo first hfirst) (h.hi first hfirst) (h.bins first hfirst)
  have hne : tiles ≠ [] := by
    rintro rfl
    have hlen := (Results.mapM_some_forall₂ htiles).length_eq
    rw [hparts] at hlen
    cases hlen
  obtain ⟨μ, c, hbounded⟩ := posted_bounds hF h htiles hne
  obtain ⟨hwhole, hlen⟩ := posted_whole h htiles hcounts
  refine ⟨⟨hplain.lo.isFinite, hplain.hi.isFinite⟩, posted_worst h htiles, ?_, hbounded.spread,
    tail_finite hF hplain hwhole hlen _ _, tail_finite hF hplain hwhole hlen _ _⟩
  intro count hcount
  obtain ⟨i, rfl, -⟩ := hwhole count hcount
  rfl

end Posted

end OneCompute.Workloads
