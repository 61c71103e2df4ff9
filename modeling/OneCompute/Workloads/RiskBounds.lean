import Mathlib.Algebra.BigOperators.Fin
import Mathlib.Algebra.Order.BigOperators.Ring.Finset
import OneCompute.Lib.PyFloatError
import OneCompute.Workloads.SummaryJson

/-!
When the statistics of pooled tiles are numbers, from what the tiles have posted: the pooled
second moment stays above the square of the pooled mean as long as the spread of every tile
stands out against what rounding may take away.
-/

namespace OneCompute.Workloads
open Jobkit (pyInt)
open PyFloat (pow2 pow2_pos pow2_mono pow2_add slack slack_pos le_slack half_le_slack Below Within
  Ranged)
open PyNumber (binary64)

/-- What is relied on of the platform: a square is off by a unit in the last place at most,
whole numbers are added up exactly, and a sum of numbers stays near what bounds it. -/
structure Platform.Sound (F : Platform) : Prop where
  root : ∀ q, 0 ≤ q → (F.root q).isFinite = true
  square : ∀ p r, F.square (.fin p) = .fin r →
    0 ≤ r ∧ |r - p ^ 2| ≤ p ^ 2 / 2 ^ 52 + pow2 (-1074)
  counts : ∀ is : List Int, F.sum (is.map .int) = some (.int is.sum)
  sum : ∀ (xs : List PyValue.Num) (b : Rat) (total : PyValue.Num), xs.length ≤ 2 ^ 50 → 1 ≤ b →
    xs.length * b ≤ pow2 1020 → (∀ x ∈ xs, ∃ p, x.value = .fin p ∧ |p| ≤ b) →
      F.sum xs = some total → ∃ t, total.value = .fin t ∧ |t| ≤ pow2 1021

/-! ## What a tile posts -/

def postedPaths (part : Dict) : Option Int := Json.lookup part "paths" >>= pyInt

def postedHist (part : Dict) : Option (List Json) := Json.lookup part "hist" >>= Json.pyList

/-- What a tile has posted, one of `k`: moments of ordinary size, a spread that is more than
what the rounding of `k` tiles may take from it, no return of minus infinity, and whole
counts. -/
structure TileReturns (k : Nat) (part : Dict) : Prop where
  paths : ∀ n, postedPaths part = some n → 1 ≤ n ∧ (n : Rat) ≤ pow2 200
  mean : ∀ x, floatAt part "mean_return" = some x → ∃ p, x = .fin p ∧ |p| ≤ pow2 300
  stdev : ∀ x, floatAt part "stdev" = some x → ∃ q, x = .fin q ∧ |q| ≤ pow2 300
  spread : ∀ p q, floatAt part "mean_return" = some (.fin p) → floatAt part "stdev" = some (.fin q) →
    p = 0 ∨ pow2 (-200) ≤ |q| ∧ (3 * k + 18) * p ^ 2 ≤ 2 ^ 52 * q ^ 2
  worst : floatAt part "worst_return" ≠ some (.inf true)
  counts : ∀ values, postedHist part = some values → ∀ value ∈ values, ∀ x,
    PyValue.Num.ofJson value = some x → ∃ i : Int, x = .int i ∧ |(i : Rat)| ≤ pow2 300

/-- What the tiles of a workload have posted. -/
structure PostedReturns (outputs : List Dict) : Prop where
  length : (usableParts outputs).length ≤ 2 ^ 40
  tiles : ∀ part ∈ usableParts outputs, TileReturns (usableParts outputs).length part
  lo : ∀ first ∈ (usableParts outputs).head?, ∀ x, floatAt first "hist_lo" = some x →
    ∃ p, x = .fin p ∧ |p| ≤ pow2 300
  hi : ∀ first ∈ (usableParts outputs).head?, ∀ x, floatAt first "hist_hi" = some x →
    ∃ p, x = .fin p ∧ |p| ≤ pow2 300
  bins : ∀ first ∈ (usableParts outputs).head?, ∀ values, postedHist first = some values →
    values.length ≤ 2 ^ 50

/-! ## The moments of a tile -/

theorem timesInt_some {x y : PyFloat} {n : Int} (h : timesInt x n = some y) :
    y = binary64.mul x (binary64.round n) := by
  obtain ⟨m, hm, h⟩ := Option.bind_eq_some_iff.mp h
  cases h
  obtain ⟨q, hq, rfl⟩ := PyValue.Num.toFloat_int (Results.toOption_eq_some.mp hm)
  rw [hq]

theorem overInt_some {x y : PyFloat} {n : Int} (h : overInt x n = some y) :
    n ≠ 0 ∧ y = binary64.div x (binary64.round n) := by
  unfold overInt at h
  split at h
  · cases h
  next hn =>
    obtain ⟨m, hm, h⟩ := Option.bind_eq_some_iff.mp h
    cases h
    obtain ⟨q, hq, rfl⟩ := PyValue.Num.toFloat_int (Results.toOption_eq_some.mp hm)
    rw [hq]
    exact ⟨hn, rfl⟩

theorem squared_some {F : Platform} {p : Rat} {y : PyFloat} (h : squared F (.fin p) = some y) :
    ∃ r, F.square (.fin p) = .fin r ∧ y = .fin r := by
  unfold squared at h
  dsimp only at h
  split at h
  next r hr =>
    cases h
    exact ⟨r, hr, rfl⟩
  next => cases h

theorem pow2_sq (e : Int) : pow2 e ^ 2 = pow2 (2 * e) := by
  rw [two_mul, pow2_add, sq]

/-- The square of a number that is not tiny, from below. -/
theorem Platform.Sound.le_square {F : Platform} (hF : F.Sound) {p r : Rat}
    (hr : F.square (.fin p) = .fin r) (hp : pow2 (-250) ≤ |p|) :
    p ^ 2 * (1 - 1 / 2 ^ 51) ≤ r := by
  obtain ⟨-, hnear⟩ := hF.square p r hr
  have hlow := (abs_le.mp hnear).1
  have hsq : pow2 (-500) ≤ p ^ 2 := by
    have h := pow_le_pow_left₀ (pow2_pos (-250)).le hp 2
    rwa [sq_abs, pow2_sq] at h
  have hsmall : pow2 (-1074) ≤ pow2 (-500) / 2 ^ 52 := by
    have h52 : pow2 (-500) = pow2 (-552) * 2 ^ 52 := by
      rw [show (-500 : Int) = -552 + 52 by norm_num, pow2_add, show pow2 52 = 2 ^ 52 from rfl]
    rw [h52, mul_div_cancel_right₀ _ (by norm_num)]
    exact pow2_mono (by norm_num)
  linarith

/-- And from above. -/
theorem Platform.Sound.square_le {F : Platform} (hF : F.Sound) {p r : Rat}
    (hr : F.square (.fin p) = .fin r) (hp : |p| ≤ pow2 300) : r ≤ pow2 601 := by
  obtain ⟨-, hnear⟩ := hF.square p r hr
  have hhigh := (abs_le.mp hnear).2
  have hsq : p ^ 2 ≤ pow2 600 := by
    have h := pow_le_pow_left₀ (abs_nonneg p) hp 2
    rwa [sq_abs, pow2_sq] at h
  have htiny : pow2 (-1074) ≤ pow2 599 := pow2_mono (by norm_num)
  have h599 : pow2 600 = 2 * pow2 599 := by
    rw [show (600 : Int) = 599 + 1 by norm_num, PyFloat.pow2_succ]
  have h600 : pow2 601 = 2 * pow2 600 := by
    rw [show (601 : Int) = 600 + 1 by norm_num, PyFloat.pow2_succ]
  have hpart : p ^ 2 / 2 ^ 52 ≤ pow2 599 := by
    rw [div_le_iff₀ (by norm_num)]
    linarith [pow2_pos 599]
  linarith

/-- Bounds on what a tile adds to the pool, with `μ` for its mean and `c` for its second
moment: the second stays above the square of the first after `K` roundings. -/
structure TileBounds (K : Nat) (m : Moments) (μ c : Rat) : Prop where
  paths : 1 ≤ m.n ∧ (m.n : Rat) ≤ pow2 200
  mean : μ = 0 ∨ pow2 (-250) ≤ μ ∧ μ ≤ pow2 300
  low : c = 0 ∨ pow2 (-402) ≤ c
  share : Below 2 (μ * m.n) m.share
  second : Within 3 (c * m.n) (pow2 602 * m.n) m.second
  gap : μ ^ 2 ≤ c * slack K

/-- Rounding takes less from the second moment than the spread adds to it. -/
theorem spread_gap {K : Nat} {p q κ s : Rat} (hs : 1 - K / 2 ^ 53 ≤ s)
    (hκ : κ = (K + 4) / 2 ^ 53) (hhalf : κ ≤ 1 / 2) (h : κ * p ^ 2 ≤ q ^ 2 / 2) :
    p ^ 2 ≤ (q ^ 2 + p ^ 2) * (1 - 1 / 2 ^ 51) * s := by
  have hsum : 0 ≤ q ^ 2 + p ^ 2 := add_nonneg (sq_nonneg q) (sq_nonneg p)
  have hK : (0 : Rat) ≤ K := Nat.cast_nonneg K
  have hfactor : 1 - κ ≤ (1 - 1 / 2 ^ 51) * s := by
    have hstep : (1 - 1 / 2 ^ 51) * (1 - K / 2 ^ 53) ≤ (1 - 1 / 2 ^ 51) * s :=
      mul_le_mul_of_nonneg_left hs (by norm_num)
    refine le_trans ?_ hstep
    rw [hκ]
    have hprod : 0 ≤ (1 / 2 ^ 51 : Rat) * (K / 2 ^ 53) := by positivity
    linear_combination hprod
  calc p ^ 2 ≤ (q ^ 2 + p ^ 2) * (1 - κ) := by nlinarith [sq_nonneg q]
    _ ≤ (q ^ 2 + p ^ 2) * ((1 - 1 / 2 ^ 51) * s) := mul_le_mul_of_nonneg_left hfactor hsum
    _ = _ := by ring

section Tile
variable {F : Platform} {k : Nat} {part : Dict} {m : Moments}

/-- How the moments of a tile come from what it has posted. -/
structure TileReads (F : Platform) (part : Dict) (m : Moments) (p q r s : Rat) : Prop where
  paths : postedPaths part = some m.n
  mean : floatAt part "mean_return" = some (.fin p)
  stdev : floatAt part "stdev" = some (.fin q)
  squares : F.square (.fin q) = .fin s ∧ F.square (.fin p) = .fin r
  share : m.share = binary64.mul (.fin p) (binary64.round m.n)
  second : m.second = binary64.mul (binary64.add (.fin s) (.fin r)) (binary64.round m.n)
  worst : floatAt part "worst_return" = some m.worst
  values : postedHist part = some m.values

theorem moments_reads (hm : momentsOf F part = some m) (h : TileReturns k part) :
    ∃ p q r s, TileReads F part m p q r s := by
  obtain ⟨posted, hposted, hm⟩ := Option.bind_eq_some_iff.mp hm
  obtain ⟨n, hn, hm⟩ := Option.bind_eq_some_iff.mp hm
  obtain ⟨mean, hmean, hm⟩ := Option.bind_eq_some_iff.mp hm
  obtain ⟨stdev, hstdev, hm⟩ := Option.bind_eq_some_iff.mp hm
  obtain ⟨share, hshare, hm⟩ := Option.bind_eq_some_iff.mp hm
  obtain ⟨s, hs, hm⟩ := Option.bind_eq_some_iff.mp hm
  obtain ⟨r, hr, hm⟩ := Option.bind_eq_some_iff.mp hm
  obtain ⟨second, hsecond, hm⟩ := Option.bind_eq_some_iff.mp hm
  obtain ⟨worst, hworst, hm⟩ := Option.bind_eq_some_iff.mp hm
  obtain ⟨counts, hcounts, hm⟩ := Option.bind_eq_some_iff.mp hm
  obtain ⟨values, hvalues, hm⟩ := Option.bind_eq_some_iff.mp hm
  cases hm
  obtain ⟨p, rfl, -⟩ := h.mean mean hmean
  obtain ⟨q, rfl, -⟩ := h.stdev stdev hstdev
  obtain ⟨s, hsq, rfl⟩ := squared_some hs
  obtain ⟨r, hsp, rfl⟩ := squared_some hr
  exact ⟨p, q, r, s, Option.bind_eq_some_iff.mpr ⟨posted, hposted, hn⟩, hmean, hstdev, ⟨hsq, hsp⟩,
    timesInt_some hshare, timesInt_some hsecond, hworst,
    Option.bind_eq_some_iff.mpr ⟨counts, hcounts, hvalues⟩⟩

theorem low_mul {c n : Rat} {e : Int} (hc : c = 0 ∨ pow2 e ≤ c) (hn : 1 ≤ n) :
    c * n = 0 ∨ pow2 e ≤ c * n := by
  rcases hc with rfl | hc
  · exact .inl (zero_mul n)
  · exact .inr (hc.trans (le_mul_of_one_le_right ((pow2_pos e).le.trans hc) hn))

theorem low_mono {c : Rat} {d e : Int} (hc : c = 0 ∨ pow2 e ≤ c) (h : d ≤ e) :
    c = 0 ∨ pow2 d ≤ c :=
  hc.imp id (pow2_mono h).trans

/-- The second moment lies above any bound on the squares that it is made of. -/
theorem tile_second {p q r s c : Rat} (hF : F.Sound) (hreads : TileReads F part m p q r s)
    (hn : 1 ≤ m.n) (hn' : (m.n : Rat) ≤ pow2 200) (hp : |p| ≤ pow2 300) (hq : |q| ≤ pow2 300)
    (hc0 : c = 0 ∨ pow2 (-402) ≤ c) (hc : c ≤ s + r) :
    Within 3 (c * m.n) (pow2 602 * m.n) m.second := by
  have hr0 := (hF.square p r hreads.squares.2).1
  have hs0 := (hF.square q s hreads.squares.1).1
  have hr := hF.square_le hreads.squares.2 hp
  have hs := hF.square_le hreads.squares.1 hq
  have h602 : pow2 602 = pow2 601 + pow2 601 := by
    rw [show (602 : Int) = 601 + 1 by norm_num, PyFloat.pow2_succ, two_mul]
  have hnr : (1 : Rat) ≤ m.n := by exact_mod_cast hn
  have hlow : c = 0 ∨ pow2 (-1021) ≤ c := low_mono hc0 (by norm_num)
  have hranged : Ranged (pow2 602) := .inr ⟨pow2_mono (by norm_num), pow2_mono (by norm_num)⟩
  have hsum : Within 1 c (pow2 602) (binary64.add (.fin s) (.fin r)) := by
    refine @Within.round 0 _ _ _ (PyFloat.nonneg_of_low (pow2_pos _).le hlow) ?_ ?_ hlow hranged (by norm_num)
    · simpa [slack] using hc
    · simpa [slack, h602] using add_le_add hs hr
  have hbig : pow2 602 * m.n ≤ pow2 1022 := by
    refine (mul_le_mul_of_nonneg_left hn' (pow2_pos 602).le).trans ?_
    rw [← pow2_add]
    exact pow2_mono (by norm_num)
  rw [hreads.second]
  refine @Within.mul 1 1 _ _ _ _ _ _ hsum (Within.ofInt hn (hn'.trans (pow2_mono (by norm_num))))
    (low_mono (low_mul hc0 hnr) (by norm_num)) (.inr ⟨?_, hbig⟩) (by norm_num)
  have hone := pow2_mono (by norm_num : (-1021 : Int) ≤ 602)
  nlinarith [pow2_pos 602]

theorem tile_share {p q r s μ : Rat} (hreads : TileReads F part m p q r s) (hn : 1 ≤ m.n)
    (hn' : (m.n : Rat) ≤ pow2 200) (hp : |p| ≤ μ)
    (hμ : μ = 0 ∨ pow2 (-250) ≤ μ ∧ μ ≤ pow2 300) : Below 2 (μ * m.n) m.share := by
  have hnr : (1 : Rat) ≤ m.n := by exact_mod_cast hn
  have hint := (Within.ofInt hn (hn'.trans (pow2_mono (by norm_num)))).below
  have hranged : Ranged (μ * m.n) := by
    refine (low_mono (low_mul (hμ.imp id And.left) hnr) (by norm_num)).imp id fun h => ⟨h, ?_⟩
    rcases hμ with rfl | ⟨-, hhigh⟩
    · rw [zero_mul]
      exact (pow2_pos _).le
    · refine (mul_le_mul hhigh hn' (by linarith) (pow2_pos _).le).trans ?_
      rw [← pow2_add]
      exact pow2_mono (by norm_num)
  rw [hreads.share]
  exact @Below.mul 0 1 _ _ _ _ (Below.of_abs hp) hint hranged (by norm_num)

/-- Bounds on the squares that a tile is read from bound what it adds to the pool. -/
theorem TileReads.bounds {K : Nat} {p q r s μ c : Rat} (hF : F.Sound) (h : TileReturns k part)
    (hreads : TileReads F part m p q r s) (hp : |p| ≤ μ)
    (hμ : μ = 0 ∨ pow2 (-250) ≤ μ ∧ μ ≤ pow2 300) (hlow : c = 0 ∨ pow2 (-402) ≤ c) (hc : c ≤ s + r)
    (hgap : μ ^ 2 ≤ c * slack K) : TileBounds K m μ c := by
  obtain ⟨hn, hn'⟩ := h.paths _ hreads.paths
  obtain ⟨_, hfin, hp'⟩ := h.mean _ hreads.mean
  cases hfin
  obtain ⟨_, hfin, hq'⟩ := h.stdev _ hreads.stdev
  cases hfin
  exact ⟨⟨hn, hn'⟩, hμ, hlow, tile_share hreads hn hn' hp hμ,
    tile_second hF hreads hn hn' hp' hq' hlow hc, hgap⟩

theorem spread_low {q c : Rat} (hq : pow2 (-200) ≤ |q|) (hc : q ^ 2 * (1 - 1 / 2 ^ 51) ≤ c) :
    pow2 (-402) ≤ c := by
  have hqsq : pow2 (-400) ≤ q ^ 2 := by
    have hpow := pow_le_pow_left₀ (pow2_pos (-200)).le hq 2
    rwa [sq_abs, pow2_sq] at hpow
  have h400 : pow2 (-400) = 4 * pow2 (-402) := by
    rw [show (-400 : Int) = -402 + 1 + 1 by norm_num, PyFloat.pow2_succ, PyFloat.pow2_succ]
    ring
  linarith [pow2_pos (-402)]

/-- A mean that is not tiny is bounded by itself. -/
theorem large_mean_bounds {p q r s : Rat} (hF : F.Sound) (hk : k ≤ 2 ^ 40) (h : TileReturns k part)
    (hreads : TileReads F part m p q r s) (hq : pow2 (-200) ≤ |q|)
    (hspread : (3 * k + 18) * p ^ 2 ≤ 2 ^ 52 * q ^ 2) (hbig : pow2 (-250) ≤ |p|) :
    TileBounds (3 * k + 14) m |p| ((q ^ 2 + p ^ 2) * (1 - 1 / 2 ^ 51)) := by
  obtain ⟨_, hfin, hp⟩ := h.mean _ hreads.mean
  cases hfin
  have hs := hF.le_square hreads.squares.1 ((pow2_mono (by norm_num)).trans hq)
  have hr := hF.le_square hreads.squares.2 hbig
  refine hreads.bounds hF h (le_refl _) (.inr ⟨hbig, hp⟩)
    (.inr (spread_low hq (by nlinarith [sq_nonneg p]))) (by linarith) ?_
  rw [sq_abs]
  have hkr : (k : Rat) ≤ 2 ^ 40 := by exact_mod_cast hk
  refine spread_gap (le_slack (3 * k + 14)) rfl ?_ ?_
  · push_cast
    rw [div_le_iff₀ (by norm_num)]
    linarith
  · push_cast
    rw [div_mul_eq_mul_div, div_le_iff₀ (by norm_num)]
    linarith

/-- The square of a tiny mean is nothing against the spread. -/
theorem tiny_mean_bounds {p q r s : Rat} (hF : F.Sound) (hk : k ≤ 2 ^ 40) (h : TileReturns k part)
    (hreads : TileReads F part m p q r s) (hq : pow2 (-200) ≤ |q|) (hsmall : |p| ≤ pow2 (-250)) :
    TileBounds (3 * k + 14) m (pow2 (-250)) (q ^ 2 * (1 - 1 / 2 ^ 51)) := by
  have hs := hF.le_square hreads.squares.1 ((pow2_mono (by norm_num)).trans hq)
  have hr0 := (hF.square p r hreads.squares.2).1
  have hlow := spread_low hq (le_refl _)
  refine hreads.bounds hF h hsmall (.inr ⟨le_refl _, pow2_mono (by norm_num)⟩) (.inr hlow)
    (by linarith) ?_
  have hhalf : (1 : Rat) / 2 ≤ slack (3 * k + 14) := half_le_slack (by omega)
  have h500 : pow2 (-250) ^ 2 ≤ pow2 (-403) := by
    rw [pow2_sq]
    exact pow2_mono (by norm_num)
  have h403 : pow2 (-402) = 2 * pow2 (-403) := by
    rw [show (-402 : Int) = -403 + 1 by norm_num, PyFloat.pow2_succ]
  nlinarith [pow2_pos (-403)]

/-- What a tile adds to the pool, for what it has posted. -/
theorem tile_bounds (hF : F.Sound) (hk : k ≤ 2 ^ 40) (h : TileReturns k part)
    (hm : momentsOf F part = some m) : ∃ μ c, TileBounds (3 * k + 14) m μ c := by
  obtain ⟨p, q, r, s, hreads⟩ := moments_reads hm h
  have hr0 := (hF.square p r hreads.squares.2).1
  have hs0 := (hF.square q s hreads.squares.1).1
  rcases h.spread p q hreads.mean hreads.stdev with rfl | ⟨hq, hspread⟩
  · exact ⟨0, 0, hreads.bounds hF h (by simp) (.inl rfl) (.inl rfl) (add_nonneg hs0 hr0) (by simp)⟩
  · cases le_total (pow2 (-250)) |p| with
    | inl hbig => exact ⟨_, _, large_mean_bounds hF hk h hreads hq hspread hbig⟩
    | inr hsmall => exact ⟨_, _, tiny_mean_bounds hF hk h hreads hq hsmall⟩

end Tile

/-! ## The pooled moments -/

/-- The square of a weighted sum is at most the weight times the sum of the squares. -/
theorem weighted_sq_le {α : Type} (ts : List α) (w x : α → Rat) (hw : ∀ t ∈ ts, 0 ≤ w t) :
    (ts.map fun t => x t * w t).sum ^ 2 ≤ (ts.map w).sum * (ts.map fun t => x t ^ 2 * w t).sum := by
  simp only [← Fin.sum_univ_fun_getElem]
  exact Finset.sum_sq_le_sum_mul_sum_of_sq_le_mul _ (fun i _ => hw _ (List.getElem_mem _))
    (fun i _ => mul_nonneg (sq_nonneg _) (hw _ (List.getElem_mem _))) fun i _ => le_of_eq (by ring)

/-- A share of the total is zero or not tiny. -/
theorem low_div {a n : Rat} {e : Int} (ha : a = 0 ∨ pow2 e ≤ a) (hn0 : 0 < n) (hn : n ≤ pow2 240) :
    a / n = 0 ∨ pow2 (e - 240) ≤ a / n := by
  rcases ha with rfl | ha
  · exact .inl (zero_div n)
  · refine .inr ((le_div_iff₀ hn0).mpr ?_)
    refine (mul_le_mul_of_nonneg_left hn (pow2_pos _).le).trans ?_
    rw [← pow2_add, sub_add_cancel]
    exact ha

/-- The sum of what the tiles weigh. -/
def weight (tiles : List Moments) (x : Moments → Rat) : Rat := (tiles.map fun m => x m * m.n).sum

/-- Tiles that are there, and not too many, with bounds on each of them. -/
structure Bounded (tiles : List Moments) (μ c : Moments → Rat) : Prop where
  nonempty : tiles ≠ []
  length : tiles.length ≤ 2 ^ 40
  tile : ∀ m ∈ tiles, TileBounds (3 * tiles.length + 14) m (μ m) (c m)

namespace Bounded
variable {tiles : List Moments} {μ c : Moments → Rat}

theorem one_le (h : Bounded tiles μ c) : ∀ m ∈ tiles, (1 : Rat) ≤ m.n :=
  fun m hm => by exact_mod_cast (h.tile m hm).paths.1

/-- The number of all paths. -/
theorem total (h : Bounded tiles μ c) : 1 ≤ (tiles.map (·.n)).sum ∧
    (((tiles.map (·.n)).sum : Int) : Rat) = (tiles.map fun m => (m.n : Rat)).sum ∧
    (((tiles.map (·.n)).sum : Int) : Rat) ≤ pow2 240 := by
  have hcast : (((tiles.map (·.n)).sum : Int) : Rat) = (tiles.map fun m => (m.n : Rat)).sum := by
    rw [Int.cast_list_sum, List.map_map]
    rfl
  refine ⟨?_, hcast, ?_⟩
  · obtain ⟨m, hm⟩ := List.exists_mem_of_ne_nil tiles h.nonempty
    refine (h.tile m hm).paths.1.trans (List.single_le_sum ?_ _ (List.mem_map_of_mem hm))
    exact List.forall_mem_map.mpr fun t ht => zero_le_one.trans (h.tile t ht).paths.1
  · rw [hcast]
    refine (List.sum_le_card_nsmul _ (pow2 200) ?_).trans ?_
    · exact List.forall_mem_map.mpr fun t ht => (h.tile t ht).paths.2
    · have hlen : (tiles.length : Rat) ≤ pow2 40 := by
        rw [show pow2 40 = ((2 ^ 40 : Nat) : Rat) by rw [PyFloat.pow2_eq]; norm_num]
        exact_mod_cast h.length
      rw [List.length_map, nsmul_eq_mul, show (240 : Int) = 40 + 200 by norm_num, pow2_add]
      exact mul_le_mul_of_nonneg_right hlen (pow2_pos _).le

theorem low_weight (h : Bounded tiles μ c) {x : Moments → Rat} {e : Int}
    (hx : ∀ m ∈ tiles, x m = 0 ∨ pow2 e ≤ x m) : weight tiles x = 0 ∨ pow2 e ≤ weight tiles x := by
  have hsum := PyFloat.low_sum (pow2_pos e).le (fun m hm => low_mul (hx m hm) (h.one_le m hm))
    (.inl rfl)
  rwa [zero_add] at hsum

theorem weight_le (h : Bounded tiles μ c) {x : Moments → Rat} {b : Rat} (hx : ∀ m ∈ tiles, x m ≤ b) :
    weight tiles x ≤ b * ((tiles.map (·.n)).sum : Int) := by
  rw [h.total.2.1, ← List.sum_map_mul_left]
  exact List.sum_le_sum fun m hm =>
    mul_le_mul_of_nonneg_right (hx m hm) (zero_le_one.trans (h.one_le m hm))

theorem low_mean (h : Bounded tiles μ c) : ∀ m ∈ tiles, μ m = 0 ∨ pow2 (-250) ≤ μ m :=
  fun m hm => (h.tile m hm).mean.imp id And.left

theorem mean_le (h : Bounded tiles μ c) : ∀ m ∈ tiles, μ m ≤ pow2 300 := by
  intro m hm
  rcases (h.tile m hm).mean with hμ | hμ
  · rw [hμ]
    exact (pow2_pos _).le
  · exact hμ.2

/-- The pooled mean is bounded by that of the bounds. -/
theorem pooled_mean (h : Bounded tiles μ c) {mean : PyFloat}
    (hmean : overInt ((tiles.map (·.share)).foldl binary64.add (.fin 0)) (tiles.map (·.n)).sum =
      some mean) :
    Below (tiles.length + 4) (weight tiles μ / ((tiles.map (·.n)).sum : Int)) mean := by
  obtain ⟨-, rfl⟩ := overInt_some hmean
  obtain ⟨hone, -, hhigh⟩ := h.total
  have hpos : (0 : Rat) < ((tiles.map (·.n)).sum : Int) := by exact_mod_cast hone
  have hlow := h.low_weight h.low_mean
  have hle := h.weight_le h.mean_le
  have hbig : weight tiles μ ≤ pow2 1022 := by
    refine (hle.trans (mul_le_mul_of_nonneg_left hhigh (pow2_pos _).le)).trans ?_
    rw [← pow2_add]
    exact pow2_mono (by norm_num)
  have hsum := @Below.foldl Moments 2 0 tiles (·.share) (fun m => μ m * m.n) 0 (.fin 0)
    (Below.later (Below.of_abs (by simp)) (by omega)) (fun m hm => (h.tile m hm).share) (.inl rfl)
    (fun m hm => low_mono (low_mul (h.low_mean m hm) (h.one_le m hm)) (by norm_num))
    (by rw [zero_add]; exact hbig) (by have := h.length; omega)
  rw [zero_add, add_zero] at hsum
  have hint := Within.ofInt hone (hhigh.trans (pow2_mono (by norm_num)))
  have hranged : Ranged (weight tiles μ / ((tiles.map (·.n)).sum : Int)) := by
    refine (low_mono (low_div hlow hpos hhigh) (by norm_num)).imp id fun hl => ⟨hl, ?_⟩
    exact (div_le_self ((PyFloat.nonneg_of_low (pow2_pos _).le hlow)) (by exact_mod_cast hone)).trans
      hbig
  refine (Below.div hsum hint hpos hranged (by have := h.length; omega)).later (by omega)

/-- The pooled second moment is at least that of the bounds. -/
theorem pooled_second (h : Bounded tiles μ c) {second : PyFloat}
    (hsecond : overInt ((tiles.map (·.second)).foldl binary64.add (.fin 0)) (tiles.map (·.n)).sum =
      some second) :
    Within (tiles.length + 5) (weight tiles c / ((tiles.map (·.n)).sum : Int)) (pow2 602)
      second := by
  obtain ⟨-, rfl⟩ := overInt_some hsecond
  obtain ⟨hone, hcast, hhigh⟩ := h.total
  have hpos : (0 : Rat) < ((tiles.map (·.n)).sum : Int) := by exact_mod_cast hone
  have hlow := h.low_weight fun m hm => (h.tile m hm).low
  have heq : (tiles.map fun m => pow2 602 * (m.n : Rat)).sum =
      pow2 602 * ((tiles.map (·.n)).sum : Int) := by
    rw [List.sum_map_mul_left, hcast]
  have hbig : pow2 602 * ((tiles.map (·.n)).sum : Int) ≤ pow2 1022 := by
    refine (mul_le_mul_of_nonneg_left hhigh (pow2_pos _).le).trans ?_
    rw [← pow2_add]
    exact pow2_mono (by norm_num)
  have hsum := @Within.foldl Moments 3 0 tiles (·.second) (fun m => c m * m.n)
    (fun m => pow2 602 * m.n) 0 0 (.fin 0) ⟨0, rfl, le_refl 0, by simp, by simp⟩
    (fun m hm => (h.tile m hm).second) (.inl rfl) (.inl rfl)
    (fun m hm => low_mono (low_mul (h.tile m hm).low (h.one_le m hm)) (by norm_num))
    (fun m hm => low_mono (low_mul (.inr (le_refl (pow2 602))) (h.one_le m hm)) (by norm_num))
    (by rw [zero_add, heq]; exact hbig) (by have := h.length; omega)
  rw [zero_add, zero_add, add_zero, heq] at hsum
  have hint := Within.ofInt hone (hhigh.trans (pow2_mono (by norm_num)))
  have hcancel : pow2 602 * ((tiles.map (·.n)).sum : Int) / ((tiles.map (·.n)).sum : Int) =
      pow2 602 := mul_div_cancel_right₀ _ hpos.ne'
  have hdiv := Within.div hsum hint hpos (low_mono (low_div hlow hpos hhigh) (by norm_num))
    (by rw [hcancel]; exact .inr ⟨pow2_mono (by norm_num), pow2_mono (by norm_num)⟩)
    (by have := h.length; omega)
  rw [hcancel] at hdiv
  exact hdiv.later (by omega)

/-- The square of the mean of the bounds stays below the second moment of the bounds. -/
theorem weight_sq_le (h : Bounded tiles μ c) :
    (weight tiles μ / ((tiles.map (·.n)).sum : Int)) ^ 2 ≤
      weight tiles c / ((tiles.map (·.n)).sum : Int) * slack (3 * tiles.length + 14) := by
  obtain ⟨hone, hcast, -⟩ := h.total
  have hpos : (0 : Rat) < ((tiles.map (·.n)).sum : Int) := by exact_mod_cast hone
  have hsq : weight tiles (fun m => μ m ^ 2) ≤ weight tiles c * slack (3 * tiles.length + 14) := by
    unfold weight
    rw [← List.sum_map_mul_right]
    refine List.sum_le_sum fun m hm => ?_
    have hgap := mul_le_mul_of_nonneg_right (h.tile m hm).gap (zero_le_one.trans (h.one_le m hm))
    linarith
  have hcauchy := weighted_sq_le tiles (fun m => (m.n : Rat)) μ fun m hm =>
    zero_le_one.trans (h.one_le m hm)
  rw [← hcast] at hcauchy
  rw [div_pow, div_le_iff₀ (pow_pos hpos 2)]
  calc weight tiles μ ^ 2
      ≤ ((tiles.map (·.n)).sum : Int) * weight tiles (fun m => μ m ^ 2) := hcauchy
    _ ≤ ((tiles.map (·.n)).sum : Int) * (weight tiles c * slack (3 * tiles.length + 14)) :=
        mul_le_mul_of_nonneg_left hsq hpos.le
    _ = _ := by
        field_simp

/-- The pooled second moment is at least the square of the pooled mean. -/
theorem spread (h : Bounded tiles μ c) :
    Spread (tiles.map (·.n)).sum (tiles.map (·.share)) (tiles.map (·.second)) := by
  intro mean second _ hmean hsecond
  have hm := h.pooled_mean hmean
  have hs := h.pooled_second hsecond
  obtain ⟨hone, -, hhigh⟩ := h.total
  have hpos : (0 : Rat) < ((tiles.map (·.n)).sum : Int) := by exact_mod_cast hone
  have hlen := h.length
  have hshare := low_div (h.low_weight h.low_mean) hpos hhigh
  have hshare0 := PyFloat.nonneg_of_low (pow2_pos _).le hshare
  have hle : weight tiles μ / ((tiles.map (·.n)).sum : Int) ≤ pow2 300 :=
    (div_le_iff₀ hpos).mpr (h.weight_le h.mean_le)
  set a := weight tiles μ / ((tiles.map (·.n)).sum : Int) with ha
  have hsmall : a * a ≤ pow2 600 := by
    have hmul := mul_le_mul hle hle hshare0 (pow2_pos 300).le
    rwa [← pow2_add] at hmul
  have hsq0 : a * a = 0 ∨ pow2 (-1021) ≤ a * a := by
    rcases hshare with h0 | hlow
    · exact .inl (by rw [h0, zero_mul])
    · refine .inr ((pow2_mono (by norm_num : (-1021 : Int) ≤ -490 + -490)).trans ?_)
      rw [pow2_add]
      exact mul_le_mul hlow hlow (pow2_pos _).le hshare0
  have hsquare := Below.mul hm hm (hsq0.imp id fun hl => ⟨hl, hsmall.trans (pow2_mono (by norm_num))⟩)
    (by omega)
  refine ⟨hm.isFinite, hs.sub_nonneg hsquare ?_ (.inr ⟨?_, ?_⟩) (by omega)⟩
  · have hweights := h.weight_sq_le
    rw [← ha, sq] at hweights
    rwa [show tiles.length + 5 + (tiles.length + 4 + (tiles.length + 4) + 1) =
      3 * tiles.length + 14 by omega]
  · have hbase := pow2_mono (by norm_num : (-1021 : Int) ≤ 602)
    linarith [mul_self_nonneg a]
  · have hsum : pow2 602 + pow2 602 ≤ pow2 1022 := by
      rw [← two_mul, ← PyFloat.pow2_succ]
      exact pow2_mono (by norm_num)
    have h602 := pow2_mono (by norm_num : (600 : Int) ≤ 602)
    linarith

end Bounded

end OneCompute.Workloads
