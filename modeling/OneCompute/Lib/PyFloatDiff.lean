import OneCompute.Lib.PyFloatRound

/-!
Differences of floats: when they are exact, and that what rounding adds to one of them it
does not take from a later one.
-/

namespace PyFloat

@[simp] theorem nearest_zero : nearest 0 = 0 := by
  rw [nearest, zero_div]
  exact mul_eq_zero_of_left (by exact_mod_cast roundHalfEven_intCast 0) _

theorem nearest_mono_nonneg {p q : Rat} (hp : 0 ≤ p) (h : p ≤ q) : nearest p ≤ nearest q := by
  rcases hp.eq_or_lt with rfl | hpos
  · rw [nearest_zero]
    exact PyNumber.nearest_nonneg h
  · exact nearest_mono hpos h

theorem binade_mono {p q : Rat} (hp : 0 < p) (h : p ≤ q) : binade p ≤ binade q :=
  max_le_max_right _ (log2_mono hp h)

/-- A float is a multiple of the unit of every binade below its own. -/
theorem nearest_grid {x : Rat} (hx : nearest x = x) {e : Int} (he : e ≤ binade x) :
    ∃ k : Int, x = k * pow2 (e - 52) := by
  obtain ⟨n, hn⟩ := Int.eq_ofNat_of_zero_le (sub_nonneg.mpr he)
  refine ⟨roundHalfEven (x / pow2 (binade x - 52)) * (2 ^ n : Nat), ?_⟩
  have hunit : pow2 (binade x - 52) = (2 ^ n : Nat) * pow2 (e - 52) := by
    rw [← pow2_add_nat]
    congr 1
    omega
  have hround : x = roundHalfEven (x / pow2 (binade x - 52)) * pow2 (binade x - 52) := hx.symm
  calc x = roundHalfEven (x / pow2 (binade x - 52)) * ((2 ^ n : Nat) * pow2 (e - 52)) := by
        rw [← hunit]
        exact hround
    _ = _ := by
        push_cast
        ring

theorem nearest_of_grid {y : Rat} {k : Int} (h : y = k * pow2 (binade y - 52)) : nearest y = y := by
  have hdiv : y / pow2 (binade y - 52) = k := by
    rw [div_eq_iff (pow2_pos _).ne']
    exact h
  rw [nearest, hdiv, roundHalfEven_intCast]
  exact h.symm

/-- The difference of two floats is exact when it is no larger than the smaller one. -/
theorem nearest_sub {s t : Rat} (hs : nearest s = s) (ht : nearest t = t) (hst : s < t)
    (hclose : t - s ≤ s) : nearest (t - s) = t - s := by
  have hpos : 0 < t - s := sub_pos.mpr hst
  have hle := binade_mono hpos hclose
  obtain ⟨a, ha⟩ := nearest_grid hs hle
  obtain ⟨b, hb⟩ := nearest_grid ht (hle.trans (binade_mono (hpos.trans_le hclose) hst.le))
  refine nearest_of_grid (k := b - a) ?_
  push_cast
  rw [sub_mul, ← ha, ← hb]

/-- What rounding has added to `d` is less than a later value lies below a float that it
is not rounded to. -/
theorem le_nearest_of_gain {w d y : Rat} (hw : nearest w = w) (hd : 0 < d) (hdy : d ≤ y)
    (hgain : w - y < nearest d - d) : w ≤ nearest y := by
  have hy : 0 < y := hd.trans_le hdy
  by_cases hwy : w ≤ y
  · rcases le_or_gt w 0 with hneg | hpos
    · exact hneg.trans (PyNumber.nearest_nonneg hy.le)
    · exact hw ▸ nearest_mono hpos hwy
  · rw [not_le] at hwy
    obtain ⟨a, ha⟩ := nearest_grid hw (binade_mono hy hwy.le)
    have hunit := pow2_pos (binade y - 52)
    have hhalf : pow2 (binade y - 52) = 2 * pow2 (binade y - 53) := by
      rw [← pow2_succ]
      congr 1
      omega
    have hgained : nearest d - d ≤ pow2 (binade y - 53) := by
      have hulp := pow2_mono (sub_le_sub_right (binade_mono hd hdy) 53)
      linarith [(nearest_near d).2]
    by_contra hlt
    rw [not_le] at hlt
    have hstep : nearest y + pow2 (binade y - 52) ≤ w := by
      have hround : nearest y = roundHalfEven (y / pow2 (binade y - 52)) * pow2 (binade y - 52) := rfl
      rw [hround, ha] at hlt
      have hint := lt_of_mul_lt_mul_right hlt hunit.le
      have hsucc : roundHalfEven (y / pow2 (binade y - 52)) + 1 ≤ a := by exact_mod_cast hint
      have hmul := mul_le_mul_of_nonneg_right (Int.cast_le (R := Rat).mpr hsucc) hunit.le
      push_cast at hmul
      rw [hround, ← add_one_mul]
      linarith
    linarith [(nearest_near y).1]

end PyFloat
