import OneCompute.Lib.PyFloatDiff

/-!
Printing a float and rounding what was printed gives the float back: seventeen
significant digits tell it from every other one.
-/

namespace PyFloat

/-! ## Powers of ten -/

theorem pow10_eq (e : Int) : pow10 e = (10 : Rat) ^ e := by
  unfold pow10
  split
  next h =>
    obtain ⟨n, rfl⟩ := Int.eq_ofNat_of_zero_le h
    simp
  next h =>
    obtain ⟨n, hn⟩ := Int.eq_ofNat_of_zero_le (by omega : 0 ≤ -e)
    have he : e = -(n : Int) := by omega
    subst he
    simp

theorem pow10_pos (e : Int) : 0 < pow10 e := by
  rw [pow10_eq]
  exact zpow_pos (by norm_num) e

theorem pow10_add (a b : Int) : pow10 (a + b) = pow10 a * pow10 b := by
  rw [pow10_eq, pow10_eq, pow10_eq, zpow_add₀ (by norm_num)]

theorem pow10_natCast (n : Nat) : pow10 (n : Int) = ((10 ^ n : Nat) : Rat) := by
  simp [pow10]

theorem digits_bounds {n : Nat} (hn : 0 < n) :
    pow10 ((Nat.toDigits 10 n).length - 1 : Int) ≤ (n : Rat) ∧
      (n : Rat) < pow10 ((Nat.toDigits 10 n).length : Int) := by
  obtain ⟨k, hk⟩ := Nat.exists_eq_add_one.mpr (Nat.length_toDigits_pos (b := 10) (n := n))
  have hlt : n < 10 ^ (k + 1) :=
    (Nat.length_toDigits_le_iff (by decide) k.succ_pos).mp hk.le
  have hle : 10 ^ k ≤ n := by
    by_contra hlow
    rw [not_le] at hlow
    rcases Nat.eq_zero_or_pos k with rfl | hpos
    · omega
    · have := (Nat.length_toDigits_le_iff (by decide) hpos).mpr hlow
      omega
  rw [hk]
  refine ⟨?_, ?_⟩
  · rw [show ((k + 1 : Nat) : Int) - 1 = (k : Int) by omega, pow10_natCast]
    exact_mod_cast hle
  · rw [pow10_natCast]
    exact_mod_cast hlt

theorem log10_spec {q : Rat} (hq : 0 < q) : pow10 (log10 q) ≤ q ∧ q < pow10 (log10 q + 1) := by
  have hnum : 0 < q.num := Rat.num_pos.mpr hq
  obtain ⟨hnlow, hnhigh⟩ := digits_bounds (n := q.num.natAbs) (by omega)
  obtain ⟨hdlow, hdhigh⟩ := digits_bounds q.den_pos
  have hn : (q.num.natAbs : Rat) = q.num := by
    have : ((q.num.natAbs : Int) : Rat) = (q.num : Rat) :=
      congrArg _ (Int.natAbs_of_nonneg hnum.le)
    rwa [Int.cast_natCast] at this
  have hfrac : q * q.den = q.num.natAbs := by
    rw [hn]
    exact Rat.mul_den_eq_num q
  have hdpos : (0 : Rat) < q.den := by exact_mod_cast q.den_pos
  rw [← hfrac] at hnlow hnhigh
  unfold log10
  dsimp only
  generalize ((Nat.toDigits 10 q.num.natAbs).length : Int) = i at *
  generalize ((Nat.toDigits 10 q.den).length : Int) = j at *
  -- the quotient of the leading powers is off by less than one power
  have hlow : pow10 (i - j - 1) ≤ q := by
    have hsplit : pow10 (i - j - 1) * pow10 j = pow10 (i - 1) := by
      rw [← pow10_add]
      congr 1
      omega
    by_contra hlt
    rw [not_le] at hlt
    have := mul_lt_mul'' hlt hdhigh hq.le hdpos.le
    linarith
  have hhigh : q < pow10 (i - j + 1) := by
    have hsplit : pow10 (i - j + 1) * pow10 (j - 1) = pow10 i := by
      rw [← pow10_add]
      congr 1
      omega
    by_contra hle
    rw [not_lt] at hle
    have := mul_le_mul hle hdlow (pow10_pos _).le hq.le
    linarith
  split
  next hlt => exact ⟨hlow, by rwa [sub_add_cancel]⟩
  next hge => exact ⟨not_lt.mp hge, hhigh⟩

/-! ## Decimals close to a float -/

theorem nearest_of_near {q y : Rat} {k : Int} (hq : q = k * pow2 (binade y - 52))
    (hlow : q - y < pow2 (binade y - 53)) (hhigh : y - q < pow2 (binade y - 53)) :
    nearest y = q := by
  have hpos := pow2_pos (binade y - 53)
  have hunit : pow2 (binade y - 52) = 2 * pow2 (binade y - 53) := by
    rw [← pow2_succ]
    congr 1
    omega
  have hround : roundHalfEven (y / pow2 (binade y - 52)) = k := by
    obtain ⟨hrlow, hrhigh⟩ := roundHalfEven_near (y / pow2 (binade y - 52))
    have hylow : (k : Rat) - 1 / 2 < y / pow2 (binade y - 52) := by
      rw [lt_div_iff₀ (by rw [hunit]; linarith), sub_mul, ← hq, hunit]
      linarith
    have hyhigh : y / pow2 (binade y - 52) < k + 1 / 2 := by
      rw [div_lt_iff₀ (by rw [hunit]; linarith), add_mul, ← hq, hunit]
      linarith
    have h1 : (k : Rat) - 1 < (roundHalfEven (y / pow2 (binade y - 52)) : Rat) := by linarith
    have h2 : (roundHalfEven (y / pow2 (binade y - 52)) : Rat) < k + 1 := by linarith
    have h1' : k - 1 < roundHalfEven (y / pow2 (binade y - 52)) := by exact_mod_cast h1
    have h2' : roundHalfEven (y / pow2 (binade y - 52)) < k + 1 := by exact_mod_cast h2
    omega
  rw [nearest, hround]
  exact hq.symm

/-- A float has less than `2 ^ 54` half units of its own binade. -/
theorem lt_half_units {y : Rat} (hy : 0 < y) : y < 2 ^ 54 * pow2 (binade y - 53) := by
  have h := pow2_add_nat (binade y - 53) 54
  rw [show binade y - 53 + ((54 : Nat) : Int) = binade y + 1 by omega] at h
  have hlt := lt_pow2_binade hy
  rw [h] at hlt
  exact_mod_cast hlt

/-- From a float to the end of its binade it is a whole unit at least. -/
theorem grid_room {q : Rat} (h0 : 0 < q) {k : Int} (hk : q = k * pow2 (binade q - 52)) :
    q + 2 * pow2 (binade q - 53) ≤ pow2 (binade q + 1) := by
  have hpos := pow2_pos (binade q - 52)
  have hunit : pow2 (binade q - 52) = 2 * pow2 (binade q - 53) := by
    rw [← pow2_succ]
    congr 1
    omega
  have hscale := (ulp_scale (binade q)).1
  have hend : (k : Rat) * pow2 (binade q - 52) < ((2 ^ 53 : Int) : Rat) * pow2 (binade q - 52) := by
    rw [← hk, ← hscale]
    exact lt_pow2_binade h0
  have hlt : k < 2 ^ 53 := Int.cast_lt.mp (lt_of_mul_lt_mul_right hend hpos.le)
  have hstep : ((k + 1 : Int) : Rat) ≤ ((2 ^ 53 : Int) : Rat) := Int.cast_le.mpr hlt
  calc q + 2 * pow2 (binade q - 53) = ((k + 1 : Int) : Rat) * pow2 (binade q - 52) := by
        rw [Int.cast_add, Int.cast_one, add_mul, ← hk, one_mul, hunit]
    _ ≤ ((2 ^ 53 : Int) : Rat) * pow2 (binade q - 52) := mul_le_mul_of_nonneg_right hstep hpos.le
    _ = pow2 (binade q + 1) := hscale.symm

theorem nearest_of_close {q y : Rat} (h0 : 0 < q) (hq : nearest q = q)
    (hlow : q - y ≤ q / (2 * 10 ^ 16)) (hhigh : y - q ≤ q / (2 * 10 ^ 16)) : nearest y = q := by
  have hy : 0 < y := by linarith
  have hqunits := lt_half_units h0
  have hyunits := lt_half_units hy
  by_cases hyq : y < q
  · obtain ⟨k, hk⟩ := nearest_grid hq (binade_mono hy hyq.le)
    exact nearest_of_near hk (by linarith) (by linarith [pow2_pos (binade y - 53)])
  · rw [not_lt] at hyq
    obtain ⟨k, hk⟩ := nearest_grid hq le_rfl
    have hsame : binade y = binade q := by
      by_contra hne
      have hlt : binade q < binade y := lt_of_le_of_ne (binade_mono h0 hyq) (Ne.symm hne)
      have hbinade : binade y = log2 y := by unfold binade at *; omega
      have hstart : pow2 (binade q + 1) ≤ y :=
        (pow2_mono (by omega : binade q + 1 ≤ log2 y)).trans (log2_spec hy).1
      have hroom := grid_room h0 hk
      linarith
    rw [← hsame] at hk hqunits
    exact nearest_of_near hk (by linarith [pow2_pos (binade y - 53)]) (by linarith)

theorem nearest_of_ofRat {q : Rat} (h0 : 0 < q) (hq : ofRat q = .fin q) :
    nearest q = q ∧ q < pow2 1024 := by
  rw [ofRat_eq h0.le] at hq
  split at hq
  · cases hq
  next hlt =>
    have hval : nearest q = q := PyFloat.fin.inj hq
    exact ⟨hval, by rwa [hval, not_le] at hlt⟩

theorem ofRat_of_close {q y : Rat} (h0 : 0 < q) (hq : ofRat q = .fin q)
    (hlow : q - y ≤ q / (2 * 10 ^ 16)) (hhigh : y - q ≤ q / (2 * 10 ^ 16)) :
    ofRat y = .fin q := by
  obtain ⟨hval, hlt⟩ := nearest_of_ofRat h0 hq
  have hy : 0 ≤ y := by linarith
  rw [ofRat_eq hy, nearest_of_close h0 hval hlow hhigh, if_neg (not_le.mpr hlt)]

/-! ## Signs -/

theorem floor_neg {q : Rat} (h : q ≠ q.floor) : (-q).floor = -q.floor - 1 := by
  obtain ⟨hlow, hhigh⟩ := floor_bounds q
  obtain ⟨hnlow, hnhigh⟩ := floor_bounds (-q)
  have hlt : (q.floor : Rat) < q := lt_of_le_of_ne hlow (Ne.symm h)
  have h1 : (((-q).floor : Int) : Rat) < ((-q.floor : Int) : Rat) := by
    push_cast
    linarith
  have h2 : ((-q.floor - 1 : Int) : Rat) < (((-q).floor + 1 : Int) : Rat) := by
    push_cast
    linarith
  have h1' := Int.cast_lt.mp h1
  have h2' := Int.cast_lt.mp h2
  omega

theorem roundHalfEven_neg (q : Rat) : roundHalfEven (-q) = -roundHalfEven q := by
  by_cases hint : q = q.floor
  · rw [hint, ← Int.cast_neg, roundHalfEven_intCast, roundHalfEven_intCast]
  · have hfloor := floor_neg hint
    unfold roundHalfEven
    dsimp only
    rw [hfloor]
    push_cast
    by_cases hlow : q - (q.floor : Rat) < 1 / 2
    · rw [if_pos hlow, if_neg (by linarith), if_pos (by linarith)]
      omega
    · rw [if_neg hlow]
      by_cases hhigh : 1 / 2 < q - (q.floor : Rat)
      · rw [if_pos hhigh, if_pos (by linarith)]
        omega
      · rw [if_neg hhigh, if_neg (by linarith), if_neg (by linarith)]
        split <;> split <;> omega

theorem abs_neg (q : Rat) : abs (-q) = abs q := by
  unfold abs
  split <;> split <;> linarith

theorem ofRat_neg (q : Rat) : ofRat (-q) = (ofRat q).neg := by
  by_cases h0 : q = 0
  · subst h0
    rfl
  · unfold ofRat
    rw [if_neg h0, if_neg (neg_ne_zero.mpr h0), abs_neg]
    dsimp only
    rw [neg_div, roundHalfEven_neg, Int.cast_neg, neg_mul, abs_neg]
    split
    · simp only [neg, inf.injEq]
      rcases lt_or_gt_of_ne h0 with hneg | hpos
      · simp [hneg, hneg.le]
      · simp [hpos, hpos.le]
    · rfl

/-- The value is one that a float can have. -/
def isDouble : PyFloat → Bool
  | .fin q => decide (ofRat q = .fin q)
  | _ => true

/-! ## The shortest decimal -/

/-- Of the two decimals with seventeen digits around `q` one is close. -/
theorem floor_close {q : Rat} (h0 : 0 < q) {low : Nat} {unit : Rat}
    (hunit : unit = pow10 (log10 q - 16)) (hlow : low = (q / unit).floor.toNat) :
    (low : Rat) * unit ≤ q ∧ q < (low + 1) * unit ∧ unit / 2 ≤ q / (2 * 10 ^ 16) := by
  have hpos : 0 < unit := hunit ▸ pow10_pos _
  obtain ⟨hfloor, hsucc⟩ := floor_bounds (q / unit)
  have hnonneg : 0 ≤ (q / unit).floor := Rat.le_floor_iff.mpr (by
    push_cast
    exact div_nonneg h0.le hpos.le)
  have hcast : (low : Rat) = ((q / unit).floor : Rat) := by
    rw [hlow]
    exact_mod_cast congrArg (Int.cast (R := Rat)) (Int.toNat_of_nonneg hnonneg)
  have hleads : unit * 10 ^ 16 ≤ q := by
    have h := pow10_add (log10 q - 16) ((16 : Nat) : Int)
    rw [pow10_natCast, show log10 q - 16 + ((16 : Nat) : Int) = log10 q by omega, ← hunit] at h
    have hspec := (log10_spec h0).1
    rw [h] at hspec
    exact_mod_cast hspec
  refine ⟨?_, ?_, ?_⟩
  · rw [hcast]
    exact (le_div_iff₀ hpos).mp hfloor
  · rw [hcast]
    exact (div_lt_iff₀ hpos).mp hsucc
  · rw [div_le_div_iff₀ (by norm_num) (by norm_num)]
    linarith

theorem shortest_spec {q : Rat} (h0 : 0 < q) (hq : ofRat q = .fin q) (fuel : Nat) :
    ∃ (n : Nat) (s : Int), shortest q (fuel + 1) = decimal n s ∧
      ofRat ((n : Rat) * pow10 s) = .fin q := by
  induction fuel with
  | zero =>
      obtain ⟨hlow, hhigh, hhalf⟩ := floor_close h0 rfl rfl
      unfold shortest
      simp only [Nat.cast_zero, sub_zero]
      generalize hu : pow10 (log10 q - 16) = unit at *
      generalize hn : (q / unit).floor.toNat = low at *
      by_cases hnear : q - low * unit ≤ ((low + 1 : Nat) : Rat) * unit - q
      · have hok : ofRat (low * unit) = .fin q := by
          push_cast at hnear
          exact ofRat_of_close h0 hq (by linarith) (by linarith)
        rw [if_pos ⟨hok, .inl hnear⟩]
        exact ⟨low, _, rfl, by rw [hu]; exact hok⟩
      · have hok : ofRat (((low + 1 : Nat) : Rat) * unit) = .fin q := by
          push_cast at hnear ⊢
          exact ofRat_of_close h0 hq (by linarith) (by linarith)
        rw [if_neg (by tauto), if_pos hok]
        exact ⟨low + 1, _, rfl, by rw [hu]; exact hok⟩
  | succ fuel ih =>
      unfold shortest
      dsimp only
      split
      next hok => exact ⟨_, _, rfl, hok.1⟩
      next =>
        split
        next hok => exact ⟨_, _, rfl, hok⟩
        next => exact ih

/-! ## What the digits say -/

/-- The number that digits after the decimal point at `point` stand for. -/
def denoted (digits : List Char) (point : Int) : Rat :=
  (Nat.ofDigitChars 10 digits 0 : Rat) * pow10 (point - digits.length)

theorem digitsOf_split (n : Nat) : ∃ k,
    digitsOf n = (decimal n 0).1 ++ List.replicate k '0' := by
  have h := List.takeWhile_append_dropWhile (p := fun c => c = '0') (l := (digitsOf n).reverse)
  have hrev := congrArg List.reverse h
  rw [List.reverse_append, List.reverse_reverse] at hrev
  refine ⟨((digitsOf n).reverse.takeWhile (· = '0')).length, hrev.symm.trans ?_⟩
  have hzeros : (digitsOf n).reverse.takeWhile (· = '0') =
      List.replicate ((digitsOf n).reverse.takeWhile (· = '0')).length '0' :=
    List.eq_replicate_of_mem fun c hc => by simpa using List.mem_takeWhile_imp hc
  rw [hzeros, List.reverse_replicate, List.length_replicate]
  rfl

theorem decimal_denoted (n : Nat) (s : Int) :
    denoted (decimal n s).1 (decimal n s).2 = n * pow10 s := by
  obtain ⟨k, hk⟩ := digitsOf_split n
  have hvalue : n = 10 ^ k * Nat.ofDigitChars 10 (decimal n s).1 0 := by
    rw [← Nat.ofDigitChars_replicate_zero, ← Nat.ofDigitChars_append]
    exact ((congrArg (Nat.ofDigitChars 10 · 0) hk).symm.trans Nat.ofDigitChars_ten_toDigits).symm
  have hlength : ((digitsOf n).length : Int) = (decimal n s).1.length + k := by
    rw [hk, List.length_append, List.length_replicate]
    push_cast
    rfl
  have hpoint : (decimal n s).2 - (decimal n s).1.length = k + s := by
    have : (decimal n s).2 = (digitsOf n).length + s := rfl
    omega
  rw [denoted, hpoint, pow10_add, pow10_natCast]
  calc (Nat.ofDigitChars 10 (decimal n s).1 0 : Rat) * (((10 ^ k : Nat) : Rat) * pow10 s)
      = ((10 ^ k * Nat.ofDigitChars 10 (decimal n s).1 0 : Nat) : Rat) * pow10 s := by
        push_cast
        ring
    _ = n * pow10 s := by rw [← hvalue]

theorem toDigits_head {n : Nat} (hn : 0 < n) :
    ∃ c cs, Nat.toDigits 10 n = c :: cs ∧ c ≠ '0' := by
  induction n using Nat.strong_induction_on with
  | _ n ih =>
      rw [Nat.toDigits_eq_if (by decide)]
      split
      next hlt =>
        have hchar : ∀ d < 10, 0 < d → d.digitChar ≠ '0' := by decide
        exact ⟨_, [], rfl, hchar n hlt hn⟩
      next hge =>
        obtain ⟨c, cs, hcs, hc⟩ := ih (n / 10) (by omega) (by omega)
        exact ⟨c, cs ++ [_], by rw [hcs]; rfl, hc⟩

theorem decimal_digits {n : Nat} (hn : 0 < n) (s : Int) :
    (∀ c ∈ (decimal n s).1, c.isDigit = true) ∧
      ∃ c cs, (decimal n s).1 = c :: cs ∧ c ≠ '0' := by
  obtain ⟨k, hk⟩ := digitsOf_split n
  have hdigits : ∀ c ∈ (decimal n s).1, c.isDigit = true := fun c hc =>
    Nat.isDigit_of_mem_toDigits (b := 10) (n := n) (by decide) (by decide)
      ((congrArg (c ∈ ·) hk).mpr (List.mem_append_left _ hc))
  refine ⟨hdigits, ?_⟩
  obtain ⟨c, cs, hcs, hc⟩ := toDigits_head hn
  have hsplit : (decimal n s).1 ++ List.replicate k '0' = c :: cs := hk.symm.trans hcs
  cases hds : (decimal n s).1 with
  | nil =>
      rw [hds, List.nil_append] at hsplit
      cases k with
      | zero => cases hsplit
      | succ k => exact absurd (List.cons.inj hsplit).1.symm hc
  | cons d ds =>
      rw [hds] at hsplit
      exact ⟨d, ds, rfl, (List.cons.inj hsplit).1 ▸ hc⟩

end PyFloat
