import Mathlib.Tactic.Linarith
import OneCompute.Lib.PyNumber

/-!
Rounding to binary64 of what is not negative: it keeps the order, leaves floats as
they are, and is off by at most half a unit in the last place.
-/

namespace PyFloat

theorem pow2_eq (e : Int) : pow2 e = (2 : Rat) ^ e := by
  unfold pow2
  split
  next h =>
    obtain ⟨n, rfl⟩ := Int.eq_ofNat_of_zero_le h
    simp
  next h =>
    obtain ⟨n, hn⟩ := Int.eq_ofNat_of_zero_le (by omega : 0 ≤ -e)
    have he : e = -(n : Int) := by omega
    subst he
    simp

theorem pow2_succ (e : Int) : pow2 (e + 1) = 2 * pow2 e := by
  rw [pow2_eq, pow2_eq, zpow_add_one₀ (by norm_num)]
  ring

theorem pow2_mono {a b : Int} (h : a ≤ b) : pow2 a ≤ pow2 b := by
  rw [pow2_eq, pow2_eq]
  exact zpow_le_zpow_right₀ (by norm_num) h

theorem pow2_add_nat (e : Int) (n : Nat) : pow2 (e + n) = (2 ^ n : Nat) * pow2 e := by
  rw [pow2_eq, pow2_eq, zpow_add₀ (by norm_num)]
  push_cast
  rw [zpow_natCast]
  ring

/-! ## Rounding to an integer -/

theorem floor_bounds (q : Rat) : (q.floor : Rat) ≤ q ∧ q < q.floor + 1 := by
  refine ⟨Rat.floor_le q, ?_⟩
  exact_mod_cast Rat.lt_floor_add_one q

theorem roundHalfEven_floor (q : Rat) :
    q.floor ≤ roundHalfEven q ∧ roundHalfEven q ≤ q.floor + 1 := by
  unfold roundHalfEven
  dsimp only
  split
  · omega
  · split
    · omega
    · split <;> omega

theorem roundHalfEven_near (q : Rat) :
    q - 1 / 2 ≤ roundHalfEven q ∧ (roundHalfEven q : Rat) ≤ q + 1 / 2 := by
  have h := floor_bounds q
  unfold roundHalfEven
  dsimp only
  split
  next hlow => constructor <;> linarith
  next hlow =>
    split
    next hhigh => push_cast; constructor <;> linarith
    next hhigh =>
      split
      · constructor <;> linarith
      · push_cast; constructor <;> linarith

theorem roundHalfEven_mono {p q : Rat} (h : p ≤ q) : roundHalfEven p ≤ roundHalfEven q := by
  have hp := roundHalfEven_floor p
  have hq := roundHalfEven_floor q
  have hfloor : p.floor ≤ q.floor := Rat.le_floor_iff.mpr ((floor_bounds p).1.trans h)
  by_cases heq : p.floor = q.floor
  · unfold roundHalfEven
    dsimp only
    rw [heq]
    split
    · split
      · omega
      · split
        · omega
        · split <;> omega
    next hp1 =>
      have hq1 : ¬ q - (q.floor : Rat) < 1 / 2 := by linarith
      rw [if_neg hq1]
      split
      next hp2 =>
        have hq2 : 1 / 2 < q - (q.floor : Rat) := by linarith
        rw [if_pos hq2]
      · split <;> split <;> omega
  · omega

theorem le_roundHalfEven {k : Int} {q : Rat} (h : (k : Rat) ≤ q) : k ≤ roundHalfEven q := by
  have := roundHalfEven_mono h
  rwa [roundHalfEven_intCast] at this

theorem roundHalfEven_le {k : Int} {q : Rat} (h : q ≤ (k : Rat)) : roundHalfEven q ≤ k := by
  have := roundHalfEven_mono h
  rwa [roundHalfEven_intCast] at this

/-! ## Binades -/

theorem log2_spec {q : Rat} (hq : 0 < q) : pow2 (log2 q) ≤ q ∧ q < pow2 (log2 q + 1) := by
  have hnum : 0 < q.num := Rat.num_pos.mpr hq
  have hden : 0 < q.den := q.den_pos
  have hn : (q.num.natAbs : Rat) = q.num := by
    have : ((q.num.natAbs : Int) : Rat) = (q.num : Rat) :=
      congrArg _ (Int.natAbs_of_nonneg hnum.le)
    rwa [Int.cast_natCast] at this
  have hfrac : q * q.den = q.num.natAbs := by
    rw [hn]
    exact Rat.mul_den_eq_num q
  have hdpos : (0 : Rat) < q.den := by exact_mod_cast hden
  have hnlow : pow2 (Nat.log2 q.num.natAbs : Int) ≤ (q.num.natAbs : Rat) := by
    rw [pow2_natCast]
    exact_mod_cast Nat.log2_self_le (by omega)
  have hnhigh : (q.num.natAbs : Rat) < pow2 ((Nat.log2 q.num.natAbs : Int) + 1) := by
    have h := Nat.lt_log2_self (n := q.num.natAbs)
    rw [show ((Nat.log2 q.num.natAbs : Int) + 1) = ((Nat.log2 q.num.natAbs + 1 : Nat) : Int) by
      push_cast; rfl, pow2_natCast]
    exact_mod_cast h
  have hdlow : pow2 (Nat.log2 q.den : Int) ≤ (q.den : Rat) := by
    rw [pow2_natCast]
    exact_mod_cast Nat.log2_self_le hden.ne'
  have hdhigh : (q.den : Rat) < pow2 ((Nat.log2 q.den : Int) + 1) := by
    have h := Nat.lt_log2_self (n := q.den)
    rw [show ((Nat.log2 q.den : Int) + 1) = ((Nat.log2 q.den + 1 : Nat) : Int) by
      push_cast; rfl, pow2_natCast]
    exact_mod_cast h
  have hsplit : ∀ a b : Int, pow2 (a - b) * pow2 b = pow2 a := by
    intro a b
    rw [pow2_eq, pow2_eq, pow2_eq, ← zpow_add₀ (by norm_num), sub_add_cancel]
  -- the quotient of the leading powers is off by less than one binade
  have hlow : pow2 ((Nat.log2 q.num.natAbs : Int) - (Nat.log2 q.den : Int) - 1) ≤ q := by
    have h := hsplit (Nat.log2 q.num.natAbs : Int) ((Nat.log2 q.den : Int) + 1)
    have hpos := pow2_pos ((Nat.log2 q.num.natAbs : Int) - ((Nat.log2 q.den : Int) + 1))
    rw [sub_sub]
    by_contra hlt
    rw [not_le] at hlt
    have hmul := mul_lt_mul'' hlt hdhigh hq.le hdpos.le
    rw [h, hfrac] at hmul
    exact absurd hmul (not_lt.mpr hnlow)
  have hhigh : q < pow2 ((Nat.log2 q.num.natAbs : Int) - (Nat.log2 q.den : Int) + 1) := by
    have h := hsplit ((Nat.log2 q.num.natAbs : Int) + 1) (Nat.log2 q.den : Int)
    rw [sub_add_eq_add_sub]
    by_contra hle
    rw [not_lt] at hle
    have hmul := mul_le_mul hle hdlow (pow2_pos _).le hq.le
    rw [h, hfrac] at hmul
    exact absurd hnhigh (not_lt.mpr hmul)
  unfold log2
  dsimp only
  split
  next hlt => exact ⟨hlow, by rwa [sub_add_cancel]⟩
  next hge => exact ⟨not_lt.mp hge, hhigh⟩

theorem log2_mono {p q : Rat} (hp : 0 < p) (h : p ≤ q) : log2 p ≤ log2 q := by
  by_contra hlt
  have hq := (log2_spec (hp.trans_le h)).2
  have hle := pow2_mono (by omega : log2 q + 1 ≤ log2 p)
  linarith [(log2_spec hp).1]

theorem log2_eq {q : Rat} {e : Int} (hlow : pow2 e ≤ q) (hhigh : q < pow2 (e + 1)) :
    log2 q = e := by
  have hq : 0 < q := (pow2_pos e).trans_le hlow
  have hspec := log2_spec hq
  by_contra hne
  by_cases hlt : log2 q < e
  · linarith [pow2_mono (by omega : log2 q + 1 ≤ e)]
  · linarith [pow2_mono (by omega : e + 1 ≤ log2 q)]

/-! ## Rounding to a float -/

/-- The exponent of the binade of `q`, that of the subnormals at least. -/
def binade (q : Rat) : Int := max (log2 q) (-1022)

/-- What `q` is rounded to, as long as that is in range. -/
def nearest (q : Rat) : Rat :=
  (roundHalfEven (q / pow2 (binade q - 52)) : Rat) * pow2 (binade q - 52)

theorem ofRat_eq {q : Rat} (hq : 0 ≤ q) :
    ofRat q = if pow2 1024 ≤ nearest q then .inf false else .fin (nearest q) := by
  by_cases h0 : q = 0
  · subst h0
    have hn : nearest 0 = 0 := by
      unfold nearest
      rw [zero_div, show (0 : Rat) = ((0 : Int) : Rat) from rfl, roundHalfEven_intCast]
      simp
    rw [hn, if_neg (not_le.mpr (pow2_pos 1024))]
    rfl
  · have habs : abs q = q := if_neg (not_lt.mpr hq)
    have hnn : 0 ≤ nearest q := by
      have hround := PyNumber.roundHalfEven_nonneg (div_nonneg hq (pow2_pos (binade q - 52)).le)
      exact mul_nonneg (by exact_mod_cast hround) (pow2_pos _).le
    unfold ofRat
    rw [if_neg h0, habs]
    dsimp only
    change (if pow2 1024 ≤ abs (nearest q) then _ else PyFloat.fin (nearest q)) = _
    rw [abs, if_neg (not_lt.mpr hnn), decide_eq_false (not_lt.mpr hq)]

theorem lt_pow2_binade {q : Rat} (hq : 0 < q) : q < pow2 (binade q + 1) :=
  (log2_spec hq).2.trans_le (pow2_mono (by unfold binade; omega))

theorem ulp_scale (e : Int) : pow2 (e + 1) = ((2 ^ 53 : Int) : Rat) * pow2 (e - 52) ∧
    pow2 e = ((2 ^ 52 : Int) : Rat) * pow2 (e - 52) := by
  have h53 := pow2_add_nat (e - 52) 53
  have h52 := pow2_add_nat (e - 52) 52
  rw [show e - 52 + ((53 : Nat) : Int) = e + 1 by omega] at h53
  rw [show e - 52 + ((52 : Nat) : Int) = e by omega] at h52
  exact ⟨by rw [h53]; norm_num, by rw [h52]; norm_num⟩

/-- Rounding does not leave the binade, but may reach its end. -/
theorem nearest_le {q : Rat} (hq : 0 < q) : nearest q ≤ pow2 (binade q + 1) := by
  have hpos := pow2_pos (binade q - 52)
  have hscale := (ulp_scale (binade q)).1
  have hle : q / pow2 (binade q - 52) ≤ ((2 ^ 53 : Int) : Rat) := by
    rw [div_le_iff₀ hpos, ← hscale]
    exact (lt_pow2_binade hq).le
  rw [hscale]
  have := roundHalfEven_le hle
  exact mul_le_mul_of_nonneg_right (by exact_mod_cast this) hpos.le

theorem le_nearest {q : Rat} (h : pow2 (binade q) ≤ q) : pow2 (binade q) ≤ nearest q := by
  have hpos := pow2_pos (binade q - 52)
  have hscale := (ulp_scale (binade q)).2
  have hle : ((2 ^ 52 : Int) : Rat) ≤ q / pow2 (binade q - 52) := by
    rw [le_div_iff₀ hpos, ← hscale]
    exact h
  have := le_roundHalfEven hle
  have hmul := mul_le_mul_of_nonneg_right (Int.cast_le (R := Rat).mpr this) hpos.le
  rwa [← hscale] at hmul

theorem nearest_mono {p q : Rat} (hp : 0 < p) (h : p ≤ q) : nearest p ≤ nearest q := by
  have hq : 0 < q := hp.trans_le h
  have hlog := log2_mono hp h
  by_cases heq : binade p = binade q
  · unfold nearest
    rw [heq]
    have hpos := pow2_pos (binade q - 52)
    have hround := roundHalfEven_mono (div_le_div_of_nonneg_right h hpos.le)
    exact mul_le_mul_of_nonneg_right (by exact_mod_cast hround) hpos.le
  · have hlt : binade p + 1 ≤ binade q := by
      unfold binade at *
      omega
    have hbin : binade q = log2 q := by
      unfold binade at *
      omega
    calc nearest p ≤ pow2 (binade p + 1) := nearest_le hp
      _ ≤ pow2 (binade q) := pow2_mono hlt
      _ ≤ nearest q := le_nearest (by rw [hbin]; exact (log2_spec hq).1)

/-- The value after rounding is half a unit in the last place away at most. -/
theorem nearest_near (q : Rat) :
    q - pow2 (binade q - 53) ≤ nearest q ∧ nearest q ≤ q + pow2 (binade q - 53) := by
  have hpos := pow2_pos (binade q - 52)
  have hhalf : pow2 (binade q - 52) = 2 * pow2 (binade q - 53) := by
    rw [← pow2_succ]
    congr 1
    omega
  have hnear := roundHalfEven_near (q / pow2 (binade q - 52))
  have hcancel : q / pow2 (binade q - 52) * pow2 (binade q - 52) = q :=
    div_mul_cancel₀ q hpos.ne'
  have hlow := mul_le_mul_of_nonneg_right hnear.1 hpos.le
  have hhigh := mul_le_mul_of_nonneg_right hnear.2 hpos.le
  unfold nearest
  constructor <;> nlinarith

theorem nearest_idem {q : Rat} (hq : 0 < q) (hv : 0 < nearest q) :
    nearest (nearest q) = nearest q := by
  have hpos := pow2_pos (binade q - 52)
  by_cases htop : nearest q = pow2 (binade q + 1)
  · have hlog : log2 (nearest q) = binade q + 1 := by
      rw [htop]
      exact log2_eq le_rfl (by rw [pow2_succ (binade q + 1)]; linarith [pow2_pos (binade q + 1)])
    have hbin : binade (nearest q) = binade q + 1 := by
      unfold binade at *
      omega
    have hscale := (ulp_scale (binade q + 1)).2
    have hpos' := pow2_pos (binade q + 1 - 52)
    rw [nearest, hbin, htop, hscale, mul_div_assoc, div_self hpos'.ne', mul_one,
      roundHalfEven_intCast]
  · have hlt : nearest q < pow2 (binade q + 1) := lt_of_le_of_ne (nearest_le hq) htop
    have hbin : binade (nearest q) = binade q := by
      have hspec := log2_spec hq
      by_cases hsub : log2 q < -1022
      · have hq' : binade q = -1022 := by unfold binade; omega
        have hle : log2 (nearest q) ≤ -1022 := by
          by_contra hgt
          rw [hq'] at hlt
          linarith [(log2_spec hv).1, pow2_mono (by omega : (-1022 : Int) + 1 ≤ log2 (nearest q))]
        rw [hq']
        unfold binade
        omega
      · have hq' : binade q = log2 q := by unfold binade; omega
        have hlow : pow2 (binade q) ≤ nearest q := le_nearest (by rw [hq']; exact hspec.1)
        have := log2_eq hlow hlt
        unfold binade at *
        omega
    unfold nearest at hbin ⊢
    rw [hbin, mul_div_assoc, div_self hpos.ne', mul_one, roundHalfEven_intCast]

end PyFloat

/-! ## What arithmetic on small values relies on -/

namespace PyFloat

/-- `x` is a number not below `d`, or infinity. -/
def AtLeast (d : Rat) (x : PyFloat) : Prop := (fin d).le x = true

instance (d : Rat) (x : PyFloat) : Decidable (AtLeast d x) := inferInstanceAs (Decidable (_ = true))

@[simp] theorem atLeast_fin {d q : Rat} : AtLeast d (.fin q) ↔ d ≤ q := by
  simp [AtLeast, le]

@[simp] theorem atLeast_inf (d : Rat) (n : Bool) : AtLeast d (.inf n) ↔ n = false := by
  simp [AtLeast, le]

@[simp] theorem not_atLeast_nan (d : Rat) : ¬ AtLeast d .nan := nofun

theorem AtLeast.mono {c d : Rat} {x : PyFloat} (h : AtLeast d x) (hcd : c ≤ d) : AtLeast c x := by
  cases x with
  | nan => exact absurd h (not_atLeast_nan d)
  | inf n => exact h
  | fin q => exact atLeast_fin.mpr (hcd.trans (atLeast_fin.mp h))

theorem AtLeast.trans {d : Rat} {x y : PyFloat} (h : AtLeast d x) (hxy : x.le y = true) :
    AtLeast d y := by
  cases x with
  | nan => exact absurd h (not_atLeast_nan d)
  | inf n =>
      cases (atLeast_inf d n).mp h
      cases y with
      | nan => cases hxy
      | inf m => simpa [le] using hxy
      | fin q => cases hxy
  | fin p =>
      cases y with
      | nan => cases hxy
      | inf m => simpa [le] using hxy
      | fin q =>
          have hpq : p ≤ q := by simpa [le] using hxy
          exact atLeast_fin.mpr ((atLeast_fin.mp h).trans hpq)

theorem atLeast_of_lt {d : Rat} {x : PyFloat} (h : (fin d).lt x = true) : AtLeast d x := by
  cases x with
  | nan => cases h
  | inf n => simpa [lt] using h
  | fin q =>
      have hlt : d < q := by simpa [lt] using h
      exact atLeast_fin.mpr hlt.le

theorem AtLeast.not_lt {d : Rat} {x : PyFloat} (h : AtLeast d x) : x.lt (fin d) = false := by
  cases x with
  | nan => rfl
  | inf n => exact (atLeast_inf d n).mp h
  | fin q => simpa [lt] using atLeast_fin.mp h

theorem AtLeast.pyMin {d : Rat} {x y : PyFloat} (hx : AtLeast d x) (hy : AtLeast d y) :
    AtLeast d (pyMin x y) := by
  unfold PyFloat.pyMin
  split
  · exact hy
  · exact hx

theorem AtLeast.pyMax_left {d : Rat} (x : PyFloat) : AtLeast d (pyMax (.fin d) x) := by
  unfold PyFloat.pyMax
  split
  next h => exact atLeast_of_lt h
  next => exact atLeast_fin.mpr le_rfl

/-- What is below the smaller of two numbers is below both. -/
theorem lt_pyMin {d c : Rat} {x y : PyFloat} (h : (fin d).lt (PyFloat.pyMin x y) = true)
    (hy : AtLeast c y) : (fin d).lt x = true ∧ (fin d).lt y = true := by
  unfold PyFloat.pyMin at h
  cases x with
  | nan => cases y <;> simp_all [lt, AtLeast, le]
  | inf n => cases n <;> cases y <;> simp_all [lt, AtLeast, le]
  | fin a =>
      cases y with
      | nan => exact absurd hy (not_atLeast_nan c)
      | inf n =>
          cases (atLeast_inf c n).mp hy
          exact ⟨h, rfl⟩
      | fin b =>
          by_cases hba : b < a
          · simp only [lt, hba, decide_true, if_true, decide_eq_true_eq] at h ⊢
            exact ⟨h.trans hba, h⟩
          · simp only [lt, hba, decide_false, Bool.false_eq_true, if_false, decide_eq_true_eq] at h ⊢
            exact ⟨h, h.trans_le (not_lt.mp hba)⟩

end PyFloat

namespace PyNumber
open PyFloat (nearest binade pow2 AtLeast)

/-- Rounding keeps the order of what is not negative, leaves its own results as they
are, and is off by at most `δ` below 256. -/
structure Rounding.Sound (R : Rounding) (δ : Rat) : Prop where
  zero : R.round 0 = .fin 0
  nonpos : ∀ q : Rat, q ≤ 0 → (R.round q).le (.fin 0) = true
  mono : ∀ p q : Rat, 0 ≤ p → p ≤ q → (R.round p).le (R.round q) = true
  stable : ∀ q v : Rat, 0 ≤ q → R.round q = .fin v → R.round v = .fin v
  near : ∀ q : Rat, 0 ≤ q → q < 256 → ∃ v, R.round q = .fin v ∧ q - δ ≤ v ∧ v ≤ q + δ

theorem exact_sound : exact.Sound 0 where
  zero := rfl
  nonpos q h := by simpa [exact, PyFloat.le] using h
  mono p q _ h := by simpa [exact, PyFloat.le] using h
  stable q v _ h := by cases h; rfl
  near q _ _ := ⟨q, rfl, by linarith, by linarith⟩

theorem nearest_nonneg {q : Rat} (hq : 0 ≤ q) : 0 ≤ nearest q := by
  have hround := roundHalfEven_nonneg (div_nonneg hq (PyFloat.pow2_pos (binade q - 52)).le)
  exact mul_nonneg (by exact_mod_cast hround) (PyFloat.pow2_pos _).le

theorem binary64_round_fin {q v : Rat} (hq : 0 ≤ q) (h : binary64.round q = .fin v) :
    nearest q = v ∧ v < pow2 1024 := by
  change PyFloat.ofRat q = .fin v at h
  rw [PyFloat.ofRat_eq hq] at h
  split at h
  · cases h
  next hlt => cases h; exact ⟨rfl, not_le.mp hlt⟩

theorem binary64_sound : binary64.Sound (1 / 2 ^ 46) where
  zero := rfl
  nonpos q h := by
    change (PyFloat.ofRat q).le (.fin 0) = true
    by_cases hq0 : q = 0
    · subst hq0
      rfl
    · have hneg : q < 0 := lt_of_le_of_ne h hq0
      unfold PyFloat.ofRat
      rw [if_neg hq0]
      dsimp only
      split
      · simpa [PyFloat.le] using hneg
      · have hpos := PyFloat.pow2_pos (max (PyFloat.log2 (PyFloat.abs q)) (-1022) - 52)
        have hround := PyFloat.roundHalfEven_le (k := 0)
          (q := q / PyFloat.pow2 (max (PyFloat.log2 (PyFloat.abs q)) (-1022) - 52))
          (by exact_mod_cast div_nonpos_of_nonpos_of_nonneg h hpos.le)
        have hle := mul_nonpos_of_nonpos_of_nonneg (Int.cast_nonpos (R := Rat).mpr hround) hpos.le
        simpa [PyFloat.le] using hle
  mono p q hp h := by
    change (PyFloat.ofRat p).le (PyFloat.ofRat q) = true
    by_cases hp0 : p = 0
    · subst hp0
      have hnn := nearest_nonneg h
      rw [PyFloat.ofRat_eq h, show PyFloat.ofRat 0 = .fin 0 from rfl]
      split
      · rfl
      · simpa [PyFloat.le] using hnn
    · have hmono := PyFloat.nearest_mono (lt_of_le_of_ne hp (Ne.symm hp0)) h
      rw [PyFloat.ofRat_eq hp, PyFloat.ofRat_eq (hp.trans h)]
      split
      next hover => rw [if_pos (hover.trans hmono)]; rfl
      · split
        · rfl
        · simpa [PyFloat.le] using hmono
  stable q v hq h := by
    obtain ⟨hv, hlt⟩ := binary64_round_fin hq h
    have hnn : 0 ≤ v := hv ▸ nearest_nonneg hq
    change PyFloat.ofRat v = .fin v
    by_cases hv0 : v = 0
    · subst hv0
      rfl
    · have hqpos : 0 < q := by
        refine lt_of_le_of_ne hq (fun h0 => hv0 ?_)
        subst h0
        cases h
        rfl
      have hidem := PyFloat.nearest_idem hqpos (by rw [hv]; exact lt_of_le_of_ne hnn (Ne.symm hv0))
      rw [hv] at hidem
      rw [PyFloat.ofRat_eq hnn, hidem, if_neg (not_le.mpr hlt)]
  near q hq hsmall := by
    by_cases hq0 : q = 0
    · subst hq0
      exact ⟨0, rfl, by norm_num, by norm_num⟩
    · have hpos : 0 < q := lt_of_le_of_ne hq (Ne.symm hq0)
      have hbin : binade q ≤ 7 := by
        have hlog : PyFloat.log2 q ≤ 7 := by
          by_contra hgt
          have h8 := PyFloat.pow2_mono (by omega : (8 : Int) ≤ PyFloat.log2 q)
          have h256 : pow2 8 = 256 := by rw [PyFloat.pow2_eq]; norm_num
          linarith [(PyFloat.log2_spec hpos).1]
        unfold binade
        omega
      have hulp : pow2 (binade q - 53) ≤ 1 / 2 ^ 46 := by
        have h46 : pow2 (-46) = 1 / 2 ^ 46 := by rw [PyFloat.pow2_eq]; norm_num
        rw [← h46]
        exact PyFloat.pow2_mono (by omega)
      have hnear := PyFloat.nearest_near q
      have hlt : ¬ pow2 1024 ≤ nearest q := by
        have hbig := PyFloat.pow2_mono (by norm_num : (9 : Int) ≤ 1024)
        have h512 : pow2 9 = 512 := by rw [PyFloat.pow2_eq]; norm_num
        have h46 : (1 : Rat) / 2 ^ 46 ≤ 1 := by norm_num
        rw [not_le]
        linarith
      refine ⟨nearest q, ?_, by linarith, by linarith⟩
      change PyFloat.ofRat q = _
      rw [PyFloat.ofRat_eq hq, if_neg hlt]

namespace Rounding.Sound
variable {R : Rounding} {δ : Rat}

theorem nonneg (h : R.Sound δ) {q v : Rat} (hq : 0 ≤ q) (hv : R.round q = .fin v) : 0 ≤ v := by
  have := h.mono 0 q le_rfl hq
  rw [h.zero, hv] at this
  simpa [PyFloat.le] using this

/-- A float below the exact result stays below the rounded one. -/
theorem le_round (h : R.Sound δ) {d q : Rat} (hd : R.round d = .fin d) (h0 : 0 ≤ d) (hle : d ≤ q) :
    AtLeast d (R.round q) := by
  have := h.mono d q h0 hle
  rwa [hd] at this

theorem atLeast_add (h : R.Sound δ) {d : Rat} (hd : R.round d = .fin d) (h0 : 0 ≤ d)
    {x y : PyFloat} (hx : AtLeast d x) (hy : AtLeast 0 y) : AtLeast d (R.add x y) := by
  cases x with
  | nan => exact absurd hx (PyFloat.not_atLeast_nan d)
  | inf n =>
      cases (PyFloat.atLeast_inf d n).mp hx
      cases y with
      | nan => exact absurd hy (PyFloat.not_atLeast_nan 0)
      | inf m =>
          cases (PyFloat.atLeast_inf 0 m).mp hy
          rfl
      | fin b => rfl
  | fin a =>
      cases y with
      | nan => exact absurd hy (PyFloat.not_atLeast_nan 0)
      | inf m => exact hy
      | fin b =>
          have hsum := add_le_add (PyFloat.atLeast_fin.mp hx) (PyFloat.atLeast_fin.mp hy)
          rw [add_zero] at hsum
          exact h.le_round hd h0 hsum

end Rounding.Sound

end PyNumber
