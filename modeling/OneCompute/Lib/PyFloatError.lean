import Mathlib.Algebra.Order.Ring.Pow
import Mathlib.Tactic.LinearCombination
import OneCompute.Lib.PyFloatRepr

/-!
How far a computation on floats may be off. A bound is stated with the number of roundings
made so far, each of which costs a factor of `1 - 2⁻⁵³` at most while the bound stays in the
range in which floats are evenly spread.
-/

namespace PyFloat
open PyNumber (binary64)

theorem pow2_add (a b : Int) : pow2 (a + b) = pow2 a * pow2 b := by
  simp only [pow2_eq]
  exact zpow_add₀ (by norm_num) a b

/-! ## The cost of a number of roundings -/

/-- What `n` roundings leave of a bound. -/
def slack (n : Nat) : Rat := (1 - 1 / 2 ^ 53) ^ n

theorem slack_pos (n : Nat) : 0 < slack n := pow_pos (by norm_num) n

theorem slack_le_one (n : Nat) : slack n ≤ 1 := pow_le_one₀ (by norm_num) (by norm_num)

theorem slack_add (m n : Nat) : slack (m + n) = slack m * slack n := pow_add _ m n

theorem slack_succ (n : Nat) : slack (n + 1) = slack n * (1 - 1 / 2 ^ 53) := pow_succ _ n

/-- Each rounding costs `2⁻⁵³` at most. -/
theorem le_slack (n : Nat) : 1 - n / 2 ^ 53 ≤ slack n := by
  have h := one_add_mul_le_pow (a := -(1 / 2 ^ 53 : Rat)) (by norm_num) n
  rw [slack, sub_eq_add_neg 1 (1 / 2 ^ 53 : Rat)]
  refine le_trans (le_of_eq ?_) h
  ring

theorem half_le_slack {n : Nat} (hn : n ≤ 2 ^ 52) : 1 / 2 ≤ slack n := by
  have hcast : (n : Rat) ≤ 2 ^ 52 := by exact_mod_cast hn
  have h : (n : Rat) / 2 ^ 53 ≤ 1 / 2 := by
    rw [div_le_iff₀ (by norm_num)]
    linarith
  linarith [le_slack n]

theorem slack_anti {m n : Nat} (h : m ≤ n) : slack n ≤ slack m :=
  pow_le_pow_of_le_one (by norm_num) (by norm_num) h

/-! ## One rounding -/

/-- Above the subnormals the unit of the last place is small against the number. -/
theorem half_ulp_le {q : Rat} (h : pow2 (-1022) ≤ q) : pow2 (binade q - 53) ≤ q / 2 ^ 53 := by
  have hq : 0 < q := (pow2_pos _).trans_le h
  have hlog : -1022 ≤ log2 q := by
    have hmono := log2_mono (pow2_pos (-1022)) h
    rwa [log2_eq (le_refl (pow2 (-1022))) (by rw [pow2_succ]; linarith [pow2_pos (-1022)])] at hmono
  have hbinade : binade q = log2 q := max_eq_left hlog
  have hscale : pow2 (binade q) = 2 ^ 53 * pow2 (binade q - 53) := by
    have hadd := pow2_add_nat (binade q - 53) 53
    rw [show binade q - 53 + ((53 : Nat) : Int) = binade q by omega] at hadd
    exact_mod_cast hadd
  rw [le_div_iff₀ (by norm_num), mul_comm, ← hscale, hbinade]
  exact (log2_spec hq).1

theorem nearest_le_mul {q b : Rat} (hq : 0 ≤ q) (h : q ≤ b) (hb : pow2 (-1022) ≤ b) :
    nearest q ≤ b * (1 + 1 / 2 ^ 53) := by
  have hmono := nearest_mono_nonneg hq h
  have hnear := (nearest_near b).2
  linarith [half_ulp_le hb]

theorem mul_le_nearest {q d : Rat} (h : d ≤ q) (hd : pow2 (-1022) ≤ d) :
    d * (1 - 1 / 2 ^ 53) ≤ nearest q := by
  have hmono := nearest_mono ((pow2_pos _).trans_le hd) h
  have hnear := (nearest_near d).1
  linarith [half_ulp_le hd]

theorem ofRat_fin {q : Rat} (hq : 0 ≤ q) (h : nearest q < pow2 1024) : ofRat q = .fin (nearest q) := by
  rw [ofRat_eq hq, if_neg (not_le.mpr h)]

/-- What is zero, or far from the ends of the range. -/
def Ranged (b : Rat) : Prop := b = 0 ∨ pow2 (-1021) ≤ b ∧ b ≤ pow2 1022

section Round
variable {m : Nat} {b d q : Rat}

/-- A bound is not lost in a rounding, but for its slack. -/
theorem nearest_below (hq : 0 ≤ q) (h : q * slack m ≤ b) (hr : Ranged b) (hm : m ≤ 2 ^ 52) :
    nearest q < pow2 1024 ∧ nearest q * slack (m + 1) ≤ b := by
  have hpos := slack_pos m
  have hhalf := half_le_slack hm
  rcases hr with rfl | ⟨hlow, hhigh⟩
  · have hzero : q = 0 := by nlinarith
    rw [hzero, nearest_zero]
    exact ⟨pow2_pos _, by simp⟩
  · have hb : 0 < b := (pow2_pos _).trans_le hlow
    have hle : q ≤ b / slack m := (le_div_iff₀ hpos).mpr h
    have htwice : b / slack m ≤ 2 * b := by
      rw [div_le_iff₀ hpos]
      nlinarith
    have hself : b ≤ b / slack m := by
      rw [le_div_iff₀ hpos]
      nlinarith [slack_le_one m]
    have hbig : pow2 (-1022) ≤ b / slack m := ((pow2_mono (by norm_num)).trans hlow).trans hself
    have hnear := nearest_le_mul hq hle hbig
    have htop : pow2 1024 = 2 * (2 * pow2 1022) := by
      rw [show (1024 : Int) = 1022 + 1 + 1 by norm_num, pow2_succ, pow2_succ]
    refine ⟨?_, ?_⟩
    · rw [htop]
      linarith
    · have hcancel : b / slack m * slack m = b := div_mul_cancel₀ b hpos.ne'
      calc nearest q * slack (m + 1)
          ≤ (b / slack m * (1 + 1 / 2 ^ 53)) * slack (m + 1) :=
            mul_le_mul_of_nonneg_right hnear (slack_pos _).le
        _ = b * ((1 + 1 / 2 ^ 53) * (1 - 1 / 2 ^ 53)) := by
            rw [slack_succ]
            linear_combination ((1 + 1 / 2 ^ 53) * (1 - 1 / 2 ^ 53) : Rat) * hcancel
        _ ≤ b := mul_le_of_le_one_right hb.le (by norm_num)

theorem above_nearest (h : d * slack m ≤ q) (hd : d = 0 ∨ pow2 (-1021) ≤ d) (hm : m ≤ 2 ^ 52) :
    d * slack (m + 1) ≤ nearest q := by
  rcases hd with rfl | hlow
  · rw [zero_mul] at h ⊢
    exact PyNumber.nearest_nonneg h
  · have htwice : pow2 (-1021) = 2 * pow2 (-1022) := by
      rw [show (-1021 : Int) = -1022 + 1 by norm_num, pow2_succ]
    have hbig : pow2 (-1022) ≤ d * slack m := by nlinarith [half_le_slack hm, pow2_pos (-1022)]
    have hnear := mul_le_nearest h hbig
    rw [slack_succ, ← mul_assoc]
    exact hnear

end Round

/-! ## Bounds on signed numbers -/

/-- A number of magnitude `b` at most, but for the slack of `n` roundings. -/
def Below (n : Nat) (b : Rat) (x : PyFloat) : Prop := ∃ q, x = .fin q ∧ |q| * slack n ≤ b

section Below
variable {m n : Nat} {a b d q : Rat} {x y : PyFloat}

theorem Below.of_abs (h : |q| ≤ b) : Below 0 b (.fin q) := ⟨q, rfl, by simpa [slack] using h⟩

theorem Below.later (h : Below m a x) (hmn : m ≤ n) : Below n a x := by
  obtain ⟨q, rfl, hq⟩ := h
  exact ⟨q, rfl, (mul_le_mul_of_nonneg_left (slack_anti hmn) (abs_nonneg q)).trans hq⟩

theorem Below.mono (h : Below m a x) (hab : a ≤ b) : Below m b x := by
  obtain ⟨q, rfl, hq⟩ := h
  exact ⟨q, rfl, hq.trans hab⟩

theorem Below.neg (h : Below m a x) : Below m a x.neg := by
  obtain ⟨q, rfl, hq⟩ := h
  exact ⟨-q, rfl, by rwa [show |(-q)| = |q| from abs_eq_abs.mpr (.inr rfl)]⟩

theorem Below.isFinite (h : Below m a x) : x.isFinite = true := by
  obtain ⟨q, rfl, -⟩ := h
  rfl

/-- The slack of any number of roundings that occurs is a factor of two at most. -/
theorem Below.abs_le (h : Below m a x) (hm : m ≤ 2 ^ 52) : ∃ q, x = .fin q ∧ |q| ≤ 2 * a := by
  obtain ⟨q, rfl, hq⟩ := h
  refine ⟨q, rfl, ?_⟩
  nlinarith [half_le_slack hm, abs_nonneg q]

theorem Below.round (h : |q| * slack m ≤ b) (hr : Ranged b) (hm : m ≤ 2 ^ 52) :
    Below (m + 1) b (binary64.round q) := by
  obtain ⟨hlt, hle⟩ := nearest_below (abs_nonneg q) h hr hm
  rcases le_total 0 q with hq | hq
  · rw [abs_of_nonneg hq] at hlt hle
    refine ⟨nearest q, ofRat_fin hq hlt, ?_⟩
    rwa [abs_of_nonneg (PyNumber.nearest_nonneg hq)]
  · rw [abs_of_nonpos hq] at hlt hle
    refine ⟨-nearest (-q), ?_, ?_⟩
    · have hfin := ofRat_fin (neg_nonneg.mpr hq) hlt
      rw [ofRat_neg] at hfin
      change ofRat q = _
      cases hx : ofRat q with
      | nan => rw [hx] at hfin; cases hfin
      | inf s => rw [hx] at hfin; cases hfin
      | fin p =>
          rw [hx] at hfin
          rw [← PyFloat.fin.inj hfin, neg_neg]
    · have hnn := PyNumber.nearest_nonneg (neg_nonneg.mpr hq)
      rwa [abs_of_nonpos (neg_nonpos.mpr hnn), neg_neg]

theorem Below.add (hx : Below m a x) (hy : Below m b y) (hr : Ranged (a + b)) (hm : m ≤ 2 ^ 52) :
    Below (m + 1) (a + b) (binary64.add x y) := by
  obtain ⟨p, rfl, hp⟩ := hx
  obtain ⟨q, rfl, hq⟩ := hy
  refine Below.round ?_ hr hm
  calc |p + q| * slack m ≤ (|p| + |q|) * slack m :=
        mul_le_mul_of_nonneg_right (abs_add_le p q) (slack_pos m).le
    _ = |p| * slack m + |q| * slack m := add_mul _ _ _
    _ ≤ a + b := add_le_add hp hq

theorem Below.mul (hx : Below m a x) (hy : Below n b y) (hr : Ranged (a * b))
    (hm : m + n ≤ 2 ^ 52) : Below (m + n + 1) (a * b) (binary64.mul x y) := by
  obtain ⟨p, rfl, hp⟩ := hx
  obtain ⟨q, rfl, hq⟩ := hy
  refine Below.round ?_ hr hm
  have hp0 : 0 ≤ |p| * slack m := mul_nonneg (abs_nonneg p) (slack_pos m).le
  have hq0 : 0 ≤ |q| * slack n := mul_nonneg (abs_nonneg q) (slack_pos n).le
  calc |p * q| * slack (m + n) = (|p| * slack m) * (|q| * slack n) := by
        rw [abs_mul, slack_add]
        ring
    _ ≤ a * b := mul_le_mul hp hq hq0 (hp0.trans hp)

end Below

/-! ## Bounds on numbers that are not negative -/

/-- A number between `d` and `b`, but for the slack of `n` roundings. -/
def Within (n : Nat) (d b : Rat) (x : PyFloat) : Prop :=
  ∃ q, x = .fin q ∧ 0 ≤ d ∧ d * slack n ≤ q ∧ q * slack n ≤ b

section Within
variable {m n : Nat} {a b c d q : Rat} {x y : PyFloat}

theorem Within.round (hd0 : 0 ≤ d) (hd : d * slack m ≤ q) (hb : q * slack m ≤ b)
    (hlow : d = 0 ∨ pow2 (-1021) ≤ d) (hr : Ranged b) (hm : m ≤ 2 ^ 52) :
    Within (m + 1) d b (binary64.round q) := by
  have hq : 0 ≤ q := (mul_nonneg hd0 (slack_pos m).le).trans hd
  obtain ⟨hlt, hle⟩ := nearest_below hq hb hr hm
  exact ⟨nearest q, ofRat_fin hq hlt, hd0, above_nearest hd hlow hm, hle⟩

theorem Within.later (h : Within m d b x) (hmn : m ≤ n) : Within n d b x := by
  obtain ⟨q, rfl, hd0, hd, hb⟩ := h
  have hanti := slack_anti hmn
  have hq : 0 ≤ q := (mul_nonneg hd0 (slack_pos m).le).trans hd
  exact ⟨q, rfl, hd0, (mul_le_mul_of_nonneg_left hanti hd0).trans hd,
    (mul_le_mul_of_nonneg_left hanti hq).trans hb⟩

theorem Within.below (h : Within m d b x) : Below m b x := by
  obtain ⟨q, rfl, hd0, hd, hb⟩ := h
  have hq : 0 ≤ q := (mul_nonneg hd0 (slack_pos m).le).trans hd
  exact ⟨q, rfl, by rwa [abs_of_nonneg hq]⟩

theorem Within.add (hx : Within m c a x) (hy : Within m d b y)
    (hlow : c + d = 0 ∨ pow2 (-1021) ≤ c + d) (hr : Ranged (a + b)) (hm : m ≤ 2 ^ 52) :
    Within (m + 1) (c + d) (a + b) (binary64.add x y) := by
  obtain ⟨p, rfl, hc0, hc, ha⟩ := hx
  obtain ⟨q, rfl, hd0, hd, hb⟩ := hy
  refine Within.round (add_nonneg hc0 hd0) ?_ ?_ hlow hr hm
  · rw [add_mul]
    exact add_le_add hc hd
  · rw [add_mul]
    exact add_le_add ha hb

theorem Within.mul (hx : Within m c a x) (hy : Within n d b y)
    (hlow : c * d = 0 ∨ pow2 (-1021) ≤ c * d) (hr : Ranged (a * b)) (hm : m + n ≤ 2 ^ 52) :
    Within (m + n + 1) (c * d) (a * b) (binary64.mul x y) := by
  obtain ⟨p, rfl, hc0, hc, ha⟩ := hx
  obtain ⟨q, rfl, hd0, hd, hb⟩ := hy
  have hcs : 0 ≤ c * slack m := mul_nonneg hc0 (slack_pos m).le
  have hds : 0 ≤ d * slack n := mul_nonneg hd0 (slack_pos n).le
  have hp : 0 ≤ p * slack m := mul_nonneg (hcs.trans hc) (slack_pos m).le
  have hq : 0 ≤ q * slack n := mul_nonneg (hds.trans hd) (slack_pos n).le
  refine Within.round (mul_nonneg hc0 hd0) ?_ ?_ hlow hr hm
  · calc c * d * slack (m + n) = (c * slack m) * (d * slack n) := by
          rw [slack_add]
          ring
      _ ≤ p * q := mul_le_mul hc hd hds (hcs.trans hc)
  · calc p * q * slack (m + n) = (p * slack m) * (q * slack n) := by
          rw [slack_add]
          ring
      _ ≤ a * b := mul_le_mul ha hb hq (hp.trans ha)

/-- An integer as a float. -/
theorem Within.ofInt {i : Int} (hi : 1 ≤ i) (hhigh : (i : Rat) ≤ pow2 1022) :
    Within 1 i i (binary64.round i) := by
  have h1 : (1 : Rat) ≤ i := by exact_mod_cast hi
  have hone : pow2 (-1021) ≤ 1 := (pow2_mono (by norm_num : (-1021 : Int) ≤ 0)).trans_eq rfl
  refine @Within.round 0 _ _ _ (by linarith) ?_ ?_ (.inr (hone.trans h1))
    (.inr ⟨hone.trans h1, hhigh⟩) (by norm_num) <;> simp [slack]

theorem Below.div (hx : Below m a x) (hy : Within n c b y) (hc : 0 < c) (hr : Ranged (a / c))
    (hm : m + n ≤ 2 ^ 52) : Below (m + n + 1) (a / c) (binary64.div x y) := by
  obtain ⟨p, rfl, hp⟩ := hx
  obtain ⟨q, rfl, -, hq, -⟩ := hy
  have hcs : 0 < c * slack n := mul_pos hc (slack_pos n)
  have hq0 : 0 < q := hcs.trans_le hq
  refine Below.round ?_ hr hm
  rw [abs_div, abs_of_pos hq0, slack_add, div_mul_eq_mul_div, div_le_div_iff₀ hq0 hc]
  calc |p| * (slack m * slack n) * c = (|p| * slack m) * (c * slack n) := by ring
    _ ≤ a * q := mul_le_mul hp hq hcs.le ((mul_nonneg (abs_nonneg p) (slack_pos m).le).trans hp)

theorem Within.div (hx : Within m c a x) (hy : Within n d b y) (hd0 : 0 < d)
    (hlow : c / b = 0 ∨ pow2 (-1021) ≤ c / b) (hr : Ranged (a / d)) (hm : m + n ≤ 2 ^ 52) :
    Within (m + n + 1) (c / b) (a / d) (binary64.div x y) := by
  obtain ⟨p, rfl, hc0, hc, ha⟩ := hx
  obtain ⟨q, rfl, -, hd, hb⟩ := hy
  have hcs : 0 ≤ c * slack m := mul_nonneg hc0 (slack_pos m).le
  have hds : 0 < d * slack n := mul_pos hd0 (slack_pos n)
  have hq0 : 0 < q := hds.trans_le hd
  have hb0 : 0 < b := (mul_pos hq0 (slack_pos n)).trans_le hb
  have hp : 0 ≤ p * slack m := mul_nonneg (hcs.trans hc) (slack_pos m).le
  refine Within.round (div_nonneg hc0 hb0.le) ?_ ?_ hlow hr hm
  · rw [slack_add, div_mul_eq_mul_div, div_le_div_iff₀ hb0 hq0]
    calc c * (slack m * slack n) * q = (c * slack m) * (q * slack n) := by ring
      _ ≤ p * b := mul_le_mul hc hb (mul_nonneg hq0.le (slack_pos n).le) (hcs.trans hc)
  · rw [slack_add, div_mul_eq_mul_div, div_le_div_iff₀ hq0 hd0]
    calc p * (slack m * slack n) * d = (p * slack m) * (d * slack n) := by ring
      _ ≤ a * q := mul_le_mul ha hd hds.le (hp.trans ha)

/-- A difference is not negative when the bounds leave room for its roundings. -/
theorem Within.sub_nonneg (hx : Within m d b x) (hy : Below n a y) (hle : a ≤ d * slack (m + n))
    (hr : Ranged (b + a)) (hm : m + n ≤ 2 ^ 52) : ∃ q, binary64.sub x y = .fin q ∧ 0 ≤ q := by
  have hfinite := (Below.add (hx.below.later (Nat.le_add_right m n))
    (hy.neg.later (Nat.le_add_left n m)) hr hm).isFinite
  obtain ⟨p, rfl, -, hp, -⟩ := hx
  obtain ⟨q, rfl, hq⟩ := hy
  have hqp : q ≤ p := by
    have hslack := slack_pos n
    have hbound : |q| * slack n ≤ d * slack m * slack n := by
      rw [mul_assoc, ← slack_add]
      exact hq.trans hle
    exact (le_abs_self q).trans ((le_of_mul_le_mul_right hbound hslack).trans hp)
  change (binary64.round (p + -q)).isFinite = true at hfinite
  change ∃ w, binary64.round (p + -q) = .fin w ∧ 0 ≤ w
  have hnonneg : 0 ≤ p + -q := by linarith
  cases hround : binary64.round (p + -q) with
  | nan | inf _ =>
      rw [hround] at hfinite
      cases hfinite
  | fin w =>
      obtain ⟨rfl, -⟩ := PyNumber.binary64_round_fin hnonneg hround
      exact ⟨_, rfl, PyNumber.nearest_nonneg hnonneg⟩

end Within

/-! ## Running sums -/

section Sums
variable {α : Type} {m j : Nat} {ts : List α} {f : α → PyFloat} {g h : α → Rat} {s t : Rat}
  {acc : PyFloat}

/-- Numbers that are zero or not too small add up to such a number. -/
theorem low_add {d : Rat} (hd : 0 ≤ d) (hs : s = 0 ∨ d ≤ s) (ht : t = 0 ∨ d ≤ t) :
    s + t = 0 ∨ d ≤ s + t := by
  rcases hs with rfl | hs
  · rwa [zero_add]
  · rcases ht with rfl | ht
    · rw [add_zero]
      exact .inr hs
    · exact .inr (by linarith)

theorem low_sum {d : Rat} (hd : 0 ≤ d) (hg : ∀ t ∈ ts, g t = 0 ∨ d ≤ g t) (hs : s = 0 ∨ d ≤ s) :
    s + (ts.map g).sum = 0 ∨ d ≤ s + (ts.map g).sum := by
  induction ts generalizing s with
  | nil => simpa using hs
  | cons t ts ih =>
      rw [List.map_cons, List.sum_cons, ← add_assoc]
      exact ih (fun u hu => hg u (List.mem_cons_of_mem _ hu))
        (low_add hd hs (hg t List.mem_cons_self))

theorem nonneg_of_low {d : Rat} (hd : 0 ≤ d) (hs : s = 0 ∨ d ≤ s) : 0 ≤ s :=
  hs.elim (fun h => h.ge) hd.trans

theorem sum_nonneg_of_low {d : Rat} (hd : 0 ≤ d) (hg : ∀ t ∈ ts, g t = 0 ∨ d ≤ g t) :
    0 ≤ (ts.map g).sum :=
  List.sum_nonneg (List.forall_mem_map.mpr fun t ht => nonneg_of_low hd (hg t ht))

theorem Below.foldl (hacc : Below (m + j) s acc) (hf : ∀ t ∈ ts, Below m (g t) (f t))
    (hs : s = 0 ∨ pow2 (-1021) ≤ s) (hg : ∀ t ∈ ts, g t = 0 ∨ pow2 (-1021) ≤ g t)
    (hhigh : s + (ts.map g).sum ≤ pow2 1022) (hm : m + j + ts.length ≤ 2 ^ 52) :
    Below (m + j + ts.length) (s + (ts.map g).sum) ((ts.map f).foldl binary64.add acc) := by
  induction ts generalizing j s acc with
  | nil => simpa using hacc
  | cons t ts ih =>
      rw [List.map_cons, List.sum_cons, ← add_assoc] at hhigh ⊢
      rw [List.length_cons] at hm ⊢
      have hlow := low_add (pow2_pos (-1021)).le hs (hg t List.mem_cons_self)
      have hrest := sum_nonneg_of_low (pow2_pos (-1021)).le fun u hu => hg u (List.mem_cons_of_mem t hu)
      have hranged : Ranged (s + g t) := hlow.imp id fun h => ⟨h, by linarith⟩
      have hnext := Below.add hacc ((hf t List.mem_cons_self).later (by omega)) hranged (by omega)
      have hfinal := ih (j := j + 1) hnext (fun u hu => hf u (List.mem_cons_of_mem _ hu)) hlow
        (fun u hu => hg u (List.mem_cons_of_mem _ hu)) hhigh (by omega)
      rwa [show m + (j + 1) + ts.length = m + j + (ts.length + 1) by omega] at hfinal

theorem Within.foldl (hacc : Within (m + j) s t acc)
    (hf : ∀ t ∈ ts, Within m (g t) (h t) (f t)) (hs : s = 0 ∨ pow2 (-1021) ≤ s)
    (ht : t = 0 ∨ pow2 (-1021) ≤ t) (hg : ∀ t ∈ ts, g t = 0 ∨ pow2 (-1021) ≤ g t)
    (hh : ∀ t ∈ ts, h t = 0 ∨ pow2 (-1021) ≤ h t) (hhigh : t + (ts.map h).sum ≤ pow2 1022)
    (hm : m + j + ts.length ≤ 2 ^ 52) :
    Within (m + j + ts.length) (s + (ts.map g).sum) (t + (ts.map h).sum)
      ((ts.map f).foldl binary64.add acc) := by
  induction ts generalizing j s t acc with
  | nil => simpa using hacc
  | cons u ts ih =>
      rw [List.map_cons, List.sum_cons, ← add_assoc] at hhigh
      rw [List.map_cons, List.map_cons, List.sum_cons, List.sum_cons, ← add_assoc, ← add_assoc]
      rw [List.length_cons] at hm ⊢
      have hlow := low_add (pow2_pos (-1021)).le hs (hg u List.mem_cons_self)
      have hlow' := low_add (pow2_pos (-1021)).le ht (hh u List.mem_cons_self)
      have hrest := sum_nonneg_of_low (pow2_pos (-1021)).le fun v hv => hh v (List.mem_cons_of_mem u hv)
      have hranged : Ranged (t + h u) := hlow'.imp id fun hl => ⟨hl, by linarith⟩
      have hnext := Within.add hacc ((hf u List.mem_cons_self).later (by omega)) hlow hranged
        (by omega)
      have hfinal := ih (j := j + 1) hnext (fun v hv => hf v (List.mem_cons_of_mem _ hv)) hlow hlow'
        (fun v hv => hg v (List.mem_cons_of_mem _ hv))
        (fun v hv => hh v (List.mem_cons_of_mem _ hv)) hhigh (by omega)
      rwa [show m + (j + 1) + ts.length = m + j + (ts.length + 1) by omega] at hfinal

end Sums

end PyFloat
