import Mathlib.Data.Rat.Floor
import Mathlib.Tactic.FieldSimp
import Mathlib.Tactic.NormNum
import Mathlib.Tactic.Positivity
import OneCompute.Lib.PyFloat

/-!
Integers up to 2 ^ 53 are floats, so arithmetic on them that stays below that
bound is exact.
-/

namespace PyFloat

theorem roundHalfEven_intCast (k : Int) : roundHalfEven (k : Rat) = k := by
  simp [roundHalfEven]

theorem pow2_natCast (n : Nat) : pow2 (n : Int) = ((2 ^ n : Nat) : Rat) := by
  simp [pow2]

theorem pow2_pos (e : Int) : 0 < pow2 e := by
  unfold pow2
  split <;> positivity

theorem pow2_lt {m n : Nat} (h : m < n) : pow2 (m : Int) < pow2 (n : Int) := by
  rw [pow2_natCast, pow2_natCast]
  exact Nat.cast_lt.mpr (Nat.pow_lt_pow_right (by omega) h)

theorem log2_natCast {n : Nat} (hn : n ≠ 0) : log2 (n : Rat) = (Nat.log2 n : Int) := by
  have hle : pow2 (Nat.log2 n : Int) ≤ (n : Rat) := by
    rw [pow2_natCast]
    exact_mod_cast Nat.log2_self_le hn
  have hone : Nat.log2 1 = 0 := by decide
  simp [log2, hone, not_lt.mpr hle]

theorem abs_intCast (i : Int) : abs (i : Rat) = (i.natAbs : Rat) := by
  unfold abs
  split
  next h =>
    have hi : i < 0 := by exact_mod_cast h
    have hn : ((i.natAbs : Int) : Rat) = ((-i : Int) : Rat) :=
      congrArg _ (Int.ofNat_natAbs_of_nonpos hi.le)
    rw [Int.cast_natCast, Int.cast_neg] at hn
    exact hn.symm
  next h =>
    have hi : 0 ≤ i := by
      by_contra hc
      exact h (by exact_mod_cast not_le.mp hc)
    have hn : ((i.natAbs : Int) : Rat) = (i : Rat) := congrArg _ (Int.natAbs_of_nonneg hi)
    rw [Int.cast_natCast] at hn
    exact hn.symm

/-- The unit in the last place divides every integer of at most 53 bits. -/
theorem ulp_dvd {i : Int} (hi : i ≠ 0) (h : i.natAbs ≤ 2 ^ 53) :
    ∃ k : Int, (i : Rat) = k * pow2 ((Nat.log2 i.natAbs : Int) - 52) := by
  have hn : i.natAbs ≠ 0 := Int.natAbs_ne_zero.mpr hi
  by_cases he : Nat.log2 i.natAbs ≤ 52
  · refine ⟨i * (2 ^ (52 - Nat.log2 i.natAbs) : Nat), ?_⟩
    by_cases heq : Nat.log2 i.natAbs = 52
    · simp [heq, pow2]
    · have hneg : ¬ (0 : Int) ≤ (Nat.log2 i.natAbs : Int) - 52 := by omega
      have hexp : (-((Nat.log2 i.natAbs : Int) - 52)).toNat = 52 - Nat.log2 i.natAbs := by omega
      rw [pow2, if_neg hneg, hexp]
      push_cast
      field_simp
  · have hge : 2 ^ Nat.log2 i.natAbs ≤ i.natAbs := Nat.log2_self_le hn
    have hlog : Nat.log2 i.natAbs = 53 := by
      have : 2 ^ Nat.log2 i.natAbs ≤ 2 ^ 53 := hge.trans h
      have := (Nat.pow_le_pow_iff_right (by omega : 1 < 2)).mp this
      omega
    rw [hlog] at hge
    have habs : i.natAbs = 2 ^ 53 := le_antisymm h hge
    have hpow : pow2 (((53 : Nat) : Int) - 52) = 2 := by
      change pow2 ((1 : Nat) : Int) = 2
      rw [pow2_natCast]
      norm_num
    rw [hlog, hpow]
    refine ⟨i / 2, ?_⟩
    have h2 : i = (i / 2) * 2 := by omega
    exact_mod_cast h2

theorem ofInt_exact {i : Int} (h : i.natAbs ≤ 2 ^ 53) : ofInt i = .fin i := by
  by_cases hi : i = 0
  · subst hi
    rfl
  · have hq : (i : Rat) ≠ 0 := by exact_mod_cast hi
    have he : max (log2 (abs (i : Rat))) (-1022) = (Nat.log2 i.natAbs : Int) := by
      rw [abs_intCast, log2_natCast (Int.natAbs_ne_zero.mpr hi)]
      omega
    obtain ⟨k, hk⟩ := ulp_dvd hi h
    have hpos := pow2_pos ((Nat.log2 i.natAbs : Int) - 52)
    have hround : roundHalfEven ((i : Rat) / pow2 ((Nat.log2 i.natAbs : Int) - 52)) = k := by
      rw [hk, mul_div_assoc, div_self hpos.ne', mul_one, roundHalfEven_intCast]
    have hsmall : ¬ pow2 1024 ≤ abs (i : Rat) := by
      rw [abs_intCast, not_le]
      have hle : (i.natAbs : Rat) ≤ pow2 ((53 : Nat) : Int) := by
        rw [pow2_natCast]
        exact_mod_cast h
      exact hle.trans_lt (pow2_lt (n := 1024) (by omega))
    simp only [ofInt, ofRat, hq, if_false, he, hround, ← hk, hsmall]

theorem mul_ofInt_exact {i k : Int} (hi : i.natAbs ≤ 2 ^ 53) (h : (i * k).natAbs ≤ 2 ^ 53) :
    mul (ofInt i) (.fin k) = .fin (i * k : Int) := by
  rw [ofInt_exact hi, mul]
  have hcast : (i : Rat) * (k : Rat) = ((i * k : Int) : Rat) := by push_cast; rfl
  rw [hcast]
  exact ofInt_exact h

end PyFloat
