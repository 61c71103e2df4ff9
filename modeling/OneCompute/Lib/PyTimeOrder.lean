import Mathlib.Algebra.Ring.Nat
import OneCompute.Lib.PyTime

/-!
ISO texts in order. They are made of fields of a fixed width, each with leading zeros,
so the first field that differs decides; a text without a fraction goes on with an offset,
which precedes the point of one that has a fraction.
-/

namespace PyTime

/-- The first instant that no `datetime` is. -/
def endOfTime : Time := 3652059 * 86400 * microsPerSecond

/-! ## Fields of a fixed width -/

section Fields
variable {α : Type} [LT α]

theorem append_lt_append {xs ys : List α} (h : xs < ys) (hlen : xs.length = ys.length)
    (us vs : List α) : xs ++ us < ys ++ vs := by
  induction h with
  | nil => cases hlen
  | cons _ ih => exact .cons (ih (Nat.succ.inj hlen))
  | rel hab => exact .rel hab

end Fields

theorem digitChar_lt {a b : Nat} (hab : a < b) (hb : b < 10) :
    Nat.digitChar a < Nat.digitChar b := by
  have hall : ∀ b < 10, ∀ a < b, Nat.digitChar a < Nat.digitChar b := by decide
  exact hall b hb a hab

theorem padded_length {w n : Nat} (hw : 0 < w) (hn : n < 10 ^ w) : (padded w n).length = w := by
  have hlen := (Nat.length_toDigits_le_iff (by decide) hw).mpr hn
  unfold padded
  rw [List.length_append, List.length_replicate]
  omega

/-- The last digit stands apart. -/
theorem padded_succ {w n : Nat} (hw : 0 < w) :
    padded (w + 1) n = padded w (n / 10) ++ [Nat.digitChar (n % 10)] := by
  by_cases hn : n < 10
  · have hdiv : n / 10 = 0 := Nat.div_eq_of_lt hn
    have hmod : n % 10 = n := Nat.mod_eq_of_lt hn
    obtain ⟨v, rfl⟩ : ∃ v, w = v + 1 := ⟨w - 1, by omega⟩
    unfold padded
    rw [hdiv, hmod, Nat.toDigits_of_lt_base hn, Nat.toDigits_zero]
    change List.replicate (v + 1) '0' ++ [_] = (List.replicate v '0' ++ ['0']) ++ [_]
    rw [← List.replicate_succ']
  · have hdigits : Nat.toDigits 10 n = Nat.toDigits 10 (n / 10) ++ [Nat.digitChar (n % 10)] :=
      Nat.toDigits_of_base_le (by decide) (by omega)
    unfold padded
    dsimp only
    rw [hdigits, List.length_append, List.length_singleton, Nat.add_sub_add_right,
      List.append_assoc]

theorem padded_lt {w a b : Nat} (hw : 0 < w) (hab : a < b) (hb : b < 10 ^ w) :
    padded w a < padded w b := by
  induction w generalizing a b with
  | zero => omega
  | succ w ih =>
      by_cases hzero : w = 0
      · subst hzero
        have ha10 : a < 10 := by omega
        have hdigit := digitChar_lt hab hb
        unfold padded
        rw [Nat.toDigits_of_lt_base ha10, Nat.toDigits_of_lt_base (by omega)]
        exact .rel hdigit
      have hw : 0 < w := by omega
      have hpow : b / 10 < 10 ^ w := by
        rw [Nat.pow_succ] at hb
        omega
      have hpow' : a / 10 < 10 ^ w := by omega
      rw [padded_succ hw, padded_succ hw]
      by_cases hdiv : a / 10 < b / 10
      · refine append_lt_append (ih hw hdiv hpow) ?_ _ _
        rw [padded_length hw hpow', padded_length hw hpow]
      · have hdiv : a / 10 = b / 10 := by omega
        rw [hdiv]
        exact List.append_left_lt (.rel (digitChar_lt (by omega) (by omega)))

/-- The first field that differs decides. -/
theorem field_lt {w a b : Nat} {us vs : List Char} (hw : 0 < w) (ha : a < 10 ^ w) (hb : b < 10 ^ w)
    (h : a < b ∨ a = b ∧ us < vs) : padded w a ++ us < padded w b ++ vs := by
  rcases h with hab | ⟨rfl, h⟩
  · refine append_lt_append (padded_lt hw hab hb) ?_ us vs
    rw [padded_length hw ha, padded_length hw hb]
  · exact List.append_left_lt h

/-! ## The calendar -/

/-- The number of days before the first one of a year. -/
def daysBefore (year : Nat) : Nat :=
  365 * (year - 1) + (year - 1) / 4 - (year - 1) / 100 + (year - 1) / 400

theorem monthAndDay_month (lengths : List Nat) (month day : Nat) :
    month ≤ (monthAndDay month day lengths).1 ∧
      (monthAndDay month day lengths).1 ≤ month + lengths.length := by
  induction lengths generalizing month day with
  | nil => exact ⟨Nat.le_refl _, Nat.le_refl _⟩
  | cons length rest ih =>
      rw [monthAndDay, List.length_cons]
      split
      · exact ⟨Nat.le_refl _, Nat.le_add_right _ _⟩
      · have := ih (month + 1) (day - length)
        omega

theorem monthAndDay_day {lengths : List Nat} {k : Nat} (hk : ∀ l ∈ lengths, l ≤ k)
    {month day : Nat} (h : day < lengths.sum) : (monthAndDay month day lengths).2 ≤ k := by
  induction lengths generalizing month day with
  | nil => cases h
  | cons length rest ih =>
      rw [List.sum_cons] at h
      rw [monthAndDay]
      split
      · have := hk length List.mem_cons_self
        dsimp only
        omega
      · exact ih (fun l hl => hk l (List.mem_cons_of_mem _ hl)) (by omega)

/-- Later days have later dates. -/
theorem monthAndDay_lt {lengths : List Nat} {month d e : Nat} (hde : d < e)
    (he : e < lengths.sum) :
    (monthAndDay month d lengths).1 < (monthAndDay month e lengths).1 ∨
      (monthAndDay month d lengths).1 = (monthAndDay month e lengths).1 ∧
        (monthAndDay month d lengths).2 < (monthAndDay month e lengths).2 := by
  induction lengths generalizing month d e with
  | nil => cases he
  | cons length rest ih =>
      rw [List.sum_cons] at he
      rw [monthAndDay, monthAndDay]
      by_cases hd : d < length
      · rw [if_pos hd]
        split
        · exact .inr ⟨rfl, Nat.succ_lt_succ hde⟩
        · have := (monthAndDay_month rest (month + 1) (e - length)).1
          exact .inl this
      · rw [if_neg hd, if_neg (by omega)]
        exact ih (by omega) (by omega)

theorem monthLengths_sum (leap : Bool) :
    (monthLengths leap).sum = if leap then 366 else 365 := by
  cases leap <;> rfl

theorem daysBefore_eq {a b c d : Nat} (hb : b ≤ 3) (hc : c ≤ 24) (hd : d ≤ 3) :
    daysBefore (a * 400 + b * 100 + c * 4 + d + 1) = 146097 * a + 36524 * b + 1461 * c + 365 * d := by
  unfold daysBefore
  omega

/-- A date is the year that holds the day, and the day's place in it. -/
theorem civil_eq (n : Nat) : ∃ year, 1 ≤ year ∧ daysBefore year ≤ n ∧
    n - daysBefore year < (monthLengths (isLeap year)).sum ∧
    civil n = (year, monthAndDay 1 (n - daysBefore year) (monthLengths (isLeap year))) := by
  unfold civil
  dsimp only
  obtain ⟨a, ha⟩ : ∃ a, n / 146097 = a := ⟨_, rfl⟩
  obtain ⟨b, hb⟩ : ∃ b, n % 146097 / 36524 = b := ⟨_, rfl⟩
  obtain ⟨c, hc⟩ : ∃ c, n % 146097 % 36524 / 1461 = c := ⟨_, rfl⟩
  obtain ⟨d, hd⟩ : ∃ d, n % 146097 % 36524 % 1461 / 365 = d := ⟨_, rfl⟩
  rw [ha, hb, hc, hd]
  have hb4 : b ≤ 4 := by omega
  have hc24 : c ≤ 24 := by omega
  have hd4 : d ≤ 4 := by omega
  split
  next hlast =>
    -- the last day of a leap year
    obtain ⟨b', c', hb', hc', hyear, hn⟩ : ∃ b' c', b' ≤ 3 ∧ c' ≤ 24 ∧
        a * 400 + b * 100 + c * 4 + d + 1 - 1 = a * 400 + b' * 100 + c' * 4 + 3 + 1 ∧
        n = 146097 * a + 36524 * b' + 1461 * c' + 365 * 3 + 365 := by
      by_cases hb3 : b ≤ 3
      · exact ⟨b, c, hb3, hc24, by omega, by omega⟩
      · exact ⟨3, 24, Nat.le_refl _, Nat.le_refl _, by omega, by omega⟩
    have hleap : isLeap (a * 400 + b' * 100 + c' * 4 + 3 + 1) = true := by
      simp only [isLeap, Bool.and_eq_true, Bool.or_eq_true, decide_eq_true_eq]
      omega
    have hday : n - daysBefore (a * 400 + b' * 100 + c' * 4 + 3 + 1) = 365 := by
      rw [daysBefore_eq hb' hc' (Nat.le_refl 3)]
      omega
    rw [hyear]
    refine ⟨a * 400 + b' * 100 + c' * 4 + 3 + 1, by omega, by omega, ?_, ?_⟩
    · rw [hday, hleap]
      decide
    · rw [hday, hleap]
      rfl
  next hinner =>
    have hbefore := daysBefore_eq (a := a) (by omega : b ≤ 3) hc24 (by omega : d ≤ 3)
    have hday : n - daysBefore (a * 400 + b * 100 + c * 4 + d + 1) =
        n % 146097 % 36524 % 1461 % 365 := by
      omega
    refine ⟨a * 400 + b * 100 + c * 4 + d + 1, by omega, by omega, ?_, ?_⟩
    · rw [hday, monthLengths_sum]
      split <;> omega
    · rw [hday]

/-- The first of two dates is the earlier one. -/
def DateBefore (p q : Nat × Nat × Nat) : Prop :=
  p.1 < q.1 ∨ p.1 = q.1 ∧ (p.2.1 < q.2.1 ∨ p.2.1 = q.2.1 ∧ p.2.2 < q.2.2)

theorem isLeap_iff (year : Nat) :
    isLeap year = true ↔ year % 4 = 0 ∧ (year % 100 ≠ 0 ∨ year % 400 = 0) := by
  simp [isLeap]

/-- A multiple of `k` is passed, or none is. -/
theorem div_succ (k n : Nat) :
    (n + 1) % k = 0 ∧ (n + 1) / k = n / k + 1 ∨ (n + 1) % k ≠ 0 ∧ (n + 1) / k = n / k := by
  by_cases h : k ∣ n + 1
  · exact .inl ⟨Nat.mod_eq_zero_of_dvd h, Nat.succ_div_of_dvd h⟩
  · exact .inr ⟨fun hmod => h (Nat.dvd_of_mod_eq_zero hmod), Nat.succ_div_of_not_dvd h⟩

theorem daysBefore_succ (n : Nat) :
    daysBefore (n + 2) = daysBefore (n + 1) + (monthLengths (isLeap (n + 1))).sum := by
  have h100 : n / 100 ≤ n / 4 := by omega
  have hfour := div_succ 4 n
  have hcentury := div_succ 100 n
  have hcycle := div_succ 400 n
  have hleap := isLeap_iff (n + 1)
  unfold daysBefore
  rw [monthLengths_sum, Nat.add_sub_cancel, Nat.add_succ_sub_one]
  split
  next h =>
    have h := hleap.mp h
    omega
  next h =>
    have h := mt hleap.mpr h
    omega

theorem daysBefore_mono {y z : Nat} (hy : 1 ≤ y) (h : y ≤ z) : daysBefore y ≤ daysBefore z := by
  induction h with
  | refl => exact Nat.le_refl _
  | @step z hle ih =>
      have hle : y ≤ z := hle
      obtain ⟨n, rfl⟩ : ∃ n, z = n + 1 := ⟨z - 1, by omega⟩
      have := daysBefore_succ n
      change daysBefore y ≤ daysBefore (n + 2)
      omega

theorem civil_lt {n m : Nat} (h : n < m) : DateBefore (civil n) (civil m) := by
  obtain ⟨y, hy, hyn, hn, hcn⟩ := civil_eq n
  obtain ⟨z, hz, hzm, hm, hcm⟩ := civil_eq m
  have hyz : y ≤ z := by
    refine Nat.le_of_not_lt fun hlt => ?_
    obtain ⟨k, rfl⟩ : ∃ k, z = k + 1 := ⟨z - 1, by omega⟩
    have hmono : daysBefore (k + 2) ≤ daysBefore y := daysBefore_mono (by omega) hlt
    have hnext := daysBefore_succ k
    omega
  rw [hcn, hcm]
  by_cases heq : y = z
  · subst heq
    exact .inr ⟨rfl, monthAndDay_lt (by omega) hm⟩
  · exact .inl (by dsimp only; omega)

theorem civil_bounds {n : Nat} (h : n < 3652059) :
    (civil n).1 < 10 ^ 4 ∧ (civil n).2.1 < 10 ^ 2 ∧ (civil n).2.2 < 10 ^ 2 := by
  obtain ⟨y, hy, hyn, hn, hc⟩ := civil_eq n
  have hyear : y < 10 ^ 4 := by
    unfold daysBefore at hyn
    omega
  have hmonth := (monthAndDay_month (monthLengths (isLeap y)) 1 (n - daysBefore y)).2
  have hlength : (monthLengths (isLeap y)).length = 12 := rfl
  have hlong : ∀ l ∈ monthLengths (isLeap y), l ≤ 31 := by
    cases isLeap y <;> decide
  have hday : (monthAndDay 1 (n - daysBefore y) (monthLengths (isLeap y))).2 ≤ 31 :=
    monthAndDay_day hlong hn
  rw [hc]
  refine ⟨hyear, ?_, ?_⟩
  · dsimp only
    omega
  · dsimp only
    omega

/-! ## Texts -/

def dateText (ordinal : Nat) : List Char :=
  padded 4 (civil ordinal).1 ++ '-' :: padded 2 (civil ordinal).2.1 ++ '-' ::
    padded 2 (civil ordinal).2.2

def clockText (ofDay : Nat) : List Char :=
  padded 2 (ofDay / 3600) ++ ':' :: padded 2 (ofDay / 60 % 60) ++ ':' :: padded 2 (ofDay % 60)

def fractionText (micros : Nat) : List Char :=
  (if micros = 0 then [] else '.' :: padded 6 micros) ++ "+00:00".toList

/-- A text is its date, its time of day and its fraction. -/
theorem isoformat_toList (t : Time) : (isoformat t).toList =
    dateText (t / microsPerSecond / 86400) ++ 'T' ::
      (clockText (t / microsPerSecond % 86400) ++ fractionText (t % microsPerSecond)) := by
  unfold isoformat dateText clockText fractionText
  simp

theorem separated_lt {c : Char} {us vs : List Char} (h : us < vs) : c :: us < c :: vs := .cons h

theorem dateText_lt {n m : Nat} (hn : n < 3652059) (hm : m < 3652059) {us vs : List Char}
    (h : n < m ∨ n = m ∧ us < vs) : dateText n ++ us < dateText m ++ vs := by
  rcases h with hlt | ⟨rfl, h⟩
  · obtain ⟨hyear, hmonth, hday⟩ := civil_bounds hn
    obtain ⟨hyear', hmonth', hday'⟩ := civil_bounds hm
    unfold dateText
    simp only [List.append_assoc, List.cons_append]
    refine field_lt (by decide) hyear hyear' ?_
    rcases civil_lt hlt with hlt | ⟨heq, hlt⟩
    · exact .inl hlt
    refine .inr ⟨heq, separated_lt (field_lt (by decide) hmonth hmonth' ?_)⟩
    rcases hlt with hlt | ⟨heq, hlt⟩
    · exact .inl hlt
    exact .inr ⟨heq, separated_lt (field_lt (by decide) hday hday' (.inl hlt))⟩
  · exact List.append_left_lt h

theorem clockText_lt {a b : Nat} (hb : b < 86400) {us vs : List Char}
    (h : a < b ∨ a = b ∧ us < vs) : clockText a ++ us < clockText b ++ vs := by
  have hle : a ≤ b := h.elim Nat.le_of_lt fun h => Nat.le_of_eq h.1
  unfold clockText
  simp only [List.append_assoc, List.cons_append]
  refine field_lt (by decide) (by omega) (by omega) ?_
  by_cases hhour : a / 3600 < b / 3600
  · exact .inl hhour
  refine .inr ⟨by omega, separated_lt (field_lt (by decide) (by omega) (by omega) ?_)⟩
  by_cases hminute : a / 60 % 60 < b / 60 % 60
  · exact .inl hminute
  refine .inr ⟨by omega, separated_lt (field_lt (by decide) (by omega) (by omega) ?_)⟩
  by_cases hsecond : a % 60 < b % 60
  · exact .inl hsecond
  rcases h with hlt | ⟨-, h⟩
  · omega
  · exact .inr ⟨by omega, h⟩

/-- The offset after a whole second precedes the point before a fraction. -/
theorem fractionText_lt {a b : Nat} (hab : a < b) (hb : b < 10 ^ 6) :
    fractionText a < fractionText b := by
  unfold fractionText
  rw [if_neg (by omega : ¬ b = 0)]
  by_cases ha : a = 0
  · rw [if_pos ha]
    exact .rel (by decide)
  · rw [if_neg ha]
    exact .cons (field_lt (by decide) (by omega) hb (.inl hab))

theorem isoformat_lt {s t : Nat} (hst : s < t) (ht : t < endOfTime) :
    isoformat s < isoformat t := by
  have ht : t < 3652059 * 86400 * 1000000 := ht
  have hmicros : microsPerSecond = 1000000 := rfl
  change (isoformat s).toList < (isoformat t).toList
  rw [isoformat_toList, isoformat_toList, hmicros]
  refine dateText_lt (by omega) (by omega) ?_
  by_cases hdate : s / 1000000 / 86400 < t / 1000000 / 86400
  · exact .inl hdate
  refine .inr ⟨by omega, separated_lt (clockText_lt (by omega) ?_)⟩
  by_cases hclock : s / 1000000 % 86400 < t / 1000000 % 86400
  · exact .inl hclock
  exact .inr ⟨by omega, fractionText_lt (by omega) (by omega)⟩

/-- What keeps the order of instants tells them apart. -/
theorem order_iff {β : Type} {r : β → β → Prop} (hasymm : ∀ {x y}, r x y → ¬ r y x) {f : Time → β}
    (hmono : ∀ {s t}, s < t → t < endOfTime → r (f s) (f t)) {s t : Time} (hs : s < endOfTime)
    (ht : t < endOfTime) : (r (f s) (f t) ↔ s < t) ∧ (f s = f t ↔ s = t) := by
  rcases Nat.lt_trichotomy s t with hlt | rfl | hlt
  · have hr := hmono hlt ht
    refine ⟨iff_of_true hr hlt, iff_of_false (fun heq => ?_) (Nat.ne_of_lt hlt)⟩
    rw [heq] at hr
    exact hasymm hr hr
  · exact ⟨iff_of_false (fun hr => hasymm hr hr) (Nat.lt_irrefl _), iff_of_true rfl rfl⟩
  · have hr := hmono hlt hs
    refine ⟨iff_of_false (hasymm hr) (Nat.lt_asymm hlt),
      iff_of_false (fun heq => ?_) (Nat.ne_of_gt hlt)⟩
    rw [heq] at hr
    exact hasymm hr hr

theorem isoformat_lt_iff {s t : Time} (hs : s < endOfTime) (ht : t < endOfTime) :
    isoformat s < isoformat t ↔ s < t :=
  (order_iff (r := (· < ·)) (f := isoformat) String.lt_asymm isoformat_lt hs ht).1

theorem isoformat_inj {s t : Time} (hs : s < endOfTime) (ht : t < endOfTime) :
    isoformat s = isoformat t ↔ s = t :=
  (order_iff (r := (· < ·)) (f := isoformat) String.lt_asymm isoformat_lt hs ht).2

/-! ## Bytes -/

/-- The text in UTF-8. -/
def utf8Bytes (s : String) : List UInt8 := s.toList.flatMap String.utf8EncodeChar

def Ascii (cs : List Char) : Prop := ∀ c ∈ cs, c.toNat < 128

theorem utf8EncodeChar_ascii {c : Char} (h : c.toNat < 128) :
    String.utf8EncodeChar c = [c.val.toUInt8] := by
  apply String.utf8EncodeChar_eq_singleton
  have hle : c.val ≤ 0x7f := UInt32.le_iff_toNat_le.mpr (Nat.le_of_lt_succ h)
  unfold Char.utf8Size
  exact if_pos hle

theorem toUInt8_lt {a b : Char} (hab : a < b) (hb : b.toNat < 128) :
    a.val.toUInt8 < b.val.toUInt8 := by
  have hab : a.toNat < b.toNat := UInt32.lt_iff_toNat_lt.mp hab
  rw [UInt8.lt_iff_toNat_lt, UInt32.toNat_toUInt8, UInt32.toNat_toUInt8]
  change a.toNat % 256 < b.toNat % 256
  omega

/-- ASCII texts have the order of their bytes. -/
theorem utf8_lt {xs ys : List Char} (h : xs < ys) (hx : Ascii xs) (hy : Ascii ys) :
    xs.flatMap String.utf8EncodeChar < ys.flatMap String.utf8EncodeChar := by
  induction h with
  | nil =>
      rw [List.flatMap_cons, utf8EncodeChar_ascii (hy _ List.mem_cons_self)]
      exact .nil
  | cons _ ih =>
      rw [List.flatMap_cons, List.flatMap_cons, utf8EncodeChar_ascii (hy _ List.mem_cons_self)]
      exact .cons (ih (fun c hc => hx c (List.mem_cons_of_mem _ hc))
        (fun c hc => hy c (List.mem_cons_of_mem _ hc)))
  | rel hab =>
      have hb := hy _ List.mem_cons_self
      rw [List.flatMap_cons, List.flatMap_cons, utf8EncodeChar_ascii (hx _ List.mem_cons_self),
        utf8EncodeChar_ascii hb]
      exact .rel (toUInt8_lt hab hb)

theorem ascii_append {xs ys : List Char} (hx : Ascii xs) (hy : Ascii ys) : Ascii (xs ++ ys) := by
  intro c hc
  exact (List.mem_append.mp hc).elim (hx c) (hy c)

theorem ascii_cons {c : Char} {xs : List Char} (hc : c.toNat < 128) (hx : Ascii xs) :
    Ascii (c :: xs) := by
  intro d hd
  cases List.mem_cons.mp hd with
  | inl heq => rwa [heq]
  | inr hmem => exact hx d hmem

theorem padded_ascii (w n : Nat) : Ascii (padded w n) := by
  intro c hc
  have hdigit : c.isDigit = true := by
    cases List.mem_append.mp hc with
    | inl hzero =>
        rw [(List.mem_replicate.mp hzero).2]
        rfl
    | inr hdigit => exact Nat.isDigit_of_mem_toDigits (by decide) (by decide) hdigit
  simp only [Char.isDigit, Bool.and_eq_true, decide_eq_true_eq] at hdigit
  have hle : c.toNat ≤ 57 := UInt32.le_iff_toNat_le.mp hdigit.2
  omega

theorem isoformat_ascii (t : Time) : Ascii (isoformat t).toList := by
  have hseparated : ∀ {c : Char} {w n : Nat} {xs : List Char}, c.toNat < 128 → Ascii xs →
      Ascii (padded w n ++ c :: xs) :=
    fun hc hx => ascii_append (padded_ascii _ _) (ascii_cons hc hx)
  have hoffset : Ascii "+00:00".toList := by
    intro c hc
    have hall : "+00:00".toList.all fun c => decide (c.toNat < 128) := rfl
    exact of_decide_eq_true (List.all_eq_true.mp hall c hc)
  have hfraction : ∀ micros, Ascii (fractionText micros) := by
    intro micros
    unfold fractionText
    split
    · exact hoffset
    · exact ascii_append (ascii_cons (by decide) (padded_ascii _ _)) hoffset
  rw [isoformat_toList]
  unfold dateText clockText
  simp only [List.append_assoc, List.cons_append]
  exact hseparated (by decide) (hseparated (by decide) (hseparated (by decide)
    (hseparated (by decide) (hseparated (by decide)
      (ascii_append (padded_ascii _ _) (hfraction _))))))

theorem utf8Bytes_lt_iff {s t : Time} (hs : s < endOfTime) (ht : t < endOfTime) :
    utf8Bytes (isoformat s) < utf8Bytes (isoformat t) ↔ s < t := by
  have hmono : ∀ {s t : Time}, s < t → t < endOfTime →
      utf8Bytes (isoformat s) < utf8Bytes (isoformat t) := by
    intro s t hst ht
    have hlt : isoformat s < isoformat t := isoformat_lt hst ht
    exact utf8_lt (String.lt_iff.mp hlt) (isoformat_ascii s) (isoformat_ascii t)
  exact (order_iff (r := (· < ·)) (f := fun t => utf8Bytes (isoformat t)) List.lt_asymm hmono hs
    ht).1

end PyTime
