import OneCompute.Lib.JsonRead

/-!
What the encoder writes, in order and with or without a blank after its separators,
the decoder reads back as the value it was written for.
-/

namespace Json

/-! ## Strings -/

theorem hexValue?_digit {d : Nat} (hd : d < 16) :
    hexValue? ("0123456789abcdef".toList.getD d '0') = some d := by
  have hall : ∀ d < 16, hexValue? ("0123456789abcdef".toList.getD d '0') = some d := by decide
  exact hall d hd

theorem readHex4_hex4 {n : Nat} (hn : n < 0x10000) (rest : List Char) :
    readHex4 (hex4 n ++ rest) = some (n, rest) := by
  have hdigits : hex4 n = [3, 2, 1, 0].map fun k =>
      "0123456789abcdef".toList.getD (n / 16 ^ k % 16) '0' := rfl
  simp only [hdigits, List.map_cons, List.map_nil, List.cons_append, List.nil_append, readHex4,
    hexValue?_digit (Nat.mod_lt _ (by decide : 0 < 16)), Option.bind_eq_bind, Option.bind_some,
    Option.pure_def, Option.some.injEq, Prod.mk.injEq, and_true]
  omega

theorem readUnicode_plane {n : Nat} (hn : n < 0x10000) (hs : n < 0xd800 ∨ 0xdfff < n)
    (rest : List Char) : readUnicode (hex4 n ++ rest) = some (Char.ofNat n, rest) := by
  simp only [readUnicode, readHex4_hex4 hn, Option.bind_eq_bind, Option.bind_some]
  rw [if_neg (by omega), if_neg (by omega)]
  rfl

theorem readUnicode_pair {v : Nat} (hv : v < 0x100000) (rest : List Char) :
    readUnicode (hex4 (0xd800 + v / 0x400) ++
      unicodeEscape (0xdc00 + v % 0x400) ++ rest) = some (Char.ofNat (0x10000 + v), rest) := by
  have hlow : v % 0x400 < 0x400 := Nat.mod_lt _ (by decide)
  have hhigh : v / 0x400 < 0x400 := by omega
  simp only [unicodeEscape, List.append_assoc, List.cons_append]
  simp only [readUnicode, readHex4_hex4 (by omega : 0xd800 + v / 0x400 < 0x10000),
    readHex4_hex4 (by omega : 0xdc00 + v % 0x400 < 0x10000), Option.bind_eq_bind,
    Option.bind_some]
  have hvalue : 0x10000 + (0xd800 + v / 0x400 - 0xd800) * 0x400 +
      (0xdc00 + v % 0x400 - 0xdc00) = 0x10000 + v := by omega
  rw [if_pos (by omega), if_pos (by omega), hvalue]
  rfl

theorem readChar_escapeChar (ascii : Bool) (c : Char) (rest : List Char) :
    readChar (escapeChar ascii c ++ rest) = some (c, rest) := by
  by_cases hquote : c = '"'
  · subst hquote; rfl
  by_cases hslash : c = '\\'
  · subst hslash; rfl
  by_cases hn : c = '\n'
  · subst hn; rfl
  by_cases hr : c = '\r'
  · subst hr; rfl
  by_cases ht : c = '\t'
  · subst ht; rfl
  by_cases hb : c.toNat = 8
  · obtain rfl : c = Char.ofNat 8 := by rw [← hb, Char.ofNat_toNat]
    rfl
  by_cases hf : c.toNat = 12
  · obtain rfl : c = Char.ofNat 12 := by rw [← hf, Char.ofNat_toNat]
    rfl
  simp only [escapeChar, hquote, hslash, hn, hr, ht, hb, hf, if_false]
  have hvalid := c.valid
  by_cases hc : c.toNat < 32
  · rw [if_pos hc]
    simp only [unicodeEscape, List.cons_append, readChar, readEscape]
    rw [readUnicode_plane (by omega) (by omega), Char.ofNat_toNat]
  rw [if_neg hc]
  by_cases hascii : (ascii && decide (126 < c.toNat)) = true
  · rw [if_pos hascii]
    by_cases hplane : c.toNat < 0x10000
    · rw [if_pos hplane]
      simp only [unicodeEscape, List.cons_append, readChar, readEscape]
      have hs : c.toNat < 0xd800 ∨ 0xdfff < c.toNat := by
        rcases hvalid with h | h
        · exact .inl h
        · exact .inr h.1
      rw [readUnicode_plane hplane hs, Char.ofNat_toNat]
    · rw [if_neg hplane]
      have hlast : c.toNat < 0x110000 := by
        rcases hvalid with h | h
        · exact lt_trans h (by decide)
        · exact h.2
      simp only [unicodeEscape, List.cons_append, readChar, readEscape]
      have hpair := readUnicode_pair (v := c.toNat - 0x10000) (by omega) rest
      simp only [unicodeEscape, List.append_assoc, List.cons_append] at hpair ⊢
      rw [hpair, show 0x10000 + (c.toNat - 0x10000) = c.toNat by omega, Char.ofNat_toNat]
  · rw [if_neg hascii]
    simp only [List.cons_append, List.nil_append, readChar, hquote, hc, or_self, if_false]

theorem length_le_escaped (ascii : Bool) (s : List Char) :
    s.length ≤ (s.flatMap (escapeChar ascii)).length := by
  induction s with
  | nil => exact Nat.le_refl 0
  | cons c s ih =>
      have hpos : 0 < (escapeChar ascii c).length := by
        cases h : escapeChar ascii c with
        | nil =>
            have hchar := readChar_escapeChar ascii c []
            rw [h] at hchar
            cases hchar
        | cons d ds => exact Nat.succ_pos _
      rw [List.flatMap_cons, List.length_append, List.length_cons]
      omega

theorem readChars_escaped (ascii : Bool) (s rest : List Char) {fuel : Nat}
    (hfuel : s.length < fuel) :
    readChars fuel (s.flatMap (escapeChar ascii) ++ '"' :: rest) = some (s, rest) := by
  induction s generalizing fuel with
  | nil =>
      obtain ⟨fuel, rfl⟩ := Nat.exists_eq_add_one.mpr hfuel
      rfl
  | cons c s ih =>
      obtain ⟨fuel, rfl⟩ := Nat.exists_eq_add_one.mpr (Nat.zero_lt_of_lt hfuel)
      have hchar := readChar_escapeChar ascii c (s.flatMap (escapeChar ascii) ++ '"' :: rest)
      rw [List.flatMap_cons, List.append_assoc]
      rw [readChars]
      · simp only [hchar, ih (by simpa using hfuel), Option.bind_eq_bind, Option.bind_some,
          Option.pure_def]
      · intro other h
        rw [h] at hchar
        cases hchar

theorem readString_quote (ascii : Bool) (s : String) (rest : List Char) :
    ∃ body, quote ascii s ++ rest = '"' :: body ∧ readString body = some (s, rest) := by
  refine ⟨s.toList.flatMap (escapeChar ascii) ++ '"' :: rest, ?_, ?_⟩
  · simp [quote]
  · have hlength : s.toList.length <
        (s.toList.flatMap (escapeChar ascii) ++ '"' :: rest).length + 1 := by
      have := length_le_escaped ascii s.toList
      rw [List.length_append]
      omega
    rw [readString, readChars_escaped ascii _ _ hlength]
    simp

/-! ## Numbers -/

/-- What follows a number is no part of it. -/
def EndsNumber (rest : List Char) : Prop :=
  ∀ c ∈ rest.head?, c.isDigit = false ∧ c ≠ '.' ∧ c ≠ 'e' ∧ c ≠ 'E'

theorem EndsNumber.ends {rest : List Char} (h : EndsNumber rest) : Ends rest :=
  fun c hc => (h c hc).1

theorem span_digits {ds rest : List Char} (hds : ∀ c ∈ ds, c.isDigit = true) (hrest : Ends rest) :
    (ds ++ rest).takeWhile Char.isDigit = ds ∧ (ds ++ rest).dropWhile Char.isDigit = rest := by
  rw [List.takeWhile_append_of_pos hds, List.dropWhile_append_of_pos hds]
  cases rest with
  | nil => simp
  | cons c rest =>
      have hc : c.isDigit = false := hrest c rfl
      simp [hc]

/-- How a numeral may begin. -/
def WholePart (ds : List Char) : Prop :=
  (∀ c ∈ ds, c.isDigit = true) ∧ (ds = ['0'] ∨ ∃ c cs, ds = c :: cs ∧ c ≠ '0')

theorem readWhole_digits {ds rest : List Char} (hds : WholePart ds) (hrest : Ends rest) :
    readWhole (ds ++ rest) = some (ds, rest) := by
  obtain ⟨hdigits, rfl | ⟨c, cs, rfl, hc⟩⟩ := hds
  · rfl
  · obtain ⟨htake, hdrop⟩ := span_digits hdigits hrest
    rw [readWhole]
    · rw [htake, hdrop, if_neg (by simp)]
    · intro others h
      exact hc (List.cons.inj h).1

theorem readFraction_none {rest : List Char} (h : ∀ c ∈ rest.head?, c ≠ '.') :
    readFraction rest = ([], rest) := by
  unfold readFraction
  split
  next others => exact absurd rfl (h '.' rfl)
  next => rfl

theorem readFraction_digits {fs rest : List Char} (hne : fs ≠ [])
    (hfs : ∀ c ∈ fs, c.isDigit = true) (hrest : Ends rest) :
    readFraction ('.' :: (fs ++ rest)) = (fs, rest) := by
  obtain ⟨htake, hdrop⟩ := span_digits hfs hrest
  rw [readFraction, htake, hdrop, if_neg hne]

theorem readExponent_none {rest : List Char} (h : EndsNumber rest) :
    readExponent rest = (none, rest) := by
  cases rest with
  | nil => rfl
  | cons c rest =>
      obtain ⟨-, -, he, hE⟩ := h c rfl
      simp only [readExponent]
      rw [if_neg (by tauto)]

theorem readExponent_text (e : Int) {rest : List Char} (hrest : Ends rest) :
    readExponent ('e' :: (PyFloat.exponentText e ++ rest)) = (some e, rest) := by
  have hdigits : ∀ c ∈ Nat.toDigits 10 e.natAbs, c.isDigit = true := toDigits_isDigit
  have hvalue : Nat.ofDigitChars 10 (Nat.toDigits 10 e.natAbs) 0 = e.natAbs :=
    Nat.ofDigitChars_ten_toDigits
  unfold PyFloat.exponentText PyFloat.digitsOf
  dsimp only
  generalize hds : (if (Nat.toDigits 10 e.natAbs).length < 2 then
    '0' :: Nat.toDigits 10 e.natAbs else Nat.toDigits 10 e.natAbs) = ds
  have hall : ∀ c ∈ ds, c.isDigit = true := by
    subst hds
    split
    · rintro c (_ | ⟨_, hc⟩)
      · decide
      · exact hdigits c hc
    · exact hdigits
  have hof : Nat.ofDigitChars 10 ds 0 = e.natAbs := by
    subst hds
    split
    · rw [Nat.ofDigitChars_cons]
      exact hvalue
    · exact hvalue
  have hne : ds ≠ [] := by
    rintro rfl
    split at hds
    · cases hds
    · exact Nat.toDigits_ne_nil hds
  obtain ⟨htake, hdrop⟩ := span_digits hall hrest
  have hsign : readExponentSign ((if e < 0 then ['-'] else ['+']) ++ ds ++ rest) =
      (decide (e < 0), ds ++ rest) := by
    split
    next h => simp [readExponentSign, h]
    next h => simp [readExponentSign, h]
  simp only [readExponent, hsign, htake, hdrop, hof]
  rw [if_pos (by simp [hne])]
  simp only [signed, decide_eq_true_eq]
  split
  next h => rw [show -(e.natAbs : Int) = e by omega]
  next h => rw [show (e.natAbs : Int) = e by omega]

theorem readSign_text (negative : Bool) {cs : List Char} {p : List Char × List Char}
    (h : readWhole cs = some p) :
    readSign ((if negative then ['-'] else []) ++ cs) = (negative, cs) := by
  cases negative with
  | true => rfl
  | false =>
      simp only [Bool.false_eq_true, if_false, List.nil_append]
      unfold readSign
      split
      next rest => cases h
      next => rfl

theorem readNumber_parts (negative : Bool) {cs whole rest fs rest' rest'' : List Char}
    {e : Option Int} (hwhole : readWhole cs = some (whole, rest))
    (hfraction : readFraction rest = (fs, rest')) (hexponent : readExponent rest' = (e, rest'')) :
    readNumber ((if negative then ['-'] else []) ++ cs) =
      (numberOf negative whole fs e).map fun v => (v, rest'') := by
  simp only [readNumber, readSign_text negative hwhole, hwhole, hfraction, hexponent,
    Option.bind_eq_bind, Option.bind_some, Option.pure_def]
  cases numberOf negative whole fs e <;> rfl

theorem wholePart_toDigits (n : Nat) : WholePart (Nat.toDigits 10 n) := by
  refine ⟨toDigits_isDigit, ?_⟩
  rcases Nat.eq_zero_or_pos n with rfl | hpos
  · exact .inl rfl
  · exact .inr (PyFloat.toDigits_head hpos)

theorem readNumber_int {i : Int}
    (h : (Nat.toDigits 10 i.natAbs).length ≤ PyText.maxStrDigits) {rest : List Char}
    (hrest : EndsNumber rest) : readNumber (intChars i ++ rest) = some (.int i, rest) := by
  have htext : intChars i ++ rest =
      (if decide (i < 0) then ['-'] else []) ++ (Nat.toDigits 10 i.natAbs ++ rest) := by
    simp only [intChars, decide_eq_true_eq]
    split <;> rfl
  rw [htext, readNumber_parts _ (readWhole_digits (wholePart_toDigits _) hrest.ends)
    (readFraction_none fun c hc => (hrest c hc).2.1) (readExponent_none hrest), numberOf,
    if_pos ⟨rfl, rfl⟩, if_pos h, Nat.ofDigitChars_ten_toDigits]
  simp only [signed, decide_eq_true_eq, Option.map_some, Option.some.injEq, Prod.mk.injEq,
    Json.int.injEq, and_true]
  split <;> omega

/-! ## Floats -/

/-- The digits of a decimal begin with one that is not zero. -/
def Significant (ds : List Char) : Prop :=
  (∀ c ∈ ds, c.isDigit = true) ∧ ∃ c cs, ds = c :: cs ∧ c ≠ '0'

theorem ends_point (rest : List Char) : Ends ('.' :: rest) := ends_cons (by decide)

theorem isDigit_zeros {k : Nat} {c : Char} (hc : c ∈ List.replicate k '0') : c.isDigit = true := by
  rw [List.eq_of_mem_replicate hc]
  decide

/-- The float that is read from digits and where the point stands. -/
def pointed (negative : Bool) (ds : List Char) (point : Int) : PyFloat :=
  PyFloat.ofRat (if negative then -PyFloat.denoted ds point else PyFloat.denoted ds point)

theorem numberOf_denoted {negative : Bool} {whole fs ds : List Char} {e : Option Int} {point : Int}
    (hfloat : ¬ (fs = [] ∧ e = none))
    (hvalue : (Nat.ofDigitChars 10 (whole ++ fs) 0 : Rat) * PyFloat.pow10 (e.getD 0 - fs.length) =
      PyFloat.denoted ds point) :
    numberOf negative whole fs e = some (.float (pointed negative ds point)) := by
  rw [numberOf, if_neg hfloat]
  simp only [hvalue, pointed]

theorem readNumber_small (negative : Bool) {ds : List Char} (hds : Significant ds) {point : Int}
    (hpoint : point ≤ 0) {rest : List Char} (hrest : EndsNumber rest) :
    readNumber ((if negative then ['-'] else []) ++
      ('0' :: '.' :: (List.replicate (-point).toNat '0' ++ ds) ++ rest)) =
      some (.float (pointed negative ds point), rest) := by
  obtain ⟨hdigits, c, cs, rfl, hc⟩ := hds
  have hall : ∀ d ∈ List.replicate (-point).toNat '0' ++ c :: cs, d.isDigit = true := by
    intro d hd
    rcases List.mem_append.mp hd with hd | hd
    · exact isDigit_zeros hd
    · exact hdigits d hd
  have hne : List.replicate (-point).toNat '0' ++ c :: cs ≠ [] := by simp
  have hwhole : readWhole ('0' :: '.' :: (List.replicate (-point).toNat '0' ++ c :: cs) ++ rest) =
      some (['0'], '.' :: ((List.replicate (-point).toNat '0' ++ c :: cs) ++ rest)) := rfl
  rw [readNumber_parts negative hwhole (readFraction_digits hne hall hrest.ends)
    (readExponent_none hrest),
    @numberOf_denoted _ _ _ (c :: cs) _ point (fun h => hne h.1)]
  · rfl
  · have hof : Nat.ofDigitChars 10 (['0'] ++ (List.replicate (-point).toNat '0' ++ c :: cs)) 0 =
        Nat.ofDigitChars 10 (c :: cs) 0 := by
      rw [Nat.ofDigitChars_append, Nat.ofDigitChars_append, Nat.ofDigitChars_replicate_zero]
      rfl
    have hexp : (none : Option Int).getD 0 -
        ((List.replicate (-point).toNat '0' ++ c :: cs).length : Int) =
        point - (c :: cs).length := by
      rw [List.length_append, List.length_replicate, Option.getD_none]
      push_cast
      omega
    rw [hof, hexp]
    rfl

theorem readNumber_large (negative : Bool) {ds : List Char} (hds : Significant ds) {point : Int}
    (hlength : (ds.length : Int) ≤ point) {rest : List Char} (hrest : EndsNumber rest) :
    readNumber ((if negative then ['-'] else []) ++
      (ds ++ List.replicate (point.toNat - ds.length) '0' ++ ".0".toList ++ rest)) =
      some (.float (pointed negative ds point), rest) := by
  obtain ⟨hdigits, c, cs, rfl, hc⟩ := hds
  generalize hk : point.toNat - (c :: cs).length = k
  have hall : ∀ d ∈ c :: cs ++ List.replicate k '0', d.isDigit = true := by
    intro d hd
    rcases List.mem_append.mp hd with hd | hd
    · exact hdigits d hd
    · exact isDigit_zeros hd
  have hpart : WholePart (c :: cs ++ List.replicate k '0') := ⟨hall, .inr ⟨c, _, rfl, hc⟩⟩
  have hzero : ∀ d ∈ ['0'], d.isDigit = true := List.forall_mem_singleton.mpr rfl
  have hpoint : ".0".toList ++ rest = '.' :: (['0'] ++ rest) := rfl
  rw [List.append_assoc, hpoint, readNumber_parts negative (readWhole_digits hpart (ends_point _))
    (readFraction_digits (by simp) hzero hrest.ends) (readExponent_none hrest),
    @numberOf_denoted _ _ _ (c :: cs) _ point (by simp)]
  · rfl
  · have hof : Nat.ofDigitChars 10 (c :: cs ++ List.replicate k '0' ++ ['0']) 0 =
        10 ^ (k + 1) * Nat.ofDigitChars 10 (c :: cs) 0 := by
      rw [List.append_assoc, ← List.replicate_succ', Nat.ofDigitChars_append,
        Nat.ofDigitChars_replicate_zero]
    have hexp : point - ((c :: cs).length : Int) = ((k + 1 : Nat) : Int) +
        ((none : Option Int).getD 0 - (['0'].length : Int)) := by
      simp only [List.length_cons] at hk hlength ⊢
      simp only [Option.getD_none, List.length_nil]
      push_cast at *
      omega
    rw [PyFloat.denoted, hexp, hof, PyFloat.pow10_add, PyFloat.pow10_natCast]
    push_cast
    ring

theorem readNumber_inner (negative : Bool) {ds : List Char} (hds : Significant ds) {point : Int}
    (hpos : 0 < point) (hlength : point < ds.length) {rest : List Char}
    (hrest : EndsNumber rest) :
    readNumber ((if negative then ['-'] else []) ++
      (ds.take point.toNat ++ '.' :: ds.drop point.toNat ++ rest)) =
      some (.float (pointed negative ds point), rest) := by
  obtain ⟨hdigits, c, cs, rfl, hc⟩ := hds
  obtain ⟨k, hk⟩ : ∃ k, point.toNat = k + 1 := ⟨point.toNat - 1, by omega⟩
  rw [hk]
  have hpart : WholePart ((c :: cs).take (k + 1)) :=
    ⟨fun d hd => hdigits d (List.mem_of_mem_take hd), .inr ⟨c, cs.take k, rfl, hc⟩⟩
  have hdrop : ∀ d ∈ (c :: cs).drop (k + 1), d.isDigit = true :=
    fun d hd => hdigits d (List.mem_of_mem_drop hd)
  have hne : (c :: cs).drop (k + 1) ≠ [] := by
    rw [Ne, List.drop_eq_nil_iff]
    omega
  have hsplit : (c :: cs).take (k + 1) ++ '.' :: (c :: cs).drop (k + 1) ++ rest =
      (c :: cs).take (k + 1) ++ '.' :: ((c :: cs).drop (k + 1) ++ rest) := by
    rw [List.append_assoc, List.cons_append]
  rw [hsplit, readNumber_parts negative (readWhole_digits hpart (ends_point _))
    (readFraction_digits hne hdrop hrest.ends) (readExponent_none hrest),
    @numberOf_denoted _ _ _ (c :: cs) _ point (fun h => hne h.1)]
  · rfl
  · rw [List.take_append_drop, PyFloat.denoted, List.length_drop, Option.getD_none]
    congr 2
    omega

theorem readNumber_scientific (negative : Bool) {ds : List Char} (hds : Significant ds)
    (point : Int) {rest : List Char} (hrest : EndsNumber rest) :
    readNumber ((if negative then ['-'] else []) ++
      (ds.take 1 ++ (if ds.length ≤ 1 then [] else '.' :: ds.drop 1) ++
        'e' :: PyFloat.exponentText (point - 1) ++ rest)) =
      some (.float (pointed negative ds point), rest) := by
  obtain ⟨hdigits, c, cs, rfl, hc⟩ := hds
  have hpart : WholePart [c] :=
    ⟨fun d hd => hdigits d (List.mem_cons.mpr (.inl (List.mem_singleton.mp hd))),
      .inr ⟨c, [], rfl, hc⟩⟩
  have hexponent := readExponent_text (point - 1) hrest.ends
  have hvalue : (Nat.ofDigitChars 10 ([c] ++ cs) 0 : Rat) *
      PyFloat.pow10 ((some (point - 1)).getD 0 - cs.length) = PyFloat.denoted (c :: cs) point := by
    rw [PyFloat.denoted, Option.getD_some, List.length_cons]
    congr 2
    push_cast
    omega
  have hnumber := @numberOf_denoted negative _ _ _ _ _ (by simp) hvalue
  cases cs with
  | nil =>
      have htext : [c].take 1 ++ (if [c].length ≤ 1 then [] else '.' :: [c].drop 1) ++
          'e' :: PyFloat.exponentText (point - 1) ++ rest =
          [c] ++ ('e' :: (PyFloat.exponentText (point - 1) ++ rest)) := rfl
      rw [htext, readNumber_parts negative (readWhole_digits hpart (ends_cons (by decide)))
        (readFraction_none (by simp)) hexponent, hnumber]
      rfl
  | cons d cs =>
      have hfs : ∀ x ∈ d :: cs, x.isDigit = true := fun x hx => hdigits x (List.mem_cons_of_mem c hx)
      have htext : (c :: d :: cs).take 1 ++
          (if (c :: d :: cs).length ≤ 1 then [] else '.' :: (c :: d :: cs).drop 1) ++
          'e' :: PyFloat.exponentText (point - 1) ++ rest =
          [c] ++ ('.' :: ((d :: cs) ++
            ('e' :: (PyFloat.exponentText (point - 1) ++ rest)))) := by
        rw [if_neg (by simp)]
        simp
      rw [htext, readNumber_parts negative (readWhole_digits hpart (ends_point _))
        (readFraction_digits (by simp) hfs (ends_cons (by decide))) hexponent, hnumber]
      rfl

theorem readNumber_layout (negative : Bool) {ds : List Char} (hds : Significant ds) (point : Int)
    {rest : List Char} (hrest : EndsNumber rest) :
    readNumber ((if negative then ['-'] else []) ++
      (PyFloat.layout ds point 16 ".0".toList ++ rest)) =
      some (.float (pointed negative ds point), rest) := by
  unfold PyFloat.layout
  by_cases hfixed : -4 < point ∧ point ≤ 16
  · rw [if_pos hfixed]
    by_cases hsmall : point ≤ 0
    · rw [if_pos hsmall]
      exact readNumber_small negative hds hsmall hrest
    · rw [if_neg hsmall]
      by_cases hlarge : (ds.length : Int) ≤ point
      · rw [if_pos hlarge]
        exact readNumber_large negative hds hlarge hrest
      · rw [if_neg hlarge]
        exact readNumber_inner negative hds (not_le.mp hsmall) (not_le.mp hlarge) hrest
  · rw [if_neg hfixed]
    exact readNumber_scientific negative hds point hrest

/-- A value that is a float is printed so that it is read back. -/
theorem readNumber_repr {q : Rat} (hq : PyFloat.ofRat q = .fin q) {rest : List Char}
    (hrest : EndsNumber rest) :
    readNumber ((PyFloat.fin q).reprChars ++ rest) = some (.float (.fin q), rest) := by
  unfold PyFloat.reprChars PyFloat.print
  dsimp only
  by_cases h0 : q = 0
  · subst h0
    rw [if_pos rfl]
    have htext : '0' :: ".0".toList ++ rest =
        (if false then ['-'] else []) ++ (['0'] ++ ('.' :: (['0'] ++ rest))) := rfl
    have hzero : ∀ d ∈ ['0'], d.isDigit = true := List.forall_mem_singleton.mpr rfl
    rw [htext, readNumber_parts false (readWhole_digits ⟨hzero, .inl rfl⟩ (ends_point _))
      (readFraction_digits (by simp) hzero hrest.ends) (readExponent_none hrest),
      numberOf, if_neg (by simp)]
    have hof : Nat.ofDigitChars 10 (['0'] ++ ['0']) 0 = 0 := rfl
    simp only [hof, Nat.cast_zero, zero_mul, Bool.false_eq_true, if_false, hq, Option.map_some]
  · rw [if_neg h0, List.append_assoc]
    have habs : 0 < PyFloat.abs q := by
      unfold PyFloat.abs
      split <;> grind
    have hfloat : PyFloat.ofRat (PyFloat.abs q) = .fin (PyFloat.abs q) := by
      unfold PyFloat.abs
      split
      · rw [PyFloat.ofRat_neg, hq]
        rfl
      · exact hq
    obtain ⟨n, s, hshort, hround⟩ := PyFloat.shortest_spec habs hfloat 16
    have hn : 0 < n := by
      rcases Nat.eq_zero_or_pos n with rfl | hpos
      · rw [Nat.cast_zero, zero_mul] at hround
        exact absurd (PyFloat.fin.inj hround) habs.ne
      · exact hpos
    have hread := readNumber_layout (decide (q < 0)) (PyFloat.decimal_digits hn s)
      (PyFloat.decimal n s).2 hrest
    have hvalue : pointed (decide (q < 0)) (PyFloat.decimal n s).1 (PyFloat.decimal n s).2 =
        .fin q := by
      rw [pointed, PyFloat.decimal_denoted]
      by_cases hneg : q < 0
      · rw [if_pos (decide_eq_true hneg), PyFloat.ofRat_neg, hround, PyFloat.abs, if_pos hneg]
        simp [PyFloat.neg]
      · rw [decide_eq_false hneg, if_neg Bool.false_ne_true, hround, PyFloat.abs, if_neg hneg]
    rw [hvalue] at hread
    rw [hshort]
    simpa only [decide_eq_true_eq] using hread

/-! ## Scalars -/

theorem readScalar_of_readNumber {cs : List Char} {p : Json × List Char}
    (h : readNumber cs = some p) : readScalar cs = some p := by
  unfold readScalar
  split
  next literal hfind =>
    have hmem := List.mem_of_find?_eq_some hfind
    have hprefix := List.find?_some hfind
    rw [List.isPrefixOf_iff_prefix] at hprefix
    simp only [literals, List.mem_cons, List.not_mem_nil, or_false] at hmem
    rcases hmem with rfl | rfl | rfl | rfl | rfl | rfl <;> obtain ⟨rest, rfl⟩ := hprefix <;>
      cases h
  next => exact h

theorem readValue_of_readScalar {cs : List Char} {p : Json × List Char}
    (h : readScalar cs = some p) (fuel : Nat) : readValue (fuel + 1) cs = some p := by
  unfold readValue
  split
  · cases h
  · cases h
  · cases h
  · exact h

theorem readScalar_float {x : PyFloat} (hx : x.isDouble = true) {rest : List Char}
    (hrest : EndsNumber rest) : readScalar (floatChars x ++ rest) = some (.float x, rest) := by
  cases x with
  | nan => rfl
  | inf negative => cases negative <;> rfl
  | fin q => exact readScalar_of_readNumber (readNumber_repr (of_decide_eq_true hx) hrest)

/-! ## Values -/

mutual

/-- A value as a program holds it: floats are floats, an object has no key twice, and no
integer is too long for the decoder. -/
def storable : Json → Bool
  | .int i => decide ((Nat.toDigits 10 i.natAbs).length ≤ PyText.maxStrDigits)
  | .float x => x.isDouble
  | .arr items => itemsStorable items
  | .obj fields => decide (fields.map (·.1)).Nodup && fieldsStorable fields
  | _ => true

def itemsStorable : List Json → Bool
  | [] => true
  | x :: xs => storable x && itemsStorable xs

def fieldsStorable : List (String × Json) → Bool
  | [] => true
  | (_, v) :: rest => storable v && fieldsStorable rest

end

mutual

/-- The same without the limit on integers: any value that is built from text, numbers, lists
and dictionaries. -/
def held : Json → Bool
  | .float x => x.isDouble
  | .arr items => itemsHeld items
  | .obj fields => decide (fields.map (·.1)).Nodup && fieldsHeld fields
  | _ => true

def itemsHeld : List Json → Bool
  | [] => true
  | x :: xs => held x && itemsHeld xs

def fieldsHeld : List (String × Json) → Bool
  | [] => true
  | (_, v) :: rest => held v && fieldsHeld rest

end

mutual

theorem storable_iff : ∀ v : Json, v.storable = (v.held && v.withinDigits)
  | .null | .bool _ | .str _ => rfl
  | .int _ => by simp only [storable, held, withinDigits, Bool.true_and]
  | .float _ => by simp only [storable, held, withinDigits, Bool.and_true]
  | .arr items => by simp only [storable, held, withinDigits, itemsStorable_iff items]
  | .obj fields => by
      simp only [storable, held, withinDigits, fieldsStorable_iff fields, Bool.and_assoc]

theorem itemsStorable_iff : ∀ items : List Json,
    itemsStorable items = (itemsHeld items && itemsWithinDigits items)
  | [] => rfl
  | x :: xs => by
      simp only [itemsStorable, itemsHeld, itemsWithinDigits, storable_iff x, itemsStorable_iff xs]
      cases x.held <;> cases x.withinDigits <;> simp

theorem fieldsStorable_iff : ∀ fields : List (String × Json),
    fieldsStorable fields = (fieldsHeld fields && fieldsWithinDigits fields)
  | [] => rfl
  | (k, v) :: rest => by
      simp only [fieldsStorable, fieldsHeld, fieldsWithinDigits, storable_iff v,
        fieldsStorable_iff rest]
      cases v.held <;> cases v.withinDigits <;> simp

end

def spread (gap : List Char) : List (List Char) → List Char
  | [] => []
  | [x] => x
  | x :: xs => x ++ ',' :: (gap ++ spread gap xs)

mutual

/-- `json.dumps` with `gap` after each separator. -/
def spaced (ascii : Bool) (gap : List Char) : Json → List Char
  | .arr items => '[' :: (spread gap (spacedItems ascii gap items) ++ [']'])
  | .obj fields => '\x7b' :: (spread gap (spacedFields ascii gap fields) ++ ['\x7d'])
  | j => chars (inOrder ascii) j

def spacedItems (ascii : Bool) (gap : List Char) : List Json → List (List Char)
  | [] => []
  | x :: xs => spaced ascii gap x :: spacedItems ascii gap xs

def spacedFields (ascii : Bool) (gap : List Char) : List (String × Json) → List (List Char)
  | [] => []
  | (k, v) :: rest =>
      (quote ascii k ++ ':' :: (gap ++ spaced ascii gap v)) :: spacedFields ascii gap rest

end

theorem spread_nil (texts : List (List Char)) : spread [] texts = commaSep texts := by
  induction texts with
  | nil => rfl
  | cons text texts ih =>
      cases texts with
      | nil => rfl
      | cons next texts => simp only [spread, commaSep, ih, List.nil_append]

section Text
variable (ascii : Bool)

mutual

theorem spaced_nil : ∀ j, spaced ascii [] j = chars (inOrder ascii) j
  | .null | .int _ | .float _ | .str _ => rfl
  | .bool true | .bool false => rfl
  | .arr items => by simp only [spaced, chars, spread_nil, spacedItems_nil items]
  | .obj fields => by
      simp only [spaced, chars, spread_nil, spacedFields_nil fields, arrange, inOrder,
        Bool.false_eq_true, if_false]

theorem spacedItems_nil : ∀ items, spacedItems ascii [] items = itemChars (inOrder ascii) items
  | [] => rfl
  | x :: xs => by simp only [spacedItems, itemChars, spaced_nil x, spacedItems_nil xs]

theorem spacedFields_nil : ∀ fields, spacedFields ascii [] fields =
    (fieldChars (inOrder ascii) fields).map fun p => quote ascii p.1 ++ ':' :: p.2
  | [] => rfl
  | (k, v) :: rest => by
      simp only [spacedFields, fieldChars, List.map_cons, List.nil_append, spaced_nil v,
        spacedFields_nil rest]

end

end Text

theorem asDict_append {dict fields : List (String × Json)}
    (h : ((dict ++ fields).map (·.1)).Nodup) :
    fields.foldl (fun dict p => assign dict p.1 p.2) dict = dict ++ fields := by
  induction fields generalizing dict with
  | nil => simp
  | cons p fields ih =>
      have hfresh : dict.any (·.1 == p.1) = false := by
        rw [List.any_eq_false]
        intro q hq heq
        rw [List.map_append, List.nodup_append] at h
        exact h.2.2 q.1 (List.mem_map_of_mem hq) p.1 (by simp) (by simpa using heq)
      have hassign : assign dict p.1 p.2 = dict ++ [p] := by
        rw [assign, hfresh]
        rfl
      rw [List.foldl_cons, hassign, ih (by simpa using h), List.append_assoc]
      rfl

theorem asDict_eq {fields : List (String × Json)} (h : (fields.map (·.1)).Nodup) :
    asDict fields = fields :=
  @asDict_append [] _ h

/-! ## Reading what was written -/

theorem isBlank_cases {c : Char} (h : isBlank c = true) :
    c = ' ' ∨ c = '\t' ∨ c = '\n' ∨ c = '\r' := by
  simpa [isBlank, or_assoc] using h

/-- A value begins with neither a blank nor the end of a list. -/
theorem readValue_head {fuel : Nat} {cs : List Char} {p : Json × List Char}
    (h : readValue (fuel + 1) cs = some p) :
    ∃ c rest, cs = c :: rest ∧ isBlank c = false ∧ c ≠ ']' := by
  cases cs with
  | nil => cases h
  | cons c rest =>
      refine ⟨c, rest, rfl, ?_, ?_⟩
      · rw [Bool.eq_false_iff]
        intro hblank
        rcases isBlank_cases hblank with rfl | rfl | rfl | rfl <;> cases h
      · rintro rfl
        cases h

theorem readItems_head {fuel : Nat} {cs : List Char} {p : List Json × List Char}
    (h : readItems fuel cs = some p) : ∃ c rest, cs = c :: rest ∧ isBlank c = false ∧ c ≠ ']' := by
  cases fuel with
  | zero => cases h
  | succ fuel =>
      cases fuel with
      | zero => cases h
      | succ fuel =>
          cases hvalue : readValue (fuel + 1) cs with
          | none => simp [readItems, hvalue] at h
          | some value => exact readValue_head hvalue

theorem skipBlanks_cons {c : Char} (hc : isBlank c = false) (rest : List Char) :
    skipBlanks (c :: rest) = c :: rest := by
  simp [skipBlanks, hc]

theorem skipBlanks_gap {gap : List Char} (hgap : ∀ c ∈ gap, isBlank c = true) {c : Char}
    (hc : isBlank c = false) (rest : List Char) : skipBlanks (gap ++ c :: rest) = c :: rest := by
  rw [skipBlanks, List.dropWhile_append_of_pos hgap]
  exact skipBlanks_cons hc rest

theorem endsNumber_cons {c : Char} (rest : List Char)
    (h : c.isDigit = false ∧ c ≠ '.' ∧ c ≠ 'e' ∧ c ≠ 'E') : EndsNumber (c :: rest) := by
  rintro d hd
  cases hd
  exact h

section Reading
variable {ascii : Bool} {gap : List Char}

mutual

theorem readValue_spaced (hgap : ∀ c ∈ gap, isBlank c = true) :
    ∀ (v : Json) (fuel : Nat) (rest : List Char), v.storable = true → EndsNumber rest →
    (spaced ascii gap v).length ≤ fuel →
    readValue (fuel + 1) (spaced ascii gap v ++ rest) = some (v, rest)
  | .null, fuel, rest, _, _, _ => rfl
  | .bool true, fuel, rest, _, _, _ => rfl
  | .bool false, fuel, rest, _, _, _ => rfl
  | .int i, fuel, rest, hv, hrest, _ =>
      readValue_of_readScalar
        (readScalar_of_readNumber (readNumber_int (of_decide_eq_true hv) hrest)) fuel
  | .float x, fuel, rest, hv, hrest, _ => readValue_of_readScalar (readScalar_float hv hrest) fuel
  | .str s, fuel, rest, _, _, _ => by
      obtain ⟨body, htext, hread⟩ := readString_quote ascii s rest
      have hchars : spaced ascii gap (.str s) ++ rest = '"' :: body := htext
      rw [hchars]
      simp only [readValue, hread, Option.map_some]
  | .arr items, fuel, rest, hv, hrest, hfuel => by
      simp only [spaced, List.length_cons, List.length_append] at hfuel
      obtain ⟨fuel, rfl⟩ : ∃ f, fuel = f + 1 := ⟨fuel - 1, by omega⟩
      have hread := readItems_spaced hgap items fuel rest
      by_cases hne : items = []
      · subst hne
        rfl
      have hitems := hread hne hv (by simpa using hfuel)
      have htext : spaced ascii gap (.arr items) ++ rest =
          '[' :: (spread gap (spacedItems ascii gap items) ++ ']' :: rest) := by
        simp [spaced]
      obtain ⟨c, others, hcs, hblank, hclose⟩ := readItems_head hitems
      rw [htext]
      rw [hcs] at hitems ⊢
      simp only [readValue, skipBlanks_cons hblank]
      split
      next heq => exact absurd (List.cons.inj heq).1 hclose
      next => rw [hitems]; rfl
  | .obj fields, fuel, rest, hv, hrest, hfuel => by
      simp only [spaced, List.length_cons, List.length_append] at hfuel
      simp only [storable, Bool.and_eq_true, decide_eq_true_eq] at hv
      obtain ⟨fuel, rfl⟩ : ∃ f, fuel = f + 1 := ⟨fuel - 1, by omega⟩
      have hread := readFields_spaced hgap fields fuel rest
      by_cases hne : fields = []
      · subst hne
        rfl
      obtain ⟨others, hcs, hfields⟩ := hread hne hv.2 (by simpa using hfuel)
      have htext : spaced ascii gap (.obj fields) ++ rest =
          '\x7b' :: (spread gap (spacedFields ascii gap fields) ++ '\x7d' :: rest) := by
        simp [spaced]
      rw [htext, hcs]
      rw [hcs] at hfields
      simp only [readValue, skipBlanks_cons (by decide : isBlank '"' = false)]
      change (readFields (fuel + 1) ('"' :: others)).map (fun p => (Json.obj (asDict p.1), p.2)) = _
      rw [hfields, Option.map_some, asDict_eq hv.1]

theorem readItems_spaced (hgap : ∀ c ∈ gap, isBlank c = true) :
    ∀ (items : List Json) (fuel : Nat) (rest : List Char), items ≠ [] →
    itemsStorable items = true →
    (spread gap (spacedItems ascii gap items)).length + 1 ≤ fuel →
    readItems (fuel + 1) (spread gap (spacedItems ascii gap items) ++ ']' :: rest) =
      some (items, rest)
  | [], _, _, hne, _, _ => absurd rfl hne
  | x :: xs, fuel, rest, _, hv, hfuel => by
      obtain ⟨fuel, rfl⟩ : ∃ f, fuel = f + 1 := ⟨fuel - 1, by omega⟩
      simp only [itemsStorable, Bool.and_eq_true] at hv
      have hx := readValue_spaced hgap x fuel
      have hxs := readItems_spaced hgap xs fuel rest
      cases xs with
      | nil =>
          simp only [spacedItems, spread] at hfuel ⊢
          have hvalue := hx (']' :: rest) hv.1 (endsNumber_cons rest (by decide)) (by omega)
          simp only [readItems, hvalue, skipBlanks_cons (by decide : isBlank ']' = false),
            Option.bind_eq_bind, Option.bind_some, Option.pure_def]
      | cons y ys =>
          have htext : spread gap (spacedItems ascii gap (x :: y :: ys)) = spaced ascii gap x ++
              ',' :: (gap ++ spread gap (spacedItems ascii gap (y :: ys))) := rfl
          rw [htext] at hfuel ⊢
          simp only [List.length_append, List.length_cons] at hfuel
          have hitems := hxs (by simp) hv.2 (by omega)
          obtain ⟨c, others, hcs, hblank, -⟩ := readItems_head hitems
          simp only [List.append_assoc, List.cons_append]
          rw [hcs] at hitems ⊢
          have hvalue := hx (',' :: (gap ++ c :: others)) hv.1 (endsNumber_cons _ (by decide))
            (by omega)
          rw [readItems]
          simp only [hvalue, skipBlanks_cons (by decide : isBlank ',' = false),
            skipBlanks_gap hgap hblank, hitems, Option.bind_eq_bind, Option.bind_some,
            Option.pure_def]

theorem readFields_spaced (hgap : ∀ c ∈ gap, isBlank c = true) :
    ∀ (fields : List (String × Json)) (fuel : Nat) (rest : List Char),
    fields ≠ [] → fieldsStorable fields = true →
    (spread gap (spacedFields ascii gap fields)).length + 1 ≤ fuel →
    ∃ others,
      spread gap (spacedFields ascii gap fields) ++ '\x7d' :: rest = '"' :: others ∧
      readFields (fuel + 1) (spread gap (spacedFields ascii gap fields) ++ '\x7d' :: rest) =
        some (fields, rest)
  | [], _, _, hne, _, _ => absurd rfl hne
  | (k, v) :: fields, fuel, rest, _, hv, hfuel => by
      obtain ⟨fuel, rfl⟩ : ∃ f, fuel = f + 1 := ⟨fuel - 1, by omega⟩
      simp only [fieldsStorable, Bool.and_eq_true] at hv
      have hv' := readValue_spaced hgap v fuel
      have hfields' := readFields_spaced hgap fields fuel rest
      cases fields with
      | nil =>
          have htext : spread gap (spacedFields ascii gap [(k, v)]) =
              quote ascii k ++ ':' :: (gap ++ spaced ascii gap v) := rfl
          rw [htext] at hfuel ⊢
          simp only [List.length_append, List.length_cons] at hfuel
          have hvalue := hv' ('\x7d' :: rest) hv.1 (endsNumber_cons rest (by decide)) (by omega)
          obtain ⟨c, others, hcs, hblank, -⟩ := readValue_head hvalue
          simp only [List.append_assoc, List.cons_append]
          rw [hcs] at hvalue ⊢
          obtain ⟨body, hbody, hread⟩ := readString_quote ascii k (':' :: (gap ++ c :: others))
          rw [hbody]
          refine ⟨body, rfl, ?_⟩
          simp only [readFields, hread, skipBlanks_cons (by decide : isBlank ':' = false),
            skipBlanks_gap hgap hblank, hvalue,
            skipBlanks_cons (by decide : isBlank '\x7d' = false),
            Option.bind_eq_bind, Option.bind_some, Option.pure_def]
      | cons p fields =>
          have htext : spread gap (spacedFields ascii gap ((k, v) :: p :: fields)) =
              quote ascii k ++ ':' :: (gap ++ spaced ascii gap v) ++
                ',' :: (gap ++ spread gap (spacedFields ascii gap (p :: fields))) := rfl
          rw [htext] at hfuel ⊢
          simp only [List.length_append, List.length_cons] at hfuel
          obtain ⟨tail, htail, hfields⟩ := hfields' (by simp) hv.2 (by omega)
          rw [htail] at hfields
          have hvalue := hv' (',' :: (gap ++ '"' :: tail)) hv.1 (endsNumber_cons _ (by decide))
            (by omega)
          obtain ⟨c, others, hcs, hblank, -⟩ := readValue_head hvalue
          simp only [List.append_assoc, List.cons_append]
          rw [htail, hcs]
          rw [hcs] at hvalue
          obtain ⟨body, hbody, hread⟩ := readString_quote ascii k (':' :: (gap ++ c :: others))
          rw [hbody]
          refine ⟨body, rfl, ?_⟩
          simp only [readFields, hread, skipBlanks_cons (by decide : isBlank ':' = false),
            skipBlanks_gap hgap hblank, hvalue, skipBlanks_cons (by decide : isBlank ',' = false),
            skipBlanks_gap hgap (by decide : isBlank '"' = false), hfields,
            Option.bind_eq_bind, Option.bind_some, Option.pure_def]

end

theorem loads_spaced (hgap : ∀ c ∈ gap, isBlank c = true) {v : Json}
    (hv : v.storable = true) {tail : List Char} (htail : ∀ c ∈ tail, isBlank c = true) :
    loads (String.ofList (spaced ascii gap v ++ tail)) = some v := by
  have hrest : EndsNumber tail := by
    intro c hc
    rcases isBlank_cases (htail c (List.mem_of_mem_head? hc)) with rfl | rfl | rfl | rfl <;> decide
  have hvalue := @readValue_spaced ascii _ hgap v
    (spaced ascii gap v ++ tail).length tail hv hrest (by simp)
  obtain ⟨c, others, hcs, hblank, -⟩ := readValue_head hvalue
  have hend : skipBlanks tail = [] := by
    rw [skipBlanks, List.dropWhile_eq_nil_iff]
    exact htail
  rw [loads, String.toList_ofList]
  rw [hcs] at hvalue ⊢
  simp only [skipBlanks_cons hblank, hvalue, hend, Option.bind_eq_bind, Option.bind_some, if_true,
    Option.pure_def]

end Reading

/-- What was written without blanks is read back. -/
theorem loads_dumps {st : Style} (hst : st.sortKeys = false) {v : Json} (hv : v.storable = true) :
    loads (dumps st v) = some v := by
  have h := @loads_spaced st.ensureAscii [] (by simp) _ hv [] (by simp)
  rw [List.append_nil, spaced_nil] at h
  have hstyle : inOrder st.ensureAscii = st := by
    cases st
    simp only at hst
    rw [hst]
    rfl
  rwa [hstyle] at h

end Json
