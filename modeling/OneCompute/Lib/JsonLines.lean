import OneCompute.Lib.JsonRoundTrip

/-!
A file with a JSON value on each line: no line end stands inside a value, so the lines
are the values. A reader that also takes other separators for line ends counts more.
-/

namespace Json

/-! ## A value is on one line -/

abbrev Printable (cs : List Char) : Prop := ∀ c ∈ cs, 32 ≤ c.toNat

/-- A literal is checked with one pass over it. -/
theorem printable_of_all {cs : List Char} (h : (cs.all fun c => decide (32 ≤ c.toNat)) = true) :
    Printable cs :=
  fun c hc => of_decide_eq_true (List.all_eq_true.mp h c hc)

theorem Printable.append {xs ys : List Char} (hx : Printable xs) (hy : Printable ys) :
    Printable (xs ++ ys) := by
  intro c hc
  rcases List.mem_append.mp hc with hc | hc
  · exact hx c hc
  · exact hy c hc

theorem Printable.cons {c : Char} {xs : List Char} (hc : 32 ≤ c.toNat) (hx : Printable xs) :
    Printable (c :: xs) := by
  rintro d (_ | ⟨_, hd⟩)
  · exact hc
  · exact hx d hd

theorem printable_of_digits {cs : List Char} (h : ∀ c ∈ cs, c.isDigit = true) : Printable cs := by
  intro c hc
  have := h c hc
  simp only [Char.isDigit, Bool.and_eq_true, decide_eq_true_eq] at this
  have hlow : (48 : UInt32) ≤ c.val := this.1
  have hnat : 48 ≤ c.val.toNat := hlow
  exact le_trans (by decide) hnat

theorem printable_toDigits (n : Nat) : Printable (Nat.toDigits 10 n) :=
  printable_of_digits toDigits_isDigit

theorem printable_hex4 (n : Nat) : Printable (hex4 n) := by
  intro c hc
  simp only [hex4, PyText.hexDigits, List.mem_map] at hc
  obtain ⟨i, -, rfl⟩ := hc
  have hall : ∀ d < 16, 32 ≤ ("0123456789abcdef".toList.getD d '0').toNat := by decide
  exact hall _ (Nat.mod_lt _ (by decide))

theorem printable_escapeChar (ascii : Bool) (c : Char) : Printable (escapeChar ascii c) := by
  unfold escapeChar
  split
  · exact printable_of_all (by decide)
  split
  · exact printable_of_all (by decide)
  split
  · exact printable_of_all (by decide)
  split
  · exact printable_of_all (by decide)
  split
  · exact printable_of_all (by decide)
  split
  · exact printable_of_all (by decide)
  split
  · exact printable_of_all (by decide)
  split
  · exact .cons (by decide) (.cons (by decide) (printable_hex4 _))
  next hlow =>
    split
    · split
      · exact .cons (by decide) (.cons (by decide) (printable_hex4 _))
      · exact .append (.cons (by decide) (.cons (by decide) (printable_hex4 _)))
          (.cons (by decide) (.cons (by decide) (printable_hex4 _)))
    · exact .cons (not_lt.mp hlow) (printable_of_all (by decide))

theorem printable_quote (ascii : Bool) (s : String) : Printable (quote ascii s) := by
  refine .cons (by decide) (.append ?_ (printable_of_all (by decide)))
  intro c hc
  obtain ⟨d, -, hd⟩ := List.mem_flatMap.mp hc
  exact printable_escapeChar ascii d c hd

theorem printable_intChars (i : Int) : Printable (intChars i) := by
  unfold intChars
  split
  · exact .cons (by decide) (printable_toDigits _)
  · exact printable_toDigits _

theorem printable_exponentText (e : Int) : Printable (PyFloat.exponentText e) := by
  unfold PyFloat.exponentText PyFloat.digitsOf
  dsimp only
  refine .append (by split <;> exact printable_of_all (by decide)) ?_
  split
  · exact .cons (by decide) (printable_toDigits _)
  · exact printable_toDigits _

theorem printable_layout {ds : List Char} (hds : Printable ds) (point : Int) :
    Printable (PyFloat.layout ds point 16 ".0".toList) := by
  have hzeros : ∀ k, Printable (List.replicate k '0') := fun k =>
    printable_of_digits fun c hc => isDigit_zeros hc
  have htake : ∀ k, Printable (ds.take k) := fun k c hc => hds c (List.mem_of_mem_take hc)
  have hdrop : ∀ k, Printable (ds.drop k) := fun k c hc => hds c (List.mem_of_mem_drop hc)
  unfold PyFloat.layout
  split
  · split
    · exact .cons (by decide) (.cons (by decide) (.append (hzeros _) hds))
    · split
      · exact .append (.append hds (hzeros _)) (printable_of_all (by decide))
      · exact .append (htake _) (.cons (by decide) (hdrop _))
  · refine .append (.append (htake 1) ?_) (.cons (by decide) (printable_exponentText _))
    split
    · exact fun _ h => absurd h List.not_mem_nil
    · exact .cons (by decide) (hdrop 1)

theorem shortest_eq_decimal (q : Rat) (fuel : Nat) :
    ∃ n s, PyFloat.shortest q fuel = PyFloat.decimal n s := by
  induction fuel with
  | zero => exact ⟨0, 0, rfl⟩
  | succ fuel ih =>
      unfold PyFloat.shortest
      dsimp only
      split
      · exact ⟨_, _, rfl⟩
      · split
        · exact ⟨_, _, rfl⟩
        · exact ih

theorem printable_floatChars (x : PyFloat) : Printable (floatChars x) := by
  cases x with
  | nan => exact @printable_of_all "NaN".toList (by decide)
  | inf negative =>
      cases negative
      · exact @printable_of_all "Infinity".toList (by decide)
      · exact @printable_of_all "-Infinity".toList (by decide)
  | fin q =>
      change Printable (PyFloat.fin q).reprChars
      unfold PyFloat.reprChars PyFloat.print
      dsimp only
      split
      · exact printable_of_all (by decide)
      · obtain ⟨n, s, hshort⟩ := shortest_eq_decimal (PyFloat.abs q) 17
        refine .append (by split <;> exact printable_of_all (by decide)) ?_
        rw [hshort]
        refine printable_layout ?_ _
        intro c hc
        have hmem : c ∈ Nat.toDigits 10 n := by
          have := List.mem_reverse.mp hc
          exact List.mem_reverse.mp ((List.dropWhile_sublist _).subset this)
        exact printable_toDigits n c hmem

theorem printable_commaSep {texts : List (List Char)} (h : ∀ text ∈ texts, Printable text) :
    Printable (commaSep texts) := by
  induction texts with
  | nil => exact fun _ h => absurd h List.not_mem_nil
  | cons text texts ih =>
      have hrest := ih fun t ht => h t (List.mem_cons_of_mem _ ht)
      cases texts with
      | nil => exact h text List.mem_cons_self
      | cons next texts => exact .append (h text List.mem_cons_self) (.cons (by decide) hrest)

section Chars
variable (st : Style)

mutual

theorem printable_chars : ∀ v : Json, Printable (chars st v)
  | .null => @printable_of_all "null".toList (by decide)
  | .bool true => @printable_of_all "true".toList (by decide)
  | .bool false => @printable_of_all "false".toList (by decide)
  | .int i => printable_intChars i
  | .float x => printable_floatChars x
  | .str s => printable_quote _ s
  | .arr items => by
      rw [chars]
      exact .cons (by decide)
        (.append (printable_commaSep (printable_items items)) (printable_of_all (by decide)))
  | .obj fields => by
      rw [chars]
      refine .cons (by decide) (.append (printable_commaSep ?_) (printable_of_all (by decide)))
      intro text htext
      obtain ⟨p, hp, rfl⟩ := List.mem_map.mp htext
      have hmem : p ∈ fieldChars st fields := by
        unfold arrange at hp
        split at hp
        · exact (List.perm_insertionSort _ _).mem_iff.mp hp
        · exact hp
      exact .append (printable_quote _ _) (.cons (by decide) (printable_fields fields p hmem))

theorem printable_items : ∀ items : List Json, ∀ text ∈ itemChars st items, Printable text
  | [], _, h => absurd h List.not_mem_nil
  | x :: xs, text, h => by
      rw [itemChars] at h
      rcases List.mem_cons.mp h with rfl | h
      · exact printable_chars x
      · exact printable_items xs text h

theorem printable_fields : ∀ fields : List (String × Json),
    ∀ p ∈ fieldChars st fields, Printable p.2
  | [], _, h => absurd h List.not_mem_nil
  | (k, v) :: rest, p, h => by
      rw [fieldChars] at h
      rcases List.mem_cons.mp h with rfl | h
      · exact printable_chars v
      · exact printable_fields rest p h

end

end Chars

/-! ## Lines -/

/-- Each value on a line of its own. -/
def jsonl (st : Style) (values : List Json) : List Char :=
  values.flatMap fun v => chars st v ++ ['\n']

/-- The lines of a text that are not empty, each as the decoder reads it. -/
def loadLines (cs : List Char) : List (Option Json) :=
  ((cs.splitOn '\n').filter (· ≠ [])).map fun line => loads (String.ofList line)

theorem chars_ne_nil (st : Style) {v : Json} (hst : st.sortKeys = false) (hv : v.storable = true) :
    chars st v ≠ [] := by
  intro h
  have hread := loads_dumps hst hv
  rw [dumps, h] at hread
  cases hread

theorem splitOn_jsonl (st : Style) (values : List Json) :
    (jsonl st values).splitOn '\n' = values.map (chars st) ++ [[]] := by
  induction values with
  | nil => rfl
  | cons v values ih =>
      have hline : '\n' ∉ chars st v := fun h => absurd (printable_chars st v _ h) (by decide)
      have htext : jsonl st (v :: values) = chars st v ++ '\n' :: jsonl st values := by
        simp [jsonl]
      rw [htext, List.splitOn_append_cons_self_of_not_mem hline, ih]
      rfl

/-- What was written line by line is read line by line. -/
theorem loadLines_jsonl {st : Style} (hst : st.sortKeys = false) {values : List Json}
    (h : ∀ v ∈ values, v.storable = true) : loadLines (jsonl st values) = values.map some := by
  have hkeep : (values.map (chars st)).filter (· ≠ []) = values.map (chars st) := by
    rw [List.filter_eq_self]
    intro line hline
    obtain ⟨v, hv, rfl⟩ := List.mem_map.mp hline
    exact decide_eq_true (chars_ne_nil st hst (h v hv))
  rw [loadLines, splitOn_jsonl, List.filter_append, hkeep, List.map_append, List.map_map]
  have hread : ∀ v ∈ values, loads (String.ofList (chars st v)) = some v := fun v hv =>
    loads_dumps hst (h v hv)
  simpa using hread

/-! ## Other separators -/

/-- What `str.splitlines` takes for the end of a line. -/
def isLineBreak (c : Char) : Bool :=
  [10, 11, 12, 13, 28, 29, 30, 0x85, 0x2028, 0x2029].contains c.toNat

/-- `sum(1 for line in text.splitlines() if line)` -/
def lineCount (cs : List Char) : Nat := (cs.splitOnP isLineBreak).countP (· ≠ [])

theorem lineCount_append (xs ys : List Char) :
    lineCount (xs ++ '\n' :: ys) = lineCount xs + lineCount ys := by
  rw [lineCount, List.splitOnP_append_cons xs ys (by decide), List.countP_append]
  rfl

theorem lineCount_pos {cs : List Char} {c : Char} (hc : c ∈ cs) (hbreak : isLineBreak c = false) :
    0 < lineCount cs := by
  induction cs with
  | nil => cases hc
  | cons d ds ih =>
      rw [lineCount, List.splitOnP_cons_eq_if_modifyHead]
      by_cases hd : isLineBreak d = true
      · rw [if_pos hd]
        rcases List.mem_cons.mp hc with rfl | hc
        · rw [hbreak] at hd
          cases hd
        · simpa [lineCount] using ih hc
      · rw [if_neg hd]
        obtain ⟨first, others, hsplit⟩ :=
          List.exists_cons_of_ne_nil (List.splitOnP_ne_nil isLineBreak ds)
        rw [hsplit]
        simp

/-- A line between two characters that are no separators is one exactly when no separator
stands in it. -/
theorem lineCount_eq_one_iff {first last : Char} {cs : List Char}
    (hfirst : isLineBreak first = false) (hlast : isLineBreak last = false) :
    0 < lineCount (first :: (cs ++ [last])) ∧
      (lineCount (first :: (cs ++ [last])) = 1 ↔ ∀ c ∈ cs, isLineBreak c = false) := by
  refine ⟨lineCount_pos List.mem_cons_self hfirst, ?_⟩
  constructor
  · intro hone c hc
    rw [Bool.eq_false_iff]
    intro hbreak
    obtain ⟨xs, ys, rfl⟩ := List.append_of_mem hc
    have hsplit : first :: (xs ++ c :: ys ++ [last]) = (first :: xs) ++ c :: (ys ++ [last]) := by
      simp
    rw [hsplit, lineCount, List.splitOnP_append_cons _ _ hbreak, List.countP_append] at hone
    have hbefore := lineCount_pos (List.mem_cons_self (l := xs)) hfirst
    have hafter := @lineCount_pos (ys ++ [last]) last (by simp) hlast
    unfold lineCount at hbefore hafter
    omega
  · intro hall
    have hno : ∀ c ∈ first :: (cs ++ [last]), isLineBreak c = false := by
      intro c hc
      simp only [List.mem_cons, List.mem_append, List.not_mem_nil, or_false] at hc
      rcases hc with rfl | hc | rfl
      · exact hfirst
      · exact hall c hc
      · exact hlast
    rw [lineCount, List.splitOnP_eq_singleton hno]
    simp

/-! ## Characters outside ASCII -/

theorem not_mem_of_ascii {c : Char} (hc : 128 ≤ c.toNat) {cs : List Char}
    (h : ∀ d ∈ cs, d.toNat < 128) : c ∉ cs := fun hmem => absurd (h c hmem) (by omega)

theorem ascii_toDigits {n : Nat} : ∀ d ∈ Nat.toDigits 10 n, d.toNat < 128 := by
  intro d hd
  have hdigit := toDigits_isDigit d hd
  simp only [Char.isDigit, Bool.and_eq_true, decide_eq_true_eq] at hdigit
  have hhigh : d.val.toNat ≤ 57 := hdigit.2
  exact lt_of_le_of_lt hhigh (by decide)

theorem ascii_hex4 (n : Nat) : ∀ d ∈ hex4 n, d.toNat < 128 := by
  intro d hd
  simp only [hex4, PyText.hexDigits, List.mem_map] at hd
  obtain ⟨i, -, rfl⟩ := hd
  have hall : ∀ k < 16, ("0123456789abcdef".toList.getD k '0').toNat < 128 := by decide
  exact hall _ (Nat.mod_lt _ (by decide))

theorem mem_escapeChar {c : Char} (hc : 128 ≤ c.toNat) (d : Char) :
    c ∈ escapeChar false d ↔ c = d := by
  have hpair : ∀ e : Char, e.toNat < 128 → d.toNat < 128 → (c ∈ ['\\', e] ↔ c = d) := by
    intro e he hd
    refine iff_of_false (not_mem_of_ascii hc ?_) (by rintro rfl; omega)
    rintro x hx
    simp only [List.mem_cons, List.not_mem_nil, or_false] at hx
    rcases hx with rfl | rfl
    · decide
    · exact he
  unfold escapeChar
  split
  next h => exact hpair '"' (by decide) (by rw [h]; decide)
  split
  next h => exact hpair '\\' (by decide) (by rw [h]; decide)
  split
  next h => exact hpair 'n' (by decide) (by rw [h]; decide)
  split
  next h => exact hpair 'r' (by decide) (by rw [h]; decide)
  split
  next h => exact hpair 't' (by decide) (by rw [h]; decide)
  split
  next h => exact hpair 'b' (by decide) (by omega)
  split
  next h => exact hpair 'f' (by decide) (by omega)
  split
  next h =>
    refine iff_of_false (not_mem_of_ascii hc ?_) (by rintro rfl; omega)
    rintro x hx
    simp only [unicodeEscape, List.mem_cons] at hx
    rcases hx with rfl | rfl | hx
    · decide
    · decide
    · exact ascii_hex4 _ x hx
  next => simp

theorem mem_quote {c : Char} (hc : 128 ≤ c.toNat) (s : String) :
    c ∈ quote false s ↔ c ∈ s.toList := by
  have hne : c ≠ '"' := by
    rintro rfl
    exact absurd hc (by decide)
  simp [quote, hne, mem_escapeChar hc]

theorem mem_commaSep {c : Char} (hc : c ≠ ',') (texts : List (List Char)) :
    c ∈ commaSep texts ↔ ∃ text ∈ texts, c ∈ text := by
  induction texts with
  | nil => simp [commaSep]
  | cons text texts ih =>
      cases texts with
      | nil => simp [commaSep]
      | cons next texts =>
          simp only [commaSep, List.mem_append, List.mem_cons, ih, hc, false_or]
          simp

/-- Under ASCII keys it stands in an object exactly when it stands in a value of it. -/
theorem mem_object {fields : List (String × Json)}
    (hkeys : ∀ p ∈ fields, ∀ d ∈ p.1.toList, d.toNat < 128) :
    ∃ body, chars { ensureAscii := false } (.obj fields) = '\x7b' :: (body ++ ['\x7d']) ∧
      ∀ c, 128 ≤ c.toNat →
        (c ∈ body ↔ ∃ p ∈ fields, c ∈ chars { ensureAscii := false } p.2) := by
  refine ⟨_, by rw [chars], ?_⟩
  intro c hc
  have hcomma : c ≠ ',' := by
    rintro rfl
    exact absurd hc (by decide)
  have hcolon : c ≠ ':' := by
    rintro rfl
    exact absurd hc (by decide)
  rw [mem_commaSep hcomma, fieldChars_eq_map]
  simp only [arrange, Bool.false_eq_true, if_false, List.map_map, List.mem_map,
    Function.comp_apply, exists_exists_and_eq_and, List.mem_append, List.mem_cons, hcolon,
    false_or, mem_quote hc]
  constructor
  · rintro ⟨p, hp, hkey | hvalue⟩
    · exact absurd hkey (not_mem_of_ascii hc (hkeys p hp))
    · exact ⟨p, hp, hvalue⟩
  · rintro ⟨p, hp, hvalue⟩
    exact ⟨p, hp, .inr hvalue⟩

theorem mem_int {c : Char} (hc : 128 ≤ c.toNat) (st : Style) (i : Int) :
    c ∉ chars st (.int i) := by
  refine not_mem_of_ascii hc ?_
  rw [chars, intChars]
  split
  · rintro d (_ | ⟨_, hd⟩)
    · decide
    · exact ascii_toDigits d hd
  · exact ascii_toDigits

end Json
