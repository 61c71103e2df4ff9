import Mathlib.Data.List.Perm.Basic
import OneCompute.Lib.Json
import OneCompute.Lib.Lists

/-!
What the text of a JSON value says. Sorting the keys is a step of its own, and the
text that is then written down in order is that of one value only.
-/

namespace Json

mutual

/-- No float occurs, and no object has a key twice. -/
def plain : Json → Bool
  | .float _ => false
  | .arr items => itemsPlain items
  | .obj fields => decide (fields.map (·.1)).Nodup && fieldsPlain fields
  | _ => true

def itemsPlain : List Json → Bool
  | [] => true
  | x :: xs => plain x && itemsPlain xs

def fieldsPlain : List (String × Json) → Bool
  | [] => true
  | (_, v) :: rest => plain v && fieldsPlain rest

end

mutual

/-- Equal values, whatever the order of the keys of each object. -/
def Same : Json → Json → Prop
  | .null, .null => True
  | .bool a, .bool b => a = b
  | .int i, .int j => i = j
  | .float x, .float y => x = y
  | .str s, .str t => s = t
  | .arr xs, .arr ys => ItemsSame xs ys
  | .obj fields, .obj others => ∃ arranged, arranged.Perm others ∧ FieldsSame fields arranged
  | _, _ => False

def ItemsSame : List Json → List Json → Prop
  | [], [] => True
  | x :: xs, y :: ys => Same x y ∧ ItemsSame xs ys
  | _, _ => False

def FieldsSame : List (String × Json) → List (String × Json) → Prop
  | [], [] => True
  | (k, v) :: rest, p :: others => (k = p.1 ∧ Same v p.2) ∧ FieldsSame rest others
  | _, _ => False

end

/-! ## Sorted keys -/

def byKey {α : Type} (fields : List (String × α)) : List (String × α) :=
  fields.insertionSort fun p q => p.1 ≤ q.1

theorem byKey_perm {α : Type} (fields : List (String × α)) : (byKey fields).Perm fields :=
  List.perm_insertionSort _ _

theorem byKey_map {α β : Type} (f : α → β) (fields : List (String × α)) :
    byKey (fields.map fun p => (p.1, f p.2)) = (byKey fields).map fun p => (p.1, f p.2) := by
  symm
  apply List.map_insertionSort
  exact fun _ _ _ _ => Iff.rfl

theorem byKey_pairwise {α : Type} (fields : List (String × α)) :
    (byKey fields).Pairwise fun p q => p.1 ≤ q.1 := by
  have htotal : Std.Total fun p q : String × α => p.1 ≤ q.1 := ⟨fun p q => le_total p.1 q.1⟩
  have htrans : IsTrans (String × α) fun p q => p.1 ≤ q.1 := ⟨fun _ _ _ => le_trans⟩
  exact List.pairwise_insertionSort _ fields

/-- Fields under distinct keys are sorted in one way. -/
theorem byKey_congr {α : Type} {fields others : List (String × α)}
    (hdistinct : (fields.map (·.1)).Nodup) (h : fields.Perm others) :
    byKey fields = byKey others := by
  have hperm : (byKey fields).Perm (byKey others) :=
    (byKey_perm fields).trans (h.trans (byKey_perm others).symm)
  refine hperm.eq_of_pairwise ?_ (byKey_pairwise fields) (byKey_pairwise others)
  intro p q hp hq hpq hqp
  have hq' : q ∈ fields := h.mem_iff.mpr ((byKey_perm others).mem_iff.mp hq)
  exact List.inj_on_of_nodup_map hdistinct ((byKey_perm fields).mem_iff.mp hp) hq'
    (le_antisymm hpq hqp)

mutual

/-- The value with the keys of all objects sorted. -/
def sorted : Json → Json
  | .arr items => .arr (itemsSorted items)
  | .obj fields => .obj (byKey (fieldsSorted fields))
  | j => j

def itemsSorted : List Json → List Json
  | [] => []
  | x :: xs => sorted x :: itemsSorted xs

def fieldsSorted : List (String × Json) → List (String × Json)
  | [] => []
  | (k, v) :: rest => (k, sorted v) :: fieldsSorted rest

end

theorem fieldsSorted_eq_map (fields : List (String × Json)) :
    fieldsSorted fields = fields.map fun p => (p.1, sorted p.2) := by
  induction fields with
  | nil => rfl
  | cons p rest ih => simp [fieldsSorted, ih]

theorem fieldChars_eq_map (st : Style) (fields : List (String × Json)) :
    fieldChars st fields = fields.map fun p => (p.1, chars st p.2) := by
  induction fields with
  | nil => rfl
  | cons p rest ih => simp [fieldChars, ih]

section Text
variable (ascii : Bool)

/-- Objects are written in the order of their fields. -/
def inOrder : Style := { ensureAscii := ascii, sortKeys := false }

def byKeys : Style := { ensureAscii := ascii, sortKeys := true }

mutual

/-- Sorting while writing is writing what was sorted. -/
theorem chars_sorted : ∀ j, chars (inOrder ascii) (sorted j) = chars (byKeys ascii) j
  | .null | .int _ | .float _ | .str _ => rfl
  | .bool true | .bool false => rfl
  | .arr items => by simp only [sorted, chars, itemChars_sorted items]
  | .obj fields => by
      have harrange : fieldChars (inOrder ascii) (byKey (fieldsSorted fields)) =
          byKey (fieldChars (byKeys ascii) fields) := by
        rw [fieldChars_eq_map, ← byKey_map, ← fieldChars_eq_map, fieldChars_sorted fields]
      simp only [sorted, chars, harrange]
      rfl

theorem itemChars_sorted :
    ∀ items, itemChars (inOrder ascii) (itemsSorted items) = itemChars (byKeys ascii) items
  | [] => rfl
  | x :: xs => by simp only [itemsSorted, itemChars, chars_sorted x, itemChars_sorted xs]

theorem fieldChars_sorted :
    ∀ fields, fieldChars (inOrder ascii) (fieldsSorted fields) = fieldChars (byKeys ascii) fields
  | [] => rfl
  | (k, v) :: rest => by simp only [fieldsSorted, fieldChars, chars_sorted v, fieldChars_sorted rest]

end

end Text

/-! ## The same values are sorted alike -/

theorem fieldsPlain_iff {fields : List (String × Json)} :
    fieldsPlain fields = true ↔ ∀ p ∈ fields, p.2.plain = true := by
  induction fields with
  | nil => simp [fieldsPlain]
  | cons p rest ih => simp [fieldsPlain, ih]

theorem plain_obj {fields : List (String × Json)} :
    plain (.obj fields) = true ↔ (fields.map (·.1)).Nodup ∧ fieldsPlain fields = true := by
  simp [plain]

mutual

theorem sorted_eq_of_same : ∀ (a b : Json), b.plain = true → Same a b → sorted a = sorted b
  | .null, b, _, h => by cases b <;> simp_all [Same]
  | .bool _, b, _, h => by cases b <;> simp_all [Same]
  | .int _, b, _, h => by cases b <;> simp_all [Same]
  | .float _, b, _, h => by cases b <;> simp_all [Same]
  | .str _, b, _, h => by cases b <;> simp_all [Same]
  | .arr xs, b, hb, h => by
      cases b with
      | arr ys =>
          simp only [plain] at hb
          simp only [Same] at h
          simp only [sorted, itemsSorted_eq_of_same xs ys hb h]
      | _ => simp [Same] at h
  | .obj fields, b, hb, h => by
      cases b with
      | obj others =>
          simp only [Same] at h
          obtain ⟨arranged, hperm, hsame⟩ := h
          obtain ⟨hdistinct, hplain⟩ := plain_obj.mp hb
          have harranged : fieldsPlain arranged = true :=
            fieldsPlain_iff.mpr fun p hp => fieldsPlain_iff.mp hplain p (hperm.mem_iff.mp hp)
          have hkeys : ((fieldsSorted arranged).map (·.1)).Nodup := by
            rw [fieldsSorted_eq_map, List.map_map]
            exact ((hperm.map _).nodup_iff).mpr hdistinct
          have hsorted : (fieldsSorted arranged).Perm (fieldsSorted others) := by
            rw [fieldsSorted_eq_map, fieldsSorted_eq_map]
            exact hperm.map _
          simp only [sorted, fieldsSorted_eq_of_same fields arranged harranged hsame,
            byKey_congr hkeys hsorted]
      | _ => simp [Same] at h

theorem itemsSorted_eq_of_same : ∀ (xs ys : List Json), itemsPlain ys = true → ItemsSame xs ys →
    itemsSorted xs = itemsSorted ys
  | [], ys, _, h => by
      cases ys with
      | nil => rfl
      | cons y ys => simp [ItemsSame] at h
  | x :: xs, ys, hys, h => by
      cases ys with
      | nil => simp [ItemsSame] at h
      | cons y ys =>
          simp only [itemsPlain, Bool.and_eq_true] at hys
          simp only [ItemsSame] at h
          simp only [itemsSorted, sorted_eq_of_same x y hys.1 h.1,
            itemsSorted_eq_of_same xs ys hys.2 h.2]

theorem fieldsSorted_eq_of_same : ∀ (fields others : List (String × Json)),
    fieldsPlain others = true → FieldsSame fields others →
      fieldsSorted fields = fieldsSorted others
  | [], others, _, h => by
      cases others with
      | nil => rfl
      | cons p others => simp [FieldsSame] at h
  | (k, v) :: rest, others, hplain, h => by
      cases others with
      | nil => simp [FieldsSame] at h
      | cons p others =>
          obtain ⟨l, w⟩ := p
          simp only [fieldsPlain, Bool.and_eq_true] at hplain
          simp only [FieldsSame] at h
          obtain ⟨⟨rfl, hvw⟩, hrest⟩ := h
          simp only [fieldsSorted, sorted_eq_of_same v w hplain.1 hvw,
            fieldsSorted_eq_of_same rest others hplain.2 hrest]

end

mutual

theorem same_of_sorted_eq : ∀ (a b : Json), sorted a = sorted b → Same a b
  | .null, b, h => by cases b <;> simp_all [sorted, Same]
  | .bool _, b, h => by cases b <;> simp_all [sorted, Same]
  | .int _, b, h => by cases b <;> simp_all [sorted, Same]
  | .float _, b, h => by cases b <;> simp_all [sorted, Same]
  | .str _, b, h => by cases b <;> simp_all [sorted, Same]
  | .arr xs, b, h => by
      cases b with
      | arr ys =>
          simp only [sorted, Json.arr.injEq] at h
          simpa only [Same] using itemsSame_of_sorted_eq xs ys h
      | _ => simp [sorted] at h
  | .obj fields, b, h => by
      cases b with
      | obj others =>
          simp only [sorted, Json.obj.injEq] at h
          have hperm : (fieldsSorted fields).Perm (fieldsSorted others) :=
            (byKey_perm _).symm.trans (h ▸ byKey_perm _)
          rw [fieldsSorted_eq_map others] at hperm
          obtain ⟨arranged, harranged, hfields⟩ := Lists.exists_perm_of_map hperm
          rw [← fieldsSorted_eq_map] at hfields
          simp only [Same]
          exact ⟨arranged, harranged, fieldsSame_of_sorted_eq fields arranged hfields⟩
      | _ => simp [sorted] at h

theorem itemsSame_of_sorted_eq : ∀ (xs ys : List Json), itemsSorted xs = itemsSorted ys →
    ItemsSame xs ys
  | [], ys, h => by
      cases ys with
      | nil => simp only [ItemsSame]
      | cons y ys => simp [itemsSorted] at h
  | x :: xs, ys, h => by
      cases ys with
      | nil => simp [itemsSorted] at h
      | cons y ys =>
          simp only [itemsSorted, List.cons.injEq] at h
          simp only [ItemsSame]
          exact ⟨same_of_sorted_eq x y h.1, itemsSame_of_sorted_eq xs ys h.2⟩

theorem fieldsSame_of_sorted_eq : ∀ (fields others : List (String × Json)),
    fieldsSorted fields = fieldsSorted others → FieldsSame fields others
  | [], others, h => by
      cases others with
      | nil => simp only [FieldsSame]
      | cons p others => simp [fieldsSorted] at h
  | (k, v) :: rest, others, h => by
      cases others with
      | nil => simp [fieldsSorted] at h
      | cons p others =>
          simp only [fieldsSorted, List.cons.injEq, Prod.mk.injEq] at h
          simp only [FieldsSame]
          exact ⟨⟨h.1.1, same_of_sorted_eq v p.2 h.1.2⟩, fieldsSame_of_sorted_eq rest others h.2⟩

end

/-- Two values are the same up to the order of their keys exactly when they are equal
with their keys sorted. -/
theorem sorted_eq_iff {a b : Json} (hb : b.plain = true) : sorted a = sorted b ↔ Same a b :=
  ⟨same_of_sorted_eq a b, sorted_eq_of_same a b hb⟩

/-! ## Text that is read back -/

/-- What follows a number does not go on with it. -/
def Ends (rest : List Char) : Prop := ∀ c ∈ rest.head?, c.isDigit = false

theorem ends_cons {c : Char} {rest : List Char} (h : c.isDigit = false) : Ends (c :: rest) := by
  intro d hd
  cases hd
  exact h

theorem digits_append_inj {xs ys x y : List Char} (hxs : ∀ c ∈ xs, c.isDigit = true)
    (hys : ∀ c ∈ ys, c.isDigit = true) (hx : Ends x) (hy : Ends y) (h : xs ++ x = ys ++ y) :
    xs = ys ∧ x = y := by
  induction xs generalizing ys with
  | nil =>
      cases ys with
      | nil => exact ⟨rfl, h⟩
      | cons d ys =>
          have hdigit := hys d List.mem_cons_self
          have hend : d.isDigit = false := hx d (by rw [show x = d :: (ys ++ y) from h]; rfl)
          rw [hdigit] at hend
          cases hend
  | cons c xs ih =>
      cases ys with
      | nil =>
          have hdigit := hxs c List.mem_cons_self
          have hend : c.isDigit = false := hy c (by rw [show y = c :: (xs ++ x) from h.symm]; rfl)
          rw [hdigit] at hend
          cases hend
      | cons d ys =>
          simp only [List.cons_append, List.cons.injEq] at h
          obtain ⟨rfl, h⟩ := h
          obtain ⟨rfl, hrest⟩ := ih (fun c hc => hxs c (List.mem_cons_of_mem _ hc))
            (fun c hc => hys c (List.mem_cons_of_mem _ hc)) h
          exact ⟨rfl, hrest⟩

theorem toDigits_isDigit {n : Nat} : ∀ c ∈ Nat.toDigits 10 n, c.isDigit = true :=
  fun _ hc => Nat.isDigit_of_mem_toDigits (by decide) (by decide) hc

theorem toDigits_append_inj {n m : Nat} {x y : List Char} (hx : Ends x) (hy : Ends y)
    (h : Nat.toDigits 10 n ++ x = Nat.toDigits 10 m ++ y) : n = m ∧ x = y := by
  obtain ⟨hdigits, hrest⟩ := digits_append_inj toDigits_isDigit toDigits_isDigit hx hy h
  have hvalue := congrArg (Nat.ofDigitChars 10 · 0) hdigits
  simp only [Nat.ofDigitChars_ten_toDigits] at hvalue
  exact ⟨hvalue, hrest⟩

/-- A minus sign is no digit. -/
theorem toDigits_ne_minus {n : Nat} {x y : List Char} : Nat.toDigits 10 n ++ x ≠ '-' :: y := by
  intro h
  cases hdigits : Nat.toDigits 10 n with
  | nil => exact absurd hdigits Nat.toDigits_ne_nil
  | cons c rest =>
      rw [hdigits] at h
      obtain ⟨rfl, -⟩ := List.cons.inj h
      have hdigit := toDigits_isDigit (n := n) '-' (by rw [hdigits]; exact List.mem_cons_self)
      exact absurd hdigit (by decide)

theorem intChars_append_inj {i j : Int} {x y : List Char} (hx : Ends x) (hy : Ends y)
    (h : intChars i ++ x = intChars j ++ y) : i = j ∧ x = y := by
  unfold intChars at h
  by_cases hi : i < 0 <;> by_cases hj : j < 0
  · rw [if_pos hi, if_pos hj] at h
    obtain ⟨habs, hrest⟩ := toDigits_append_inj hx hy (List.cons.inj h).2
    exact ⟨by omega, hrest⟩
  · rw [if_pos hi, if_neg hj] at h
    exact absurd h.symm toDigits_ne_minus
  · rw [if_neg hi, if_pos hj] at h
    exact absurd h toDigits_ne_minus
  · rw [if_neg hi, if_neg hj] at h
    obtain ⟨habs, hrest⟩ := toDigits_append_inj hx hy h
    exact ⟨by omega, hrest⟩

/-! The first character tells what kind of value begins there. -/

def leads : Char → Nat
  | 'n' => 0
  | 't' => 1
  | 'f' => 2
  | '"' => 3
  | '[' => 4
  | '\x7b' => 5
  | ']' => 6
  | '\x7d' => 6
  | _ => 7

def kind : Json → Nat
  | .null => 0
  | .bool true => 1
  | .bool false => 2
  | .str _ => 3
  | .arr _ => 4
  | .obj _ => 5
  | .float _ => 6
  | .int _ => 7

theorem leads_digit {c : Char} (h : c.isDigit = true) : leads c = 7 := by
  have hne : ∀ d : Char, d.isDigit = false → c ≠ d := by
    rintro d hd rfl
    rw [h] at hd
    cases hd
  unfold leads
  split
  · exact absurd rfl (hne _ (by decide))
  · exact absurd rfl (hne _ (by decide))
  · exact absurd rfl (hne _ (by decide))
  · exact absurd rfl (hne _ (by decide))
  · exact absurd rfl (hne _ (by decide))
  · exact absurd rfl (hne _ (by decide))
  · exact absurd rfl (hne _ (by decide))
  · exact absurd rfl (hne _ (by decide))
  · rfl

theorem chars_leads (st : Style) {j : Json} (hj : j.plain = true) :
    ∃ c rest, chars st j = c :: rest ∧ leads c = kind j := by
  cases j with
  | null => exact ⟨_, _, rfl, rfl⟩
  | bool b => cases b <;> exact ⟨_, _, rfl, rfl⟩
  | float x => simp [plain] at hj
  | str s => exact ⟨_, _, by simp only [chars]; rfl, rfl⟩
  | arr items => exact ⟨_, _, by simp only [chars]; rfl, rfl⟩
  | obj fields => exact ⟨_, _, by simp only [chars]; rfl, rfl⟩
  | int i =>
      simp only [chars, intChars]
      split
      · exact ⟨_, _, rfl, rfl⟩
      · cases hdigits : Nat.toDigits 10 i.natAbs with
        | nil => exact absurd hdigits Nat.toDigits_ne_nil
        | cons c rest =>
            have hdigit : c.isDigit = true :=
              toDigits_isDigit (n := i.natAbs) c (by rw [hdigits]; exact List.mem_cons_self)
            exact ⟨c, rest, rfl, leads_digit hdigit⟩

theorem kind_eq {st : Style} {j k : Json} {x y : List Char} (hj : j.plain = true)
    (hk : k.plain = true) (h : chars st j ++ x = chars st k ++ y) : kind j = kind k := by
  obtain ⟨c, rest, hc, hkindj⟩ := chars_leads st hj
  obtain ⟨d, others, hd, hkindk⟩ := chars_leads st hk
  rw [hc, hd] at h
  obtain ⟨rfl, -⟩ := List.cons.inj h
  exact hkindj.symm.trans hkindk

/-- No value begins where a list of values ends. -/
theorem chars_ne_close {st : Style} {j : Json} {c : Char} {x y : List Char} (hj : j.plain = true)
    (hc : leads c = 6) : chars st j ++ x ≠ c :: y := by
  intro h
  obtain ⟨d, rest, hd, hkind⟩ := chars_leads st hj
  rw [hd] at h
  obtain ⟨rfl, -⟩ := List.cons.inj h
  rw [hc] at hkind
  cases j with
  | bool b => cases b <;> cases hkind
  | float x => simp [plain] at hj
  | _ => cases hkind

theorem commaSep_cons (text : List Char) (texts : List (List Char)) :
    commaSep (text :: texts) = text ++ texts.flatMap (',' :: ·) := by
  induction texts generalizing text with
  | nil => simp [commaSep]
  | cons next texts ih => simp only [commaSep, ih, List.flatMap_cons, List.cons_append]

section Separated
variable {α : Type} {f : α → List Char} {close : Char} {x y : List Char}

/-- What two elements of a list are read from, they are read from alone. -/
def ReadApart (f : α → List Char) (a b : α) : Prop :=
  ∀ x y, Ends x → Ends y → f a ++ x = f b ++ y → a = b ∧ x = y

theorem ends_tail (hclose : close.isDigit = false) (xs : List α) (x : List Char) :
    Ends ((xs.map f).flatMap (',' :: ·) ++ close :: x) := by
  cases xs with
  | nil => exact ends_cons hclose
  | cons a xs => exact ends_cons (by decide)

theorem tail_inj {xs ys : List α} (hclose : close.isDigit = false) (hcomma : close ≠ ',')
    (hread : ∀ a ∈ xs, ∀ b ∈ ys, ReadApart f a b)
    (h : (xs.map f).flatMap (',' :: ·) ++ close :: x = (ys.map f).flatMap (',' :: ·) ++ close :: y) :
    xs = ys ∧ x = y := by
  induction xs generalizing ys with
  | nil =>
      cases ys with
      | nil => exact ⟨rfl, (List.cons.inj h).2⟩
      | cons b ys => exact absurd (List.cons.inj h).1 hcomma
  | cons a xs ih =>
      cases ys with
      | nil => exact absurd (List.cons.inj h).1.symm hcomma
      | cons b ys =>
          simp only [List.map_cons, List.flatMap_cons, List.cons_append, List.append_assoc,
            List.cons.injEq, true_and] at h
          obtain ⟨rfl, htail⟩ := hread a List.mem_cons_self b List.mem_cons_self _ _
            (ends_tail hclose xs x) (ends_tail hclose ys y) h
          obtain ⟨rfl, hrest⟩ := ih (fun a ha b hb =>
            hread a (List.mem_cons_of_mem _ ha) b (List.mem_cons_of_mem _ hb)) htail
          exact ⟨rfl, hrest⟩

/-- A list in brackets is read back when its elements are. -/
theorem separated_inj {xs ys : List α} (hclose : close.isDigit = false) (hcomma : close ≠ ',')
    (hopen : ∀ a, a ∈ xs ∨ a ∈ ys → ∀ x y, f a ++ x ≠ close :: y)
    (hread : ∀ a ∈ xs, ∀ b ∈ ys, ReadApart f a b)
    (h : commaSep (xs.map f) ++ close :: x = commaSep (ys.map f) ++ close :: y) :
    xs = ys ∧ x = y := by
  cases xs with
  | nil =>
      cases ys with
      | nil => exact ⟨rfl, (List.cons.inj h).2⟩
      | cons b ys =>
          rw [List.map_cons, commaSep_cons, List.append_assoc] at h
          exact absurd h.symm (hopen b (.inr List.mem_cons_self) _ _)
  | cons a xs =>
      cases ys with
      | nil =>
          rw [List.map_cons, commaSep_cons, List.append_assoc] at h
          exact absurd h (hopen a (.inl List.mem_cons_self) _ _)
      | cons b ys =>
          rw [List.map_cons, List.map_cons, commaSep_cons, commaSep_cons, List.append_assoc,
            List.append_assoc] at h
          obtain ⟨rfl, htail⟩ := hread a List.mem_cons_self b List.mem_cons_self _ _
            (ends_tail hclose xs x) (ends_tail hclose ys y) h
          obtain ⟨rfl, hrest⟩ := tail_inj hclose hcomma (fun a ha b hb =>
            hread a (List.mem_cons_of_mem _ ha) b (List.mem_cons_of_mem _ hb)) htail
          exact ⟨rfl, hrest⟩

end Separated

/-! ## One value for a text -/

/-- No other value has a text that begins like this one's. -/
def Readable (j : Json) : Prop :=
  ∀ k : Json, k.plain = true → ∀ x y, Ends x → Ends y →
    chars (inOrder false) j ++ x = chars (inOrder false) k ++ y → j = k ∧ x = y

theorem itemChars_eq_map (st : Style) (items : List Json) :
    itemChars st items = items.map (chars st) := by
  induction items with
  | nil => rfl
  | cons x xs ih => simp [itemChars, ih]

theorem itemsPlain_iff {items : List Json} :
    itemsPlain items = true ↔ ∀ v ∈ items, v.plain = true := by
  induction items with
  | nil => simp [itemsPlain]
  | cons x xs ih => simp [itemsPlain, ih]

/-- A field as it is written. -/
def fieldText (p : String × Json) : List Char :=
  quote false p.1 ++ ':' :: chars (inOrder false) p.2

theorem chars_obj (fields : List (String × Json)) : chars (inOrder false) (.obj fields) =
    '\x7b' :: (commaSep (fields.map fieldText) ++ ['\x7d']) := by
  simp only [chars, arrange, inOrder, fieldChars_eq_map, Bool.false_eq_true, if_false,
    List.map_map]
  rfl

theorem fieldText_readApart {p q : String × Json} (hp : Readable p.2) (hq : q.2.plain = true) :
    ReadApart fieldText p q := by
  intro x y hx hy h
  simp only [fieldText, List.append_assoc, List.cons_append] at h
  obtain ⟨hkey, h⟩ := quote_append_inj h
  obtain ⟨hvalue, hrest⟩ := hp q.2 hq x y hx hy (List.cons.inj h).2
  exact ⟨Prod.ext hkey hvalue, hrest⟩

theorem fieldText_ne_close (p : String × Json) (x y : List Char) :
    fieldText p ++ x ≠ '\x7d' :: y := by
  intro h
  exact absurd (List.cons.inj h).1 (by decide)

mutual

theorem readable : ∀ j : Json, j.plain = true → Readable j
  | .null, hj => by
      intro k hk x y _ _ h
      have hkind := kind_eq hj hk h
      cases k with
      | null => exact ⟨rfl, List.append_cancel_left h⟩
      | bool b => cases b <;> cases hkind
      | _ => cases hkind
  | .bool true, hj => by
      intro k hk x y _ _ h
      have hkind := kind_eq hj hk h
      cases k with
      | bool b =>
          cases b with
          | true => exact ⟨rfl, List.append_cancel_left h⟩
          | false => cases hkind
      | _ => cases hkind
  | .bool false, hj => by
      intro k hk x y _ _ h
      have hkind := kind_eq hj hk h
      cases k with
      | bool b =>
          cases b with
          | true => cases hkind
          | false => exact ⟨rfl, List.append_cancel_left h⟩
      | _ => cases hkind
  | .int i, hj => by
      intro k hk x y hx hy h
      have hkind := kind_eq hj hk h
      cases k with
      | bool b => cases b <;> cases hkind
      | int i' =>
          simp only [chars] at h
          obtain ⟨rfl, hrest⟩ := intChars_append_inj hx hy h
          exact ⟨rfl, hrest⟩
      | _ => cases hkind
  | .float _, hj => by simp [plain] at hj
  | .str s, hj => by
      intro k hk x y _ _ h
      have hkind := kind_eq hj hk h
      cases k with
      | bool b => cases b <;> cases hkind
      | str t =>
          simp only [chars] at h
          obtain ⟨rfl, hrest⟩ := quote_append_inj h
          exact ⟨rfl, hrest⟩
      | _ => cases hkind
  | .arr items, hj => by
      intro k hk x y _ _ h
      have hkind := kind_eq hj hk h
      cases k with
      | bool b => cases b <;> cases hkind
      | arr others =>
          simp only [plain] at hj hk
          simp only [chars, itemChars_eq_map, List.cons_append, List.append_assoc,
            List.nil_append, List.cons.injEq, true_and] at h
          obtain ⟨rfl, hrest⟩ := separated_inj (by decide) (by decide)
            (fun v hv x y => chars_ne_close
              (hv.elim (itemsPlain_iff.mp hj v) (itemsPlain_iff.mp hk v)) rfl)
            (fun v hv w hw => itemsReadable items hj v hv w (itemsPlain_iff.mp hk w hw)) h
          exact ⟨rfl, hrest⟩
      | _ => cases hkind
  | .obj fields, hj => by
      intro k hk x y _ _ h
      have hkind := kind_eq hj hk h
      cases k with
      | bool b => cases b <;> cases hkind
      | obj others =>
          have hfields := (plain_obj.mp hj).2
          have hothers := (plain_obj.mp hk).2
          simp only [chars_obj, List.cons_append, List.append_assoc, List.nil_append,
            List.cons.injEq, true_and] at h
          obtain ⟨rfl, hrest⟩ := separated_inj (by decide) (by decide)
            (fun p _ x y => fieldText_ne_close p x y)
            (fun p hp q hq => fieldText_readApart (fieldsReadable fields hfields p hp)
              (fieldsPlain_iff.mp hothers q hq)) h
          exact ⟨rfl, hrest⟩
      | _ => cases hkind

theorem itemsReadable : ∀ items : List Json, itemsPlain items = true →
    ∀ v ∈ items, Readable v
  | [], _ => by simp
  | x :: xs, h => by
      simp only [itemsPlain, Bool.and_eq_true] at h
      rw [List.forall_mem_cons]
      exact ⟨readable x h.1, itemsReadable xs h.2⟩

theorem fieldsReadable : ∀ fields : List (String × Json), fieldsPlain fields = true →
    ∀ p ∈ fields, Readable p.2
  | [], _ => by simp
  | (_, v) :: rest, h => by
      simp only [fieldsPlain, Bool.and_eq_true] at h
      rw [List.forall_mem_cons]
      exact ⟨readable v h.1, fieldsReadable rest h.2⟩

end

/-! ## Equal texts -/

theorem plain_byKey {fields : List (String × Json)} :
    plain (.obj (byKey fields)) = true ↔ plain (.obj fields) = true := by
  have hperm := byKey_perm fields
  rw [plain_obj, plain_obj, (hperm.map _).nodup_iff, fieldsPlain_iff, fieldsPlain_iff]
  simp only [hperm.mem_iff]

mutual

theorem sorted_plain : ∀ j : Json, j.plain = true → (sorted j).plain = true
  | .null, h | .bool _, h | .int _, h | .float _, h | .str _, h => h
  | .arr items, h => itemsSorted_plain items h
  | .obj fields, h => by
      have hkeys : (fieldsSorted fields).map (·.1) = fields.map (·.1) := by
        rw [fieldsSorted_eq_map, List.map_map]
        rfl
      simp only [sorted]
      rw [plain_byKey, plain_obj, hkeys]
      exact ⟨(plain_obj.mp h).1, fieldsSorted_plain fields (plain_obj.mp h).2⟩

theorem itemsSorted_plain : ∀ items : List Json, itemsPlain items = true →
    itemsPlain (itemsSorted items) = true
  | [], _ => rfl
  | x :: xs, h => by
      simp only [itemsPlain, itemsSorted, Bool.and_eq_true] at h ⊢
      exact ⟨sorted_plain x h.1, itemsSorted_plain xs h.2⟩

theorem fieldsSorted_plain : ∀ fields : List (String × Json), fieldsPlain fields = true →
    fieldsPlain (fieldsSorted fields) = true
  | [], _ => rfl
  | (_, v) :: rest, h => by
      simp only [fieldsPlain, fieldsSorted, Bool.and_eq_true] at h ⊢
      exact ⟨sorted_plain v h.1, fieldsSorted_plain rest h.2⟩

end

/-- The text with sorted keys tells values apart up to the order of their keys. -/
theorem dumps_byKeys_iff {a b : Json} (ha : a.plain = true) (hb : b.plain = true) :
    dumps (byKeys false) a = dumps (byKeys false) b ↔ Same a b := by
  rw [← sorted_eq_iff hb]
  unfold dumps
  rw [← chars_sorted, ← chars_sorted]
  constructor
  · intro h
    have htext := congrArg (· ++ []) (String.ofList_injective h)
    exact (readable (sorted a) (sorted_plain a ha) (sorted b) (sorted_plain b hb) [] []
      nofun nofun htext).1
  · intro h
    rw [h]

end Json
