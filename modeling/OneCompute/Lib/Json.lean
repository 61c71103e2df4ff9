import Mathlib.Data.List.Sort
import Mathlib.Data.String.Basic
import OneCompute.Lib.PyText

/-!
JSON values as the Python standard library reads them, and the text its encoder
writes for them. Integers and floats are different values; an object keeps its
fields in insertion order.
-/

inductive Json where
  | null
  | bool (b : Bool)
  | int (i : Int)
  | float (x : PyFloat)
  | str (s : String)
  | arr (items : List Json)
  | obj (fields : List (String × Json))

namespace Json

/-- The value of a key of a dictionary. -/
def lookup (fields : List (String × Json)) (key : String) : Option Json :=
  (fields.find? (fun p => p.1 == key)).map (·.2)

/-! ## Text -/

def hex4 (n : Nat) : List Char := PyText.hexDigits 4 n

def unicodeEscape (n : Nat) : List Char := '\\' :: 'u' :: hex4 n

/-- One character inside a string; with `ascii`, everything else is written as
`\u` escapes, outside the basic plane as a surrogate pair. -/
def escapeChar (ascii : Bool) (c : Char) : List Char :=
  if c = '"' then ['\\', '"']
  else if c = '\\' then ['\\', '\\']
  else if c = '\n' then ['\\', 'n']
  else if c = '\r' then ['\\', 'r']
  else if c = '\t' then ['\\', 't']
  else if c.toNat = 8 then ['\\', 'b']
  else if c.toNat = 12 then ['\\', 'f']
  else if c.toNat < 32 then unicodeEscape c.toNat
  else if ascii && 126 < c.toNat then
    if c.toNat < 0x10000 then unicodeEscape c.toNat
    else
      let v := c.toNat - 0x10000
      unicodeEscape (0xd800 + v / 0x400) ++ unicodeEscape (0xdc00 + v % 0x400)
  else [c]

def quote (ascii : Bool) (s : String) : List Char :=
  '"' :: (s.toList.flatMap (escapeChar ascii) ++ ['"'])

def intChars (i : Int) : List Char :=
  if i < 0 then '-' :: Nat.toDigits 10 i.natAbs else Nat.toDigits 10 i.natAbs

def floatChars : PyFloat → List Char
  | .nan => "NaN".toList
  | .inf true => "-Infinity".toList
  | .inf false => "Infinity".toList
  | x => x.reprChars

def commaSep : List (List Char) → List Char
  | [] => []
  | [x] => x
  | x :: xs => x ++ ',' :: commaSep xs

/-- The arguments of `json.dumps` that callers vary; separators are `","` and `":"`. -/
structure Style where
  ensureAscii : Bool := true
  sortKeys : Bool := false

def arrange (st : Style) (fields : List (String × List Char)) : List (String × List Char) :=
  if st.sortKeys then fields.insertionSort (fun p q => p.1 ≤ q.1) else fields

mutual

def chars (st : Style) : Json → List Char
  | .null => "null".toList
  | .bool true => "true".toList
  | .bool false => "false".toList
  | .int i => intChars i
  | .float x => floatChars x
  | .str s => quote st.ensureAscii s
  | .arr items => '[' :: (commaSep (itemChars st items) ++ [']'])
  | .obj fields =>
      '{' :: (commaSep ((arrange st (fieldChars st fields)).map fun p =>
        quote st.ensureAscii p.1 ++ ':' :: p.2) ++ ['}'])

def itemChars (st : Style) : List Json → List (List Char)
  | [] => []
  | x :: xs => chars st x :: itemChars st xs

def fieldChars (st : Style) : List (String × Json) → List (String × List Char)
  | [] => []
  | (k, v) :: rest => (k, chars st v) :: fieldChars st rest

end

def dumps (st : Style) (j : Json) : String := String.ofList (chars st j)

mutual

/-- No integer in the value is too long for the decoder to convert. -/
def withinDigits : Json → Bool
  | .int i => (Nat.toDigits 10 i.natAbs).length ≤ PyText.maxStrDigits
  | .arr items => itemsWithinDigits items
  | .obj fields => fieldsWithinDigits fields
  | _ => true

def itemsWithinDigits : List Json → Bool
  | [] => true
  | x :: xs => withinDigits x && itemsWithinDigits xs

def fieldsWithinDigits : List (String × Json) → Bool
  | [] => true
  | (_, v) :: rest => withinDigits v && fieldsWithinDigits rest

end

mutual

/-- Every float in the value is a finite number, as `allow_nan=False` demands. -/
def finite : Json → Bool
  | .float x => x.isFinite
  | .arr items => itemsFinite items
  | .obj fields => fieldsFinite fields
  | _ => true

def itemsFinite : List Json → Bool
  | [] => true
  | x :: xs => finite x && itemsFinite xs

def fieldsFinite : List (String × Json) → Bool
  | [] => true
  | (_, v) :: rest => finite v && fieldsFinite rest

end

theorem itemsFinite_iff {items : List Json} :
    itemsFinite items = true ↔ ∀ v ∈ items, v.finite = true := by
  induction items with
  | nil => simp [itemsFinite]
  | cons v items ih => simp [itemsFinite, ih]

theorem fieldsFinite_iff {fields : List (String × Json)} :
    fieldsFinite fields = true ↔ ∀ field ∈ fields, field.2.finite = true := by
  induction fields with
  | nil => simp [fieldsFinite]
  | cons field fields ih => simp [fieldsFinite, ih]

/-! ## As Python prints them -/

mutual

/-- `repr(value)`. -/
def pyRepr : Json → String
  | .null => "None"
  | .bool b => if b then "True" else "False"
  | .int i => toString i
  | .float x => String.ofList x.reprChars
  | .str s => PyText.repr s
  | .arr items => "[" ++ ", ".intercalate (itemReprs items) ++ "]"
  | .obj fields => "\x7b" ++ ", ".intercalate (fieldReprs fields) ++ "\x7d"

def itemReprs : List Json → List String
  | [] => []
  | x :: xs => pyRepr x :: itemReprs xs

def fieldReprs : List (String × Json) → List String
  | [] => []
  | (k, v) :: rest => (PyText.repr k ++ ": " ++ pyRepr v) :: fieldReprs rest

end

/-- `str(value)`. -/
def pyStr : Json → String
  | .str s => s
  | j => pyRepr j

/-- `fields[key] = value` -/
def assign (fields : List (String × Json)) (key : String) (value : Json) :
    List (String × Json) :=
  if fields.any (·.1 == key) then fields.map fun p => if p.1 == key then (key, value) else p
  else fields ++ [(key, value)]

/-- `list(value)` of what can be iterated over. -/
def pyList : Json → Option (List Json)
  | .arr items => some items
  | .str s => some (s.toList.map fun c => .str (String.singleton c))
  | .obj fields => some (fields.map fun p => .str p.1)
  | _ => none

/-! ## Strings can be read back -/

/-- Read one character of a string without `ascii`. -/
def unescape : List Char → Option (Char × List Char)
  | '\\' :: '"' :: rest => some ('"', rest)
  | '\\' :: '\\' :: rest => some ('\\', rest)
  | '\\' :: 'n' :: rest => some ('\n', rest)
  | '\\' :: 'r' :: rest => some ('\r', rest)
  | '\\' :: 't' :: rest => some ('\t', rest)
  | '\\' :: 'b' :: rest => some (Char.ofNat 8, rest)
  | '\\' :: 'f' :: rest => some (Char.ofNat 12, rest)
  | '\\' :: 'u' :: '0' :: '0' :: a :: b :: rest =>
      some (Char.ofNat ("0123456789abcdef".toList.idxOf a * 16 +
        "0123456789abcdef".toList.idxOf b), rest)
  | '"' :: _ => none
  | c :: rest => some (c, rest)
  | [] => none

private theorem hex4_control (n : Fin 32) :
    hex4 n = ['0', '0', "0123456789abcdef".toList.getD (n / 16) '0',
        "0123456789abcdef".toList.getD (n % 16) '0'] ∧
      "0123456789abcdef".toList.idxOf ("0123456789abcdef".toList.getD (n / 16) '0') * 16 +
        "0123456789abcdef".toList.idxOf ("0123456789abcdef".toList.getD (n % 16) '0') = n := by
  revert n
  decide

private theorem eq_ofNat_of_toNat {c : Char} {n : Nat} (h : c.toNat = n) : c = Char.ofNat n := by
  rw [← h, Char.ofNat_toNat]

theorem unescape_escapeChar (c : Char) (rest : List Char) :
    unescape (escapeChar false c ++ rest) = some (c, rest) := by
  by_cases hquote : c = '"'
  · subst hquote; rfl
  by_cases hslash : c = '\\'
  · subst hslash; rfl
  by_cases hn : c = '\n'
  · subst hn; rfl
  by_cases hr : c = '\r'
  · subst hr; rfl
  by_cases ht : c = '\t'
  · subst ht; rfl
  by_cases hb : c.toNat = 8
  · obtain rfl := eq_ofNat_of_toNat hb; rfl
  by_cases hf : c.toNat = 12
  · obtain rfl := eq_ofNat_of_toNat hf; rfl
  by_cases hc : c.toNat < 32
  · obtain ⟨hhex, hidx⟩ := hex4_control ⟨c.toNat, hc⟩
    simp only at hhex hidx
    simp only [escapeChar, hquote, hslash, hn, hr, ht, hb, hf, hc, if_true, if_false,
      unicodeEscape, hhex, List.cons_append, List.nil_append, unescape, hidx, Char.ofNat_toNat]
  · simp [escapeChar, hquote, hslash, hn, hr, ht, hb, hf, hc, unescape]

private theorem flatMap_escape_inj (s t x y : List Char)
    (h : s.flatMap (escapeChar false) ++ '"' :: x = t.flatMap (escapeChar false) ++ '"' :: y) :
    s = t ∧ x = y := by
  induction s generalizing t with
  | nil =>
      cases t with
      | nil => simpa using h
      | cons d t =>
          have := congrArg unescape h
          rw [List.flatMap_cons, List.append_assoc, unescape_escapeChar] at this
          cases this
  | cons c s ih =>
      have hu := congrArg unescape h
      rw [List.flatMap_cons, List.append_assoc, unescape_escapeChar] at hu
      cases t with
      | nil => cases hu
      | cons d t =>
          rw [List.flatMap_cons, List.append_assoc, unescape_escapeChar] at hu
          obtain ⟨rfl, hrest⟩ : c = d ∧ _ := by simpa using hu
          obtain ⟨rfl, hxy⟩ := ih t hrest
          exact ⟨rfl, hxy⟩

/-- A quoted string ends where its closing quote stands. -/
theorem quote_append_inj {s t : String} {x y : List Char}
    (h : quote false s ++ x = quote false t ++ y) : s = t ∧ x = y := by
  simp only [quote, List.cons_append, List.append_assoc, List.nil_append, List.cons.injEq,
    true_and] at h
  obtain ⟨hst, hxy⟩ := flatMap_escape_inj _ _ _ _ h
  exact ⟨String.toList_inj.mp hst, hxy⟩

theorem itemChars_strings (st : Style) (ss : List String) :
    itemChars st (ss.map Json.str) = ss.map (quote st.ensureAscii) := by
  induction ss with
  | nil => rfl
  | cons s ss ih => simp [itemChars, chars, ih]

private theorem commaSep_quote_inj {ss ts : List String} {x y : List Char}
    (hlen : ss.length = ts.length)
    (h : commaSep (ss.map (quote false)) ++ x = commaSep (ts.map (quote false)) ++ y) :
    ss = ts ∧ x = y := by
  induction ss generalizing ts with
  | nil =>
      obtain rfl : ts = [] := List.eq_nil_of_length_eq_zero hlen.symm
      exact ⟨rfl, h⟩
  | cons s ss ih =>
      cases ts with
      | nil => cases hlen
      | cons t ts =>
          have hlen' : ss.length = ts.length := by simpa using hlen
          cases ss with
          | nil =>
              obtain rfl : ts = [] := List.eq_nil_of_length_eq_zero hlen'.symm
              obtain ⟨rfl, hxy⟩ := quote_append_inj h
              exact ⟨rfl, hxy⟩
          | cons s' ss =>
              cases ts with
              | nil => cases hlen'
              | cons t' ts =>
                  simp only [List.map_cons, commaSep, List.append_assoc, List.cons_append] at h
                  obtain ⟨rfl, hrest⟩ := quote_append_inj h
                  obtain ⟨hs, hxy⟩ := ih hlen' (by simpa using hrest)
                  exact ⟨by rw [hs], hxy⟩

/-- Arrays of equally many strings are told apart by their text. -/
theorem dumps_strings_inj {st : Style} (hst : st.ensureAscii = false) {ss ts : List String}
    (hlen : ss.length = ts.length)
    (h : dumps st (.arr (ss.map .str)) = dumps st (.arr (ts.map .str))) : ss = ts := by
  have hc := String.ofList_injective h
  simp only [chars, itemChars_strings, hst, List.cons.injEq, true_and] at hc
  exact (commaSep_quote_inj hlen hc).1

end Json
