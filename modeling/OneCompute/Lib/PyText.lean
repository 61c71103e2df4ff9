import OneCompute.Lib.PyFloat
import Mathlib.Data.List.DropRight

/-!
The string functions of the Python standard library that programs here use:
`strip`, `lower`, prefix and substring tests, `hmac.compare_digest`, `int(text)`
and the hexadecimal form of a random 128-bit identifier.
-/

namespace PyText

/-- Code points for which `str.isspace` holds. -/
def isSpace (c : Char) : Bool :=
  let n := c.toNat
  (9 ≤ n && n ≤ 13) || (28 ≤ n && n ≤ 32) || n == 0x85 || n == 0xa0 || n == 0x1680 ||
    (0x2000 ≤ n && n ≤ 0x200a) || n == 0x2028 || n == 0x2029 || n == 0x202f || n == 0x205f ||
    n == 0x3000

def stripBy (p : Char → Bool) (cs : List Char) : List Char :=
  ((cs.dropWhile p).reverse.dropWhile p).reverse

def strip (s : String) : String := String.ofList (stripBy isSpace s.toList)

/-- Text that begins and ends with other characters stays, whatever follows it. -/
theorem stripBy_append (p : Char → Bool) {core : List Char} (hne : core ≠ [])
    (hhead : p (core.head hne) = false) (hlast : p (core.getLast hne) = false)
    (rest : List Char) : stripBy p (core ++ rest) = core ++ rest.rdropWhile p := by
  have hleft : (core ++ rest).dropWhile p = core ++ rest := by
    cases core with
    | nil => exact absurd rfl hne
    | cons c cs => exact List.dropWhile_cons_of_neg (by simpa using hhead)
  have hright : core.reverse.dropWhile p = core.reverse := by
    cases hrev : core.reverse with
    | nil => rfl
    | cons c cs =>
        have hcore : core = cs.reverse ++ [c] := by
          rw [← core.reverse_reverse, hrev, List.reverse_cons]
        refine List.dropWhile_cons_of_neg ?_
        simpa [hcore] using hlast
  unfold stripBy List.rdropWhile
  rw [hleft, List.reverse_append, List.dropWhile_append]
  split
  · next hempty =>
      rw [hright, List.isEmpty_iff.mp hempty, List.reverse_reverse, List.reverse_nil,
        List.append_nil]
  · rw [List.reverse_append, List.reverse_reverse]

theorem strip_of_no_space {s : String} (h : ∀ c ∈ s.toList, isSpace c = false) : strip s = s := by
  cases hs : s.toList with
  | nil =>
      obtain rfl : s = "" := String.toList_inj.mp hs
      rfl
  | cons c cs =>
      have hne : s.toList ≠ [] := by simp [hs]
      have hstrip := stripBy_append isSpace hne (h _ (List.head_mem hne))
        (h _ (List.getLast_mem hne)) []
      rw [List.append_nil] at hstrip
      rw [strip, hstrip]
      simp

def startsWith (s pre : String) : Bool := pre.toList.isPrefixOf s.toList

def removePrefix (s pre : String) : String :=
  if startsWith s pre then String.ofList (s.toList.drop pre.toList.length) else s

def containsChars (part : List Char) : List Char → Bool
  | [] => part.isEmpty
  | c :: cs => part.isPrefixOf (c :: cs) || containsChars part cs

/-- `part in s`. -/
def contains (s part : String) : Bool := containsChars part.toList s.toList

theorem containsChars_append (part rest : List Char) :
    containsChars part (part ++ rest) = true := by
  cases part with
  | nil => cases rest <;> simp [containsChars]
  | cons c cs => simp [containsChars]

/-- `lower()` as far as ASCII text is concerned: U+0130 and U+212A are the only
other characters whose lower case has an ASCII letter in it. -/
def lower (s : String) : String :=
  String.ofList (s.toList.flatMap fun c =>
    if c.toNat = 0x130 then ['i', Char.ofNat 0x307]
    else if c.toNat = 0x212a then ['k']
    else [c.toLower])

theorem lower_of_lower {s : String}
    (h : ∀ c ∈ s.toList, c.toNat ≠ 0x130 ∧ c.toNat ≠ 0x212a ∧ c.toLower = c) : lower s = s := by
  have hmap : s.toList.flatMap (fun c =>
      if c.toNat = 0x130 then ['i', Char.ofNat 0x307]
      else if c.toNat = 0x212a then ['k']
      else [c.toLower]) = s.toList.flatMap (fun c => [c]) := by
    apply List.flatMap_congr
    intro c hc
    obtain ⟨hdot, hkelvin, hlow⟩ := h c hc
    rw [if_neg hdot, if_neg hkelvin, hlow]
  rw [lower, hmap, List.flatMap_singleton', String.ofList_toList]

theorem lower_append (s t : String) : lower (s ++ t) = lower s ++ lower t := by
  simp [lower, String.toList_append, List.flatMap_append]

def isAscii (s : String) : Bool := s.toList.all (fun c => c.toNat < 128)

/-- `hmac.compare_digest`; `none` is the `TypeError` on text outside ASCII. -/
def compareDigest (a b : String) : Option Bool :=
  if isAscii a && isAscii b then some (a == b) else none

theorem eq_of_compareDigest {a b : String} (h : compareDigest a b = some true) : a = b := by
  unfold compareDigest at h
  split at h
  · simpa using h
  · cases h

def hexDigits (width n : Nat) : List Char :=
  (List.range width).map fun i =>
    "0123456789abcdef".toList.getD (n / 16 ^ (width - 1 - i) % 16) '0'

/-- `repr(s)`; text outside ASCII is taken to be printable. -/
def repr (s : String) : String :=
  let quote : Char := if s.toList.contains '\'' && !s.toList.contains '"' then '"' else '\''
  let body := s.toList.flatMap fun c =>
    if c = quote || c = '\\' then ['\\', c]
    else if c = '\n' then ['\\', 'n']
    else if c = '\r' then ['\\', 'r']
    else if c = '\t' then ['\\', 't']
    else if c.toNat < 32 || c.toNat = 127 then '\\' :: 'x' :: hexDigits 2 c.toNat
    else [c]
  String.ofList (quote :: (body ++ [quote]))

/-- `repr` of a list of strings. -/
def reprList (ss : List String) : String := "[" ++ ", ".intercalate (ss.map repr) ++ "]"

/-- `uuid4().hex` for the random bits `n`. -/
def uuidHex (n : Nat) : String := String.ofList (hexDigits 32 n)

theorem hexDigit_inj {a b : Nat} (ha : a < 16) (hb : b < 16)
    (h : "0123456789abcdef".toList.getD a '0' = "0123456789abcdef".toList.getD b '0') : a = b := by
  have hall : ∀ a < 16, ∀ b < 16, "0123456789abcdef".toList.getD a '0' =
      "0123456789abcdef".toList.getD b '0' → a = b := by
    decide +kernel
  exact hall a ha b hb h

/-- The digits determine a number that they have room for. -/
theorem hexDigits_inj {width a b : Nat} (h : hexDigits width a = hexDigits width b) :
    a % 16 ^ width = b % 16 ^ width := by
  have hplace : ∀ k < width, a / 16 ^ k % 16 = b / 16 ^ k % 16 := by
    intro k hk
    have hget := congrArg (fun cs => cs[width - 1 - k]?) h
    have hlt : width - 1 - k < width := by omega
    simp only [hexDigits, List.getElem?_map, List.getElem?_range hlt, Option.map_some,
      Option.some.injEq] at hget
    have hback : width - 1 - (width - 1 - k) = k := by omega
    rw [hback] at hget
    exact hexDigit_inj (Nat.mod_lt _ (by decide)) (Nat.mod_lt _ (by decide)) hget
  clear h
  induction width with
  | zero => simp [Nat.mod_one]
  | succ width ih =>
      rw [Nat.pow_succ, Nat.mod_mul, Nat.mod_mul, ih fun k hk => hplace k (by omega),
        hplace width (by omega)]

theorem uuidHex_inj {a b : Nat} (ha : a < 16 ^ 32) (hb : b < 16 ^ 32)
    (h : uuidHex a = uuidHex b) : a = b := by
  have hdigits := hexDigits_inj (String.ofList_inj.mp h)
  rwa [Nat.mod_eq_of_lt ha, Nat.mod_eq_of_lt hb] at hdigits

/-! `int(text)`. -/

/-- Longest decimal text that `int` and `str` convert. -/
def maxStrDigits : Nat := 4300

/-- The zeros of the decimal digit blocks; each block is ten code points. -/
def decimalZeros : List Nat :=
  [0x30, 0x660, 0x6f0, 0x7c0, 0x966, 0x9e6, 0xa66, 0xae6, 0xb66, 0xbe6, 0xc66, 0xce6, 0xd66,
   0xde6, 0xe50, 0xed0, 0xf20, 0x1040, 0x1090, 0x17e0, 0x1810, 0x1946, 0x19d0, 0x1a80, 0x1a90,
   0x1b50, 0x1bb0, 0x1c40, 0x1c50, 0xa620, 0xa8d0, 0xa900, 0xa9d0, 0xa9f0, 0xaa50, 0xabf0,
   0xff10, 0x104a0, 0x10d30, 0x11066, 0x110f0, 0x11136, 0x111d0, 0x112f0, 0x11450, 0x114d0,
   0x11650, 0x116c0, 0x11730, 0x118e0, 0x11950, 0x11c50, 0x11d50, 0x11da0, 0x16a60, 0x16ac0,
   0x16b50, 0x1d7ce, 0x1d7d8, 0x1d7e2, 0x1d7ec, 0x1d7f6, 0x1e140, 0x1e2f0, 0x1e950, 0x1fbf0]

def digitValue? (c : Char) : Option Nat :=
  (decimalZeros.find? (fun z => z ≤ c.toNat && c.toNat < z + 10)).map (c.toNat - ·)

/-- Digits with single underscores between them. -/
def groupedDigits : List Char → Option (List Nat)
  | [] => none
  | [c] => (digitValue? c).map ([·])
  | c :: '_' :: rest => do
      let d ← digitValue? c
      let ds ← groupedDigits rest
      return d :: ds
  | c :: rest => do
      let d ← digitValue? c
      let ds ← groupedDigits rest
      return d :: ds

def natOfText (cs : List Char) : Option Nat := do
  let ds ← groupedDigits cs
  if maxStrDigits < ds.length then none
  else return ds.foldl (fun n d => 10 * n + d) 0

/-- `int(text)`; `none` is the `ValueError`. ASCII separators are not spaces here. -/
def intOfText (s : String) : Option Int :=
  match stripBy (fun c => isSpace c && !(28 ≤ c.toNat && c.toNat ≤ 31)) s.toList with
  | '-' :: cs => (natOfText cs).map (fun n => -(n : Int))
  | '+' :: cs => (natOfText cs).map (fun n => (n : Int))
  | cs => (natOfText cs).map (fun n => (n : Int))

end PyText
