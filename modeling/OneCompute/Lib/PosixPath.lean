import Mathlib.Data.List.DropRight
import Mathlib.Data.List.Infix
import Mathlib.Order.Basic

/-!
Paths with `/` between the names of directories, resolved by their text alone: there
are no links. What is written may contain `..`; a path that was resolved does not.
-/

namespace PosixPath

abbrev Name := List Char

/-- What is kept of a path that is split at its separators. -/
def IsPart (name : Name) : Prop := name ≠ [] ∧ '/' ∉ name ∧ name ≠ ['.']

instance : DecidablePred IsPart := fun _ => inferInstanceAs (Decidable (_ ∧ _ ∧ _))

abbrev Part := { name : Name // IsPart name }

def up : Name := ['.', '.']

/-- A path as it was written. -/
structure PurePath where
  absolute : Bool
  parts : List Part

def asPart (name : Name) : Option Part := if h : IsPart name then some ⟨name, h⟩ else none

def parse (text : List Char) : PurePath where
  absolute := text.head? = some '/'
  parts := (text.splitOn '/').filterMap asPart

/-- `path / other` -/
def PurePath.join (path other : PurePath) : PurePath :=
  if other.absolute then other else ⟨path.absolute, path.parts ++ other.parts⟩

/-- `path.name` -/
def PurePath.name (path : PurePath) : Option Part := path.parts.getLast?

/-- The names from the root to a file or directory. -/
@[ext] structure FullPath where
  names : List Part
  noUp : ∀ name ∈ names, name.1 ≠ up

namespace FullPath

instance : DecidableEq FullPath := fun d e => decidable_of_iff (d.names = e.names) FullPath.ext_iff.symm

def root : FullPath := ⟨[], by simp⟩

def parent (d : FullPath) : FullPath :=
  ⟨d.names.dropLast, fun name h => d.noUp name (List.mem_of_mem_dropLast h)⟩

def child (d : FullPath) (name : Part) (h : name.1 ≠ up) : FullPath :=
  ⟨d.names ++ [name], by
    intro other hother
    cases List.mem_append.mp hother with
    | inl hmem => exact d.noUp other hmem
    | inr hlast =>
        cases List.mem_singleton.mp hlast
        exact h⟩

/-- The parent of the root is the root. -/
def enter (d : FullPath) (name : Part) : FullPath :=
  if h : name.1 = up then d.parent else d.child name h

def walk (d : FullPath) (parts : List Part) : FullPath := parts.foldl enter d

def pure (d : FullPath) : PurePath := ⟨true, d.names⟩

/-- The text of the path, of which nothing is left for the root. -/
def body (d : FullPath) : List Char := d.names.flatMap fun name => '/' :: name.1

def text (d : FullPath) : List Char := if d.names = [] then ['/'] else d.body

/-- The path is the directory or lies below it. -/
def Within (p d : FullPath) : Prop := d.names <+: p.names

instance (p d : FullPath) : Decidable (p.Within d) := inferInstanceAs (Decidable (_ <+: _))

end FullPath

/-! ## Names that are walked through -/

namespace FullPath
variable {p d e : FullPath}

theorem within_refl (p : FullPath) : p.Within p := List.prefix_refl _

theorem within_root (p : FullPath) : p.Within root := List.nil_prefix

theorem Within.trans (hpd : p.Within d) (hde : d.Within e) : p.Within e :=
  List.IsPrefix.trans hde hpd

theorem Within.antisymm (hpd : p.Within d) (hdp : d.Within p) : p = d :=
  FullPath.ext (hdp.eq_of_length (Nat.le_antisymm hdp.length_le hpd.length_le))

/-- Of two directories above a path one is above the other. -/
theorem Within.comparable (hd : p.Within d) (he : p.Within e) : d.Within e ∨ e.Within d :=
  (List.prefix_or_prefix_of_prefix hd he).symm

theorem child_within (d : FullPath) {name : Part} (h : name.1 ≠ up) : (d.child name h).Within d :=
  List.prefix_append _ _

theorem enter_names {name : Part} (h : name.1 ≠ up) : (d.enter name).names = d.names ++ [name] := by
  unfold enter
  rw [dif_neg h]
  rfl

theorem walk_names {parts : List Part} (h : ∀ name ∈ parts, name.1 ≠ up) :
    (d.walk parts).names = d.names ++ parts := by
  induction parts generalizing d with
  | nil => exact (List.append_nil _).symm
  | cons name parts ih =>
      rw [List.forall_mem_cons] at h
      have hrest := ih (d := d.enter name) h.2
      rw [enter_names h.1, List.append_assoc] at hrest
      exact hrest

@[simp] theorem walk_root (d : FullPath) : root.walk d.names = d :=
  FullPath.ext ((walk_names d.noUp).trans (List.nil_append _))

theorem walk_append (xs ys : List Part) : d.walk (xs ++ ys) = (d.walk xs).walk ys :=
  List.foldl_append

end FullPath

/-! ## Text -/

theorem splitOn_body (names : List Part) :
    (names.flatMap fun name => '/' :: name.1).splitOn '/' = [] :: names.map (·.1) := by
  induction names with
  | nil => rfl
  | cons name names ih =>
      rw [List.flatMap_cons, List.cons_append,
        show '/' :: (name.1 ++ _) = [] ++ '/' :: (name.1 ++ _) from rfl,
        List.splitOn_append_cons_self_of_not_mem (by simp)]
      cases names with
      | nil =>
          rw [List.flatMap_nil, List.append_nil, List.splitOn_eq_singleton name.2.2.1]
          rfl
      | cons next names =>
          rw [List.flatMap_cons, List.cons_append] at ih ⊢
          rw [List.splitOn_append_cons_self_of_not_mem name.2.2.1]
          rw [show '/' :: (next.1 ++ _) = [] ++ '/' :: (next.1 ++ _) from rfl,
            List.splitOn_append_cons_self_of_not_mem (by simp)] at ih
          rw [(List.cons.inj ih).2]
          rfl

theorem asPart_val (name : Part) : asPart name.1 = some name := dif_pos name.2

theorem filterMap_asPart (names : List Part) : (names.map (·.1)).filterMap asPart = names := by
  induction names with
  | nil => rfl
  | cons name names ih => rw [List.map_cons, List.filterMap_cons_some (asPart_val name), ih]

namespace FullPath
variable {p d e : FullPath}

theorem body_cons_slash {d : FullPath} (h : d.names ≠ []) : ∃ rest, d.body = '/' :: rest := by
  unfold body
  cases hnames : d.names with
  | nil => exact absurd hnames h
  | cons name names => exact ⟨_, List.flatMap_cons⟩

/-- A path is read back from its text. -/
theorem parse_text (d : FullPath) : parse d.text = d.pure := by
  unfold text
  by_cases h : d.names = []
  · rw [if_pos h]
    unfold parse pure
    rw [h]
    rfl
  · rw [if_neg h]
    obtain ⟨rest, hrest⟩ := body_cons_slash h
    have hparts : (d.body.splitOn '/').filterMap asPart = d.names := by
      unfold body
      rw [splitOn_body, List.filterMap_cons_none (by decide), filterMap_asPart]
    unfold parse pure
    rw [hparts, hrest]
    rfl

theorem body_injective (h : d.body = e.body) : d = e := by
  have hsplit := congrArg (List.splitOn '/') h
  unfold body at hsplit
  rw [splitOn_body, splitOn_body] at hsplit
  exact FullPath.ext (List.map_injective_iff.mpr Subtype.val_injective (List.cons.inj hsplit).2)

theorem Within.body_start (h : p.Within d) : d.body <+: p.body := by
  obtain ⟨rest, hrest⟩ := h
  unfold body
  rw [← hrest, List.flatMap_append]
  exact List.prefix_append _ _

theorem length_text (d : FullPath) : d.text.length = max 1 d.body.length := by
  unfold text
  by_cases h : d.names = []
  · rw [if_pos h]
    simp [body, h]
  · rw [if_neg h]
    obtain ⟨rest, hrest⟩ := body_cons_slash h
    rw [hrest, List.length_cons]
    omega

theorem Within.text_length_le (h : p.Within d) : d.text.length ≤ p.text.length := by
  have hbody := h.body_start.length_le
  rw [length_text, length_text]
  omega

/-- Where a separator stands in the text of a path, a directory above it ends. -/
theorem body_split {names : List Part} {x y : List Char}
    (h : names.flatMap (fun name => '/' :: name.1) = x ++ '/' :: y) :
    ∃ above, above <+: names ∧ x = above.flatMap fun name => '/' :: name.1 := by
  induction names generalizing x with
  | nil => cases x <;> cases h
  | cons name names ih =>
      cases x with
      | nil => exact ⟨[], List.nil_prefix, rfl⟩
      | cons c x =>
          rw [List.flatMap_cons, List.cons_append, List.cons_append, List.cons.injEq] at h
          obtain ⟨rfl, h⟩ := h
          rcases List.append_eq_append_iff.mp h with ⟨z, hx, hz⟩ | ⟨z, hname, hz⟩
          · obtain ⟨above, habove, rfl⟩ := ih hz
            refine ⟨name :: above, (List.prefix_cons_inj name).mpr habove, ?_⟩
            rw [hx, List.flatMap_cons, List.cons_append]
          · cases z with
            | nil =>
                rw [List.append_nil] at hname
                exact ⟨[name], by simp, by simp [hname]⟩
            | cons s z =>
                obtain ⟨rfl, -⟩ := List.cons.inj hz
                have hslash : '/' ∈ name.1 := by
                  rw [hname]
                  simp
                exact absurd hslash name.2.2.1

end FullPath

end PosixPath
