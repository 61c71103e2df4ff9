import Mathlib.Data.List.Basic
import Mathlib.Logic.Function.Basic
import Mathlib.Order.Lattice

/-!
A log in numbered files. Entries go to the end of file 0; when it is large enough the files
move up by one and the last one is dropped. Any operation may fail and end the rotation
there. What is dropped is always the oldest, whatever fails.
-/

namespace RotatingLog
variable {α : Type}

/-- The contents of the numbered files that exist. -/
abbrev Files (α : Type) := Nat → Option (List α)

inductive FileOp where
  | unlink (i : Nat)
  /-- File `i` becomes file `i + 1`, if it is there. -/
  | move (i : Nat)

def FileOp.apply (files : Files α) : FileOp → Files α
  | .unlink i => Function.update files i none
  | .move i =>
      match files i with
      | none => files
      | some entries => Function.update (Function.update files (i + 1) (some entries)) i none

def moves (n : Nat) : List FileOp := (List.range n).reverse.map .move

/-- Without other files, the only one is dropped. -/
def rotation (backups : Nat) : List FileOp :=
  if backups = 0 then [.unlink 0] else .unlink backups :: moves backups

/-- The rotation, of which `done` operations succeed before one fails. -/
def rotate (size : List α → Nat) (limit backups done : Nat) (files : Files α) : Files α :=
  match files 0 with
  | none => files
  | some entries =>
      if size entries < limit then files
      else ((rotation backups).take done).foldl FileOp.apply files

/-- What is written goes after what is there. -/
def append (files : Files α) (entries : List α) : Files α :=
  Function.update files 0 (some ((files 0).getD [] ++ entries))

/-- Files `n` to 0, oldest first. -/
def contents (files : Files α) : Nat → List α
  | 0 => (files 0).getD []
  | n + 1 => (files (n + 1)).getD [] ++ contents files n

/-! ## What is dropped -/

theorem contents_congr {f g : Files α} {n : Nat} (h : ∀ i ≤ n, f i = g i) :
    contents f n = contents g n := by
  induction n with
  | zero => rw [contents, contents, h 0 (le_refl 0)]
  | succ n ih =>
      rw [contents, contents, h (n + 1) (le_refl _), ih fun i hi => h i (Nat.le_succ_of_le hi)]

theorem contents_unlink (files : Files α) (n : Nat) :
    contents (FileOp.apply files (.unlink n)) n <:+ contents files n := by
  cases n with
  | zero =>
      simp only [contents, FileOp.apply, Function.update_self, Option.getD_none]
      exact List.nil_suffix
  | succ n =>
      have hsame : contents (FileOp.apply files (.unlink (n + 1))) n = contents files n :=
        contents_congr fun i hi => Function.update_of_ne (by omega) _ _
      simp only [contents, hsame]
      simp only [FileOp.apply, Function.update_self, Option.getD_none, List.nil_append]
      exact List.suffix_append _ _

theorem move_none {files : Files α} {i : Nat} (h : files i = none) :
    FileOp.apply files (.move i) = files := by
  simp [FileOp.apply, h]

theorem move_some {files : Files α} {i : Nat} {entries : List α} (h : files i = some entries) :
    FileOp.apply files (.move i) =
      Function.update (Function.update files (i + 1) (some entries)) i none := by
  simp [FileOp.apply, h]

/-- A move into a free place changes no order. -/
theorem contents_move {files : Files α} {i : Nat} (hfree : files (i + 1) = none) {n : Nat}
    (hn : i + 1 ≤ n) : contents (FileOp.apply files (.move i)) n = contents files n := by
  cases hi : files i with
  | none => rw [move_none hi]
  | some entries =>
      rw [move_some hi]
      induction n with
      | zero => omega
      | succ n ih =>
          by_cases hlast : n = i
          · subst hlast
            cases n with
            | zero => simp [contents, hfree, hi]
            | succ m =>
                have hbelow : contents (Function.update (Function.update files (m + 2)
                    (some entries)) (m + 1) none) m = contents files m :=
                  contents_congr fun j hj => by
                    rw [Function.update_of_ne (by omega), Function.update_of_ne (by omega)]
                simp [contents, hfree, hi, hbelow]
          · rw [contents, contents, ih (by omega), Function.update_of_ne (by omega),
              Function.update_of_ne (by omega)]

theorem contents_moves {files : Files α} : ∀ {n b : Nat} (k : Nat), n ≤ b → files n = none →
    contents (((moves n).take k).foldl FileOp.apply files) b = contents files b := by
  intro n
  induction n generalizing files with
  | zero =>
      intro b k _ _
      simp [moves]
  | succ n ih =>
      intro b k hn hfree
      cases k with
      | zero => rfl
      | succ k =>
          have hsplit : moves (n + 1) = .move n :: moves n := by
            simp [moves, List.range_succ]
          rw [hsplit, List.take_succ_cons, List.foldl_cons]
          have hnext : FileOp.apply files (.move n) n = none := by
            cases hcase : files n with
            | none => rw [move_none hcase, hcase]
            | some entries => rw [move_some hcase, Function.update_self]
          rw [ih k (by omega) hnext]
          exact contents_move hfree hn

/-- A rotation drops the oldest entries or none, wherever it ends. -/
theorem contents_rotate (size : List α → Nat) (limit backups done : Nat) (files : Files α) :
    contents (rotate size limit backups done files) backups <:+ contents files backups := by
  unfold rotate
  split
  · exact List.suffix_refl _
  split
  · exact List.suffix_refl _
  · unfold rotation
    cases done with
    | zero => exact List.suffix_refl _
    | succ k =>
        split
        next hzero =>
          subst hzero
          rw [List.take_succ_cons, List.foldl_cons, List.take_nil, List.foldl_nil]
          exact contents_unlink files 0
        next =>
          have hfree : FileOp.apply files (.unlink backups) backups = none :=
            Function.update_self _ _ _
          rw [List.take_succ_cons, List.foldl_cons, contents_moves k (le_refl backups) hfree]
          exact contents_unlink files backups

theorem contents_append (files : Files α) (entries : List α) (n : Nat) :
    contents (append files entries) n = contents files n ++ entries := by
  induction n with
  | zero => simp [contents, append]
  | succ n ih =>
      rw [contents, contents, ih, append, Function.update_of_ne (by omega), List.append_assoc]

/-- One use of the log: how far the rotation gets, and what is written, if the file opens. -/
structure Use (α : Type) where
  done : Nat
  written : Option (List α)

section Run
variable (size : List α → Nat) (limit backups : Nat)

def step (files : Files α) (u : Use α) : Files α :=
  let files := rotate size limit backups u.done files
  u.written.elim files (append files)

def run (files : Files α) (uses : List (Use α)) : Files α :=
  uses.foldl (step size limit backups) files

end Run

variable {size : List α → Nat} {limit backups : Nat}

def Use.entries (u : Use α) : List α := u.written.getD []

theorem contents_step (files : Files α) (u : Use α) :
    contents (step size limit backups files u) backups <:+ contents files backups ++ u.entries := by
  have hrotate := contents_rotate size limit backups u.done files
  unfold step Use.entries
  cases u.written with
  | none => simpa using hrotate
  | some entries =>
      dsimp only [Option.elim_some, Option.getD_some]
      rw [contents_append]
      obtain ⟨dropped, hdropped⟩ := hrotate
      exact ⟨dropped, by rw [← List.append_assoc, hdropped]⟩

/-- Whatever fails, the files hold the newest of what was written, in order. -/
theorem contents_run (files : Files α) (uses : List (Use α)) :
    contents (run size limit backups files uses) backups <:+
      contents files backups ++ uses.flatMap Use.entries := by
  induction uses generalizing files with
  | nil =>
      rw [List.flatMap_nil, List.append_nil]
      exact List.suffix_refl _
  | cons u uses ih =>
      refine (ih (step size limit backups files u)).trans ?_
      rw [List.flatMap_cons, ← List.append_assoc]
      obtain ⟨dropped, hdropped⟩ := @contents_step α size limit backups files u
      exact ⟨dropped, by rw [← List.append_assoc, hdropped]⟩

/-! ## Without failures -/

/-- Every file has moved up by one. -/
def shifted (backups : Nat) (files : Files α) : Files α := fun i =>
  if i = 0 then none else if i ≤ backups then files (i - 1) else files i

theorem moves_shifted {n : Nat} : ∀ {files : Files α}, files n = none →
    (moves n).foldl FileOp.apply files = shifted n files := by
  induction n with
  | zero =>
      intro files hfree
      funext i
      by_cases hi : i = 0
      · rw [hi]
        exact hfree
      · simp [moves, shifted, hi]
  | succ n ih =>
      intro files hfree
      have hsplit : moves (n + 1) = .move n :: moves n := by
        simp [moves, List.range_succ]
      have hat : ∀ i, FileOp.apply files (.move n) i =
          if i = n then none else if i = n + 1 then files n else files i := by
        intro i
        cases hcase : files n with
        | none =>
            rw [move_none hcase]
            by_cases hi : i = n
            · rw [if_pos hi, hi, hcase]
            · by_cases hnext : i = n + 1
              · rw [if_neg hi, if_pos hnext, hnext, hfree]
              · rw [if_neg hi, if_neg hnext]
        | some entries =>
            rw [move_some hcase, Function.update_apply, Function.update_apply]
      rw [hsplit, List.foldl_cons, ih (by rw [hat, if_pos rfl])]
      funext i
      unfold shifted
      by_cases hzero : i = 0
      · rw [if_pos hzero, if_pos hzero]
      · rw [if_neg hzero, if_neg hzero, hat, hat]
        by_cases hlow : i ≤ n
        · rw [if_pos hlow, if_pos (Nat.le_succ_of_le hlow), if_neg (by omega), if_neg (by omega)]
        · rw [if_neg hlow, if_neg (by omega)]
          by_cases hnext : i = n + 1
          · rw [if_pos hnext, if_pos (by omega), hnext]
            rfl
          · rw [if_neg hnext, if_neg (by omega)]

theorem rotation_shifted (backups : Nat) (files : Files α) :
    (rotation backups).foldl FileOp.apply files = shifted backups files := by
  unfold rotation
  split
  next hzero =>
    subst hzero
    funext i
    by_cases hi : i = 0
    · simp [FileOp.apply, shifted, hi]
    · have hother : FileOp.apply files (.unlink 0) i = files i := Function.update_of_ne hi _ _
      simp [shifted, hi, hother]
  next hpos =>
    have hfree : FileOp.apply files (.unlink backups) backups = none :=
      Function.update_self _ _ _
    rw [List.foldl_cons, moves_shifted hfree]
    funext i
    unfold shifted
    by_cases hzero : i = 0
    · rw [if_pos hzero, if_pos hzero]
    · rw [if_neg hzero, if_neg hzero]
      by_cases hlow : i ≤ backups
      · rw [if_pos hlow, if_pos hlow]
        exact Function.update_of_ne (by omega) _ _
      · rw [if_neg hlow, if_neg hlow]
        exact Function.update_of_ne (by omega) _ _

theorem contents_shifted (files : Files α) {n backups : Nat} (hn : n < backups) :
    contents (shifted backups files) (n + 1) = contents files n := by
  induction n with
  | zero =>
      have hone : 1 ≤ backups := hn
      simp [contents, shifted, hone]
  | succ n ih =>
      have hnext : shifted backups files (n + 1 + 1) = files (n + 1) := by
        unfold shifted
        rw [if_neg (Nat.succ_ne_zero _), if_pos (show n + 1 + 1 ≤ backups from hn)]
        rfl
      rw [contents, ih (by omega), hnext, contents]

/-- Every operation succeeds, and `entries` are written. -/
def Use.whole (backups : Nat) (entries : List α) : Use α := ⟨backups + 1, some entries⟩

theorem rotation_length (backups : Nat) : (rotation backups).length ≤ backups + 1 := by
  unfold rotation moves
  split <;> simp

/-- There are no more operations to come. -/
theorem step_done (files : Files α) {u : Use α} (h : backups + 1 ≤ u.done) :
    step size limit backups files u = step size limit backups files ⟨backups + 1, u.written⟩ := by
  have hlength := rotation_length backups
  unfold step rotate
  rw [List.take_of_length_le (hlength.trans h), List.take_of_length_le hlength]

theorem step_whole (files : Files α) (entries : List α) :
    step size limit backups files (.whole backups entries) =
      append (match files 0 with
        | none => files
        | some old => if size old < limit then files else shifted backups files) entries := by
  have hall : (rotation backups).take (backups + 1) = rotation backups :=
    List.take_of_length_le (rotation_length backups)
  unfold step rotate Use.whole
  simp only [Option.elim_some]
  cases files 0 with
  | none => rfl
  | some old =>
      dsimp only
      rw [hall, rotation_shifted]

/-- Files 1 and up are full, and none is missing below one that is there. -/
structure Packed (size : List α → Nat) (limit backups : Nat) (files : Files α) : Prop where
  full : ∀ i entries, 0 < i → files i = some entries → limit ≤ size entries
  filled : ∀ i, 0 < i → i < backups → files i = none → files (i + 1) = none

theorem contents_full (hsize : ∀ xs ys : List α, size (xs ++ ys) = size xs + size ys)
    {files : Files α} (hfull : ∀ i entries, 0 < i → files i = some entries → limit ≤ size entries)
    {n : Nat} (hthere : ∀ i, 0 < i → i ≤ n → files i ≠ none) :
    n * limit ≤ size (contents files n) := by
  induction n with
  | zero => simp
  | succ n ih =>
      have hlow := ih fun i hpos hi => hthere i hpos (Nat.le_succ_of_le hi)
      cases hcase : files (n + 1) with
      | none => exact absurd hcase (hthere (n + 1) (Nat.succ_pos n) (le_refl _))
      | some entries =>
          have hlast := hfull (n + 1) entries (Nat.succ_pos n) hcase
          rw [contents, hcase, Option.getD_some, hsize, Nat.add_mul, Nat.one_mul]
          omega

theorem contents_empty (n : Nat) : contents (fun _ => none : Files α) n = [] := by
  induction n with
  | zero => rfl
  | succ n ih =>
      rw [contents, ih]
      rfl

/-- What is there after complete uses that wrote `all`. -/
structure Holds (size : List α → Nat) (limit backups longest : Nat) (all : List α)
    (files : Files α) : Prop where
  packed : Packed size limit backups files
  small : ∀ i entries, files i = some entries → i ≤ backups ∧ size entries < limit + longest
  kept : contents files backups = all ∨ backups * limit ≤ size (contents files backups)

theorem holds_empty (size : List α → Nat) (limit backups longest : Nat) :
    Holds size limit backups longest [] (fun _ => none) where
  packed := ⟨fun _ _ _ h => (nomatch h), fun _ _ _ _ => rfl⟩
  small := fun _ _ h => (nomatch h)
  kept := .inl (contents_empty backups)

theorem append_zero (files : Files α) (entries : List α) :
    append files entries 0 = some ((files 0).getD [] ++ entries) := Function.update_self _ _ _

theorem append_succ (files : Files α) (entries : List α) (i : Nat) :
    append files entries (i + 1) = files (i + 1) := Function.update_of_ne (by omega) _ _

theorem packed_append {files : Files α} (h : Packed size limit backups files) (entries : List α) :
    Packed size limit backups (append files entries) where
  full := by
    intro i old hi hold
    obtain ⟨i, rfl⟩ : ∃ j, i = j + 1 := ⟨i - 1, by omega⟩
    rw [append_succ] at hold
    exact h.full _ _ (Nat.succ_pos i) hold
  filled := by
    intro i hpos hi hnone
    obtain ⟨i, rfl⟩ : ∃ j, i = j + 1 := ⟨i - 1, by omega⟩
    rw [append_succ] at hnone ⊢
    exact h.filled (i + 1) hpos hi hnone

theorem packed_shifted {files : Files α} (h : Packed size limit backups files) {old : List α}
    (hold : files 0 = some old) (hlimit : limit ≤ size old) :
    Packed size limit backups (shifted backups files) where
  full := by
    intro i entries hi hentries
    unfold shifted at hentries
    rw [if_neg (by omega)] at hentries
    split at hentries
    · by_cases hone : i - 1 = 0
      · rw [hone, hold] at hentries
        cases hentries
        exact hlimit
      · exact h.full (i - 1) entries (by omega) hentries
    · exact h.full i entries hi hentries
  filled := by
    intro i hpos hi hnone
    unfold shifted at hnone ⊢
    rw [if_neg (by omega), if_pos (by omega)] at hnone
    rw [if_neg (by omega), if_pos (by omega)]
    by_cases hone : i - 1 = 0
    · rw [hone, hold] at hnone
      cases hnone
    · have hnext := h.filled (i - 1) (by omega) (by omega) hnone
      rw [Nat.sub_add_cancel (by omega)] at hnext
      exact hnext

/-- Nothing is missing below a file that is there. -/
theorem Packed.there {files : Files α} (h : Packed size limit backups files) {n : Nat}
    (hn : n ≤ backups) (hlast : files n ≠ none) : ∀ i, 0 < i → i ≤ n → files i ≠ none := by
  induction n with
  | zero =>
      intro i hpos hi
      omega
  | succ n ih =>
      intro i hpos hi
      by_cases hsame : i = n + 1
      · rw [hsame]
        exact hlast
      · have hbelow : files n ≠ none := by
          intro hnone
          exact hlast (h.filled n (by omega) (by omega) hnone)
        exact ih (by omega) hbelow i hpos (by omega)

section Sizes
variable (hsize : ∀ xs ys : List α, size (xs ++ ys) = size xs + size ys)
include hsize

theorem holds_append {longest : Nat} {all : List α} {files : Files α}
    (h : Holds size limit backups longest all files)
    (hroom : ∀ old, files 0 = some old → size old < limit) (hlimit : 0 < limit)
    {entries : List α} (hentries : size entries ≤ longest) :
    Holds size limit backups longest (all ++ entries) (append files entries) where
  packed := packed_append h.packed entries
  small := by
    intro i new hnew
    cases i with
    | zero =>
        rw [append_zero] at hnew
        cases hnew
        refine ⟨Nat.zero_le _, ?_⟩
        cases hcase : files 0 with
        | none =>
            rw [Option.getD_none, List.nil_append]
            omega
        | some old =>
            have := hroom old hcase
            rw [Option.getD_some, hsize]
            omega
    | succ i =>
        rw [append_succ] at hnew
        exact h.small (i + 1) new hnew
  kept := by
    rw [contents_append]
    cases h.kept with
    | inl hall => exact .inl (by rw [hall])
    | inr hmany =>
        right
        rw [hsize]
        omega

theorem holds_shifted {longest : Nat} {all : List α} {files : Files α}
    (h : Holds size limit backups longest all files) {old : List α} (hold : files 0 = some old)
    (hlimit : limit ≤ size old) :
    Holds size limit backups longest all (shifted backups files) where
  packed := packed_shifted h.packed hold hlimit
  small := by
    intro i new hnew
    unfold shifted at hnew
    split at hnew
    · cases hnew
    split at hnew
    next hle => exact ⟨hle, (h.small (i - 1) new hnew).2⟩
    next hhigh => exact absurd (h.small i new hnew).1 hhigh
  kept := by
    cases backups with
    | zero =>
        right
        rw [Nat.zero_mul]
        exact Nat.zero_le _
    | succ n =>
        have hshift := contents_shifted files (Nat.lt_succ_self n)
        cases hlast : files (n + 1) with
        | none =>
            have hsame : contents files (n + 1) = contents files n := by
              rw [contents, hlast]
              rfl
            rw [hshift, ← hsame]
            exact h.kept
        | some dropped =>
            right
            have hpacked := packed_shifted h.packed hold hlimit
            have hthere : ∀ i, 0 < i → i ≤ n + 1 → shifted (n + 1) files i ≠ none := by
              intro i hpos hi
              unfold shifted
              rw [if_neg (by omega), if_pos hi]
              by_cases hone : i - 1 = 0
              · rw [hone, hold]
                simp
              · exact h.packed.there (le_refl _) (by rw [hlast]; simp) (i - 1) (by omega) (by omega)
            exact contents_full hsize hpacked.full hthere

theorem holds_run {longest : Nat} (hlimit : 0 < limit) (writes : List (List α)) :
    ∀ {all : List α} {files : Files α}, Holds size limit backups longest all files →
      (∀ entries ∈ writes, size entries ≤ longest) →
      Holds size limit backups longest (all ++ writes.flatten)
        (run size limit backups files (writes.map (Use.whole backups))) := by
  induction writes with
  | nil =>
      intro all files h _
      rw [List.flatten_nil, List.append_nil]
      exact h
  | cons entries writes ih =>
      intro all files h hwrites
      have hentries := hwrites entries List.mem_cons_self
      have hstep : Holds size limit backups longest (all ++ entries)
          (step size limit backups files (.whole backups entries)) := by
        rw [step_whole]
        cases hcase : files 0 with
        | none =>
            exact holds_append hsize h (fun old hold => by rw [hcase] at hold; cases hold) hlimit
              hentries
        | some old =>
            dsimp only
            split
            next hroom =>
              refine holds_append hsize h (fun other hother => ?_) hlimit hentries
              rw [hcase] at hother
              cases hother
              exact hroom
            next hfull =>
              refine holds_append hsize (holds_shifted hsize h hcase (by omega))
                (fun other hother => ?_) hlimit hentries
              cases hother
      rw [List.flatten_cons, ← List.append_assoc]
      exact ih hstep fun e he => hwrites e (List.mem_cons_of_mem _ he)

end Sizes

theorem entries_whole (writes : List (List α)) :
    (writes.map (Use.whole backups)).flatMap Use.entries = writes.flatten := by
  rw [List.flatMap_map, List.flatMap_def]
  exact congrArg List.flatten (List.map_id _)

/-! ## Two readings of one log -/

section Map
variable {β : Type} {f : List α → List β} {size' : List β → Nat}

/-- The files with each content read another way. -/
def mapFiles (f : List α → List β) (files : Files α) : Files β := fun i => (files i).map f

def Use.map (f : List α → List β) (u : Use α) : Use β := ⟨u.done, u.written.map f⟩

theorem mapFiles_update (files : Files α) (i : Nat) (v : Option (List α)) :
    mapFiles f (Function.update files i v) = Function.update (mapFiles f files) i (v.map f) := by
  funext j
  unfold mapFiles
  by_cases hj : j = i
  · rw [hj, Function.update_self, Function.update_self]
  · rw [Function.update_of_ne hj, Function.update_of_ne hj]

theorem mapFiles_apply (files : Files α) (op : FileOp) :
    mapFiles f (FileOp.apply files op) = FileOp.apply (mapFiles f files) op := by
  cases op with
  | unlink i => exact mapFiles_update files i none
  | move i =>
      cases hcase : files i with
      | none =>
          have hmapped : mapFiles f files i = none := congrArg (Option.map f) hcase
          rw [move_none hcase, move_none hmapped]
      | some entries =>
          have hmapped : mapFiles f files i = some (f entries) := congrArg (Option.map f) hcase
          rw [move_some hcase, move_some hmapped, mapFiles_update, mapFiles_update]
          rfl

theorem mapFiles_ops (ops : List FileOp) (files : Files α) :
    mapFiles f (ops.foldl FileOp.apply files) = ops.foldl FileOp.apply (mapFiles f files) := by
  induction ops generalizing files with
  | nil => rfl
  | cons op ops ih => rw [List.foldl_cons, List.foldl_cons, ih, mapFiles_apply]

variable (hnil : f [] = []) (happend : ∀ xs ys, f (xs ++ ys) = f xs ++ f ys)
include hnil happend

theorem contents_mapFiles (files : Files α) (n : Nat) :
    contents (mapFiles f files) n = f (contents files n) := by
  have hfile : ∀ i, (mapFiles f files i).getD [] = f ((files i).getD []) := by
    intro i
    unfold mapFiles
    cases files i with
    | none => exact hnil.symm
    | some entries => rfl
  induction n with
  | zero => exact hfile 0
  | succ n ih => rw [contents, contents, happend, ih, hfile]

variable (hlength : ∀ xs, size' (f xs) = size xs)
include hlength

theorem mapFiles_step (files : Files α) (u : Use α) :
    mapFiles f (step size limit backups files u) =
      step size' limit backups (mapFiles f files) (u.map f) := by
  have hrotate : mapFiles f (rotate size limit backups u.done files) =
      rotate size' limit backups u.done (mapFiles f files) := by
    unfold rotate
    cases hcase : files 0 with
    | none =>
        have hmapped : mapFiles f files 0 = none := congrArg (Option.map f) hcase
        rw [hmapped]
    | some entries =>
        have hmapped : mapFiles f files 0 = some (f entries) := congrArg (Option.map f) hcase
        rw [hmapped]
        dsimp only
        rw [hlength]
        split
        · rfl
        · exact mapFiles_ops _ _
  unfold step Use.map
  cases hwritten : u.written with
  | none => exact hrotate
  | some entries =>
      simp only [Option.map_some, Option.elim_some]
      rw [← hrotate]
      unfold append
      rw [mapFiles_update, Option.map_some, happend]
      congr 3
      unfold mapFiles
      cases rotate size limit backups u.done files 0 with
      | none => exact hnil
      | some old => rfl

/-- A log of texts is the log of what the texts say. -/
theorem mapFiles_run (files : Files α) (uses : List (Use α)) :
    mapFiles f (run size limit backups files uses) =
      run size' limit backups (mapFiles f files) (uses.map (Use.map f)) := by
  induction uses generalizing files with
  | nil => rfl
  | cons u uses ih =>
      have hstep := @mapFiles_step α size limit backups β f size' hnil happend hlength files u
      change mapFiles f (run size limit backups (step size limit backups files u) uses) = _
      rw [ih, hstep]
      rfl

end Map

end RotatingLog
