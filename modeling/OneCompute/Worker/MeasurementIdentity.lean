import Mathlib.Logic.Function.Basic
import OneCompute.Lib.PyText

/-!
The pseudonymous identity of a measurement-only observer: any number of processes load it
from one file, or create the file, and their steps on the file system interleave.
-/

namespace OneCompute.Worker
open PyText (isSpace stripBy stripBy_append)

/-- The text of a file, or of a string. -/
abbrev Text := List Char

def isIdChar (c : Char) : Bool := c.isAlphanum || c = '.' || c = '_' || c = '-'

/-- `_VALID_ID`, of the whole text. -/
def validId : Text → Bool
  | [] => false
  | c :: cs => c.isAlphanum && cs.all isIdChar && decide (7 ≤ cs.length) && decide (cs.length ≤ 63)

/-- `validate_measurement_id`; `none` is a `ValueError`. -/
def validateMeasurementId (value : Text) : Option Text :=
  let candidate := stripBy isSpace value
  if validId candidate then some candidate else none

/-- A new identity, from the first 24 hexadecimal digits of a random number. -/
structure ObserverId where
  hex : Text
  length : hex.length = 24
  digits : ∀ c ∈ hex, c ∈ "0123456789abcdef".toList

def ObserverId.text (o : ObserverId) : Text := "observer-".toList ++ o.hex

/-- What is written to the file. -/
def ObserverId.line (o : ObserverId) : Text := o.text ++ ['\n']

/-! ## The line -/

theorem ObserverId.text_ne_nil (o : ObserverId) : o.text ≠ [] := by
  intro h
  have hlength := congrArg List.length h
  unfold ObserverId.text at hlength
  rw [List.length_append, o.length, List.length_nil] at hlength
  omega

theorem ObserverId.text_plain (o : ObserverId) : ∀ c ∈ o.text, isSpace c = false := by
  have hpre : ("observer-".toList.all fun c => !isSpace c) = true := by decide +kernel
  have hhex : ("0123456789abcdef".toList.all fun c => !isSpace c) = true := by decide +kernel
  intro c hc
  unfold ObserverId.text at hc
  cases List.mem_append.mp hc with
  | inl hc => simpa using List.all_eq_true.mp hpre c hc
  | inr hc => simpa using List.all_eq_true.mp hhex c (o.digits c hc)

theorem ObserverId.strip_line (o : ObserverId) : stripBy isSpace o.line = o.text := by
  rw [ObserverId.line, stripBy_append isSpace o.text_ne_nil
    (o.text_plain _ (List.head_mem _)) (o.text_plain _ (List.getLast_mem _))]
  have hnewline : List.rdropWhile isSpace ['\n'] = [] := by decide
  rw [hnewline, List.append_nil]

/-- A reader who sees part of the line waits. -/
theorem ObserverId.take_incomplete (o : ObserverId) {k : Nat} (hk : k < o.line.length) :
    (o.line.take k).getLast? ≠ some '\n' := by
  intro hlast
  have hmem := List.mem_of_getLast? hlast
  rw [ObserverId.line, List.length_append, List.length_singleton] at hk
  rw [ObserverId.line, List.take_append_of_le_length (by omega)] at hmem
  have hplain := o.text_plain _ (List.mem_of_mem_take hmem)
  revert hplain
  decide

/-- The content of a file that exists; text is what reading translates it to. -/
inductive Content where
  | text (t : Text)
  | undecodable

/-! ## One attempt to read -/

inductive Attempt where
  | missing
  | found (identity : Text)
  | invalid
  | incomplete

/-- An attempt of `_read_identity`, which waits for a complete line. -/
def readAttempt : Option Content → Attempt
  | none => .missing
  | some .undecodable => .invalid
  | some (.text t) =>
      if stripBy isSpace t ≠ [] ∧ t.getLast? = some '\n' then
        match validateMeasurementId t with
        | some identity => .found identity
        | none => .invalid
      else .incomplete

def attempts : Nat := 20

/-! ## Processes -/

/-- Where a call of `load_or_create_measurement_id` stands; a result of `none` is an
exception. -/
inductive Loader where
  | reading (attempt : Nat)
  | naming
  | writingTemporary (o : ObserverId) (written : Nat)
  | linking (o : ObserverId)
  /-- The file exists after all. -/
  | rereading (attempt : Nat)
  /-- Hard links are not supported. -/
  | claiming (o : ObserverId)
  | writing (o : ObserverId) (written : Nat)
  /-- The temporary file is removed before the call ends. -/
  | unlinking (result : Option Text)
  | done (result : Option Text)

inductive Move where
  | read
  /-- A random number is drawn, and the temporary file created under a name of its own. -/
  | create (o : ObserverId)
  | write (count : Nat)
  | close
  /-- `os.link`, which the file system may or may not support. -/
  | link (supported : Bool)
  | claim
  | unlink

structure FileSystem where
  target : Option Content
  temporary : Nat → Option Text := fun _ => none
  loaders : Nat → Loader := fun _ => .reading 0

namespace FileSystem

def goto (w : FileSystem) (p : Nat) (next : Loader) : FileSystem :=
  { w with loaders := Function.update w.loaders p next }

def setTemporary (w : FileSystem) (p : Nat) (t : Option Text) : FileSystem :=
  { w with temporary := Function.update w.temporary p t }

def setTarget (w : FileSystem) (t : Text) : FileSystem := { w with target := some (.text t) }

/-- The first read, which creates the identity where there is none. -/
def firstRead (w : FileSystem) (p attempt : Nat) : FileSystem :=
  match readAttempt w.target with
  | .missing => w.goto p .naming
  | .found identity => w.goto p (.done (some identity))
  | .invalid => w.goto p (.done none)
  | .incomplete =>
      w.goto p (if attempt + 1 < attempts then .reading (attempt + 1) else .done none)

/-- The read after another process was first. -/
def secondRead (w : FileSystem) (p attempt : Nat) : FileSystem :=
  match readAttempt w.target with
  | .missing => w.goto p (.unlinking none)
  | .found identity => w.goto p (.unlinking (some identity))
  | .invalid => w.goto p (.unlinking none)
  | .incomplete =>
      w.goto p (if attempt + 1 < attempts then .rereading (attempt + 1) else .unlinking none)

def linkTemporary (w : FileSystem) (p : Nat) (o : ObserverId) (supported : Bool) : FileSystem :=
  if supported then
    match w.temporary p, w.target with
    | some t, none => (w.setTarget t).goto p (.unlinking (some o.text))
    | _, some _ => w.goto p (.rereading 0)
    | none, none => w.goto p (.claiming o)
  else w.goto p (.claiming o)

/-- One step of process `p`; a move that is not its next one changes nothing. -/
def step (w : FileSystem) (p : Nat) (m : Move) : FileSystem :=
  match w.loaders p, m with
  | .reading attempt, .read => w.firstRead p attempt
  | .rereading attempt, .read => w.secondRead p attempt
  | .naming, .create o => (w.setTemporary p (some [])).goto p (.writingTemporary o 0)
  | .writingTemporary o k, .write n =>
      if k + n ≤ o.line.length then
        (w.setTemporary p (some (o.line.take (k + n)))).goto p (.writingTemporary o (k + n))
      else w
  | .writingTemporary o k, .close => if k = o.line.length then w.goto p (.linking o) else w
  | .linking o, .link supported => w.linkTemporary p o supported
  | .claiming o, .claim =>
      if w.target.isSome then w.goto p (.rereading 0)
      else (w.setTarget []).goto p (.writing o 0)
  | .writing o k, .write n =>
      if 0 < n ∧ k + n ≤ o.line.length then
        (w.setTarget (o.line.take (k + n))).goto p (.writing o (k + n))
      else w
  | .writing o k, .close =>
      if k = o.line.length then w.goto p (.unlinking (some o.text)) else w
  | .unlinking result, .unlink => (w.setTemporary p none).goto p (.done result)
  | _, _ => w

def run (w : FileSystem) (moves : List (Nat × Move)) : FileSystem :=
  moves.foldl (fun w m => w.step m.1 m.2) w

/-- Processes that have not begun, and whatever the file holds before. -/
def start (content : Option Content) : FileSystem := { target := content }

/-- All calls that returned an identity returned the one in the file. -/
def Agreed (w : FileSystem) : Prop :=
  (∀ p q i j, w.loaders p = .done (some i) → w.loaders q = .done (some j) → i = j) ∧
  ∀ p i, w.loaders p = .done (some i) →
    ∃ t, w.target = some (.text t) ∧ stripBy isSpace t = i

/-! ## What a loader relies on -/

/-- The file holds a complete line, and `i` is what a reader makes of it. -/
def Published (w : FileSystem) (i : Text) : Prop :=
  ∃ t, w.target = some (.text t) ∧ t.getLast? = some '\n' ∧ stripBy isSpace t = i

/-- What process `p` relies on in the file system. -/
def Fits (w : FileSystem) (p : Nat) : Loader → Prop
  | .writingTemporary o k => w.temporary p = some (o.line.take k)
  | .linking o => w.temporary p = some o.line
  | .writing o k => w.target = some (.text (o.line.take k))
  | .unlinking (some i) | .done (some i) => w.Published i
  | _ => True

def Writes : Loader → Prop
  | .writing _ _ => True
  | _ => False

structure Invariant (w : FileSystem) : Prop where
  fits : ∀ p, w.Fits p (w.loaders p)
  oneWriter : ∀ p q, Writes (w.loaders p) → Writes (w.loaders q) → p = q

theorem start_invariant (content : Option Content) : (start content).Invariant where
  fits _ := trivial
  oneWriter _ _ h := h.elim

theorem Published.unique {w : FileSystem} {i j : Text} (hi : w.Published i)
    (hj : w.Published j) : i = j := by
  obtain ⟨t, ht, _, rfl⟩ := hi
  obtain ⟨u, hu, _, rfl⟩ := hj
  rw [ht] at hu
  cases hu
  rfl

/-- Nobody writes the target and nothing is published while there is no file. -/
theorem Invariant.absent {w : FileSystem} (h : w.Invariant) (hnone : w.target = none) :
    (∀ q, ¬ Writes (w.loaders q)) ∧ ∀ i, ¬ w.Published i := by
  constructor
  · intro q hq
    have hfits := h.fits q
    cases hl : w.loaders q with
    | writing o k =>
        rw [hl, Fits, hnone] at hfits
        cases hfits
    | _ => rw [hl] at hq; exact hq
  · rintro i ⟨t, ht, _⟩
    rw [hnone] at ht
    cases ht

theorem published_line {w : FileSystem} {o : ObserverId}
    (h : w.target = some (.text o.line)) : w.Published o.text :=
  ⟨o.line, h, by simp [ObserverId.line], o.strip_line⟩

theorem validateMeasurementId_strip {t i : Text} (h : validateMeasurementId t = some i) :
    stripBy isSpace t = i := by
  simp only [validateMeasurementId] at h
  split at h
  · exact Option.some.inj h
  · cases h

theorem readAttempt_published {w : FileSystem} {i : Text}
    (h : readAttempt w.target = .found i) : w.Published i := by
  cases ht : w.target with
  | none => rw [ht] at h; cases h
  | some content =>
      cases content with
      | undecodable => rw [ht] at h; cases h
      | text t =>
          simp only [ht, readAttempt] at h
          split at h
          · next hcomplete =>
              split at h
              · next identity hvalid =>
                  cases h
                  exact ⟨t, ht, hcomplete.2, validateMeasurementId_strip hvalid⟩
              · cases h
          · cases h

/-! ## One step -/

/-- The three ways the file system changes are checked at the process that moved and at
the others. -/
theorem Invariant.moved {w w' : FileSystem} {p : Nat} {next : Loader} (h : w.Invariant)
    (hloaders : w'.loaders = Function.update w.loaders p next) (hnext : w'.Fits p next)
    (hothers : ∀ q, q ≠ p → w.Fits q (w.loaders q) → w'.Fits q (w.loaders q))
    (hwriter : Writes next → ∀ q, q ≠ p → ¬ Writes (w.loaders q)) : w'.Invariant := by
  constructor
  · intro q
    rw [hloaders]
    by_cases hq : q = p
    · rw [hq, Function.update_self]
      exact hnext
    · rw [Function.update_of_ne hq]
      exact hothers q hq (h.fits q)
  · intro q r hqw hrw
    rw [hloaders] at hqw hrw
    by_cases hq : q = p <;> by_cases hr : r = p
    · rw [hq, hr]
    · rw [hq, Function.update_self] at hqw
      rw [Function.update_of_ne hr] at hrw
      exact (hwriter hqw r hr hrw).elim
    · rw [hr, Function.update_self] at hrw
      rw [Function.update_of_ne hq] at hqw
      exact (hwriter hrw q hq hqw).elim
    · rw [Function.update_of_ne hq] at hqw
      rw [Function.update_of_ne hr] at hrw
      exact h.oneWriter q r hqw hrw

theorem Invariant.goto {w : FileSystem} {p : Nat} {next : Loader} (h : w.Invariant)
    (hnext : w.Fits p next) (hreads : ¬ Writes next) : (w.goto p next).Invariant :=
  h.moved rfl hnext (fun _ _ hq => hq) fun hw => (hreads hw).elim

theorem Invariant.setTemporary {w : FileSystem} {p : Nat} {next : Loader} {t : Option Text}
    (h : w.Invariant) (hnext : (w.setTemporary p t).Fits p next) (hreads : ¬ Writes next) :
    ((w.setTemporary p t).goto p next).Invariant := by
  refine h.moved rfl hnext ?_ fun hw => (hreads hw).elim
  intro q hq hfits
  cases hl : w.loaders q with
  | writingTemporary o k | linking o =>
      rw [hl] at hfits
      exact (Function.update_of_ne hq t w.temporary).trans hfits
  | unlinking result | done result =>
      cases result with
      | none => trivial
      | some i => rw [hl] at hfits; exact hfits
  | _ => rw [hl] at hfits; exact hfits

/-- The target changes only while nothing is published, and only under its one writer. -/
theorem Invariant.setTarget {w : FileSystem} {p : Nat} {next : Loader} {t : Text}
    (h : w.Invariant) (hnext : (w.setTarget t).Fits p next)
    (halone : ∀ q, q ≠ p → ¬ Writes (w.loaders q)) (hnew : ∀ i, ¬ w.Published i) :
    ((w.setTarget t).goto p next).Invariant := by
  refine h.moved rfl hnext ?_ fun _ => halone
  intro q hq hfits
  cases hl : w.loaders q with
  | writing o k => exact (halone q hq (by rw [hl]; trivial)).elim
  | unlinking result | done result =>
      cases result with
      | none => trivial
      | some i => rw [hl] at hfits; exact (hnew i hfits).elim
  | _ => rw [hl] at hfits; exact hfits

theorem firstRead_invariant {w : FileSystem} (p attempt : Nat) (h : w.Invariant) :
    (w.firstRead p attempt).Invariant := by
  unfold firstRead
  split
  · exact h.goto trivial id
  · next hfound => exact h.goto (readAttempt_published hfound) id
  · exact h.goto trivial id
  · split
    · exact h.goto trivial id
    · exact h.goto trivial id

theorem secondRead_invariant {w : FileSystem} (p attempt : Nat) (h : w.Invariant) :
    (w.secondRead p attempt).Invariant := by
  unfold secondRead
  split
  · exact h.goto trivial id
  · next hfound => exact h.goto (readAttempt_published hfound) id
  · exact h.goto trivial id
  · split
    · exact h.goto trivial id
    · exact h.goto trivial id

theorem linkTemporary_invariant {w : FileSystem} {p : Nat} {o : ObserverId} (supported : Bool)
    (h : w.Invariant) (htemporary : w.temporary p = some o.line) :
    (w.linkTemporary p o supported).Invariant := by
  unfold linkTemporary
  split
  · split
    · next t ht hnone =>
        obtain rfl : o.line = t := Option.some.inj (htemporary.symm.trans ht)
        have habsent := h.absent hnone
        exact h.setTarget (published_line rfl) (fun q _ => habsent.1 q) habsent.2
    · exact h.goto trivial id
    · exact h.goto trivial id
  · exact h.goto trivial id

theorem claim_invariant {w : FileSystem} (p : Nat) (o : ObserverId) (h : w.Invariant)
    (hnone : w.target = none) : ((w.setTarget []).goto p (.writing o 0)).Invariant := by
  have habsent := h.absent hnone
  exact h.setTarget (by rw [Fits, List.take_zero]; rfl) (fun q _ => habsent.1 q) habsent.2

/-- The fallback shows its line piece by piece; no piece but the last counts as published. -/
theorem write_invariant {w : FileSystem} {p k n : Nat} {o : ObserverId} (h : w.Invariant)
    (hl : w.loaders p = .writing o k) (hn : 0 < n) (hle : k + n ≤ o.line.length) :
    ((w.setTarget (o.line.take (k + n))).goto p (.writing o (k + n))).Invariant := by
  have htarget : w.target = some (.text (o.line.take k)) := by
    have hfits := h.fits p
    rwa [hl] at hfits
  refine h.setTarget rfl ?_ ?_
  · intro q hq hwrites
    exact hq (h.oneWriter q p hwrites (by rw [hl]; trivial))
  · rintro i ⟨t, ht, hlast, _⟩
    rw [htarget] at ht
    cases ht
    exact o.take_incomplete (by omega) hlast

theorem step_invariant (w : FileSystem) (p : Nat) (m : Move) (h : w.Invariant) :
    (w.step p m).Invariant := by
  have hfits := h.fits p
  unfold step
  split
  · exact firstRead_invariant p _ h
  · exact secondRead_invariant p _ h
  · refine h.setTemporary ?_ id
    exact Function.update_self p _ w.temporary
  · split
    · refine h.setTemporary ?_ id
      exact Function.update_self p _ w.temporary
    · exact h
  · next o k hl =>
      split
      · next hk =>
          rw [hl, Fits, hk, List.take_length] at hfits
          exact h.goto hfits id
      · exact h
  · next o supported hl =>
      rw [hl] at hfits
      exact linkTemporary_invariant supported h hfits
  · next o hl =>
      split
      · exact h.goto trivial id
      · next hnone =>
          exact claim_invariant p o h (by simpa using hnone)
  · next o k n hl =>
      split
      · next hn => exact write_invariant h hl hn.1 hn.2
      · exact h
  · next o k hl =>
      split
      · next hk =>
          rw [hl, Fits, hk, List.take_length] at hfits
          exact h.goto (published_line hfits) id
      · exact h
  · next result hl =>
      rw [hl] at hfits
      refine h.setTemporary ?_ id
      cases result with
      | none => trivial
      | some i => exact hfits
  · exact h

theorem run_invariant (moves : List (Nat × Move)) (w : FileSystem) (h : w.Invariant) :
    (w.run moves).Invariant := by
  induction moves generalizing w with
  | nil => exact h
  | cons m moves ih => exact ih (w.step m.1 m.2) (step_invariant w m.1 m.2 h)

theorem Invariant.agreed {w : FileSystem} (h : w.Invariant) : w.Agreed := by
  have hpublished : ∀ p i, w.loaders p = .done (some i) → w.Published i := by
    intro p i hp
    have hfits := h.fits p
    rwa [hp] at hfits
  refine ⟨fun p q i j hp hq => (hpublished p i hp).unique (hpublished q j hq), ?_⟩
  intro p i hp
  obtain ⟨t, ht, _, hstrip⟩ := hpublished p i hp
  exact ⟨t, ht, hstrip⟩

/-- Whatever the interleaving, and whether hard links work or not, one identity is loaded. -/
theorem measurement_id_agreed (content : Option Content) (moves : List (Nat × Move)) :
    ((start content).run moves).Agreed :=
  (run_invariant moves _ (start_invariant content)).agreed

end FileSystem

end OneCompute.Worker
