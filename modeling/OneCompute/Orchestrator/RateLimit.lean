import OneCompute.Lib.FixedWindow
import OneCompute.Lib.PyFloatDiff
import OneCompute.Lib.Table
import OneCompute.Workloads.Apportion

/-!
The rate limiter of the control plane, a fixed window for each client, and the way it
is a counter of calls in windows whatever its sweep drops.
-/

namespace OneCompute.Orchestrator
open PyNumber (Rounding exact binary64)
open Workloads (Raised truncate)
open FixedWindow (Slot Met timesOf)

/-- Every so many calls the stale buckets are dropped. -/
def sweepEvery : Nat := 1024

structure Bucket where
  key : String
  start : PyFloat
  count : Nat

structure RateLimiter where
  limit : Int
  windowS : PyFloat
  buckets : Table Bucket.key
  ops : Nat

namespace RateLimiter

def new (limit : Int) (windowS : PyFloat) : RateLimiter := ⟨limit, windowS, .empty, 0⟩

section Check
variable (R : Rounding) (l : RateLimiter)

/-- A window that began at `start` has rolled over. -/
def rolledOver (start now : PyFloat) : Bool := l.windowS.le (R.sub now start)

def sweep (now : PyFloat) : RateLimiter :=
  { l with buckets := l.buckets.delete fun b => l.rolledOver R b.start now }

/-- The window that a call falls in: its start, and the calls it has counted. -/
def current (key : String) (now : PyFloat) : PyFloat × Nat :=
  let (start, count) := match l.buckets.find? key with
    | some b => (b.start, b.count)
    | none => (now, 0)
  if l.rolledOver R start now then (now, 0) else (start, count)

/-- What `check` does once it has swept: whether the call is allowed, and the seconds until
the window rolls over. -/
def count (key : String) (now : PyFloat) : Except Raised (Bool × Int) × RateLimiter :=
  let (start, count) := l.current R key now
  if l.limit ≤ count then
    ((truncate (R.sub l.windowS (R.sub now start))).map fun rest => (false, max 1 (rest + 1)), l)
  else
    (.ok (true, 0),
      { l with
        buckets := l.buckets.upsert ⟨key, start, count + 1⟩
          (fun b => { b with start := start, count := count + 1 }) (fun _ => rfl) })

def check (key : String) (now : PyFloat) : Except Raised (Bool × Int) × RateLimiter :=
  let l := { l with ops := l.ops + 1 }
  let l := if l.ops % sweepEvery = 0 then l.sweep R now else l
  l.count R key now

/-- `check` without the sweep. -/
def checkUnswept (key : String) (now : PyFloat) : Except Raised (Bool × Int) × RateLimiter :=
  { l with ops := l.ops + 1 }.count R key now

/-- The call finds no window of its key that goes on. -/
def opens (key : String) (now : PyFloat) : Bool :=
  match l.buckets.find? key with
  | some b => l.rolledOver R b.start now
  | none => true

end Check

end RateLimiter

/-! ## Runs -/

/-- A call of `check` with its answer, and whether it opened a window of its key. -/
structure Checked where
  key : String
  now : Rat
  opened : Bool
  answer : Except Raised (Bool × Int)

def isAllowed : Except Raised (Bool × Int) → Bool
  | .ok (allowed, _) => allowed
  | .error _ => false

def Checked.allowed (c : Checked) : Bool := isAllowed c.answer

/-- The calls of `check`, each with its key and its time. -/
abbrev Calls := List (String × Rat)

section Runs
variable (R : Rounding)
  (check : RateLimiter → String → PyFloat → Except Raised (Bool × Int) × RateLimiter)

def checkAll : RateLimiter → Calls → List Checked
  | _, [] => []
  | l, (key, now) :: rest =>
      ⟨key, now, l.opens R key (.fin now), (check l key (.fin now)).1⟩ ::
        checkAll (check l key (.fin now)).2 rest

def limiterAfter (l : RateLimiter) (calls : Calls) : RateLimiter :=
  calls.foldl (fun l call => (check l call.1 (.fin call.2)).2) l

end Runs

/-- The calls as a limiter meets them that starts without buckets. -/
def checks (R : Rounding) (limit : Int) (window : Rat) (calls : Calls) : List Checked :=
  checkAll R (RateLimiter.check R) (.new limit (.fin window)) calls

def checksUnswept (R : Rounding) (limit : Int) (window : Rat) (calls : Calls) : List Checked :=
  checkAll R (RateLimiter.checkUnswept R) (.new limit (.fin window)) calls

example : (checks exact 1 60 [("a", 0), ("a", 59), ("b", 59), ("a", 61)]).map Checked.allowed =
    [true, false, true, true] := by decide +kernel

/-! ## Clocks -/

/-- A window that opened at `start` is over. -/
def isOver (R : Rounding) (window start now : Rat) : Bool :=
  (PyFloat.fin window).le (R.sub (.fin now) (.fin start))

/-- What the limiter relies on of differences between times of the kind `P`. -/
structure Ticks (R : Rounding) (window : Rat) (P : Rat → Prop) : Prop where
  later : ∀ s t u, s ≤ t → t ≤ u → isOver R window s t = true → isOver R window s u = true
  same : 0 < window → ∀ t, isOver R window t t = false
  apart : 0 < window → ∀ q s t, P q → P s → P t → s ≤ t → t - s < window →
    isOver R window q s = true → isOver R window s t = false
  rest : ∀ q t, P q → P t → q ≤ t → isOver R window q t = false → ∃ n : Int, 0 ≤ n ∧
    truncate (R.sub (.fin window) (R.sub (.fin t) (.fin q))) = .ok n ∧
    ∀ u, P u → t + (n + 1) ≤ u → isOver R window q u = true

theorem isOver_exact (window s t : Rat) : isOver exact window s t = decide (window ≤ t - s) := by
  simp [isOver, PyFloat.le]

theorem exact_ticks (window : Rat) : Ticks exact window fun _ => True where
  later s t u hst htu h := by
    rw [isOver_exact, decide_eq_true_eq] at h ⊢
    linarith
  same h t := by simp [isOver_exact, h]
  apart _ q s t _ _ _ _ hclose _ := by simp [isOver_exact, hclose]
  rest q t _ _ _ h := by
    rw [isOver_exact, decide_eq_false_iff_not, not_le] at h
    have hpos : 0 ≤ window - (t - q) := by linarith
    refine ⟨⌊window - (t - q)⌋, Int.floor_nonneg.mpr hpos, ?_, ?_⟩
    · rw [PyNumber.exact_sub, PyNumber.exact_sub, Workloads.truncate_floor hpos]
    · intro u _ hu
      rw [isOver_exact, decide_eq_true_eq]
      have := Int.lt_floor_add_one (window - (t - q))
      linarith

/-- A time that a double holds, at or after the origin of the clock. -/
def IsReading (t : Rat) : Prop := 0 ≤ t ∧ PyFloat.ofRat t = .fin t

theorem IsReading.nearest {t : Rat} (h : IsReading t) : PyFloat.nearest t = t ∧ t < PyFloat.pow2 1024 :=
  PyNumber.binary64_round_fin h.1 h.2

theorem double_sub (a b : Rat) : binary64.sub (.fin a) (.fin b) = PyFloat.ofRat (a - b) := by
  simp [Rounding.sub, Rounding.add, PyFloat.neg, binary64, sub_eq_add_neg]

/-- A difference of times is rounded as a number that is not negative. -/
theorem isOver_double {window s t : Rat} (hwindow : IsReading window) (hst : s ≤ t) :
    isOver binary64 window s t = true ↔ window ≤ PyFloat.nearest (t - s) := by
  rw [isOver, double_sub, PyFloat.ofRat_eq (sub_nonneg.mpr hst)]
  split
  next hbig => simpa [PyFloat.le] using hwindow.nearest.2.le.trans hbig
  next => simp [PyFloat.le]

theorem isOver_double_le {window s t : Rat} (hpos : 0 < window)
    (h : isOver binary64 window s t = true) : s < t := by
  by_contra hle
  have hneg : t - s ≤ 0 := sub_nonpos.mpr (not_lt.mp hle)
  have hround := PyNumber.binary64_sound.nonpos (t - s) hneg
  rw [isOver, double_sub] at h
  change (PyFloat.ofRat (t - s)).le (.fin 0) = true at hround
  cases hx : PyFloat.ofRat (t - s) with
  | nan => simp [hx, PyFloat.le] at h
  | inf n => cases n <;> simp [hx, PyFloat.le] at h hround
  | fin q =>
      simp only [hx, PyFloat.le, decide_eq_true_eq] at h hround
      linarith

/-- The seconds that are left of a window, rounded down and one more. -/
theorem double_rest {window d : Rat} (hwindow : IsReading window) (hsmall : window < 2 ^ 53)
    (hd : 0 ≤ d) (hlt : d < window) : ∃ n : Int, 0 ≤ n ∧
      truncate (binary64.sub (.fin window) (.fin d)) = .ok n ∧ window - d < n + 1 := by
  have hpos : 0 < window - d := sub_pos.mpr hlt
  have hle : window - d ≤ window := sub_le_self _ hd
  have hsub : binary64.sub (.fin window) (.fin d) = .fin (PyFloat.nearest (window - d)) := by
    have hfinite := (PyFloat.nearest_mono hpos hle).trans_lt
      (hwindow.nearest.1.symm ▸ hwindow.nearest.2)
    rw [double_sub, PyFloat.ofRat_eq hpos.le, if_neg (not_le.mpr hfinite)]
  have hnonneg := PyNumber.nearest_nonneg hpos.le
  refine ⟨⌊PyFloat.nearest (window - d)⌋, Int.floor_nonneg.mpr hnonneg, ?_, ?_⟩
  · rw [hsub, Workloads.truncate_floor hnonneg]
  · have hfloor : (0 : Rat) ≤ (⌊window - d⌋ : Int) := by exact_mod_cast Int.floor_nonneg.mpr hpos.le
    have hbound : ⌊window - d⌋.natAbs ≤ 2 ^ 53 := by
      have hcast : ((⌊window - d⌋ : Int) : Rat) < 2 ^ 53 :=
        (Int.floor_le _).trans_lt (hle.trans_lt hsmall)
      have hint : ⌊window - d⌋ < 2 ^ 53 := by exact_mod_cast hcast
      have hzero : 0 ≤ ⌊window - d⌋ := Int.floor_nonneg.mpr hpos.le
      omega
    have hwhole : IsReading (⌊window - d⌋ : Int) := ⟨hfloor, PyFloat.ofInt_exact hbound⟩
    have hmono := PyFloat.nearest_mono_nonneg hfloor (Int.floor_le (window - d))
    rw [hwhole.nearest.1] at hmono
    have hint : (⌊window - d⌋ : Rat) ≤ ⌊PyFloat.nearest (window - d)⌋ := by
      exact_mod_cast Int.le_floor.mpr hmono
    have := Int.lt_floor_add_one (window - d)
    linarith

/-- A window that opened no earlier than a window's length after the origin goes on for as
long. -/
theorem double_going {window s t : Rat} (hwindow : IsReading window) (hpos : 0 < window)
    (hs : IsReading s) (ht : IsReading t) (hlong : window ≤ s) (hst : s ≤ t) (hclose : t - s < window) :
    isOver binary64 window s t = false := by
  rw [← Bool.not_eq_true, isOver_double hwindow hst, not_le]
  rcases hst.eq_or_lt with rfl | hlt
  · simpa using hpos
  · rw [PyFloat.nearest_sub hs.nearest.1 ht.nearest.1 hlt (hclose.le.trans hlong)]
    exact hclose

theorem double_ticks {window : Rat} (hwindow : IsReading window) (hsmall : window < 2 ^ 53) :
    Ticks binary64 window IsReading where
  later s t u hst htu h := by
    rw [isOver_double hwindow hst] at h
    rw [isOver_double hwindow (hst.trans htu)]
    exact h.trans (PyFloat.nearest_mono_nonneg (sub_nonneg.mpr hst) (sub_le_sub_right htu s))
  same hpos t := by
    rw [← Bool.not_eq_true, isOver_double hwindow le_rfl, sub_self, PyFloat.nearest_zero]
    exact not_le.mpr hpos
  apart hpos q s t hq hs ht hst hclose hover := by
    have hqs := isOver_double_le hpos hover
    -- A window that is over has begun no earlier than the origin of the clock.
    have hlong : window ≤ s := by
      rw [isOver_double hwindow hqs.le] at hover
      refine hover.trans ((PyFloat.nearest_mono (sub_pos.mpr hqs) (sub_le_self s hq.1)).trans ?_)
      exact hs.nearest.1.le
    exact double_going hwindow hpos hs ht hlong hst hclose
  rest q t hq ht hqt h := by
    have hgap : 0 ≤ t - q := sub_nonneg.mpr hqt
    rw [← Bool.not_eq_true, isOver_double hwindow hqt, not_le] at h
    have hsub : binary64.sub (.fin t) (.fin q) = .fin (PyFloat.nearest (t - q)) := by
      rw [double_sub, PyFloat.ofRat_eq hgap, if_neg (not_le.mpr (h.trans hwindow.nearest.2))]
    obtain ⟨n, hn, htruncate, hlt⟩ := double_rest hwindow hsmall (PyNumber.nearest_nonneg hgap) h
    refine ⟨n, hn, by rw [hsub, htruncate], ?_⟩
    intro u _ hu
    have hqu : q ≤ u := by
      have : (0 : Rat) ≤ n := by exact_mod_cast hn
      linarith
    rw [isOver_double hwindow hqu]
    rcases hgap.eq_or_lt with hzero | hpos
    · rw [← hzero, PyFloat.nearest_zero] at hlt
      have hle : window ≤ u - q := by linarith
      exact hwindow.nearest.1 ▸ PyFloat.nearest_mono_nonneg hwindow.1 hle
    · exact PyFloat.le_nearest_of_gain hwindow.nearest.1 hpos (by linarith) (by linarith)

/-! ## The limiter as a counter -/

/-- The windows of the limiter, with a counter for each key. -/
def windows (R : Rounding) (limit : Int) (window : Rat) : FixedWindow Rat := ⟨limit, isOver R window⟩

@[simp] theorem windows_limit (R : Rounding) (limit : Int) (window : Rat) :
    (windows R limit window).limit = limit := rfl

section Tracking
variable (R : Rounding) (limit : Int) (window : Rat)

/-- The answer to a call, from the window it falls in. -/
def answerTo (m : Met Rat) : Except Raised (Bool × Int) :=
  if (windows R limit window).admits m then .ok (true, 0)
  else (truncate (R.sub (.fin window) (R.sub (.fin m.time) (.fin m.start)))).map fun rest =>
    (false, max 1 (rest + 1))

def toChecked (m : String × Met Rat) : Checked :=
  ⟨m.1, m.2.time, m.2.opened, answerTo R limit window m.2⟩

def RateLimiter.slot (l : RateLimiter) (key : String) : Slot PyFloat :=
  (l.buckets.find? key).map fun b => (b.start, b.count)

def asFloat (slot : Slot Rat) : Slot PyFloat := slot.map fun s => (.fin s.1, s.2)

/-- At `now` no later call tells the buckets of a limiter from `slots`. -/
structure Tracks (l : RateLimiter) (now : Rat) (slots : String → Slot Rat) : Prop where
  sameLimit : l.limit = limit
  sameWindow : l.windowS = .fin window
  bucket : ∀ key, ∃ slot, l.slot key = asFloat slot ∧ (∀ s ∈ slot, s.1 ≤ now) ∧
    (windows R limit window).Alike now slot (slots key)

variable {R limit window} {l : RateLimiter} {now t : Rat} {slots : String → Slot Rat} {key : String}

theorem tracks_new (limit : Int) (now : Rat) :
    Tracks R limit window (.new limit (.fin window)) now fun _ => none where
  sameLimit := rfl
  sameWindow := rfl
  bucket _ := ⟨none, rfl, by simp, FixedWindow.Alike.refl _ _⟩

theorem slot_sweep (hwindow : l.windowS = .fin window) {slot : Slot Rat}
    (h : l.slot key = asFloat slot) :
    (l.sweep R (.fin t)).slot key = asFloat (slot.filter fun s => !isOver R window s.1 t) := by
  unfold RateLimiter.slot at h ⊢
  simp only [RateLimiter.sweep, Table.find?_delete, RateLimiter.rolledOver, hwindow]
  cases hb : l.buckets.find? key with
  | none =>
      rw [hb] at h
      cases slot with
      | none => rfl
      | some s => cases h
  | some b =>
      rw [hb] at h
      cases slot with
      | none => cases h
      | some s =>
          simp only [asFloat, Option.map_some, Option.some.injEq, Prod.mk.injEq] at h
          cases hover : isOver R window s.1 t with
          | true => simp_all [asFloat, isOver, Option.filter]
          | false => simp_all [asFloat, isOver, Option.filter]

/-- What the sweep drops is over, and stays so. -/
theorem Tracks.sweep {P : Rat → Prop} (hticks : Ticks R window P) (h : Tracks R limit window l now slots)
    (ht : now ≤ t) : Tracks R limit window (l.sweep R (.fin t)) t slots where
  sameLimit := h.sameLimit
  sameWindow := h.sameWindow
  bucket key := by
    obtain ⟨slot, hslot, hstart, halike⟩ := h.bucket key
    refine ⟨_, slot_sweep h.sameWindow hslot, ?_, ?_⟩
    · intro s hs
      exact (hstart s (Option.filter_eq_some_iff.mp hs).1).trans ht
    · cases slot with
      | none => exact halike.mono ht
      | some s =>
          cases hover : isOver R window s.1 t with
          | false => simpa [Option.filter, hover] using halike.mono ht
          | true =>
              have hdropped := FixedWindow.alike_none (w := windows R limit window) (n := s.2)
                fun u hu => hticks.later s.1 t u ((hstart s rfl).trans ht) hu hover
              intro u hu
              simp only [Option.filter, hover]
              exact (hdropped u hu).trans (halike u (ht.trans hu))

theorem current_spec (limit : Int) (hwindow : l.windowS = .fin window) {slot : Slot Rat}
    (hslot : l.slot key = asFloat slot) :
    l.current R key (.fin t) =
      (.fin ((windows R limit window).meet slot t).start, ((windows R limit window).meet slot t).count) ∧
      l.opens R key (.fin t) = ((windows R limit window).meet slot t).opened := by
  unfold RateLimiter.slot at hslot
  unfold RateLimiter.current RateLimiter.opens
  cases hb : l.buckets.find? key with
  | none =>
      rw [hb] at hslot
      cases slot with
      | none => simp [FixedWindow.meet]
      | some s => cases hslot
  | some b =>
      rw [hb] at hslot
      cases slot with
      | none => cases hslot
      | some s =>
          simp only [asFloat, Option.map_some, Option.some.injEq, Prod.mk.injEq] at hslot
          have hrolled : l.rolledOver R (.fin s.1) (.fin t) = isOver R window s.1 t := by
            rw [RateLimiter.rolledOver, hwindow, isOver]
          cases hover : isOver R window s.1 t <;>
            simp [FixedWindow.meet, windows, hrolled, hover, hslot]

theorem slot_upsert (start : PyFloat) (n : Nat) (k : String) :
    RateLimiter.slot
        { l with
          buckets := l.buckets.upsert ⟨key, start, n⟩
            (fun b => { b with start := start, count := n }) (fun _ => rfl) } k =
      if key = k then some (start, n) else l.slot k := by
  unfold RateLimiter.slot
  rw [Table.find?_upsert]
  by_cases hk : key = k
  · rw [if_pos hk, if_pos hk]
    cases l.buckets.find? k <;> rfl
  · rw [if_neg hk, if_neg hk]

/-- What a call is answered, and the bucket it leaves. -/
theorem count_spec (hlimit : l.limit = limit) (hwindow : l.windowS = .fin window) {slot : Slot Rat}
    (hslot : l.slot key = asFloat slot) :
    (l.count R key (.fin t)).1 = answerTo R limit window ((windows R limit window).meet slot t) ∧
      (l.count R key (.fin t)).2.limit = limit ∧ (l.count R key (.fin t)).2.windowS = .fin window ∧
      ∀ k, (l.count R key (.fin t)).2.slot k =
        if key = k then asFloat ((windows R limit window).next slot t) else l.slot k := by
  have hcurrent := (current_spec (R := R) (t := t) limit hwindow hslot).1
  have htime := FixedWindow.meet_time (w := windows R limit window) slot t
  unfold RateLimiter.count answerTo FixedWindow.next
  rw [hcurrent, htime]
  dsimp only
  generalize (windows R limit window).meet slot t = m
  have hadmits : (windows R limit window).admits m = true ↔ ¬ l.limit ≤ m.count := by
    rw [FixedWindow.admits, decide_eq_true_eq, hlimit]
    exact not_le.symm
  by_cases hfull : l.limit ≤ m.count
  · rw [if_pos hfull, if_neg (fun h => hadmits.mp h hfull), if_neg (fun h => hadmits.mp h hfull),
      hwindow]
    refine ⟨rfl, hlimit, rfl, fun k => ?_⟩
    split
    next hk => rw [← hk, hslot]
    next => rfl
  · rw [if_neg hfull, if_pos (hadmits.mpr hfull), if_pos (hadmits.mpr hfull)]
    exact ⟨rfl, hlimit, hwindow, fun k => slot_upsert _ _ k⟩

/-- A limiter that still tracks its counters before a call tracks them after it. -/
theorem Tracks.count (h : Tracks R limit window l t slots) :
    (l.count R key (.fin t)).1 = answerTo R limit window ((windows R limit window).meet (slots key) t) ∧
      Tracks R limit window (l.count R key (.fin t)).2 t
        ((windows R limit window).nextKeyed slots (key, t)) := by
  obtain ⟨slot, hslot, hstart, halike⟩ := h.bucket key
  obtain ⟨hanswer, hlimit, hwindow, hbucket⟩ := count_spec (R := R) (t := t) h.sameLimit h.sameWindow hslot
  refine ⟨hanswer.trans (congrArg _ (halike t le_rfl)), hlimit, hwindow, fun k => ?_⟩
  rw [hbucket]
  by_cases hk : key = k
  · subst hk
    refine ⟨_, if_pos rfl, ?_, ?_⟩
    · exact FixedWindow.OpenedAt.next (P := (· ≤ t)) hstart le_rfl
    · simpa [FixedWindow.nextKeyed] using halike.next le_rfl
  · obtain ⟨slot', hslot', hstart', halike'⟩ := h.bucket k
    refine ⟨slot', by rw [if_neg hk, hslot'], hstart', ?_⟩
    simpa [FixedWindow.nextKeyed, Function.update_of_ne (Ne.symm hk)] using halike'

theorem Tracks.opens (h : Tracks R limit window l now slots) (ht : now ≤ t) :
    l.opens R key (.fin t) = ((windows R limit window).meet (slots key) t).opened := by
  obtain ⟨slot, hslot, -, halike⟩ := h.bucket key
  rw [(current_spec (R := R) (t := t) limit h.sameWindow hslot).2, halike t ht]

theorem Tracks.counted (h : Tracks R limit window l now slots) (n : Nat) :
    Tracks R limit window { l with ops := n } now slots :=
  ⟨h.sameLimit, h.sameWindow, h.bucket⟩

theorem Tracks.mono (h : Tracks R limit window l now slots) (ht : now ≤ t) :
    Tracks R limit window l t slots := by
  refine ⟨h.sameLimit, h.sameWindow, fun key => ?_⟩
  obtain ⟨slot, hslot, hstart, halike⟩ := h.bucket key
  exact ⟨slot, hslot, fun s hs => (hstart s hs).trans ht, halike.mono ht⟩

/-- A `check` that answers and leaves the limiter as its counters say. -/
def Faithful (R : Rounding) (limit : Int) (window : Rat)
    (check : RateLimiter → String → PyFloat → Except Raised (Bool × Int) × RateLimiter) : Prop :=
  ∀ l now t slots key, now ≤ t → Tracks R limit window l now slots →
    (check l key (.fin t)).1 = answerTo R limit window ((windows R limit window).meet (slots key) t) ∧
      Tracks R limit window (check l key (.fin t)).2 t
        ((windows R limit window).nextKeyed slots (key, t))

theorem checkUnswept_faithful : Faithful R limit window (RateLimiter.checkUnswept R) :=
  fun _ _ _ _ _ ht h => ((h.counted _).mono ht).count

theorem check_faithful {P : Rat → Prop} (hticks : Ticks R window P) :
    Faithful R limit window (RateLimiter.check R) := by
  intro l now t slots key ht h
  unfold RateLimiter.check
  dsimp only
  split
  · exact ((h.counted _).sweep hticks ht).count
  · exact ((h.counted _).mono ht).count

variable {check : RateLimiter → String → PyFloat → Except Raised (Bool × Int) × RateLimiter}
  {calls : Calls}

/-- A run of the limiter is one of its counters. -/
theorem checkAll_eq (hcheck : Faithful R limit window check) (h : Tracks R limit window l now slots)
    (hsorted : (now :: calls.map Prod.snd).Pairwise (· ≤ ·)) :
    checkAll R check l calls =
      ((windows R limit window).runKeyed slots calls).map (toChecked R limit window) := by
  induction calls generalizing l now slots with
  | nil => rfl
  | cons call calls ih =>
      obtain ⟨hnow, hrest⟩ := List.pairwise_cons.mp hsorted
      have ht : now ≤ call.2 := hnow _ List.mem_cons_self
      obtain ⟨hanswer, htracks⟩ := hcheck l now call.2 slots call.1 ht h
      have hmet := FixedWindow.meet_time (w := windows R limit window) (slots call.1) call.2
      simp only [checkAll, FixedWindow.runKeyed, List.map_cons]
      rw [ih htracks hrest, hanswer, h.opens ht]
      simp [toChecked, hmet]

theorem tracks_after (hcheck : Faithful R limit window check) (h : Tracks R limit window l now slots)
    (hsorted : (now :: calls.map Prod.snd).Pairwise (· ≤ ·)) {last : Rat} (hnow : now ≤ last)
    (hlast : ∀ call ∈ calls, call.2 ≤ last) :
    Tracks R limit window (limiterAfter check l calls) last
      ((windows R limit window).afterKeyed slots calls) := by
  induction calls generalizing l now slots with
  | nil => exact h.mono hnow
  | cons call calls ih =>
      obtain ⟨hle, hrest⟩ := List.pairwise_cons.mp hsorted
      obtain ⟨hcall, hlast⟩ := List.forall_mem_cons.mp hlast
      exact ih (hcheck l now call.2 slots call.1 (hle _ List.mem_cons_self) h).2 hrest hcall hlast

end Tracking

/-! ## What the limiter keeps -/

section Keeps
variable {R : Rounding} {limit : Int} {window : Rat} {P : Rat → Prop} {calls : Calls} {key : String}

theorem sorted_from {times : List Rat} (h : times.Pairwise (· ≤ ·)) :
    ∃ first, (first :: times).Pairwise (· ≤ ·) := by
  cases times with
  | nil => exact ⟨0, by simp⟩
  | cons t times =>
      refine ⟨t, List.pairwise_cons.mpr ⟨?_, h⟩⟩
      intro u hu
      rcases List.mem_cons.mp hu with rfl | hu
      · exact le_rfl
      · exact (List.pairwise_cons.mp h).1 u hu

theorem checks_eq (hticks : Ticks R window P) (hsorted : (calls.map Prod.snd).Pairwise (· ≤ ·)) :
    checks R limit window calls =
      ((windows R limit window).runKeyed (fun _ => none) calls).map (toChecked R limit window) := by
  obtain ⟨first, hfirst⟩ := sorted_from hsorted
  exact checkAll_eq (check_faithful hticks) (tracks_new limit first) hfirst

theorem checksUnswept_eq (hsorted : (calls.map Prod.snd).Pairwise (· ≤ ·)) :
    checksUnswept R limit window calls =
      ((windows R limit window).runKeyed (fun _ => none) calls).map (toChecked R limit window) := by
  obtain ⟨first, hfirst⟩ := sorted_from hsorted
  exact checkAll_eq checkUnswept_faithful (tracks_new limit first) hfirst

/-- The calls on one key are those of a counter. -/
theorem checks_key (hticks : Ticks R window P) (hsorted : (calls.map Prod.snd).Pairwise (· ≤ ·)) :
    (checks R limit window calls).filter (fun c => c.key = key) =
      ((windows R limit window).run none (timesOf key calls)).map
        fun m => toChecked R limit window (key, m) := by
  rw [checks_eq hticks hsorted, List.filter_map]
  have hcomp : ((fun c : Checked => decide (c.key = key)) ∘ toChecked R limit window) =
      fun m => decide (m.1 = key) := rfl
  rw [hcomp, FixedWindow.runKeyed_filter, List.map_map]
  rfl

theorem mem_checkAll {check : RateLimiter → String → PyFloat → Except Raised (Bool × Int) × RateLimiter}
    {l : RateLimiter} {c : Checked} (h : c ∈ checkAll R check l calls) : ∃ call ∈ calls, call.1 = c.key := by
  induction calls generalizing l with
  | nil => cases h
  | cons call calls ih =>
      rcases List.mem_cons.mp h with rfl | h
      · exact ⟨call, List.mem_cons_self, rfl⟩
      · obtain ⟨other, hmem, hkey⟩ := ih h
        exact ⟨other, List.mem_cons_of_mem _ hmem, hkey⟩

/-- The calls on one key are answered as if there were no others. -/
theorem checks_own (hticks : Ticks R window P) (hsorted : (calls.map Prod.snd).Pairwise (· ≤ ·)) :
    (checks R limit window calls).filter (fun c => c.key = key) =
      checks R limit window (calls.filter fun call => call.1 = key) := by
  have hown : timesOf key (calls.filter fun call => call.1 = key) = timesOf key calls := by
    simp [timesOf]
  have hsorted' : ((calls.filter fun call => call.1 = key).map Prod.snd).Pairwise (· ≤ ·) :=
    hsorted.sublist (List.filter_sublist.map _)
  have hall : (checks R limit window (calls.filter fun call => call.1 = key)).filter
      (fun c => c.key = key) = checks R limit window (calls.filter fun call => call.1 = key) := by
    rw [List.filter_eq_self]
    intro c hc
    obtain ⟨call, hcall, hkey⟩ := mem_checkAll hc
    simpa [hkey] using (List.mem_filter.mp hcall).2
  rw [← hall, checks_key hticks hsorted, checks_key hticks hsorted', hown]

theorem toChecked_allowed (m : String × Met Rat) :
    (toChecked R limit window m).allowed = (windows R limit window).admits m.2 := by
  unfold toChecked Checked.allowed isAllowed answerTo
  cases hadmits : (windows R limit window).admits m.2 with
  | true => rfl
  | false =>
      simp only [Bool.false_eq_true, if_false]
      cases truncate (R.sub (.fin window) (R.sub (.fin m.2.time) (.fin m.2.start))) <;> rfl

theorem allowed_window (hticks : Ticks R window P) (hlimit : 1 ≤ limit)
    (hsorted : (calls.map Prod.snd).Pairwise (· ≤ ·)) {part : List Checked}
    (hpart : part <:+: (checks R limit window calls).filter fun c => c.key = key)
    (hopened : ∀ c ∈ part.tail, c.opened = false) : (part.countP Checked.allowed : Int) ≤ limit := by
  rw [checks_key hticks hsorted, List.infix_map_iff] at hpart
  obtain ⟨met, hmet, rfl⟩ := hpart
  have hcount : (met.map fun m => toChecked R limit window (key, m)).countP Checked.allowed =
      (windows R limit window).admitted met := by
    rw [List.countP_map]
    exact List.countP_congr fun m _ => by simp [toChecked_allowed]
  rw [hcount]
  refine FixedWindow.admitted_infix hlimit FixedWindow.within_none hmet fun m hm => ?_
  rw [← List.map_tail] at hopened
  exact hopened _ (List.mem_map_of_mem hm)

/-- How many calls on a key are allowed at certain times. -/
def allowedIn (key : String) (inside : Rat → Bool) (cs : List Checked) : Nat :=
  cs.countP fun c => c.key = key && c.allowed && inside c.now

theorem allowedIn_checks (hticks : Ticks R window P)
    (hsorted : (calls.map Prod.snd).Pairwise (· ≤ ·)) (inside : Rat → Bool) :
    allowedIn key inside (checks R limit window calls) = (windows R limit window).admitted
      (((windows R limit window).run none (timesOf key calls)).filter fun m => inside m.time) := by
  have hsplit : allowedIn key inside (checks R limit window calls) =
      ((checks R limit window calls).filter fun c => c.key = key).countP
        fun c => c.allowed && inside c.now := by
    rw [List.countP_filter]
    refine List.countP_congr fun c _ => ?_
    simp only [Bool.and_eq_true, decide_eq_true_eq]
    tauto
  rw [hsplit, checks_key hticks hsorted, List.countP_map, FixedWindow.admitted, List.countP_filter]
  refine List.countP_congr fun m _ => ?_
  rw [Function.comp_apply, toChecked_allowed]
  exact Iff.rfl

theorem timesOf_sublist (key : String) (calls : Calls) :
    (timesOf key calls).Sublist (calls.map Prod.snd) :=
  List.filter_sublist.map _

/-- An interval of a window's length. -/
theorem Ticks.short (hticks : Ticks R window P) (start : Rat) {inside : Rat → Bool}
    (hinside : ∀ t, inside t = true → start ≤ t ∧ t ≤ start + window ∧ 0 < window)
    (hconvex : ∀ r s t, inside r = true → inside t = true → r ≤ s → s ≤ t → inside s = true) :
    (windows R limit window).Short P inside where
  convex := hconvex
  fresh s hs := hticks.same (hinside s hs).2.2 s
  going q r s t hq hs ht hr hsin ht' hrs hst hover := by
    have hpos := (hinside s hsin).2.2
    refine hticks.apart hpos q s t hq hs ht hst ?_ hover
    have hr := (hinside r hr).1
    have ht := (hinside t ht').2.1
    linarith

theorem allowed_interval (hticks : Ticks R window P) (hlimit : 1 ≤ limit)
    (hsorted : (calls.map Prod.snd).Pairwise (· ≤ ·)) (hP : ∀ t ∈ calls.map Prod.snd, P t)
    {inside : Rat → Bool} (hshort : (windows R limit window).Short P inside) :
    (allowedIn key inside (checks R limit window calls) : Int) ≤ 2 * limit := by
  have hsub := timesOf_sublist key calls
  rw [allowedIn_checks hticks hsorted]
  exact FixedWindow.admitted_interval hshort hlimit FixedWindow.within_none (by simp [FixedWindow.OpenedAt])
    (fun t ht => hP t (hsub.subset ht)) (hsorted.sublist hsub)

/-- The answer to a call once `calls` have been made. -/
def answerAfter (R : Rounding) (limit : Int) (window : Rat) (calls : Calls) (key : String)
    (now : Rat) : Except Raised (Bool × Int) :=
  ((limiterAfter (RateLimiter.check R) (.new limit (.fin window)) calls).check R key (.fin now)).1

theorem answerAfter_eq (hticks : Ticks R window P) {now : Rat}
    (hsorted : ((calls ++ [(key, now)]).map Prod.snd).Pairwise (· ≤ ·)) :
    answerAfter R limit window calls key now = answerTo R limit window ((windows R limit window).meet
      ((windows R limit window).after none (timesOf key calls)) now) := by
  obtain ⟨first, hfirst⟩ := sorted_from hsorted
  rw [List.map_append, ← List.cons_append] at hfirst
  obtain ⟨hcalls, -, hle⟩ := List.pairwise_append.mp hfirst
  have hlast : ∀ t ∈ first :: calls.map Prod.snd, t ≤ now :=
    fun t ht => hle t ht now List.mem_cons_self
  have htracks := tracks_after (check_faithful hticks) (tracks_new limit first) hcalls
    (hlast _ List.mem_cons_self) fun call hcall => hlast _ (List.mem_cons_of_mem _ (List.mem_map_of_mem hcall))
  have hanswer := (check_faithful hticks _ now now _ key le_rfl htracks).1
  rw [FixedWindow.afterKeyed_apply] at hanswer
  exact hanswer

theorem timesOf_append (key : String) (calls more : Calls) :
    timesOf key (calls ++ more) = timesOf key calls ++ timesOf key more := by
  simp [timesOf]

/-- Calls on other keys do not touch the window that a call left. -/
theorem slot_after (R : Rounding) (limit : Int) (window : Rat) (calls : Calls) (key : String)
    (now : Rat) {others : Calls} (hothers : ∀ call ∈ others, call.1 ≠ key) :
    (windows R limit window).after none (timesOf key (calls ++ (key, now) :: others)) =
      (windows R limit window).next ((windows R limit window).after none (timesOf key calls)) now := by
  have hnone : timesOf key others = [] := by
    rw [timesOf, List.filter_eq_nil_iff.mpr fun call hcall => by simpa using hothers call hcall,
      List.map_nil]
  rw [timesOf_append, FixedWindow.timesOf_cons, if_pos rfl, hnone]
  simp [FixedWindow.after]

/-- A call is allowed, or it is told for how long to wait. -/
theorem answer_cases (hticks : Ticks R window P) (hlimit : 1 ≤ limit) {now : Rat}
    (hP : ∀ t ∈ (calls ++ [(key, now)]).map Prod.snd, P t)
    (hsorted : ((calls ++ [(key, now)]).map Prod.snd).Pairwise (· ≤ ·)) :
    answerAfter R limit window calls key now = .ok (true, 0) ∨ ∃ retry : Int, 1 ≤ retry ∧
      answerAfter R limit window calls key now = .ok (false, retry) ∧
      ∀ others later, (∀ call ∈ others, call.1 ≠ key) → P later → now + retry ≤ later →
        ((calls ++ (key, now) :: others ++ [(key, later)]).map Prod.snd).Pairwise (· ≤ ·) →
        answerAfter R limit window (calls ++ (key, now) :: others) key later = .ok (true, 0) := by
  have hsub := timesOf_sublist key calls
  have hPcalls : ∀ t ∈ timesOf key calls, P t := by
    intro t ht
    refine hP t ?_
    rw [List.map_append]
    exact List.mem_append_left _ (hsub.subset ht)
  have hPnow : P now := hP now (by simp)
  have hle : ∀ t ∈ timesOf key calls, t ≤ now := by
    intro t ht
    rw [List.map_append] at hsorted
    exact (List.pairwise_append.mp hsorted).2.2 t (hsub.subset ht) now List.mem_cons_self
  have hopened : ∀ Q : Rat → Prop, (∀ t ∈ timesOf key calls, Q t) →
      FixedWindow.OpenedAt Q ((windows R limit window).after none (timesOf key calls)) :=
    fun Q hQ => FixedWindow.OpenedAt.after (by simp [FixedWindow.OpenedAt]) hQ
  rw [answerAfter_eq hticks hsorted]
  by_cases hadmits : (windows R limit window).admits ((windows R limit window).meet
      ((windows R limit window).after none (timesOf key calls)) now) = true
  · exact .inl (if_pos hadmits)
  · have hrefused := FixedWindow.refused (w := windows R limit window) hlimit (by simpa using hadmits)
    obtain ⟨start, n, hslot, hgoing, hmeet, hkept⟩ := hrefused
    have hPstart : P start := hopened P hPcalls (start, n) hslot
    have hstart : start ≤ now := hopened (· ≤ now) hle (start, n) hslot
    obtain ⟨rest, hrest, htruncate, hover⟩ := hticks.rest start now hPstart hPnow hstart hgoing
    refine .inr ⟨rest + 1, by omega, ?_, ?_⟩
    · rw [answerTo, if_neg hadmits, hmeet, htruncate, Except.map, max_eq_right (by omega)]
    · intro others later hothers hPlater hlater hall
      rw [answerAfter_eq hticks hall, slot_after R limit window calls key now hothers, hkept, hslot,
        FixedWindow.meet_expired (hover later hPlater (by exact_mod_cast hlater)), answerTo,
        if_pos (FixedWindow.admits_opened hlimit later)]

end Keeps

/-- The times of the calls, and how their differences are rounded: exact times of any
kind, or readings of a clock in doubles. -/
inductive Clock (window : Rat) (times : List Rat) : Rounding → Prop where
  | exact : Clock window times exact
  | double : IsReading window → window < 2 ^ 53 → (∀ t ∈ times, IsReading t) →
      Clock window times binary64

theorem Clock.ticks {R : Rounding} {window : Rat} {times : List Rat} (h : Clock window times R) :
    ∃ P, Ticks R window P ∧ ∀ t ∈ times, P t := by
  cases h with
  | exact => exact ⟨_, exact_ticks window, fun _ _ => trivial⟩
  | double hwindow hsmall htimes => exact ⟨_, double_ticks hwindow hsmall, htimes⟩

/-- A limiter allows its limit in every window of a key and twice that in any time as long
as a window; sweeping and the calls on other keys change nothing, and who waits as told
is allowed. -/
theorem rate_limited {R : Rounding} {limit : Int} {window : Rat} {calls : Calls}
    (hlimit : 1 ≤ limit) (hclock : Clock window (calls.map Prod.snd) R)
    (hsorted : (calls.map Prod.snd).Pairwise (· ≤ ·)) :
    (∀ key part, part <:+: (checks R limit window calls).filter (fun c => c.key = key) →
      (∀ c ∈ part.tail, c.opened = false) → (part.countP Checked.allowed : Int) ≤ limit) ∧
    (∀ key start,
      (allowedIn key (fun t => start ≤ t && t < start + window) (checks R limit window calls) : Int) ≤
        2 * limit ∧
      (0 < window →
        (allowedIn key (fun t => start ≤ t && t ≤ start + window) (checks R limit window calls) : Int) ≤
          2 * limit)) ∧
    checks R limit window calls = checksUnswept R limit window calls ∧
    (∀ key, (checks R limit window calls).filter (fun c => c.key = key) =
      checks R limit window (calls.filter fun call => call.1 = key)) ∧
    (∀ before key now, before ++ [(key, now)] <+: calls →
      answerAfter R limit window before key now = .ok (true, 0) ∨
        ∃ retry : Int, 1 ≤ retry ∧ answerAfter R limit window before key now = .ok (false, retry)) ∧
    (∀ before key now retry others later,
      before ++ (key, now) :: others ++ [(key, later)] <+: calls → (∀ call ∈ others, call.1 ≠ key) →
      answerAfter R limit window before key now = .ok (false, retry) → now + retry ≤ later →
      answerAfter R limit window (before ++ (key, now) :: others) key later = .ok (true, 0)) := by
  obtain ⟨P, hticks, hP⟩ := hclock.ticks
  have hsub : ∀ {some : Calls}, some <+: calls → (some.map Prod.snd).Sublist (calls.map Prod.snd) :=
    fun h => h.sublist.map _
  refine ⟨fun key part => allowed_window hticks hlimit hsorted, ?_, ?_, ?_, ?_, ?_⟩
  · intro key start
    constructor
    · refine allowed_interval hticks hlimit hsorted hP (hticks.short start ?_ ?_)
      · intro t ht
        simp only [Bool.and_eq_true, decide_eq_true_eq] at ht
        exact ⟨ht.1, ht.2.le, by linarith⟩
      · intro r s t hr ht hrs hst
        simp only [Bool.and_eq_true, decide_eq_true_eq] at hr ht ⊢
        exact ⟨hr.1.trans hrs, hst.trans_lt ht.2⟩
    · intro hpos
      refine allowed_interval hticks hlimit hsorted hP (hticks.short start ?_ ?_)
      · intro t ht
        simp only [Bool.and_eq_true, decide_eq_true_eq] at ht
        exact ⟨ht.1, ht.2, hpos⟩
      · intro r s t hr ht hrs hst
        simp only [Bool.and_eq_true, decide_eq_true_eq] at hr ht ⊢
        exact ⟨hr.1.trans hrs, hst.trans ht.2⟩
  · rw [checks_eq hticks hsorted, checksUnswept_eq hsorted]
  · exact fun key => checks_own hticks hsorted
  · intro before key now hpre
    have hcases := answer_cases hticks hlimit (fun t ht => hP t ((hsub hpre).subset ht))
      (hsorted.sublist (hsub hpre))
    exact hcases.imp_right fun ⟨retry, hretry, hanswer, _⟩ => ⟨retry, hretry, hanswer⟩
  · intro before key now retry others later hpre hothers hanswer hlater
    have hhead : before ++ [(key, now)] <+: calls := by
      refine List.IsPrefix.trans ⟨others ++ [(key, later)], ?_⟩ hpre
      simp
    obtain hallowed | ⟨_, -, htold, hnext⟩ := answer_cases hticks hlimit
      (fun t ht => hP t ((hsub hhead).subset ht)) (hsorted.sublist (hsub hhead))
    · cases hallowed.symm.trans hanswer
    · cases htold.symm.trans hanswer
      exact hnext others later hothers (hP later ((hsub hpre).subset (by simp))) hlater
        (hsorted.sublist (hsub hpre))

/-- Two clients within a minute, in doubles. -/
def minute : Calls := [("a", 0), ("a", 59), ("b", 59), ("a", 61)]

theorem rate_limited_minute :
    (allowedIn "a" (fun t => 0 ≤ t && t < 0 + 60) (checks binary64 1 60 minute) : Int) ≤ 2 * 1 ∧
      answerAfter binary64 1 60 [("a", 0), ("a", 59), ("b", 59)] "a" 61 = .ok (true, 0) := by
  have hreading : ∀ n : Nat, n ≤ 61 → IsReading (n : Rat) := by
    intro n hn
    exact ⟨by positivity, PyFloat.ofInt_exact (i := (n : Int)) (by omega)⟩
  have hclock : Clock 60 (minute.map Prod.snd) binary64 := by
    refine .double (hreading 60 (by norm_num)) (by norm_num) ?_
    intro t ht
    obtain ⟨n, hn, rfl⟩ : ∃ n : Nat, n ≤ 61 ∧ t = (n : Rat) := by
      simp only [minute, List.map_cons, List.map_nil, List.mem_cons, List.not_mem_nil, or_false] at ht
      rcases ht with rfl | rfl | rfl | rfl
      · exact ⟨0, by norm_num, by norm_num⟩
      · exact ⟨59, by norm_num, by norm_num⟩
      · exact ⟨59, by norm_num, by norm_num⟩
      · exact ⟨61, by norm_num, by norm_num⟩
    exact hreading n hn
  have hsorted : (minute.map Prod.snd).Pairwise (· ≤ ·) := by
    norm_num [minute]
  obtain ⟨-, hinterval, -, -, -, hwait⟩ := rate_limited le_rfl hclock hsorted
  refine ⟨(hinterval "a" 0).1, hwait [("a", 0)] "a" 59 2 [("b", 59)] 61 List.prefix_rfl (by simp) ?_ (by norm_num)⟩
  decide +kernel

end OneCompute.Orchestrator
