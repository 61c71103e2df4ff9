import Mathlib.Order.Lattice
import Mathlib.Data.List.Basic

/-!
A counter that admits a bounded number of calls in each of its windows, where a window
opens with the first call after the last one is over.
-/

/-- How many calls a window admits, and whether one that opened at a time is over. -/
structure FixedWindow (T : Type) where
  limit : Int
  expired : T → T → Bool

namespace FixedWindow

/-- The window that is kept: when it opened, and how many calls it has admitted. -/
abbrev Slot (T : Type) := Option (T × Nat)

/-- A call with the window it falls in, the calls that this has admitted before, and
whether the call opens it. -/
structure Met (T : Type) where
  time : T
  start : T
  count : Nat
  opened : Bool

variable {T : Type} (w : FixedWindow T)

def meet : Slot T → T → Met T
  | none, now => ⟨now, now, 0, true⟩
  | some (start, count), now =>
      if w.expired start now then ⟨now, now, 0, true⟩ else ⟨now, start, count, false⟩

def admits (m : Met T) : Bool := (m.count : Int) < w.limit

def next (slot : Slot T) (now : T) : Slot T :=
  if w.admits (w.meet slot now) then some ((w.meet slot now).start, (w.meet slot now).count + 1)
  else slot

def run : Slot T → List T → List (Met T)
  | _, [] => []
  | slot, now :: rest => w.meet slot now :: run (w.next slot now) rest

def after (slot : Slot T) (times : List T) : Slot T := times.foldl w.next slot

/-- How many of the calls are admitted. -/
def admitted (met : List (Met T)) : Nat := met.countP w.admits

variable {w} {slot : Slot T} {start now : T} {n : Nat} {times : List T}

@[simp] theorem run_nil : w.run slot [] = [] := rfl

@[simp] theorem run_cons : w.run slot (now :: times) =
    w.meet slot now :: w.run (w.next slot now) times := rfl

@[simp] theorem admitted_nil : w.admitted ([] : List (Met T)) = 0 := rfl

theorem admitted_cons (m : Met T) (met : List (Met T)) :
    w.admitted (m :: met) = w.admitted met + if w.admits m then 1 else 0 :=
  List.countP_cons

theorem meet_time (slot : Slot T) (now : T) : (w.meet slot now).time = now := by
  cases slot with
  | none => rfl
  | some s =>
      simp only [meet]
      split <;> rfl

theorem meet_expired (h : w.expired start now = true) :
    w.meet (some (start, n)) now = ⟨now, now, 0, true⟩ := by
  simp [meet, h]

theorem meet_going (h : w.expired start now = false) :
    w.meet (some (start, n)) now = ⟨now, start, n, false⟩ := by
  simp [meet, h]

theorem admits_opened (h : 1 ≤ w.limit) (t : T) : w.admits ⟨t, t, 0, true⟩ = true := by
  simp only [admits, decide_eq_true_eq]
  omega

/-- A call that is refused falls in a full window that goes on, and leaves it as it is. -/
theorem refused (hlimit : 1 ≤ w.limit) (h : w.admits (w.meet slot now) = false) :
    ∃ start n, slot = some (start, n) ∧ w.expired start now = false ∧
      w.meet slot now = ⟨now, start, n, false⟩ ∧ w.next slot now = slot := by
  have hnext : w.next slot now = slot := by simp [next, h]
  cases slot with
  | none => simp [meet, admits_opened hlimit] at h
  | some s =>
      obtain ⟨start, n⟩ := s
      cases hexpired : w.expired start now with
      | true => simp [meet, hexpired, admits_opened hlimit] at h
      | false => exact ⟨start, n, rfl, hexpired, meet_going hexpired, hnext⟩

/-! ## Windows -/

/-- A window has not admitted more than it may. -/
def Within (w : FixedWindow T) (slot : Slot T) : Prop := ∀ s ∈ slot, (s.2 : Int) ≤ w.limit

theorem within_none : w.Within none := by simp [Within]

theorem Within.next (h : w.Within slot) : w.Within (w.next slot now) := by
  unfold FixedWindow.next
  split
  next hadmits =>
    have hlt : ((w.meet slot now).count : Int) < w.limit := by simpa [admits] using hadmits
    simpa [Within] using Int.add_one_le_of_lt hlt
  next => exact h

theorem Within.after (h : w.Within slot) : w.Within (w.after slot times) := by
  induction times generalizing slot with
  | nil => exact h
  | cons t times ih => exact ih h.next

/-- The calls of a window that goes on, together with those it has admitted before. -/
theorem admitted_going (hcount : (n : Int) ≤ w.limit)
    (h : ∀ m ∈ w.run (some (start, n)) times, m.opened = false) :
    ((w.admitted (w.run (some (start, n)) times) + n : Nat) : Int) ≤ w.limit := by
  induction times generalizing n with
  | nil => simpa using hcount
  | cons t times ih =>
      simp only [run_cons, List.forall_mem_cons] at h
      have hgoing : w.expired start t = false := by
        by_contra hexpired
        simp [meet_expired (Bool.not_eq_false _ ▸ hexpired)] at h
      rw [run_cons, admitted_cons]
      rw [next, meet_going hgoing] at h ⊢
      by_cases hadmits : w.admits ⟨t, start, n, false⟩ = true
      · have hlt : (n : Int) < w.limit := by simpa [admits] using hadmits
        rw [if_pos hadmits] at h ⊢
        have hrest := ih (by push_cast; omega) h.2
        rw [if_pos hadmits]
        dsimp only at hrest ⊢
        omega
      · rw [if_neg hadmits] at h ⊢
        have := ih hcount h.2
        rw [if_neg hadmits]
        omega

/-- Calls of which only the first may open a window. -/
theorem admitted_window (hlimit : 1 ≤ w.limit) (hslot : w.Within slot)
    (h : ∀ m ∈ (w.run slot times).tail, m.opened = false) :
    (w.admitted (w.run slot times) : Int) ≤ w.limit := by
  cases times with
  | nil => simpa using (by omega : (0 : Int) ≤ w.limit)
  | cons t times =>
      simp only [run_cons, List.tail_cons] at h
      rw [run_cons, admitted_cons]
      by_cases hadmits : w.admits (w.meet slot t) = true
      · have hlt : ((w.meet slot t).count : Int) < w.limit := by simpa [admits] using hadmits
        rw [next, if_pos hadmits] at h ⊢
        have := admitted_going (by omega) h
        rw [if_pos hadmits]
        omega
      · obtain ⟨start, n, rfl, -, -, hnext⟩ := refused hlimit (by simpa using hadmits)
        rw [hnext] at h ⊢
        have hgoing := admitted_going (hslot (start, n) rfl) h
        dsimp only at hgoing
        rw [if_neg hadmits]
        omega

theorem run_take (n : Nat) : (w.run slot times).take n = w.run slot (times.take n) := by
  induction n generalizing slot times with
  | zero => simp
  | succ n ih => cases times <;> simp [ih]

theorem run_drop (n : Nat) :
    (w.run slot times).drop n = w.run (w.after slot (times.take n)) (times.drop n) := by
  induction n generalizing slot times with
  | zero => simp [after]
  | succ n ih => cases times <;> simp [ih, after]

/-- Of a part of a run in which only its first call may open a window, a window's calls
are admitted at most. -/
theorem admitted_infix (hlimit : 1 ≤ w.limit) (hslot : w.Within slot) {part : List (Met T)}
    (hpart : part <:+: w.run slot times) (h : ∀ m ∈ part.tail, m.opened = false) :
    (w.admitted part : Int) ≤ w.limit := by
  obtain ⟨pre, post, hsplit⟩ := hpart
  have htaken : part = ((w.run slot times).drop pre.length).take part.length := by
    simp [← hsplit]
  rw [run_drop, run_take] at htaken
  rw [htaken] at h ⊢
  exact admitted_window hlimit hslot.after h

/-! ## Any interval of a window's length -/

theorem unopened_of {start : T} (h : ∀ t ∈ times, w.expired start t = false) :
    ∀ m ∈ w.run (some (start, n)) times, m.opened = false := by
  induction times generalizing n with
  | nil => simp
  | cons t times ih =>
      obtain ⟨ht, htimes⟩ := List.forall_mem_cons.mp h
      rw [run_cons, next, meet_going ht, List.forall_mem_cons]
      refine ⟨rfl, ?_⟩
      split
      · exact ih htimes
      · exact ih htimes

/-- Of the calls in a window that goes on, as many are admitted as it has left. -/
theorem admitted_left {start : T} (hn : (n : Int) ≤ w.limit)
    (h : ∀ t ∈ times, w.expired start t = false) :
    (w.admitted (w.run (some (start, n)) times) : Int) = min (w.limit - n) times.length := by
  induction times generalizing n with
  | nil =>
      simp only [run_nil, admitted_nil, List.length_nil]
      omega
  | cons t times ih =>
      obtain ⟨ht, htimes⟩ := List.forall_mem_cons.mp h
      rw [run_cons, admitted_cons, next, meet_going ht]
      by_cases hadmits : w.admits ⟨t, start, n, false⟩ = true
      · have hlt : (n : Int) < w.limit := by simpa [admits] using hadmits
        have hrest := ih (n := n + 1) (by push_cast; omega) htimes
        rw [if_pos hadmits, if_pos hadmits]
        push_cast at hrest ⊢
        rw [hrest, List.length_cons]
        push_cast
        omega
      · have hfull : w.limit ≤ n := by simpa [admits] using hadmits
        rw [if_neg hadmits, if_neg hadmits, Nat.add_zero, ih hn htimes, List.length_cons]
        push_cast
        omega

/-- Of calls that all fall in the window of the first, the limit is admitted, or all. -/
theorem admitted_single (hlimit : 1 ≤ w.limit)
    (h : times.Pairwise fun s t => w.expired s t = false) :
    (w.admitted (w.run none times) : Int) = min w.limit times.length := by
  cases times with
  | nil =>
      simp only [run_nil, admitted_nil, List.length_nil]
      omega
  | cons t times =>
      have hrest := admitted_left (w := w) (n := 1) (by simpa using hlimit) (List.pairwise_cons.mp h).1
      rw [run_cons, admitted_cons, next, meet, if_pos (admits_opened hlimit t),
        if_pos (admits_opened hlimit t)]
      push_cast at hrest ⊢
      rw [hrest, List.length_cons]
      push_cast
      omega

/-- The windows were opened at times of the kind `P`. -/
def OpenedAt (P : T → Prop) (slot : Slot T) : Prop := ∀ s ∈ slot, P s.1

theorem OpenedAt.next {P : T → Prop} (h : OpenedAt P slot) (hnow : P now) :
    OpenedAt P (w.next slot now) := by
  unfold FixedWindow.next
  split
  · cases slot with
    | none => simpa [OpenedAt, meet] using hnow
    | some s =>
        have hs : P s.1 := h s rfl
        cases hexpired : w.expired s.1 now <;> simpa [OpenedAt, meet, hexpired]
  · exact h

theorem OpenedAt.after {P : T → Prop} (h : OpenedAt P slot) (htimes : ∀ t ∈ times, P t) :
    OpenedAt P (w.after slot times) := by
  induction times generalizing slot with
  | nil => exact h
  | cons t times ih =>
      obtain ⟨ht, htimes⟩ := List.forall_mem_cons.mp htimes
      exact ih (h.next ht) htimes

theorem run_filter_none {I : T → Bool} (h : ∀ t ∈ times, I t = false) :
    (w.run slot times).filter (fun m => I m.time) = [] := by
  induction times generalizing slot with
  | nil => rfl
  | cons t times ih =>
      obtain ⟨ht, htimes⟩ := List.forall_mem_cons.mp h
      simp [meet_time, ht, ih htimes]

section Interval
variable [LinearOrder T] {I : T → Bool} {P : T → Prop}

/-- An interval of times in which no window is over that opened there, but for one that
opened with the first of them. -/
structure Short (w : FixedWindow T) (P : T → Prop) (I : T → Bool) : Prop where
  convex : ∀ r s t, I r = true → I t = true → r ≤ s → s ≤ t → I s = true
  fresh : ∀ s, I s = true → w.expired s s = false
  going : ∀ q r s t, P q → P s → P t → I r = true → I s = true → I t = true → r < s → s ≤ t →
    w.expired q s = true → w.expired s t = false

theorem run_filter_of_mem (slot : Slot T)
    (hconvex : ∀ r s t, I r = true → I t = true → r ≤ s → s ≤ t → I s = true) {r : T}
    (hr : I r = true)
    (hsorted : (r :: times).Pairwise (· ≤ ·)) :
    (w.run slot times).filter (fun m => I m.time) = w.run slot (times.filter I) := by
  induction times generalizing slot r with
  | nil => rfl
  | cons t times ih =>
      obtain ⟨hr', hrest⟩ := List.pairwise_cons.mp hsorted
      cases ht : I t with
      | true => simp [meet_time, ht, ih _ ht hrest]
      | false =>
          have hout : ∀ u ∈ t :: times, I u = false := by
            intro u hu
            by_contra hin
            have htu : t ≤ u := by
              rcases List.mem_cons.mp hu with rfl | hu
              · exact le_rfl
              · exact (List.pairwise_cons.mp hrest).1 u hu
            have := hconvex r t u hr (by simpa using hin) (hr' t List.mem_cons_self) htu
            simp [this] at ht
          rw [run_filter_none hout, List.filter_eq_nil_iff.mpr fun u hu => by simp [hout u hu]]
          rfl

theorem run_filter (h : w.Short P I) (hsorted : times.Pairwise (· ≤ ·)) :
    (w.run slot times).filter (fun m => I m.time) =
      w.run (w.after slot (times.takeWhile fun t => !I t)) (times.filter I) := by
  induction times generalizing slot with
  | nil => rfl
  | cons t times ih =>
      cases ht : I t with
      | true => simp [meet_time, ht, after, run_filter_of_mem _ h.convex ht hsorted]
      | false => simp [meet_time, ht, after, ih (List.pairwise_cons.mp hsorted).2]

/-- At most one window opens after the first call of the interval. -/
theorem admitted_after (h : w.Short P I) (hlimit : 1 ≤ w.limit) {q r : T}
    (hcount : (n : Int) ≤ w.limit) (hq : P q) (hr : I r = true)
    (hlast : q = r ∨ w.expired q r = false) (htimes : ∀ t ∈ times, I t = true ∧ P t)
    (hsorted : (r :: times).Pairwise (· ≤ ·)) :
    ((w.admitted (w.run (some (q, n)) times) + n : Nat) : Int) ≤ 2 * w.limit := by
  induction times generalizing n r with
  | nil =>
      simp only [run_nil, admitted_nil, Nat.zero_add]
      omega
  | cons t times ih =>
      obtain ⟨hr', hrest⟩ := List.pairwise_cons.mp hsorted
      obtain ⟨⟨ht, hPt⟩, htimes⟩ := List.forall_mem_cons.mp htimes
      rw [run_cons, admitted_cons, next]
      cases hexpired : w.expired q t with
      | true =>
          have hne : r ≠ t := by
            rintro rfl
            rcases hlast with rfl | hgoing
            · simp [h.fresh q ht] at hexpired
            · simp [hgoing] at hexpired
          have hlt : r < t := lt_of_le_of_ne (hr' t List.mem_cons_self) hne
          have hgoing := admitted_going (w := w) (n := 1) (by simpa using hlimit)
            (unopened_of fun u hu => h.going q r t u hq hPt (htimes u hu).2 hr ht (htimes u hu).1
              hlt ((List.pairwise_cons.mp hrest).1 u hu) hexpired)
          rw [meet_expired hexpired, if_pos (admits_opened hlimit t), if_pos (admits_opened hlimit t)]
          simp only [Nat.zero_add]
          omega
      | false =>
          rw [meet_going hexpired]
          by_cases hadmits : w.admits ⟨t, q, n, false⟩ = true
          · have hlt : (n : Int) < w.limit := by simpa [admits] using hadmits
            have hnext := ih (n := n + 1) (by push_cast; omega) ht (.inr hexpired) htimes hrest
            rw [if_pos hadmits, if_pos hadmits]
            dsimp only at hnext ⊢
            omega
          · have hnext := ih hcount ht (.inr hexpired) htimes hrest
            rw [if_neg hadmits, if_neg hadmits]
            omega

/-- Two windows' calls are admitted in a short interval at most. -/
theorem admitted_interval (h : w.Short P I) (hlimit : 1 ≤ w.limit) (hslot : w.Within slot)
    (hopened : OpenedAt P slot) (hP : ∀ t ∈ times, P t) (hsorted : times.Pairwise (· ≤ ·)) :
    (w.admitted ((w.run slot times).filter fun m => I m.time) : Int) ≤ 2 * w.limit := by
  have hbefore : ∀ t ∈ times.takeWhile fun t => !I t, P t :=
    fun t ht => hP t ((List.takeWhile_prefix _).subset ht)
  rw [run_filter h hsorted]
  generalize hstart : w.after slot (times.takeWhile fun t => !I t) = start
  have hwithin : w.Within start := hstart ▸ hslot.after
  have hstartP : OpenedAt P start := hstart ▸ hopened.after hbefore
  have hinside : ∀ t ∈ times.filter I, I t = true ∧ P t := by
    intro t ht
    obtain ⟨hmem, hI⟩ := List.mem_filter.mp ht
    exact ⟨hI, hP t hmem⟩
  have hfiltered := hsorted.filter I
  cases hts : times.filter I with
  | nil => simpa using (by omega : (0 : Int) ≤ 2 * w.limit)
  | cons t rest =>
      rw [hts] at hinside hfiltered
      obtain ⟨⟨ht, hPt⟩, hrest⟩ := List.forall_mem_cons.mp hinside
      have hopens : ((w.admitted (w.run (some (t, 1)) rest) + 1 : Nat) : Int) ≤ 2 * w.limit :=
        admitted_after h hlimit (by simpa using hlimit) hPt ht (.inl rfl) hrest hfiltered
      rw [run_cons, admitted_cons, next]
      cases start with
      | none =>
          rw [meet, if_pos (admits_opened hlimit t), if_pos (admits_opened hlimit t)]
          exact hopens
      | some s =>
          obtain ⟨q, n⟩ := s
          have hcount : (n : Int) ≤ w.limit := hwithin _ rfl
          cases hexpired : w.expired q t with
          | true =>
              rw [meet_expired hexpired, if_pos (admits_opened hlimit t),
                if_pos (admits_opened hlimit t)]
              exact hopens
          | false =>
              have hgoing : ∀ n : Nat, (n : Int) ≤ w.limit →
                  ((w.admitted (w.run (some (q, n)) rest) + n : Nat) : Int) ≤ 2 * w.limit :=
                fun n hn => admitted_after h hlimit hn (hstartP _ rfl) ht (.inr hexpired) hrest hfiltered
              rw [meet_going hexpired]
              by_cases hadmits : w.admits ⟨t, q, n, false⟩ = true
              · have hlt : (n : Int) < w.limit := by simpa [admits] using hadmits
                have := hgoing (n + 1) (by push_cast; omega)
                rw [if_pos hadmits, if_pos hadmits]
                dsimp only
                omega
              · have := hgoing n hcount
                rw [if_neg hadmits, if_neg hadmits]
                omega

end Interval

/-! ## One slot for each key -/

section Keyed
variable {K : Type} [DecidableEq K]

def nextKeyed (w : FixedWindow T) (slots : K → Slot T) (call : K × T) : K → Slot T :=
  Function.update slots call.1 (w.next (slots call.1) call.2)

def runKeyed (w : FixedWindow T) : (K → Slot T) → List (K × T) → List (K × Met T)
  | _, [] => []
  | slots, call :: rest =>
      (call.1, w.meet (slots call.1) call.2) :: w.runKeyed (w.nextKeyed slots call) rest

def afterKeyed (w : FixedWindow T) (slots : K → Slot T) (calls : List (K × T)) : K → Slot T :=
  calls.foldl w.nextKeyed slots

/-- The times of the calls on a key. -/
def timesOf (key : K) (calls : List (K × T)) : List T :=
  (calls.filter fun call => call.1 = key).map Prod.snd

theorem timesOf_cons (key : K) (call : K × T) (calls : List (K × T)) :
    timesOf key (call :: calls) =
      if call.1 = key then call.2 :: timesOf key calls else timesOf key calls := by
  by_cases h : call.1 = key <;> simp [timesOf, h]

/-- A key's calls are met as if there were no others. -/
theorem runKeyed_filter (slots : K → Slot T) (calls : List (K × T)) (key : K) :
    (w.runKeyed slots calls).filter (fun m => m.1 = key) =
      (w.run (slots key) (timesOf key calls)).map (Prod.mk key) := by
  induction calls generalizing slots with
  | nil => rfl
  | cons call calls ih =>
      rw [timesOf_cons]
      by_cases h : call.1 = key
      · subst h
        simp [runKeyed, ih, nextKeyed]
      · simp [runKeyed, ih, nextKeyed, h, Function.update_of_ne (Ne.symm h)]

theorem afterKeyed_apply (slots : K → Slot T) (calls : List (K × T)) (key : K) :
    w.afterKeyed slots calls key = w.after (slots key) (timesOf key calls) := by
  induction calls generalizing slots with
  | nil => rfl
  | cons call calls ih =>
      have hstep : w.afterKeyed slots (call :: calls) = w.afterKeyed (w.nextKeyed slots call) calls :=
        rfl
      rw [hstep, ih, timesOf_cons]
      by_cases h : call.1 = key
      · subst h
        simp [after, nextKeyed]
      · simp [after, nextKeyed, h, Function.update_of_ne (Ne.symm h)]

end Keyed

/-! ## Windows that are dropped -/

section Dropping
variable [Preorder T] {a b : Slot T}

/-- Two slots that no later call tells apart. -/
def Alike (w : FixedWindow T) (now : T) (a b : Slot T) : Prop :=
  ∀ t, now ≤ t → w.meet a t = w.meet b t

theorem Alike.refl (now : T) (a : Slot T) : w.Alike now a a := fun _ _ => rfl

theorem Alike.mono {now later : T} (h : w.Alike now a b) (hle : now ≤ later) : w.Alike later a b :=
  fun t ht => h t (hle.trans ht)

theorem Alike.next {now t : T} (h : w.Alike now a b) (ht : now ≤ t) :
    w.Alike t (w.next a t) (w.next b t) := by
  unfold FixedWindow.next
  rw [h t ht]
  split
  · exact Alike.refl t _
  · exact h.mono ht

/-- A window that is over may as well be gone. -/
theorem alike_none {start now : T} (h : ∀ t, now ≤ t → w.expired start t = true) (n : Nat) :
    w.Alike now none (some (start, n)) :=
  fun t ht => by rw [meet_expired (h t ht), meet]

end Dropping

end FixedWindow
