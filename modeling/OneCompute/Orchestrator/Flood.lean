import OneCompute.Lib.Lists
import OneCompute.Lib.PyText
import OneCompute.Orchestrator.RateLimit

/-!
The middleware that limits the requests of a client before anything is authenticated, and
what it lets through of one source: the client is told by a header that the source chooses.
-/

namespace OneCompute.Orchestrator
open PyNumber (Rounding exact binary64)
open FixedWindow (timesOf)

/-- What the middleware reads of a request, and when it comes. -/
structure Request where
  host : Option String
  authorization : Option String
  time : Rat

/-- The worker token when a bearer header is present, else the address. -/
def clientKey (request : Request) : String :=
  let auth := request.authorization.getD ""
  if PyText.startsWith (PyText.lower auth) "bearer " then
    "tok:" ++ PyText.strip (String.ofList (auth.toList.drop 7))
  else "ip:" ++ request.host.getD "unknown"

def rateWindow : Rat := 60

/-- Each request, and whether the middleware passes it on to the handlers. -/
def enforceRateLimit (R : Rounding) : RateLimiter → List Request → List (Request × Bool)
  | _, [] => []
  | l, request :: rest =>
      (request, isAllowed (l.check R (clientKey request) (.fin request.time)).1) ::
        enforceRateLimit R (l.check R (clientKey request) (.fin request.time)).2 rest

def served (R : Rounding) (limit : Int) (traffic : List Request) : List (Request × Bool) :=
  enforceRateLimit R (.new limit (.fin rateWindow)) traffic

/-- The first request of a source has come at `start`, and this one is in its window. -/
def inFirstWindow (source : Option String) (traffic : List Request) (request : Request) : Bool :=
  match traffic.find? fun other => other.host = source with
  | some first => request.host = source && request.time < first.time + rateWindow
  | none => false

def firstWindow (source : Option String) (traffic : List Request) : List Request :=
  traffic.filter (inFirstWindow source traffic)

/-- How many requests of a source are let through in the window of its first one. -/
def letThrough (R : Rounding) (limit : Int) (source : Option String) (traffic : List Request) : Nat :=
  (served R limit traffic).countP fun p => p.2 && inFirstWindow source traffic p.1

/-- A source sends no more than the limit, or always under the same key. -/
def OneClient (limit : Int) (source : Option String) (traffic : List Request) : Prop :=
  ((firstWindow source traffic).length : Int) ≤ limit ∨
    ∀ r ∈ firstWindow source traffic, ∀ r' ∈ firstWindow source traffic, clientKey r = clientKey r'

/-- The times of the requests: exact ones, or those that a clock shows from the first
minute on. -/
inductive Uptime (times : List Rat) : Rounding → Prop where
  | exact : Uptime times exact
  | double : (∀ t ∈ times, rateWindow ≤ t ∧ PyFloat.ofRat t = .fin t) → Uptime times binary64

/-- A source is told from the others by the keys of its requests. -/
def OwnKeys (source : Option String) (traffic : List Request) : Prop :=
  ∀ r ∈ traffic, ∀ r' ∈ traffic, clientKey r = clientKey r' → (r.host = source ↔ r'.host = source)

theorem isReading_rateWindow : IsReading rateWindow :=
  ⟨by norm_num [rateWindow], by decide +kernel⟩

variable {R : Rounding} {limit : Int} {source : Option String} {traffic : List Request} {key : String}

theorem Uptime.ticks {times : List Rat} (h : Uptime times R) : ∃ P, Ticks R rateWindow P := by
  cases h with
  | exact => exact ⟨_, exact_ticks rateWindow⟩
  | double => exact ⟨_, double_ticks isReading_rateWindow (by norm_num [rateWindow])⟩

theorem Uptime.going {times : List Rat} (h : Uptime times R) {s t : Rat} (hs : s ∈ times)
    (ht : t ∈ times) (hst : s ≤ t) (hclose : t - s < rateWindow) :
    isOver R rateWindow s t = false := by
  cases h with
  | exact => simp [isOver_exact, hclose]
  | double htimes =>
      have hpos : (0 : Rat) < rateWindow := by norm_num [rateWindow]
      have hreading : ∀ u ∈ times, IsReading u := fun u hu => ⟨hpos.le.trans (htimes u hu).1, (htimes u hu).2⟩
      exact double_going isReading_rateWindow hpos (hreading s hs) (hreading t ht) (htimes s hs).1 hst hclose

/-! ## The requests as calls -/

def callOf (request : Request) : String × Rat := (clientKey request, request.time)

theorem enforce_calls (l : RateLimiter) (traffic : List Request) :
    (enforceRateLimit R l traffic).map (fun p => (callOf p.1, p.2)) =
      (checkAll R (RateLimiter.check R) l (traffic.map callOf)).map
        fun c => ((c.key, c.now), c.allowed) := by
  induction traffic generalizing l with
  | nil => rfl
  | cons request traffic ih =>
      have hcall : callOf request = (clientKey request, request.time) := rfl
      rw [List.map_cons, enforceRateLimit, List.map_cons, ih, hcall, checkAll, List.map_cons]
      simp only [Checked.allowed]

theorem served_requests (l : RateLimiter) (traffic : List Request) :
    (enforceRateLimit R l traffic).map Prod.fst = traffic := by
  induction traffic generalizing l with
  | nil => rfl
  | cons request traffic ih => simp [enforceRateLimit, ih]

/-- How many requests under a key are let through before some time. -/
theorem served_key (inside : Rat → Bool) :
    (served R limit traffic).countP (fun p => clientKey p.1 = key && p.2 && inside p.1.time) =
      allowedIn key inside (checks R limit rateWindow (traffic.map callOf)) := by
  have hcalls := enforce_calls (R := R) (.new limit (.fin rateWindow)) traffic
  have hcount := congrArg (List.countP fun m => m.1.1 = key && m.2 && inside m.1.2) hcalls
  rw [List.countP_map, List.countP_map] at hcount
  simp only [Function.comp_def, callOf] at hcount
  rw [served, allowedIn, checks, hcount]

theorem timesOf_callOf (key : String) (traffic : List Request) :
    timesOf key (traffic.map callOf) =
      (traffic.filter fun request => clientKey request = key).map Request.time := by
  induction traffic with
  | nil => rfl
  | cons request traffic ih =>
      have hcons := FixedWindow.timesOf_cons key (callOf request) (traffic.map callOf)
      rw [List.map_cons, hcons, ih, List.filter_cons]
      by_cases hkey : clientKey request = key <;> simp [callOf, hkey]

theorem length_window (key : String) (stop : Rat) (traffic : List Request) :
    (((traffic.filter fun request => clientKey request = key).map Request.time).filter
        fun t => decide (t < stop)).length =
      traffic.countP fun r => clientKey r = key && decide (r.time < stop) := by
  rw [List.filter_map, List.length_map, List.filter_filter, ← List.countP_eq_length_filter]
  refine List.countP_congr fun r _ => ?_
  simp [and_comm]

/-- Under a key that only comes from `start` on, the limit is let through in the window from
there, or everything. -/
theorem served_window (key : String) (start : Rat) (hlimit : 1 ≤ limit)
    (hclock : Uptime (traffic.map Request.time) R)
    (hsorted : (traffic.map Request.time).Pairwise (· ≤ ·))
    (hstart : ∀ r ∈ traffic, clientKey r = key → start ≤ r.time) :
    ((served R limit traffic).countP (fun p => clientKey p.1 = key && p.2 &&
        decide (p.1.time < start + rateWindow)) : Int) =
      min limit (traffic.countP fun r => clientKey r = key && decide (r.time < start + rateWindow)) := by
  obtain ⟨P, hticks⟩ := hclock.ticks
  have htimes : (traffic.map callOf).map Prod.snd = traffic.map Request.time := by
    rw [List.map_map]
    rfl
  have hsub : ((traffic.filter fun request => clientKey request = key).map Request.time).Sublist
      (traffic.map Request.time) := List.filter_sublist.map _
  have hown : ∀ t ∈ (traffic.filter fun request => clientKey request = key).map Request.time,
      start ≤ t := by
    intro t ht
    obtain ⟨r, hr, rfl⟩ := List.mem_map.mp ht
    obtain ⟨hmem, hkey⟩ := List.mem_filter.mp hr
    exact hstart r hmem (by simpa using hkey)
  have hinside : decide (start < start + rateWindow) = true := by
    simp [rateWindow]
  have hconvex : ∀ r s t, decide (r < start + rateWindow) = true → decide (t < start + rateWindow) = true →
      r ≤ s → s ≤ t → decide (s < start + rateWindow) = true := by
    intro r s t _ ht _ hst
    rw [decide_eq_true_eq] at ht ⊢
    exact hst.trans_lt ht
  have hfilter := FixedWindow.run_filter_of_mem (w := windows R limit rateWindow) none hconvex
    hinside (List.pairwise_cons.mpr ⟨hown, hsorted.sublist hsub⟩)
  rw [served_key (fun t => decide (t < start + rateWindow)), allowedIn_checks hticks (htimes ▸ hsorted),
    timesOf_callOf, hfilter, FixedWindow.admitted_single hlimit ?_]
  · rw [length_window, windows_limit]
  · refine List.Pairwise.imp_of_mem ?_ ((hsorted.sublist hsub).filter _)
    intro s t hs ht hst
    obtain ⟨hs, -⟩ := List.mem_filter.mp hs
    obtain ⟨ht, htin⟩ := List.mem_filter.mp ht
    have hlate := hown s hs
    rw [decide_eq_true_eq] at htin
    exact hclock.going (hsub.subset hs) (hsub.subset ht) hst (by linarith)

/-! ## A source -/

section Source
variable {first : Request}

theorem inFirstWindow_iff (hfirst : traffic.find? (fun other => other.host = source) = some first)
    {r : Request} : inFirstWindow source traffic r = true ↔
      r.host = source ∧ r.time < first.time + rateWindow := by
  simp [inFirstWindow, hfirst]

theorem first_earliest (hsorted : (traffic.map Request.time).Pairwise (· ≤ ·))
    (hfirst : traffic.find? (fun other => other.host = source) = some first) {r : Request}
    (hr : r ∈ traffic) (hhost : r.host = source) : first.time ≤ r.time := by
  induction traffic with
  | nil => cases hr
  | cons request traffic ih =>
      obtain ⟨hle, hrest⟩ := List.pairwise_cons.mp hsorted
      by_cases hown : request.host = source
      · rw [List.find?_cons_of_pos (by simpa using hown)] at hfirst
        cases hfirst
        rcases List.mem_cons.mp hr with rfl | hr
        · exact le_rfl
        · exact hle _ (List.mem_map_of_mem hr)
      · rw [List.find?_cons_of_neg (by simpa using hown)] at hfirst
        rcases List.mem_cons.mp hr with rfl | hr
        · exact absurd hhost hown
        · exact ih hrest hfirst hr

/-- Of the requests under one of the source's keys, the limit is let through, or all. -/
theorem letThrough_key (hlimit : 1 ≤ limit) (hclock : Uptime (traffic.map Request.time) R)
    (hsorted : (traffic.map Request.time).Pairwise (· ≤ ·)) (hkeys : OwnKeys source traffic)
    (hfirst : traffic.find? (fun other => other.host = source) = some first)
    {r : Request} (hr : r ∈ firstWindow source traffic) :
    ((served R limit traffic).countP (fun p => clientKey p.1 = clientKey r && p.2 &&
        inFirstWindow source traffic p.1) : Int) =
      min limit ((firstWindow source traffic).countP fun other => clientKey other = clientKey r) := by
  obtain ⟨hmem, hin⟩ := List.mem_filter.mp hr
  have hhost := ((inFirstWindow_iff hfirst).mp hin).1
  have hown : ∀ other ∈ traffic, clientKey other = clientKey r → other.host = source :=
    fun other hother hkey => (hkeys other hother r hmem hkey).mpr hhost
  have hwindow : ∀ other ∈ traffic, clientKey other = clientKey r →
      (inFirstWindow source traffic other = true ↔ other.time < first.time + rateWindow) := by
    intro other hother hkey
    rw [inFirstWindow_iff hfirst, and_iff_right (hown other hother hkey)]
  have hserved := served_window (R := R) (clientKey r) first.time hlimit hclock hsorted
    fun other hother hkey => first_earliest hsorted hfirst hother (hown other hother hkey)
  have hleft : (served R limit traffic).countP (fun p => clientKey p.1 = clientKey r && p.2 &&
      inFirstWindow source traffic p.1) = (served R limit traffic).countP (fun p =>
        clientKey p.1 = clientKey r && p.2 && decide (p.1.time < first.time + rateWindow)) := by
    refine List.countP_congr fun p hp => ?_
    have hmem : p.1 ∈ traffic := by
      rw [← served_requests (R := R) (.new limit (.fin rateWindow)) traffic]
      exact List.mem_map_of_mem hp
    simp only [Bool.and_eq_true, decide_eq_true_eq]
    exact and_congr_right fun h => hwindow p.1 hmem h.1
  have hright : (firstWindow source traffic).countP (fun other => clientKey other = clientKey r) =
      traffic.countP fun other => clientKey other = clientKey r &&
        decide (other.time < first.time + rateWindow) := by
    rw [firstWindow, List.countP_filter]
    refine List.countP_congr fun other hother => ?_
    simp only [Bool.and_eq_true, decide_eq_true_eq]
    exact and_congr_right fun h => hwindow other hother h
  rw [hleft, hright, hserved]

/-- The requests that are served are those of the traffic. -/
theorem served_countP (R : Rounding) (limit : Int) (traffic : List Request) (p : Request → Bool) :
    (served R limit traffic).countP (fun q => p q.1) = traffic.countP p := by
  have hrequests := served_requests (R := R) (.new limit (.fin rateWindow)) traffic
  have hcount := congrArg (List.countP p) hrequests
  rwa [List.countP_map] at hcount

theorem served_mem (p : Request × Bool) (hp : p ∈ served R limit traffic) : p.1 ∈ traffic := by
  have hrequests := served_requests (R := R) (.new limit (.fin rateWindow)) traffic
  exact hrequests ▸ List.mem_map_of_mem hp

/-- Two keys of which one has been let through up to the limit. -/
theorem exceeds_of_full (hlimit : 1 ≤ limit) (hclock : Uptime (traffic.map Request.time) R)
    (hsorted : (traffic.map Request.time).Pairwise (· ≤ ·)) (hkeys : OwnKeys source traffic)
    (hfirst : traffic.find? (fun other => other.host = source) = some first) {r r' : Request}
    (hr : r ∈ firstWindow source traffic) (hr' : r' ∈ firstWindow source traffic)
    (hne : clientKey r' ≠ clientKey r)
    (hfull : limit ≤ (firstWindow source traffic).countP fun other => clientKey other = clientKey r) :
    limit < letThrough R limit source traffic := by
  have hone := letThrough_key hlimit hclock hsorted hkeys hfirst hr
  have hother := letThrough_key hlimit hclock hsorted hkeys hfirst hr'
  have hsome : 0 < (firstWindow source traffic).countP fun other => clientKey other = clientKey r' :=
    List.countP_pos_iff.mpr ⟨r', hr', by simp⟩
  unfold letThrough
  generalize served R limit traffic = done at *
  have hsplit := Lists.countP_split (fun p : Request × Bool => p.2 && inFirstWindow source traffic p.1)
    (fun p => clientKey p.1 = clientKey r) done
  have hrest : done.countP (fun p => clientKey p.1 = clientKey r' && p.2 &&
      inFirstWindow source traffic p.1) ≤ done.countP fun p =>
        !decide (clientKey p.1 = clientKey r) && (p.2 && inFirstWindow source traffic p.1) := by
    refine List.countP_mono_left fun p _ hp => ?_
    simp only [Bool.and_eq_true, decide_eq_true_eq, Bool.not_eq_true', decide_eq_false_iff_not] at hp ⊢
    exact ⟨fun h => hne (hp.1.1.symm.trans h), hp.1.2, hp.2⟩
  simp only [← Bool.and_assoc] at hsplit hrest
  omega

/-- As long as no key has reached the limit, everything is let through. -/
theorem all_let_through (hlimit : 1 ≤ limit) (hclock : Uptime (traffic.map Request.time) R)
    (hsorted : (traffic.map Request.time).Pairwise (· ≤ ·)) (hkeys : OwnKeys source traffic)
    (hfirst : traffic.find? (fun other => other.host = source) = some first)
    (hbelow : ∀ r ∈ firstWindow source traffic,
      ((firstWindow source traffic).countP (fun other => clientKey other = clientKey r) : Int) < limit) :
    letThrough R limit source traffic = (firstWindow source traffic).length := by
  have hlet := fun r => letThrough_key hlimit hclock hsorted hkeys hfirst (r := r)
  have hcount := served_countP R limit traffic
  have hmem : ∀ p ∈ served R limit traffic, p.1 ∈ traffic := served_mem
  unfold letThrough
  generalize served R limit traffic = done at *
  have hrefused : done.countP (fun p => !p.2 && inFirstWindow source traffic p.1) = 0 := by
    rw [List.countP_eq_zero]
    intro p hp hbad
    simp only [Bool.and_eq_true, Bool.not_eq_true'] at hbad
    have hin : p.1 ∈ firstWindow source traffic := List.mem_filter.mpr ⟨hmem p hp, hbad.2⟩
    have hkey := hcount fun other => clientKey other = clientKey p.1 && inFirstWindow source traffic other
    have hsplit := Lists.countP_split (fun q : Request × Bool => clientKey q.1 = clientKey p.1 &&
      inFirstWindow source traffic q.1) Prod.snd done
    have hpos : 0 < done.countP fun q : Request × Bool =>
        !q.2 && (decide (clientKey q.1 = clientKey p.1) && inFirstWindow source traffic q.1) :=
      List.countP_pos_iff.mpr ⟨p, hp, by simp [hbad]⟩
    have hwindow : (firstWindow source traffic).countP (fun other => clientKey other = clientKey p.1) =
        traffic.countP fun other => clientKey other = clientKey p.1 &&
          inFirstWindow source traffic other := List.countP_filter
    have hcomm : done.countP (fun q => clientKey q.1 = clientKey p.1 && q.2 &&
        inFirstWindow source traffic q.1) = done.countP fun q => q.2 &&
          (decide (clientKey q.1 = clientKey p.1) && inFirstWindow source traffic q.1) := by
      refine List.countP_congr fun q _ => ?_
      rw [Bool.and_comm (decide _) q.2, Bool.and_assoc]
    have hlt := hbelow p.1 hin
    have hall := hlet p.1 hin
    omega
  have hsplit := Lists.countP_split (fun p : Request × Bool => inFirstWindow source traffic p.1) Prod.snd done
  rw [hcount (inFirstWindow source traffic), hrefused, Nat.add_zero,
    List.countP_eq_length_filter] at hsplit
  exact hsplit.symm

end Source

theorem letThrough_le : letThrough R limit source traffic ≤ (firstWindow source traffic).length := by
  have hcount := served_countP R limit traffic (inFirstWindow source traffic)
  rw [firstWindow, ← List.countP_eq_length_filter, ← hcount]
  refine List.countP_mono_left fun p _ hp => ?_
  exact (Bool.and_eq_true_iff.mp hp).2

/-- What is let through of a source keeps to the limit exactly when the source sends no more
than that, or keeps its key. -/
theorem flood_bounded_iff (hlimit : 1 ≤ limit) (hclock : Uptime (traffic.map Request.time) R)
    (hsorted : (traffic.map Request.time).Pairwise (· ≤ ·)) (hkeys : OwnKeys source traffic) :
    (letThrough R limit source traffic : Int) ≤ limit ↔ OneClient limit source traffic := by
  have hle : letThrough R limit source traffic ≤ (firstWindow source traffic).length := letThrough_le
  cases hfirst : traffic.find? fun other => other.host = source with
  | none =>
      have hnone : firstWindow source traffic = [] :=
        List.filter_eq_nil_iff.mpr fun r _ => by simp [inFirstWindow, hfirst]
      rw [hnone, List.length_nil] at hle
      exact iff_of_true (by omega) (.inl (by rw [hnone, List.length_nil]; omega))
  | some first =>
      constructor
      · intro hbounded
        by_contra hmany
        obtain ⟨hlong, hkeysDiffer⟩ := not_or.mp hmany
        push Not at hkeysDiffer
        obtain ⟨r, hr, r', hr', hne⟩ := hkeysDiffer
        by_cases hfull : ∃ q ∈ firstWindow source traffic, limit ≤
            ((firstWindow source traffic).countP fun other => clientKey other = clientKey q : Nat)
        · obtain ⟨q, hq, hcount⟩ := hfull
          have hother : ∃ q' ∈ firstWindow source traffic, clientKey q' ≠ clientKey q := by
            by_cases hsame : clientKey r = clientKey q
            · exact ⟨r', hr', fun h => hne (hsame.trans h.symm)⟩
            · exact ⟨r, hr, hsame⟩
          obtain ⟨q', hq', hne'⟩ := hother
          have := exceeds_of_full hlimit hclock hsorted hkeys hfirst hq hq' hne' hcount
          omega
        · push Not at hfull
          have := all_let_through hlimit hclock hsorted hkeys hfirst hfull
          omega
      · rintro (hshort | hsame)
        · omega
        · cases hwindow : firstWindow source traffic with
          | nil =>
              rw [hwindow, List.length_nil] at hle
              omega
          | cons r rest =>
              have hr : r ∈ firstWindow source traffic := hwindow ▸ List.mem_cons_self
              have hlet := letThrough_key hlimit hclock hsorted hkeys hfirst hr
              have hall : letThrough R limit source traffic ≤
                  (served R limit traffic).countP fun p => clientKey p.1 = clientKey r && p.2 &&
                    inFirstWindow source traffic p.1 := by
                refine List.countP_mono_left fun p hp hpassed => ?_
                obtain ⟨hpass, hin⟩ := Bool.and_eq_true_iff.mp hpassed
                have hmem : p.1 ∈ firstWindow source traffic := List.mem_filter.mpr ⟨served_mem p hp, hin⟩
                simp [hpass, hin, hsame p.1 hmem r hr]
              omega

/-- A flood of one source under two tokens, neither of which any gate knows. -/
def bogusTokens : List Request :=
  [⟨some "203.0.113.7", some "Bearer x", 100⟩, ⟨some "203.0.113.7", some "Bearer y", 101⟩]

/-- A flood of one source that has no token, and a request of another. -/
def floodTraffic : List Request :=
  [⟨some "203.0.113.7", none, 100⟩, ⟨some "203.0.113.7", none, 101⟩,
    ⟨some "203.0.113.9", none, 101⟩, ⟨some "203.0.113.7", some "Basic x", 102⟩]

theorem flood_bounded_iff_floodTraffic :
    (letThrough binary64 2 (some "203.0.113.7") floodTraffic : Int) ≤ 2 ∧
      ¬ (letThrough binary64 1 (some "203.0.113.7") bogusTokens : Int) ≤ 1 := by
  constructor
  · have hclock : Uptime (floodTraffic.map Request.time) binary64 := .double (by decide +kernel)
    have hkeys : OwnKeys (some "203.0.113.7") floodTraffic := by
      unfold OwnKeys
      decide +kernel
    apply (flood_bounded_iff (by decide) hclock (by decide +kernel) hkeys).mpr
    unfold OneClient
    decide +kernel
  · have hclock : Uptime (bogusTokens.map Request.time) binary64 := .double (by decide +kernel)
    have hkeys : OwnKeys (some "203.0.113.7") bogusTokens := by
      unfold OwnKeys
      decide +kernel
    intro hbounded
    have hone := (flood_bounded_iff (by decide) hclock (by decide +kernel) hkeys).mp hbounded
    revert hone
    unfold OneClient
    decide +kernel

/-- Two tokens that are not known take a source past a limit of one. -/
theorem flood_not_bounded :
    ¬ ∀ (limit : Int) (tokens : List String) (source : Option String) (traffic : List Request),
      1 ≤ limit → (traffic.map Request.time).Pairwise (· ≤ ·) →
      (∀ r ∈ traffic, r.host = source ∧ ∀ token ∈ tokens, r.authorization ≠ some ("Bearer " ++ token)) →
      (letThrough binary64 limit source traffic : Int) ≤ limit := by
  intro h
  have hbound := h 1 ["secret"] (some "203.0.113.7") bogusTokens le_rfl (by decide +kernel) (by decide +kernel)
  revert hbound
  decide +kernel

end OneCompute.Orchestrator
