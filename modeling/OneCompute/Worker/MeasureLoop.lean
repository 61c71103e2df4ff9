import OneCompute.Worker.Measured
import OneCompute.Worker.Restart

/-!
The loop of a device that only measures. It saves the profile about every minute and uploads
a summary about every five, and whatever fails in between, the fleet is never told of more
than the file holds.
-/

namespace OneCompute.Worker
open PyFloat (pyMax)
open PyNumber (Rounding)

/-- How a call ends: it returns, raises, or is cut short by a keyboard interrupt. -/
inductive CallEnd (α : Type) where
  | returned (a : α)
  | raised
  | stopped
  deriving DecidableEq

structure MeasureConfig where
  workerId : String
  hasGpu : Bool := false
  deviceClass : MeasurementDeviceClass := .unknown
  interval : PyFloat
  once : Bool := false
  upload : Bool := true

/-- The checks of the interval, and what is used of it. -/
def measureInterval (once : Bool) (interval : PyFloat) : Except String PyFloat :=
  if interval.isFinite = false then .error "measurement interval must be finite"
  else
    let interval := pyMax (.fin 0) interval
    if !once && interval.lt (.fin 5) then
      .error "continuous measurement interval must be at least 5 seconds"
    else if !once && PyFloat.lt (.fin 3600) interval then
      .error "continuous measurement interval must be at most 3600 seconds"
    else .ok interval

/-! ## What the surroundings do -/

structure Taken where
  sample : Sample
  sampledAt : PyFloat

/-- The readings of a turn. An interrupt may come after some of the steps that fold a sample
in, before it is counted. -/
inductive Sampling where
  | failed
  | taken (x : Taken)
  | stopped (x : Taken) (steps : Nat)

/-- What becomes of a save; an interrupt comes before or after the file is replaced. -/
inductive Disk where
  | written
  | failed
  | raised
  | stopped (replaced : Bool)

/-- What `report_profile` meets: no token, or a request that ends. -/
inductive Send where
  | unregistered
  | sent (answer : CallEnd Bool)

structure Contact where
  ready : CallEnd Bool
  send : Send

structure Turn where
  sampling : Sampling
  disk : Disk
  contact : Contact
  /-- An interrupt while printing or sleeping. -/
  stopped : Bool := false

/-- A request that left, and what the device learnt of it. -/
structure Post where
  samples : Nat
  report : ProfileReport
  answer : CallEnd Bool

structure Observer where
  startup : Startup := {}
  file : ProfileFile := .absent
  samples : Nat := 0
  lastUploadSample : Nat := 0
  posts : List Post := []

section Loop
variable (R : Rounding)

/-- `max(1, round(seconds / interval))`, and one without a pause. -/
def everySamples (seconds : Rat) (interval : PyFloat) : Except String Nat :=
  if PyFloat.lt (.fin 0) interval then
    match R.div (.fin seconds) interval with
    | .fin q => .ok (max 1 (PyFloat.roundHalfEven q).toNat)
    | _ => .error "OverflowError"
  else .ok 1

/-- A sample, then its time; `interval or 30.0` is what is expected. -/
def UsageProfiler.fold (interval : PyFloat) (p : UsageProfiler) (x : Taken) : UsageProfiler :=
  (p.record R x.sample).recordAvailability R x.sampledAt
    (if interval = .fin 0 then .fin 30 else interval)

def UsageProfiler.foldSteps (interval : PyFloat) (p : UsageProfiler) (x : Taken) :
    Nat → UsageProfiler
  | 0 => p
  | 1 => p.record R x.sample
  | _ => p.fold R interval x

/-- The profile after some samples. -/
def UsageProfiler.learnt (interval : PyFloat) (p : UsageProfiler) (xs : List Taken) :
    UsageProfiler := xs.foldl (UsageProfiler.fold R interval) p

/-- `save` gets as far as the file system: the profile was not left in place as corrupt, and
`json.dumps` takes its floats. -/
def Startup.savable (s : Startup) : Bool := !s.recoveryBlocked && s.profiler.toJson.finite

namespace Observer

def withProfiler (s : Observer) (p : UsageProfiler) : Observer :=
  { s with startup := { s.startup with profiler := p } }

def written (s : Observer) : Observer := { s with file := s.startup.save s.file }

/-- `_persist`. -/
def persist (s : Observer) : Disk → Observer × CallEnd Bool
  | .written => (s.written, .returned s.startup.savable)
  | .failed => (s, .returned false)
  | .raised => (s, .raised)
  | .stopped true => (s.written, .stopped)
  | .stopped false => (s, .stopped)

variable (cfg : MeasureConfig) (interval : PyFloat) (saveEvery postEvery : Nat)

def reportProfile (s : Observer) : Send → Observer × CallEnd Bool
  | .unregistered => (s, .returned false)
  | .sent answer =>
      match Worker.reportProfile R cfg.workerId cfg.hasGpu cfg.deviceClass s.startup.profiler with
      | .error _ => (s, .returned false)
      | .ok body => ({ s with posts := s.posts ++ [⟨s.samples, body, answer⟩] }, answer)

/-- Enrolment is looked after first, whether or not an upload is due. -/
def uploadWhen (due : Bool) (s : Observer) (contact : Contact) : Observer × CallEnd Unit :=
  match contact.ready with
  | .returned true =>
      if due then
        match s.reportProfile R cfg contact.send with
        | (s, .returned true) => ({ s with lastUploadSample := s.samples }, .returned ())
        | (s, .returned false) => (s, .returned ())
        | (s, .raised) => (s, .raised)
        | (s, .stopped) => (s, .stopped)
      else (s, .returned ())
  | .returned false => (s, .returned ())
  | .raised => (s, .raised)
  | .stopped => (s, .stopped)

def saveDue (saveEvery samples : Nat) : Bool := samples = 1 || samples % saveEvery = 0

def postDue (postEvery : Nat) (s : Observer) : Bool :=
  s.lastUploadSample = 0 || postEvery ≤ s.samples - s.lastUploadSample

def counted (s : Observer) (x : Taken) : Observer :=
  { s.withProfiler (s.startup.profiler.fold R interval x) with samples := s.samples + 1 }

/-- What follows a sample that was counted. -/
def saveAndPost (s : Observer) (t : Turn) : Observer × CallEnd Unit :=
  if saveDue saveEvery s.samples then
    match s.persist t.disk with
    | (s, .returned true) =>
        if cfg.upload then s.uploadWhen R cfg (s.postDue postEvery) t.contact
        else (s, .returned ())
    | (s, .returned false) => (s, .returned ())
    | (s, .raised) => (s, .raised)
    | (s, .stopped) => (s, .stopped)
  else (s, .returned ())

def turn (s : Observer) (t : Turn) : Observer × CallEnd Unit :=
  match t.sampling with
  | .failed => (s, .raised)
  | .stopped x steps =>
      (s.withProfiler (s.startup.profiler.foldSteps R interval x steps), .stopped)
  | .taken x => (s.counted R interval x).saveAndPost R cfg saveEvery postEvery t

/-- The turns so far, and whether the loop has ended: an exception does not end it. -/
def loop (s : Observer) : List Turn → Observer × Bool
  | [] => (s, false)
  | t :: ts =>
      match s.turn R cfg interval saveEvery postEvery t with
      | (s, .stopped) => (s, true)
      | (s, _) => if cfg.once || t.stopped then (s, true) else s.loop ts

/-- The `finally` clause. -/
def finish (s : Observer) (disk : Disk) (contact : Contact) : Observer × CallEnd Unit :=
  match s.persist disk with
  | (s, .returned persisted) =>
      if cfg.upload && persisted && decide (0 < s.samples) &&
          decide (s.lastUploadSample ≠ s.samples) then
        s.uploadWhen R cfg true contact
      else (s, .returned ())
  | (s, .raised) => (s, .raised)
  | (s, .stopped) => (s, .stopped)

end Observer

/-- The loop over some turns, with its final save and upload if it has ended by then. -/
def runMeasureLoop (cfg : MeasureConfig) (s : Observer) (turns : List Turn) (disk : Disk)
    (contact : Contact) : Except String Observer := do
  let interval ← measureInterval cfg.once cfg.interval
  let saveEvery ← everySamples R 60 interval
  let postEvery ← everySamples R 300 interval
  match s.loop R cfg interval saveEvery postEvery turns with
  | (s, false) => return s
  | (s, true) => return (s.finish R cfg disk contact).1

end Loop

/-! ## What one call leaves -/

namespace Observer
variable {R : Rounding} {cfg : MeasureConfig} {interval : PyFloat} {saveEvery postEvery : Nat}
variable {s s' : Observer}

/-- The profile is in the file. -/
def onDisk (s : Observer) : Observer :=
  { s with file := .decoded s.startup.profiler.toJson }

theorem written_eq (s : Observer) :
    s.written = if s.startup.savable = true then s.onDisk else s := by
  unfold written onDisk Startup.save Startup.savable
  cases s.startup.recoveryBlocked <;> cases s.startup.profiler.toJson.finite <;> rfl

theorem persist_cases (s : Observer) (d : Disk) :
    ((s.persist d).1 = s ∧ (s.persist d).2 ≠ .returned true) ∨
      (s.startup.savable = true ∧ (s.persist d).1 = s.onDisk) := by
  have hwritten := written_eq s
  cases hsavable : s.startup.savable with
  | true =>
      rw [hsavable, if_pos rfl] at hwritten
      cases d with
      | written => exact .inr ⟨rfl, hwritten⟩
      | failed => exact .inl ⟨rfl, by simp [persist]⟩
      | raised => exact .inl ⟨rfl, by simp [persist]⟩
      | stopped replaced =>
          cases replaced with
          | true => exact .inr ⟨rfl, hwritten⟩
          | false => exact .inl ⟨rfl, by simp [persist]⟩
  | false =>
      rw [hsavable, if_neg (by simp)] at hwritten
      cases d with
      | written => exact .inl ⟨hwritten, by simp [persist, hsavable]⟩
      | failed => exact .inl ⟨rfl, by simp [persist]⟩
      | raised => exact .inl ⟨rfl, by simp [persist]⟩
      | stopped replaced =>
          cases replaced with
          | true => exact .inl ⟨hwritten, by simp [persist]⟩
          | false => exact .inl ⟨rfl, by simp [persist]⟩

def reportOf (R : Rounding) (cfg : MeasureConfig) (p : UsageProfiler) :
    Except String ProfileReport :=
  Worker.reportProfile R cfg.workerId cfg.hasGpu cfg.deviceClass p

def post (s : Observer) (body : ProfileReport) (answer : CallEnd Bool) : Observer :=
  { s with posts := s.posts ++ [⟨s.samples, body, answer⟩] }

/-- What an attempt to upload leaves. -/
inductive Uploads (R : Rounding) (cfg : MeasureConfig) (due : Bool) (s : Observer) :
    Observer → Prop where
  | nothing : Uploads R cfg due s s
  | unanswered (body : ProfileReport) (answer : CallEnd Bool) (hdue : due = true)
      (hbody : reportOf R cfg s.startup.profiler = .ok body) (hanswer : answer ≠ .returned true) :
      Uploads R cfg due s (s.post body answer)
  | accepted (body : ProfileReport) (hdue : due = true)
      (hbody : reportOf R cfg s.startup.profiler = .ok body) :
      Uploads R cfg due s { s.post body (.returned true) with lastUploadSample := s.samples }

theorem uploadWhen_uploads (due : Bool) (s : Observer) (contact : Contact) :
    Uploads R cfg due s (s.uploadWhen R cfg due contact).1 := by
  unfold uploadWhen
  split
  · split
    next hdue =>
      cases hsend : contact.send with
      | unregistered => exact .nothing
      | sent answer =>
          cases hbody : reportOf R cfg s.startup.profiler with
          | error e =>
              have hreport : s.reportProfile R cfg (.sent answer) = (s, .returned false) := by
                unfold reportOf at hbody
                simp only [reportProfile, hbody]
              rw [hreport]
              exact .nothing
          | ok body =>
              have hreport :
                  s.reportProfile R cfg (.sent answer) = (s.post body answer, answer) := by
                unfold reportOf at hbody
                simp only [reportProfile, hbody]
                rfl
              rw [hreport]
              cases answer with
              | returned accepted =>
                  cases accepted with
                  | true => exact .accepted body hdue hbody
                  | false => exact .unanswered body _ hdue hbody (by simp)
              | raised => exact .unanswered body _ hdue hbody (by simp)
              | stopped => exact .unanswered body _ hdue hbody (by simp)
    next => exact .nothing
  · exact .nothing
  · exact .nothing
  · exact .nothing

/-- After a counted sample nothing happens, or the profile is saved and then perhaps uploaded. -/
theorem saveAndPost_effect (s : Observer) (t : Turn) :
    (s.saveAndPost R cfg saveEvery postEvery t).1 = s ∨
      (saveDue saveEvery s.samples = true ∧ Uploads R cfg (s.postDue postEvery) s.onDisk
        (s.saveAndPost R cfg saveEvery postEvery t).1) := by
  unfold saveAndPost
  split
  next hdue =>
    have hpersist := persist_cases s t.disk
    generalize s.persist t.disk = out at hpersist ⊢
    obtain ⟨mid, ended⟩ := out
    dsimp only at hpersist ⊢
    cases hpersist with
    | inl hunsaved =>
        obtain ⟨rfl, hended⟩ := hunsaved
        left
        cases ended with
        | returned persisted =>
            cases persisted with
            | true => exact absurd rfl hended
            | false => rfl
        | raised => rfl
        | stopped => rfl
    | inr hsaved =>
        obtain ⟨-, rfl⟩ := hsaved
        refine .inr ⟨hdue, ?_⟩
        split
        next heq =>
          obtain ⟨rfl, -⟩ := Prod.mk.inj heq
          split
          · exact uploadWhen_uploads _ _ _
          · exact .nothing
        next heq =>
          obtain ⟨rfl, -⟩ := Prod.mk.inj heq
          exact .nothing
        next heq =>
          obtain ⟨rfl, -⟩ := Prod.mk.inj heq
          exact .nothing
        next heq =>
          obtain ⟨rfl, -⟩ := Prod.mk.inj heq
          exact .nothing
  next => exact .inl rfl

theorem finish_effect (s : Observer) (disk : Disk) (contact : Contact) :
    (s.finish R cfg disk contact).1 = s ∨
      Uploads R cfg (decide (0 < s.samples) && decide (s.lastUploadSample ≠ s.samples)) s.onDisk
        (s.finish R cfg disk contact).1 := by
  unfold finish
  have hpersist := persist_cases s disk
  generalize s.persist disk = out at hpersist ⊢
  obtain ⟨mid, ended⟩ := out
  dsimp only at hpersist ⊢
  cases hpersist with
  | inl hunsaved =>
      obtain ⟨rfl, hended⟩ := hunsaved
      left
      cases ended with
      | returned persisted =>
          cases persisted with
          | true => exact absurd rfl hended
          | false => simp
      | raised => rfl
      | stopped => rfl
  | inr hsaved =>
      obtain ⟨-, rfl⟩ := hsaved
      right
      cases ended with
      | returned persisted =>
          dsimp only
          split
          next hdue =>
            have h := @uploadWhen_uploads R cfg true s.onDisk contact
            simp only [Bool.and_eq_true, and_assoc] at hdue
            have hwhen : (decide (0 < s.samples) && decide (s.lastUploadSample ≠ s.samples)) =
                true := by
              rw [Bool.and_eq_true]
              exact hdue.2.2
            rw [hwhen]
            exact h
          · exact .nothing
      | raised => exact .nothing
      | stopped => exact .nothing

/-! ## What every run keeps -/

/-- The numbers of samples at which an upload was accepted. -/
def uploads (s : Observer) : List Nat :=
  (s.posts.filter fun post => post.answer = .returned true).map Post.samples

/-- The profile a device that began as `start` has learnt after `xs`. -/
def after (R : Rounding) (interval : PyFloat) (start : Observer) (xs : List Taken) :
    UsageProfiler := start.startup.profiler.learnt R interval xs

/-- A request that left when a save was due, with a summary of all samples until then. -/
structure Sent (R : Rounding) (cfg : MeasureConfig) (interval : PyFloat) (saveEvery : Nat)
    (start : Observer) (xs : List Taken) (post : Post) : Prop where
  pos : 0 < post.samples
  le : post.samples ≤ xs.length
  due : saveDue saveEvery post.samples = true
  report : reportOf R cfg (after R interval start (xs.take post.samples)) = .ok post.report

/-- The file holds the profile after some of the samples, and no request told of more. -/
inductive Stored (R : Rounding) (interval : PyFloat) (saveEvery : Nat) (start : Observer)
    (xs : List Taken) (s : Observer) : Prop where
  | unsaved (hfile : s.file = start.file) (hposts : s.posts = [])
  | saved (k : Nat) (hpos : 0 < k) (hle : k ≤ xs.length) (hdue : saveDue saveEvery k = true)
      (hfile : s.file = .decoded (after R interval start (xs.take k)).toJson)
      (hposts : ∀ post ∈ s.posts, post.samples ≤ k)

/-- After the samples `xs`, whatever failed. -/
structure Kept (R : Rounding) (cfg : MeasureConfig) (interval : PyFloat)
    (saveEvery postEvery : Nat) (start : Observer) (xs : List Taken) (s : Observer) : Prop where
  samples : s.samples = xs.length
  posts : ∀ post ∈ s.posts, Sent R cfg interval saveEvery start xs post
  spaced : s.uploads.IsChain fun a b => a + postEvery ≤ b
  last : s.lastUploadSample = s.uploads.getLast?.getD 0
  stored : Stored R interval saveEvery start xs s

variable {start : Observer} {xs : List Taken} {x : Taken}

theorem uploads_post (s : Observer) (body : ProfileReport) (answer : CallEnd Bool) :
    (s.post body answer).uploads =
      s.uploads ++ if answer = .returned true then [s.samples] else [] := by
  unfold uploads post
  rw [List.filter_append, List.map_append]
  split <;> simp_all

theorem Kept.uploads_le (h : Kept R cfg interval saveEvery postEvery start xs s) {n : Nat}
    (hn : n ∈ s.uploads) : 0 < n ∧ n ≤ s.samples := by
  obtain ⟨post, hpost, rfl⟩ := List.mem_map.mp hn
  have hsent := h.posts post (List.mem_of_mem_filter hpost)
  exact ⟨hsent.pos, h.samples ▸ hsent.le⟩

theorem after_snoc (start : Observer) (xs : List Taken) (x : Taken) :
    after R interval start (xs ++ [x]) = (after R interval start xs).fold R interval x := by
  rw [after, UsageProfiler.learnt, List.foldl_append]
  rfl

theorem Sent.later {post : Post} (h : Sent R cfg interval saveEvery start xs post) (x : Taken) :
    Sent R cfg interval saveEvery start (xs ++ [x]) post where
  pos := h.pos
  le := by
    rw [List.length_append]
    exact Nat.le_add_right_of_le h.le
  due := h.due
  report := by
    rw [List.take_append_of_le_length h.le]
    exact h.report

theorem Kept.counted (h : Kept R cfg interval saveEvery postEvery start xs s) (x : Taken) :
    Kept R cfg interval saveEvery postEvery start (xs ++ [x]) (s.counted R interval x) where
  samples := by
    rw [List.length_append, ← h.samples]
    rfl
  posts := fun post hpost => (h.posts post hpost).later x
  spaced := h.spaced
  last := h.last
  stored := by
    cases h.stored with
    | unsaved hfile hposts => exact .unsaved hfile hposts
    | saved k hpos hle hdue hfile hposts =>
        refine .saved k hpos ?_ hdue ?_ hposts
        · rw [List.length_append]
          exact Nat.le_add_right_of_le hle
        · rw [List.take_append_of_le_length hle]
          exact hfile

theorem Kept.onDisk (h : Kept R cfg interval saveEvery postEvery start xs s) (hpos : 0 < s.samples)
    (hdue : saveDue saveEvery s.samples = true)
    (hprofiler : s.startup.profiler = after R interval start xs) :
    Kept R cfg interval saveEvery postEvery start xs s.onDisk where
  samples := h.samples
  posts := h.posts
  spaced := h.spaced
  last := h.last
  stored := by
    refine .saved s.samples hpos h.samples.le hdue ?_ (fun post hpost => ?_)
    · rw [h.samples, List.take_length, ← hprofiler]
      rfl
    · rw [h.samples]
      exact (h.posts post hpost).le

/-- What is uploaded was saved just before. -/
theorem Kept.uploads (h : Kept R cfg interval saveEvery postEvery start xs s)
    (hpos : 0 < s.samples) (hdue : saveDue saveEvery s.samples = true)
    (hprofiler : s.startup.profiler = after R interval start xs)
    (hfile : s.file = .decoded s.startup.profiler.toJson)
    (hup : Uploads R cfg (s.postDue postEvery) s s') :
    Kept R cfg interval saveEvery postEvery start xs s' := by
  have hsent : ∀ body answer, reportOf R cfg s.startup.profiler = .ok body →
      ∀ post ∈ s.posts ++ [⟨s.samples, body, answer⟩],
        Sent R cfg interval saveEvery start xs post := by
    intro body answer hbody post hpost
    cases List.mem_append.mp hpost with
    | inl hold => exact h.posts post hold
    | inr hnew =>
        rw [List.mem_singleton.mp hnew]
        refine ⟨hpos, h.samples.le, hdue, ?_⟩
        change reportOf R cfg (after R interval start (xs.take s.samples)) = _
        rw [h.samples, List.take_length, ← hprofiler]
        exact hbody
  have hstored : ∀ t : Observer, t.file = s.file →
      (∀ post ∈ t.posts, Sent R cfg interval saveEvery start xs post) →
      Stored R interval saveEvery start xs t := by
    intro t ht hposts
    refine .saved s.samples hpos h.samples.le hdue ?_ (fun post hpost => ?_)
    · rw [ht, hfile, h.samples, List.take_length, ← hprofiler]
    · rw [h.samples]
      exact (hposts post hpost).le
  cases hup with
  | nothing => exact h
  | unanswered body answer hwhen hbody hanswer =>
      refine ⟨h.samples, hsent body answer hbody, ?_, ?_, hstored _ rfl (hsent body answer hbody)⟩
      · rw [uploads_post, if_neg hanswer, List.append_nil]
        exact h.spaced
      · rw [uploads_post, if_neg hanswer, List.append_nil]
        exact h.last
  | accepted body hwhen hbody =>
      have hlist : ({ s.post body (.returned true) with lastUploadSample := s.samples } :
          Observer).uploads = s.uploads ++ [s.samples] := by
        have := uploads_post s body (.returned true)
        rwa [if_pos rfl] at this
      refine ⟨h.samples, hsent body _ hbody, ?_, ?_, hstored _ rfl (hsent body _ hbody)⟩
      · rw [hlist]
        refine h.spaced.append (.singleton _) ?_
        intro a ha b hb
        cases hb
        have hlast : s.lastUploadSample = a := by
          rw [h.last, Option.mem_def.mp ha]
          rfl
        have hbounds := h.uploads_le (List.mem_of_mem_getLast? ha)
        simp only [postDue, hlast, Bool.or_eq_true, decide_eq_true_eq] at hwhen
        omega
      · rw [hlist]
        simp

theorem uploads_frame {due : Bool} (h : Uploads R cfg due s s') :
    s'.startup = s.startup ∧ s'.file = s.file ∧ s'.samples = s.samples := by
  cases h <;> exact ⟨rfl, rfl, rfl⟩

theorem Kept.effect (h : Kept R cfg interval saveEvery postEvery start xs s)
    (hpos : 0 < s.samples) (hprofiler : s.startup.profiler = after R interval start xs)
    (heffect : s' = s ∨ (saveDue saveEvery s.samples = true ∧
      Uploads R cfg (s.postDue postEvery) s.onDisk s')) :
    Kept R cfg interval saveEvery postEvery start xs s' ∧
      s'.startup.profiler = after R interval start xs := by
  cases heffect with
  | inl heq => exact ⟨heq ▸ h, heq ▸ hprofiler⟩
  | inr hsaved =>
      obtain ⟨hdue, hup⟩ := hsaved
      refine ⟨(h.onDisk hpos hdue hprofiler).uploads hpos hdue hprofiler rfl hup, ?_⟩
      rw [(uploads_frame hup).1]
      exact hprofiler

/-- A profile that is folded in without being counted is not told of. -/
theorem Kept.withProfiler (h : Kept R cfg interval saveEvery postEvery start xs s)
    (p : UsageProfiler) : Kept R cfg interval saveEvery postEvery start xs (s.withProfiler p) where
  samples := h.samples
  posts := h.posts
  spaced := h.spaced
  last := h.last
  stored := by
    cases h.stored with
    | unsaved hfile hposts => exact .unsaved hfile hposts
    | saved k hpos hle hdue hfile hposts => exact .saved k hpos hle hdue hfile hposts

theorem kept_start (start : Observer) (hsamples : start.samples = 0)
    (hlast : start.lastUploadSample = 0) (hposts : start.posts = []) :
    Kept R cfg interval saveEvery postEvery start [] start where
  samples := hsamples
  posts := by
    rw [hposts]
    exact fun _ h => absurd h List.not_mem_nil
  spaced := by
    rw [Observer.uploads, hposts]
    exact .nil
  last := by
    rw [Observer.uploads, hposts]
    exact hlast
  stored := .unsaved rfl hposts

/-! ## Whole runs -/

/-- The samples that the turns take. -/
def taken (turns : List Turn) : List Taken :=
  turns.filterMap fun t => match t.sampling with
    | .taken x => some x
    | _ => none

theorem counted_profiler (hprofiler : s.startup.profiler = after R interval start xs) :
    (s.counted R interval x).startup.profiler = after R interval start (xs ++ [x]) := by
  rw [after_snoc, ← hprofiler]
  rfl

theorem turn_kept (h : Kept R cfg interval saveEvery postEvery start xs s)
    (hprofiler : s.startup.profiler = after R interval start xs) (t : Turn) :
    ∃ ys, ys <+: taken [t] ∧
      Kept R cfg interval saveEvery postEvery start (xs ++ ys)
        (s.turn R cfg interval saveEvery postEvery t).1 ∧
      ((s.turn R cfg interval saveEvery postEvery t).2 ≠ .stopped → ys = taken [t] ∧
        (s.turn R cfg interval saveEvery postEvery t).1.startup.profiler =
          after R interval start (xs ++ ys)) := by
  unfold turn
  cases hsampling : t.sampling with
  | failed =>
      have htaken : taken [t] = [] := by simp [taken, hsampling]
      refine ⟨[], List.nil_prefix, ?_, fun _ => ⟨htaken.symm, ?_⟩⟩
      · rwa [List.append_nil]
      · rwa [List.append_nil]
  | stopped x steps =>
      refine ⟨[], List.nil_prefix, ?_, fun hstopped => absurd rfl hstopped⟩
      rw [List.append_nil]
      exact h.withProfiler _
  | taken x =>
      have htaken : taken [t] = [x] := by simp [taken, hsampling]
      have hkept := (h.counted x).effect (Nat.succ_pos _) (counted_profiler hprofiler)
        (saveAndPost_effect _ t)
      exact ⟨[x], htaken ▸ List.prefix_refl _, hkept.1, fun _ => ⟨htaken.symm, hkept.2⟩⟩

theorem taken_cons (t : Turn) (ts : List Turn) : taken (t :: ts) = taken [t] ++ taken ts := by
  unfold taken
  rw [← List.filterMap_append]
  rfl

theorem loop_kept (turns : List Turn) : ∀ {xs : List Taken} {s : Observer},
    Kept R cfg interval saveEvery postEvery start xs s →
    s.startup.profiler = after R interval start xs →
    ∃ ys, ys <+: taken turns ∧
      Kept R cfg interval saveEvery postEvery start (xs ++ ys)
        (s.loop R cfg interval saveEvery postEvery turns).1 ∧
      ((s.loop R cfg interval saveEvery postEvery turns).2 = false → ys = taken turns) := by
  induction turns with
  | nil =>
      intro xs s h _
      exact ⟨[], List.nil_prefix, by rwa [List.append_nil], fun _ => rfl⟩
  | cons t ts ih =>
      intro xs s h hprofiler
      obtain ⟨ys, hys, hkept, hon⟩ := turn_kept h hprofiler t
      rw [taken_cons]
      unfold loop
      split
      next s' heq =>
        rw [heq] at hkept
        exact ⟨ys, hys.trans (List.prefix_append _ _), hkept, by simp⟩
      next s' ended hended heq =>
        rw [heq] at hkept hon
        obtain ⟨rfl, hprofiler'⟩ := hon hended
        split
        · exact ⟨_, List.prefix_append _ _, hkept, by simp⟩
        · obtain ⟨zs, hzs, hkept', hall⟩ := ih hkept hprofiler'
          refine ⟨taken [t] ++ zs, (List.prefix_append_right_inj _).mpr hzs, ?_, ?_⟩
          · rwa [← List.append_assoc]
          · intro hrunning
            rw [hall hrunning]

/-- A keyboard interrupt falls into the turn. -/
def Interrupted (t : Turn) : Prop :=
  (∃ x steps, t.sampling = .stopped x steps) ∨ (∃ replaced, t.disk = .stopped replaced) ∨
    t.contact.ready = .stopped ∨ t.contact.send = .sent .stopped ∨ t.stopped = true

theorem uploadWhen_runsOn {due : Bool} {contact : Contact} (hready : contact.ready ≠ .stopped)
    (hsend : contact.send ≠ .sent .stopped) : (s.uploadWhen R cfg due contact).2 ≠ .stopped := by
  unfold uploadWhen
  split
  · split
    · cases hcase : contact.send with
      | unregistered => simp [reportProfile]
      | sent answer =>
          have hne : answer ≠ .stopped := by
            rintro rfl
            exact hsend hcase
          unfold reportProfile
          cases Worker.reportProfile R cfg.workerId cfg.hasGpu cfg.deviceClass
              s.startup.profiler with
          | error e => simp
          | ok body =>
              cases answer with
              | returned accepted => cases accepted <;> simp
              | raised => simp
              | stopped => exact absurd rfl hne
    · simp
  · simp
  · simp
  next hstopped => exact absurd hstopped hready

theorem turn_runsOn {t : Turn} (ht : ¬ Interrupted t) :
    (s.turn R cfg interval saveEvery postEvery t).2 ≠ .stopped := by
  simp only [Interrupted, not_or, not_exists] at ht
  obtain ⟨hsampling, hdisk, hready, hsend, -⟩ := ht
  unfold turn
  split
  · simp
  next x steps hcase => exact absurd hcase (hsampling x steps)
  next x hcase =>
    unfold saveAndPost
    split
    · split
      · split
        · exact uploadWhen_runsOn hready hsend
        · simp
      · simp
      · simp
      next heq =>
        cases hcase : t.disk with
        | stopped replaced => exact absurd hcase (hdisk replaced)
        | written | failed | raised => simp [persist, hcase] at heq
    · simp

/-- Only a keyboard interrupt ends the loop. -/
theorem loop_runsOn (honce : cfg.once = false) (turns : List Turn) :
    ∀ s : Observer, (∀ t ∈ turns, ¬ Interrupted t) →
      (s.loop R cfg interval saveEvery postEvery turns).2 = false := by
  induction turns with
  | nil => exact fun _ _ => rfl
  | cons t ts ih =>
      intro s hts
      have ht := hts t List.mem_cons_self
      unfold loop
      split
      next s' heq =>
        have hturn := @turn_runsOn R cfg interval saveEvery postEvery s t ht
        rw [heq] at hturn
        exact absurd rfl hturn
      next s' ended hended heq =>
        have hstopped : t.stopped = false := by
          simp only [Interrupted, not_or, Bool.not_eq_true] at ht
          exact ht.2.2.2.2
        rw [honce, hstopped]
        exact ih s' fun t' ht' => hts t' (List.mem_cons_of_mem _ ht')

/-! ## When nothing fails -/

/-- Whatever is read, the disk and the orchestrator do their part. -/
def Works (t : Turn) : Prop :=
  t.disk = .written ∧ t.contact = ⟨.returned true, .sent (.returned true)⟩

/-- A profile can be saved and summed up. -/
def Reportable (R : Rounding) (cfg : MeasureConfig) (p : UsageProfiler) : Prop :=
  p.toJson.finite = true ∧ ∃ body, reportOf R cfg p = .ok body

/-- No save that was due is missing, and no upload. -/
structure Current (R : Rounding) (interval : PyFloat) (saveEvery postEvery : Nat)
    (start : Observer) (xs : List Taken) (s : Observer) : Prop where
  saved : 0 < s.samples → ∃ k, k ≤ s.samples ∧
    s.file = .decoded (after R interval start (xs.take k)).toJson ∧
    ∀ n, k < n → n ≤ s.samples → saveDue saveEvery n = false
  told : 0 < s.samples → 0 < s.lastUploadSample ∧
    ∀ n, n ≤ s.samples → s.lastUploadSample + postEvery ≤ n → saveDue saveEvery n = false

theorem uploadWhen_works {contact : Contact}
    (hcontact : contact = ⟨.returned true, .sent (.returned true)⟩) {body : ProfileReport}
    (hbody : reportOf R cfg s.startup.profiler = .ok body) (due : Bool) :
    s.uploadWhen R cfg due contact =
      (if due then { s.post body (.returned true) with lastUploadSample := s.samples } else s,
        .returned ()) := by
  unfold reportOf at hbody
  subst hcontact
  unfold uploadWhen
  cases due with
  | false => rfl
  | true =>
      simp only [reportProfile, hbody, if_true]
      rfl

theorem persist_works (hsavable : s.startup.savable = true) :
    s.persist .written = (s.onDisk, .returned true) := by
  unfold persist
  rw [written_eq, if_pos hsavable, hsavable]

theorem saveAndPost_works (hupload : cfg.upload = true) (hsavable : s.startup.savable = true)
    {body : ProfileReport} (hbody : reportOf R cfg s.startup.profiler = .ok body) {t : Turn}
    (ht : Works t) :
    s.saveAndPost R cfg saveEvery postEvery t =
      (if saveDue saveEvery s.samples then
        if s.postDue postEvery then
          { s.onDisk.post body (.returned true) with lastUploadSample := s.samples }
        else s.onDisk
      else s, .returned ()) := by
  unfold saveAndPost
  split
  · rw [ht.1, persist_works hsavable]
    dsimp only
    exact @uploadWhen_works R cfg s.onDisk _ ht.2 body hbody _
  · rfl

/-- A final save that works leaves the whole profile in the file, and everything is told. -/
theorem finish_lands (hsavable : s.startup.savable = true) (contact : Contact) :
    (s.finish R cfg .written contact).1.file = .decoded s.startup.profiler.toJson ∧
      (cfg.upload = true → contact = ⟨.returned true, .sent (.returned true)⟩ →
        (∃ body, reportOf R cfg s.startup.profiler = .ok body) → 0 < s.samples →
        (s.finish R cfg .written contact).1.lastUploadSample = s.samples) := by
  unfold finish
  rw [persist_works hsavable]
  dsimp only
  split
  · refine ⟨(uploads_frame (uploadWhen_uploads _ _ _)).2.1, fun _ hcontact hbody _ => ?_⟩
    obtain ⟨body, hbody⟩ := hbody
    rw [@uploadWhen_works R cfg s.onDisk _ hcontact body hbody true]
    rfl
  next hidle =>
    refine ⟨rfl, fun hupload _ _ hpos => ?_⟩
    by_contra hlast
    apply hidle
    rw [hupload, decide_eq_true (show 0 < s.onDisk.samples from hpos),
      decide_eq_true (show s.onDisk.lastUploadSample ≠ s.onDisk.samples from hlast)]
    rfl

/-- Every sample is looked at on its own turn. -/
theorem Current.step (h : Current R interval saveEvery postEvery start xs s)
    (hkept : Kept R cfg interval saveEvery postEvery start xs s) (hpost : 0 < postEvery)
    (hprofiler : s.startup.profiler = after R interval start xs) (hupload : cfg.upload = true)
    (hblocked : s.startup.recoveryBlocked = false)
    (hreportable : Reportable R cfg (after R interval start (xs ++ [x]))) {t : Turn}
    (ht : Works t) :
    Current R interval saveEvery postEvery start (xs ++ [x])
      ((s.counted R interval x).saveAndPost R cfg saveEvery postEvery t).1 := by
  have hnow : (s.counted R interval x).startup.profiler = after R interval start (xs ++ [x]) :=
    counted_profiler hprofiler
  obtain ⟨hfinite, body, hbody⟩ := hreportable
  rw [← hnow] at hfinite hbody
  have hsavable : (s.counted R interval x).startup.savable = true := by
    have hsame : (s.counted R interval x).startup.recoveryBlocked = false := hblocked
    simp [Startup.savable, hsame, hfinite]
  rw [saveAndPost_works hupload hsavable hbody ht]
  have hall : (xs ++ [x]).take (s.samples + 1) = xs ++ [x] := by
    rw [hkept.samples]
    simp
  have hfile : ProfileFile.decoded (s.counted R interval x).startup.profiler.toJson =
      .decoded (after R interval start ((xs ++ [x]).take (s.samples + 1))).toJson := by
    rw [hall, hnow]
  have hlast : s.lastUploadSample ≤ s.samples := by
    rw [hkept.last]
    cases hcase : s.uploads.getLast? with
    | none => exact Nat.zero_le _
    | some n => exact (hkept.uploads_le (List.mem_of_mem_getLast? hcase)).2
  have hcount : (s.counted R interval x).samples = s.samples + 1 := rfl
  rw [hcount]
  split
  next hdue =>
    split
    next hwhen =>
      refine ⟨fun _ => ⟨s.samples + 1, le_refl _, hfile, ?_⟩, fun _ => ⟨Nat.succ_pos _, ?_⟩⟩
      · intro n hlow hhigh
        exact absurd hhigh (not_le.mpr hlow)
      · intro n hhigh hlow
        change s.samples + 1 + postEvery ≤ n at hlow
        change n ≤ s.samples + 1 at hhigh
        omega
    next hwhen =>
      have hnot : ¬ (s.lastUploadSample = 0) ∧ s.samples + 1 - s.lastUploadSample < postEvery := by
        have hsame : (s.counted R interval x).lastUploadSample = s.lastUploadSample := rfl
        simpa [postDue, hsame, hcount] using hwhen
      refine ⟨fun _ => ⟨s.samples + 1, le_refl _, hfile, ?_⟩, fun _ => ⟨?_, ?_⟩⟩
      · intro n hlow hhigh
        exact absurd hhigh (not_le.mpr hlow)
      · exact Nat.pos_of_ne_zero hnot.1
      · intro n hhigh hlow
        change s.lastUploadSample + postEvery ≤ n at hlow
        change n ≤ s.samples + 1 at hhigh
        omega
  next hdue =>
    have hidle : saveDue saveEvery (s.samples + 1) = false := by simpa using hdue
    have hpos : 0 < s.samples := by
      rw [Nat.pos_iff_ne_zero]
      intro hzero
      rw [hzero] at hidle
      simp [saveDue] at hidle
    obtain ⟨k, hk, hkfile, hknone⟩ := h.saved hpos
    refine ⟨fun _ => ⟨k, hk.trans (Nat.le_succ _), ?_, ?_⟩, fun _ => ⟨(h.told hpos).1, ?_⟩⟩
    · rw [List.take_append_of_le_length (hkept.samples ▸ hk)]
      exact hkfile
    · intro n hlow hhigh
      cases Nat.le_succ_iff.mp hhigh with
      | inl hold => exact hknone n hlow hold
      | inr hnew => exact hnew ▸ hidle
    · intro n hhigh hlow
      cases Nat.le_succ_iff.mp hhigh with
      | inl hold => exact (h.told hpos).2 n hold hlow
      | inr hnew => exact hnew ▸ hidle

theorem saveAndPost_frame (s : Observer) (t : Turn) :
    (s.saveAndPost R cfg saveEvery postEvery t).1.startup = s.startup ∧
      (s.saveAndPost R cfg saveEvery postEvery t).1.samples = s.samples := by
  cases @saveAndPost_effect R cfg saveEvery postEvery s t with
  | inl heq => exact ⟨congrArg startup heq, congrArg samples heq⟩
  | inr hsaved =>
      have hframe := uploads_frame hsaved.2
      exact ⟨hframe.1, hframe.2.2⟩

theorem turn_blocked (t : Turn) :
    (s.turn R cfg interval saveEvery postEvery t).1.startup.recoveryBlocked =
      s.startup.recoveryBlocked := by
  unfold turn
  split
  · rfl
  · rfl
  next x _ =>
    rw [(saveAndPost_frame (s.counted R interval x) t).1]
    rfl

theorem loop_current (hpost : 0 < postEvery) (hupload : cfg.upload = true)
    (turns : List Turn) : ∀ {xs : List Taken} {s : Observer},
    Kept R cfg interval saveEvery postEvery start xs s →
    s.startup.profiler = after R interval start xs → s.startup.recoveryBlocked = false →
    Current R interval saveEvery postEvery start xs s → (∀ t ∈ turns, Works t) →
    (∀ ys, ys <+: xs ++ taken turns → Reportable R cfg (after R interval start ys)) →
    ∃ ys, ys <+: xs ++ taken turns ∧ Current R interval saveEvery postEvery start ys
      (s.loop R cfg interval saveEvery postEvery turns).1 ∧
      ys.length = (s.loop R cfg interval saveEvery postEvery turns).1.samples := by
  induction turns with
  | nil =>
      intro xs s hkept _ _ h _ _
      exact ⟨xs, List.prefix_append _ _, h, hkept.samples.symm⟩
  | cons t ts ih =>
      intro xs s hkept hprofiler hblocked h hworks hreportable
      have hturn : ∃ ys, ys <+: taken [t] ∧ Current R interval saveEvery postEvery start (xs ++ ys)
          (s.turn R cfg interval saveEvery postEvery t).1 ∧ Kept R cfg interval saveEvery postEvery
          start (xs ++ ys) (s.turn R cfg interval saveEvery postEvery t).1 ∧
          ((s.turn R cfg interval saveEvery postEvery t).2 ≠ .stopped → ys = taken [t] ∧
            (s.turn R cfg interval saveEvery postEvery t).1.startup.profiler =
              after R interval start (xs ++ ys)) := by
        obtain ⟨ys, hys, hkept', hon⟩ := turn_kept hkept hprofiler t
        refine ⟨ys, hys, ?_, hkept', hon⟩
        cases hsampling : t.sampling with
        | failed =>
            have hnil : ys = [] := by
              have htaken : taken [t] = [] := by simp [taken, hsampling]
              exact List.prefix_nil.mp (htaken ▸ hys)
            rw [hnil, List.append_nil, turn, hsampling]
            exact h
        | stopped x steps =>
            have hnil : ys = [] := by
              have htaken : taken [t] = [] := by simp [taken, hsampling]
              exact List.prefix_nil.mp (htaken ▸ hys)
            rw [hnil, List.append_nil, turn, hsampling]
            exact ⟨h.saved, h.told⟩
        | taken x =>
            have htaken : taken [t] = [x] := by simp [taken, hsampling]
            have hlength : ys.length = 1 := by
              have hle : ys.length ≤ 1 := by
                have := hys.length_le
                rwa [htaken] at this
              have hsamples := hkept'.samples
              rw [List.length_append, ← hkept.samples] at hsamples
              have hcounted : (s.turn R cfg interval saveEvery postEvery t).1.samples =
                  s.samples + 1 := by
                rw [turn, hsampling]
                exact (saveAndPost_frame _ t).2
              omega
            have hone : ys = [x] := by
              have := hys.eq_of_length (by rw [hlength, htaken]; rfl)
              rw [this, htaken]
            rw [hone, turn, hsampling]
            refine h.step hkept hpost hprofiler hupload hblocked (hreportable _ ?_)
              (hworks t List.mem_cons_self)
            rw [taken_cons, htaken, ← List.append_assoc]
            exact List.prefix_append _ _
      obtain ⟨ys, hys, hcurrent, hkept', hon⟩ := hturn
      have hblocked' :=
        (@turn_blocked R cfg interval saveEvery postEvery s t).trans hblocked
      have hinto : xs ++ ys <+: xs ++ taken (t :: ts) := by
        rw [taken_cons]
        exact (List.prefix_append_right_inj _).mpr (hys.trans (List.prefix_append _ _))
      unfold loop
      split
      next s' heq =>
        rw [heq] at hcurrent hkept'
        exact ⟨_, hinto, hcurrent, hkept'.samples.symm⟩
      next s' ended hended heq =>
        rw [heq] at hcurrent hkept' hon hblocked'
        obtain ⟨rfl, hprofiler'⟩ := hon hended
        split
        · exact ⟨_, hinto, hcurrent, hkept'.samples.symm⟩
        · rw [taken_cons, ← List.append_assoc] at hreportable ⊢
          exact ih hkept' hprofiler' hblocked' hcurrent
            (fun t' ht' => hworks t' (List.mem_cons_of_mem _ ht')) hreportable

/-! ## How often -/

theorem saveDue_within (hsave : 0 < saveEvery) (a : Nat) :
    ∃ n, a < n ∧ n ≤ a + saveEvery ∧ saveDue saveEvery n = true := by
  have hdiv := Nat.div_add_mod a saveEvery
  have hmod := Nat.mod_lt a hsave
  refine ⟨saveEvery * (a / saveEvery) + saveEvery, by omega, by omega, ?_⟩
  have hzero : (saveEvery * (a / saveEvery) + saveEvery) % saveEvery = 0 := by
    rw [Nat.add_mod_right, Nat.mul_mod_right]
  simp [saveDue, hzero]

theorem spaced_bound {gap m : Nat} : ∀ {a : Nat} {ns : List Nat},
    (a :: ns).IsChain (fun a b => a + gap ≤ b) → (∀ n ∈ a :: ns, n ≤ m) →
    a + ns.length * gap ≤ m
  | a, [], _, hle => by simpa using hle a List.mem_cons_self
  | a, b :: ns, hchain, hle => by
      obtain ⟨hab, hrest⟩ := List.isChain_cons_cons.mp hchain
      have ih := spaced_bound hrest fun n hn => hle n (List.mem_cons_of_mem _ hn)
      rw [List.length_cons, Nat.add_mul, Nat.one_mul]
      omega

/-- Uploads are rare. -/
theorem Kept.few (h : Kept R cfg interval saveEvery postEvery start xs s) (hpost : 0 < postEvery) :
    s.uploads.length * postEvery < s.samples + postEvery := by
  have hspaced := h.spaced
  have hle := fun n hn => @Kept.uploads_le R cfg interval saveEvery postEvery s start xs h n hn
  cases hcase : s.uploads with
  | nil => simpa using Nat.add_pos_right _ hpost
  | cons a ns =>
      rw [hcase] at hspaced hle
      have hbound := spaced_bound hspaced fun n hn => (hle n hn).2
      have hpos := (hle a List.mem_cons_self).1
      rw [List.length_cons, Nat.add_mul, Nat.one_mul]
      omega

/-- What a crash loses, and how old the last upload is. -/
def UpToDate (R : Rounding) (interval : PyFloat) (saveEvery postEvery : Nat) (start : Observer)
    (turns : List Turn) (l : Observer) : Prop :=
  (∃ k, l.samples < k + saveEvery ∧
    l.file = .decoded (after R interval start ((taken turns).take k)).toJson) ∧
  0 < l.lastUploadSample ∧ l.samples + 1 < l.lastUploadSample + postEvery + saveEvery

/-- A loop over some turns, and what its final save and upload make of it. -/
structure Observes (R : Rounding) (cfg : MeasureConfig) (interval : PyFloat)
    (saveEvery postEvery : Nat) (start : Observer) (turns : List Turn) (disk : Disk)
    (contact : Contact) (l : Observer) (ended : Bool) (s : Observer) : Prop where
  kept : Kept R cfg interval saveEvery postEvery start ((taken turns).take l.samples) l
  few : l.uploads.length * postEvery < l.samples + postEvery
  /-- A bad sample, disk or network never ends the loop, and no sample is lost. -/
  runsOn : cfg.once = false → (∀ t ∈ turns, ¬ Interrupted t) →
    ended = false ∧ l.samples = (taken turns).length
  /-- Whatever is read, if all that is learnt can be saved and summed up. -/
  current : cfg.upload = true → start.startup.recoveryBlocked = false →
    (∀ t ∈ turns, Works t) →
    (∀ ys, ys <+: taken turns → Reportable R cfg (after R interval start ys)) → 0 < l.samples →
    UpToDate R interval saveEvery postEvery start turns l
  running : ended = false → s = l
  /-- The final upload is of the saved profile, and of samples that were not uploaded. -/
  flushed : s = l ∨ Uploads R cfg
    (decide (0 < l.samples) && decide (l.lastUploadSample ≠ l.samples)) l.onDisk s
  /-- A clean stop loses nothing. -/
  landed : ended = true → disk = .written → l.startup.savable = true →
    s.file = .decoded l.startup.profiler.toJson ∧
      (cfg.upload = true → contact = ⟨.returned true, .sent (.returned true)⟩ →
        (∃ body, reportOf R cfg l.startup.profiler = .ok body) → 0 < l.samples →
        s.lastUploadSample = l.samples)

theorem current_bounds (hsave : 0 < saveEvery)
    (h : Current R interval saveEvery postEvery start xs s) (hlength : xs.length = s.samples)
    (hpos : 0 < s.samples) :
    (∃ k, k ≤ xs.length ∧ s.samples < k + saveEvery ∧
      s.file = .decoded (after R interval start (xs.take k)).toJson) ∧
    0 < s.lastUploadSample ∧ s.samples + 1 < s.lastUploadSample + postEvery + saveEvery := by
  obtain ⟨k, hk, hfile, hnone⟩ := h.saved hpos
  obtain ⟨hlast, huntold⟩ := h.told hpos
  refine ⟨⟨k, hlength ▸ hk, ?_, hfile⟩, hlast, ?_⟩
  · by_contra hfar
    obtain ⟨n, hlow, hhigh, hdue⟩ := saveDue_within hsave k
    have hnot := hnone n hlow (by omega)
    rw [hdue] at hnot
    cases hnot
  · by_contra hfar
    obtain ⟨n, hlow, hhigh, hdue⟩ := saveDue_within hsave (s.lastUploadSample + postEvery - 1)
    have hnot := huntold n (by omega) (by omega)
    rw [hdue] at hnot
    cases hnot

theorem loop_observes (hsave : 0 < saveEvery) (hpost : 0 < postEvery) (startup : Startup)
    (file : ProfileFile) (turns : List Turn) {l : Observer} {ended : Bool}
    (hloop : Observer.loop R cfg interval saveEvery postEvery
      { startup := startup, file := file } turns = (l, ended))
    (disk : Disk) (contact : Contact) :
    Observes R cfg interval saveEvery postEvery { startup := startup, file := file } turns disk
      contact l ended (if ended then (l.finish R cfg disk contact).1 else l) := by
  have hstart := @kept_start R cfg interval saveEvery postEvery
    { startup := startup, file := file } rfl rfl rfl
  obtain ⟨ys, hys, hkept, hall⟩ := loop_kept turns hstart rfl
  rw [hloop] at hkept hall
  rw [List.nil_append] at hkept
  have htake : (taken turns).take l.samples = ys := by
    rw [hkept.samples]
    exact (List.prefix_iff_eq_take.mp hys).symm
  have hkept' := htake ▸ hkept
  refine ⟨hkept', hkept.few hpost, ?_, ?_, ?_, ?_, ?_⟩
  · intro honce hturns
    have hend := @loop_runsOn R cfg interval saveEvery postEvery honce turns
      { startup := startup, file := file } hturns
    rw [hloop] at hend
    refine ⟨hend, ?_⟩
    rw [hkept.samples, hall hend]
  · intro hupload hblocked hworks hreportable hpos
    have hempty : Current R interval saveEvery postEvery { startup := startup, file := file } []
        { startup := startup, file := file } :=
      ⟨fun h => absurd h (Nat.lt_irrefl 0), fun h => absurd h (Nat.lt_irrefl 0)⟩
    obtain ⟨zs, hzs, hcurrent, hlength⟩ :=
      loop_current hpost hupload turns hstart rfl hblocked hempty hworks hreportable
    rw [hloop] at hcurrent hlength
    obtain ⟨⟨k, hk, hclose, hfile⟩, htold⟩ := current_bounds hsave hcurrent hlength hpos
    refine ⟨⟨k, hclose, ?_⟩, htold⟩
    rw [hfile, List.prefix_iff_eq_take.mp hzs, List.take_take, min_eq_left hk]
    rfl
  · rintro rfl
    rfl
  · cases ended with
    | false => exact .inl rfl
    | true => exact finish_effect l disk contact
  · rintro rfl rfl hsavable
    exact finish_lands hsavable contact

end Observer

theorem everySamples_pos {R : Rounding} {seconds : Rat} {interval : PyFloat} {n : Nat}
    (h : everySamples R seconds interval = .ok n) : 0 < n := by
  unfold everySamples at h
  split at h
  · split at h
    · cases h
      exact Nat.lt_of_lt_of_le Nat.one_pos (Nat.le_max_left _ _)
    · cases h
  · cases h
    exact Nat.one_pos

section Exact
open PyNumber (exact)
variable {cfg : MeasureConfig} {interval : PyFloat}

/-- The device that measures, after some observations. -/
def MeasureConfig.device (cfg : MeasureConfig) (history : List Observation) : Device :=
  ⟨cfg.workerId, cfg.hasGpu, cfg.deviceClass, history⟩

/-- A sample as the profiler observes it. -/
def Taken.observations (interval : PyFloat) (x : Taken) : List Observation :=
  [.sample x.sample, .availability x.sampledAt (if interval = .fin 0 then .fin 30 else interval)]

/-- Between 1970 and 2100. -/
def Taken.InRange (x : Taken) : Prop :=
  TimeInRange x.sample.taken.timestamp ∧ TimeInRange x.sampledAt

/-- The checks leave a continuous measurement five seconds to an hour. -/
theorem measureInterval_continuous {interval' : PyFloat}
    (h : measureInterval false interval' = .ok interval) :
    ∃ e, interval = .fin e ∧ 5 ≤ e ∧ e ≤ 3600 := by
  cases interval' with
  | nan => cases h
  | inf negative => cases h
  | fin q =>
      have hmax : pyMax (.fin 0) (.fin q) = .fin (max 0 q) := by
        by_cases hq : 0 < q
        · simp [pyMax, PyFloat.lt, hq, max_eq_right hq.le]
        · simp [pyMax, PyFloat.lt, hq, max_eq_left (not_lt.mp hq)]
      simp only [measureInterval, PyFloat.isFinite, hmax, PyFloat.lt, Bool.not_false, Bool.true_and,
        decide_eq_true_eq, Bool.true_eq_false, if_false] at h
      split at h
      · cases h
      next hlow =>
        split at h
        · cases h
        next hhigh =>
          cases h
          exact ⟨_, rfl, not_lt.mp hlow, not_lt.mp hhigh⟩

theorem learnt_observations (gpu : Option Bool) (xs : List Taken) : ∀ p : UsageProfiler,
    UsageProfiler.learnt exact interval { p with gpuSupported := gpu } xs =
      { (xs.flatMap (Taken.observations interval)).foldl UsageProfiler.observe p with
        gpuSupported := gpu } := by
  induction xs with
  | nil => exact fun _ => rfl
  | cons x xs ih => exact fun p => ih (p.fold exact interval x)

/-- A device goes on learning. -/
theorem learnt_device (history : List Observation) (xs : List Taken) :
    UsageProfiler.learnt exact interval (cfg.device history).profile xs =
      (cfg.device (history ++ xs.flatMap (Taken.observations interval))).profile := by
  have h := @learnt_observations interval (some cfg.hasGpu) xs
    (history.foldl UsageProfiler.observe {})
  rw [← List.foldl_append] at h
  exact h

theorem observations_inRange
    (hinterval : ∃ e, (if interval = .fin 0 then PyFloat.fin 30 else interval) = .fin e ∧
      1 / 1000 ≤ e ∧ e ≤ 3600) {x : Taken} (hx : x.InRange) :
    ∀ o ∈ x.observations interval, Event.InRange (.observe o) := by
  intro o ho
  simp only [Taken.observations, List.mem_cons, List.not_mem_nil, or_false] at ho
  cases ho with
  | inl ho =>
      subst ho
      exact hx.1
  | inr ho =>
      subst ho
      exact ⟨hx.2, hinterval⟩

theorem device_savable {history : List Observation}
    (h : ∀ o ∈ history, Event.InRange (.observe o)) : (cfg.device history).profile.Savable := by
  have hevents : ∀ e ∈ history.map Event.observe ++ [.declareGpu cfg.hasGpu], e.InRange := by
    intro e he
    cases List.mem_append.mp he with
    | inl he =>
        obtain ⟨o, ho, rfl⟩ := List.mem_map.mp he
        exact h o ho
    | inr he =>
        rw [List.mem_singleton.mp he]
        trivial
  have hsavable := unbroken_savable hevents
  rw [unbroken_snoc, unbroken, List.foldl_map] at hsavable
  exact hsavable

/-- With exact arithmetic every profile can be saved and summed up. -/
theorem reportable_exact
    (hinterval : ∃ e, (if interval = .fin 0 then PyFloat.fin 30 else interval) = .fin e ∧
      1 / 1000 ≤ e ∧ e ≤ 3600) {history : List Observation}
    (hhistory : ∀ o ∈ history, Event.InRange (.observe o)) {xs : List Taken}
    (hxs : ∀ x ∈ xs, x.InRange) :
    Observer.Reportable exact cfg
      (UsageProfiler.learnt exact interval (cfg.device history).profile xs) := by
  rw [learnt_device]
  constructor
  · apply UsageProfiler.toJson_finite
    apply device_savable
    intro o ho
    cases List.mem_append.mp ho with
    | inl ho => exact hhistory o ho
    | inr ho =>
        obtain ⟨x, hx, ho⟩ := List.mem_flatMap.mp ho
        exact observations_inRange hinterval (hxs x hx) o ho
  · obtain ⟨body, hbody, -⟩ := reportProfile_exact
      (cfg.device (history ++ xs.flatMap (Taken.observations interval)))
    exact ⟨body, hbody⟩

/-- A device that goes on learning between 1970 and 2100, whose disk and orchestrator do
their part. -/
structure Undisturbed (cfg : MeasureConfig) (startup : Startup) (turns : List Turn) : Prop where
  continuous : cfg.once = false
  upload : cfg.upload = true
  unblocked : startup.recoveryBlocked = false
  works : ∀ t ∈ turns, Observer.Works t
  learning : ∃ history, startup.profiler = (cfg.device history).profile ∧
    ∀ o ∈ history, Event.InRange (.observe o)
  inRange : ∀ x ∈ Observer.taken turns, x.InRange

theorem Undisturbed.upToDate {saveEvery postEvery : Nat} {start : Observer} {turns : List Turn}
    {disk : Disk} {contact : Contact} {l s : Observer} {ended : Bool}
    (h : Undisturbed cfg start.startup turns)
    (hobserves : Observer.Observes exact cfg interval saveEvery postEvery start turns disk contact
      l ended s)
    (hinterval : measureInterval cfg.once cfg.interval = .ok interval) (hpos : 0 < l.samples) :
    Observer.UpToDate exact interval saveEvery postEvery start turns l := by
  apply hobserves.current h.upload h.unblocked h.works _ hpos
  intro ys hys
  obtain ⟨history, hprofile, hhistory⟩ := h.learning
  rw [h.continuous] at hinterval
  obtain ⟨e, rfl, hlow, hhigh⟩ := measureInterval_continuous hinterval
  rw [Observer.after, hprofile]
  refine reportable_exact ⟨e, if_neg ?_, by linarith, hhigh⟩ hhistory
    fun x hx => h.inRange x (hys.subset hx)
  rintro ⟨⟩
  linarith

end Exact

/-- Whatever fails in a measuring loop, uploads keep their distance, each carries the summary
of a profile that was saved just before, and only an interrupt ends the loop. -/
theorem measure_loop (R : Rounding) (cfg : MeasureConfig) (startup : Startup) (file : ProfileFile)
    (turns : List Turn) (disk : Disk) (contact : Contact) {s : Observer}
    (h : runMeasureLoop R cfg { startup := startup, file := file } turns disk contact = .ok s) :
    ∃ interval saveEvery postEvery l ended,
      measureInterval cfg.once cfg.interval = .ok interval ∧
      everySamples R 60 interval = .ok saveEvery ∧ everySamples R 300 interval = .ok postEvery ∧
      Observer.loop R cfg interval saveEvery postEvery { startup := startup, file := file } turns =
        (l, ended) ∧
      Observer.Observes R cfg interval saveEvery postEvery { startup := startup, file := file }
        turns disk contact l ended s ∧
      (R = PyNumber.exact → Undisturbed cfg startup turns → 0 < l.samples →
        Observer.UpToDate R interval saveEvery postEvery { startup := startup, file := file }
          turns l) := by
  unfold runMeasureLoop at h
  obtain ⟨interval, hinterval, h⟩ := Results.bind_eq_ok.mp h
  obtain ⟨saveEvery, hsave, h⟩ := Results.bind_eq_ok.mp h
  obtain ⟨postEvery, hpost, h⟩ := Results.bind_eq_ok.mp h
  cases hloop : Observer.loop R cfg interval saveEvery postEvery
      { startup := startup, file := file } turns with
  | mk l ended =>
      have hobserves := Observer.loop_observes (everySamples_pos hsave) (everySamples_pos hpost)
        startup file turns hloop disk contact
      rw [hloop] at h
      have hs : s = if ended then (l.finish R cfg disk contact).1 else l := by
        cases ended with
        | false => exact (Except.ok.inj h).symm
        | true => exact (Except.ok.inj h).symm
      rw [← hs] at hobserves
      refine ⟨interval, saveEvery, postEvery, l, ended, hinterval, hsave, hpost, hloop, hobserves, ?_⟩
      rintro rfl hundisturbed hpos
      exact hundisturbed.upToDate hobserves hinterval hpos

def reachable : Contact := ⟨.returned true, .sent (.returned true)⟩

def quietSample (second : Rat) : Taken :=
  ⟨{ cpu := .fin 10, gpu := none, ram := .fin 40, taken := ⟨0, 0, .fin second⟩ }, .fin second⟩

/-- A turn in which everything works. -/
def goodTurn (second : Rat) : Turn where
  sampling := .taken (quietSample second)
  disk := .written
  contact := reachable

/-- A bad reading, a full disk, an orchestrator that is away and one that refuses, until the
loop is interrupted while it sleeps. -/
def badTurns : List Turn :=
  [goodTurn 1000, { goodTurn 1060 with sampling := .failed },
    { goodTurn 1120 with disk := .failed }, { goodTurn 1180 with disk := .raised },
    { goodTurn 1240 with contact := ⟨.returned false, .unregistered⟩ }, goodTurn 1300,
    { goodTurn 1360 with contact := ⟨.returned true, .sent (.returned false)⟩ }, goodTurn 1420,
    { goodTurn 1480 with stopped := true }]

def eachMinute : MeasureConfig := { workerId := "w", interval := .fin 60 }

def newDevice : Startup := { profiler := { gpuSupported := some false } }

def steadyTurns : List Turn := [goodTurn 1000, goodTurn 1060, goodTurn 1120]

theorem steadyTurns_undisturbed : Undisturbed eachMinute newDevice steadyTurns where
  continuous := rfl
  upload := rfl
  unblocked := rfl
  works := by
    intro t ht
    simp only [steadyTurns, List.mem_cons, List.not_mem_nil, or_false] at ht
    rcases ht with rfl | rfl | rfl <;> exact ⟨rfl, rfl⟩
  learning := ⟨[], rfl, fun _ h => absurd h List.not_mem_nil⟩
  inRange := by
    intro x hx
    change x ∈ [quietSample 1000, quietSample 1060, quietSample 1120] at hx
    simp only [List.mem_cons, List.not_mem_nil, or_false] at hx
    rcases hx with rfl | rfl | rfl
    · exact ⟨⟨1000, rfl, by norm_num, by norm_num⟩, ⟨1000, rfl, by norm_num, by norm_num⟩⟩
    · exact ⟨⟨1060, rfl, by norm_num, by norm_num⟩, ⟨1060, rfl, by norm_num, by norm_num⟩⟩
    · exact ⟨⟨1120, rfl, by norm_num, by norm_num⟩, ⟨1120, rfl, by norm_num, by norm_num⟩⟩

theorem ok_of_map {α β : Type} {x : Except String α} {f : α → β} {b : β}
    (h : x.toOption.map f = some b) : ∃ a, x = .ok a ∧ f a = b := by
  obtain ⟨a, ha, hfa⟩ := Option.map_eq_some_iff.mp h
  exact ⟨a, Results.toOption_eq_some.mp ha, hfa⟩

theorem badTurns_ran : ∃ s, runMeasureLoop PyNumber.exact eachMinute { startup := newDevice }
    badTurns .written reachable = .ok s ∧ s.uploads = [1, 7, 8] :=
  ok_of_map (by decide +kernel)

theorem steadyTurns_ran : ∃ s, runMeasureLoop PyNumber.exact eachMinute { startup := newDevice }
    steadyTurns .written reachable = .ok s ∧ s.samples = 3 :=
  ok_of_map (by decide +kernel)

theorem measure_loop_interrupted :
    (∃ s interval saveEvery postEvery l ended, s.uploads = [1, 7, 8] ∧
      Observer.loop PyNumber.exact eachMinute interval saveEvery postEvery
        { startup := newDevice } badTurns = (l, ended) ∧
      Observer.Observes PyNumber.exact eachMinute interval saveEvery postEvery
        { startup := newDevice } badTurns .written reachable l ended s) ∧
    ∃ l interval saveEvery postEvery, l.samples = 3 ∧
      Observer.UpToDate PyNumber.exact interval saveEvery postEvery { startup := newDevice }
        steadyTurns l := by
  constructor
  · obtain ⟨s, hran, huploads⟩ := badTurns_ran
    obtain ⟨interval, saveEvery, postEvery, l, ended, -, -, -, hloop, hobserves, -⟩ :=
      measure_loop PyNumber.exact eachMinute newDevice .absent badTurns .written reachable hran
    exact ⟨s, interval, saveEvery, postEvery, l, ended, huploads, hloop, hobserves⟩
  · obtain ⟨s, hran, hsamples⟩ := steadyTurns_ran
    obtain ⟨interval, saveEvery, postEvery, l, ended, -, -, -, -, hobserves, hexact⟩ :=
      measure_loop PyNumber.exact eachMinute newDevice .absent steadyTurns .written reachable hran
    have hrunning : ended = false := (hobserves.runsOn rfl (by
      intro t ht
      simp only [steadyTurns, List.mem_cons, List.not_mem_nil, or_false] at ht
      rcases ht with rfl | rfl | rfl <;> simp [Observer.Interrupted, goodTurn, reachable])).1
    have hl : l.samples = 3 := hobserves.running hrunning ▸ hsamples
    exact ⟨l, interval, saveEvery, postEvery, hl,
      hexact rfl steadyTurns_undisturbed (by omega)⟩

end OneCompute.Worker
