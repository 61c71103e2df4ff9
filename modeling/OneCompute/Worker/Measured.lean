import OneCompute.Orchestrator.Rollup
import OneCompute.Orchestrator.Sections
import OneCompute.Worker.Learned

/-!
The two ways to measure a fleet, in exact arithmetic: the profile files of its
devices are aggregated, or every device uploads its profile and the orchestrator is
asked. The upload leaves out which buckets have GPU samples.
-/

namespace OneCompute.Worker
open PyFloat (val fin_val)
open PyNumber (exact)
open Measurement
open Mean (mean)

def BucketStat.populated (b : BucketStat) : Bool := decide (0 < b.n)

def BucketStat.sampled (b : BucketStat) : Bool := decide (0 < b.gpuN)

/-- The bucket that is read back from the file. -/
def BucketStat.stored (b : BucketStat) : Bucket where
  n := b.n
  gpuN := b.gpuN
  cpuMean := b.cpuMean
  cpuMax := b.cpuMax
  gpuMean := b.gpuMean
  gpuMax := b.gpuMax
  ramMean := b.ramMean
  ramMax := b.ramMax
  acMean := b.acMean
  idleMean := b.idleMean

/-- The bucket that the upload is computed from. -/
def BucketStat.unlabelled (b : BucketStat) : Bucket := { b.stored with gpuN := -1 }

theorem BucketStat.Learned.sane {b : BucketStat} (h : b.Learned) : b.stored.Sane :=
  ⟨h.cpu, h.gpu, h.ram.level, h.ac, h.idle⟩

/-! ## Reading buckets -/

theorem finite_isPct {x : PyFloat} (h : IsPct x) : finite exact (.float x) = .ok x := by
  rw [fin_val h.finite]
  rfl

theorem readFields {b : BucketStat} (h : b.Learned) (n gpuN : Int) :
    (do
      return some {
        n := n
        gpuN := gpuN
        cpuMean := ← finite exact (.float b.cpuMean)
        cpuMax := ← finite exact (.float b.cpuMax)
        gpuMean := ← finite exact (.float b.gpuMean)
        gpuMax := ← finite exact (.float b.gpuMax)
        ramMean := ← finite exact (.float b.ramMean)
        ramMax := ← finite exact (.float b.ramMax)
        acMean := ← finite exact (.float b.acMean)
        idleMean := ← finite exact (.float b.idleMean) } : Except String (Option Bucket)) =
      .ok (some { b.stored with n := n, gpuN := gpuN }) := by
  rw [finite_isPct h.cpu.level, finite_isPct h.cpu.top, finite_isPct h.gpu.level,
    finite_isPct h.gpu.top, finite_isPct h.ram.level, finite_isPct h.ram.top, finite_isPct h.ac,
    finite_isPct h.idle]
  rfl

theorem normalizeBucket_stored {b : BucketStat} (h : b.Learned) :
    normalizeBucket exact b.toJson = .ok (if b.populated then some b.stored else none) := by
  have hread : normalizeBucket exact b.toJson =
      if (b.n : Int) ≤ 0 then .ok none
      else .ok (some { b.stored with n := b.n, gpuN := max 0 (min (b.n : Int) b.gpuN) }) := by
    rw [← readFields h]
    rfl
  have hgpu : max 0 (min (b.n : Int) b.gpuN) = b.gpuN := by
    have := h.sampled
    omega
  rw [hread, hgpu, BucketStat.populated]
  by_cases hn : 0 < b.n
  · rw [if_neg (by omega), if_pos (by simpa using hn)]
    rfl
  · rw [if_pos (by omega), if_neg (by simpa using hn)]

theorem normalizeBucket_unlabelled {b : BucketStat} (h : b.Learned) :
    normalizeBucket exact b.local = .ok (if b.populated then some b.unlabelled else none) := by
  have hread : normalizeBucket exact b.local =
      if (b.n : Int) ≤ 0 then .ok none
      else .ok (some { b.stored with n := b.n, gpuN := -1 }) := by
    rw [← readFields h]
    rfl
  rw [hread, BucketStat.populated]
  by_cases hn : 0 < b.n
  · rw [if_neg (by omega), if_pos (by simpa using hn)]
    rfl
  · rw [if_pos (by omega), if_neg (by simpa using hn)]

theorem normalizeBuckets_map {f : BucketStat → Json} {g : BucketStat → Bucket}
    {bs : List BucketStat} (hlen : bs.length = bucketsPerWeek)
    (h : ∀ b ∈ bs, normalizeBucket exact (f b) = .ok (if b.populated then some (g b) else none)) :
    normalizeBuckets exact (.arr (bs.map f)) = .ok ((bs.filter BucketStat.populated).map g) := by
  have hall : ∀ xs : List BucketStat, (∀ b ∈ xs, normalizeBucket exact (f b) =
      .ok (if b.populated then some (g b) else none)) →
      ∃ ys, (xs.map f).mapM (normalizeBucket exact) = .ok ys ∧
        ys.reduceOption = (xs.filter BucketStat.populated).map g := by
    intro xs hxs
    induction xs with
    | nil => exact ⟨[], rfl, rfl⟩
    | cons b xs ih =>
        obtain ⟨ys, hys, heq⟩ := ih (fun c hc => hxs c (List.mem_cons_of_mem b hc))
        rw [List.map_cons, List.mapM_cons, hxs b List.mem_cons_self, hys]
        refine ⟨_, rfl, ?_⟩
        cases hb : b.populated with
        | true =>
            rw [List.filter_cons_of_pos hb, List.map_cons, ← heq]
            rfl
        | false =>
            rw [List.filter_cons_of_neg (by simp [hb]), ← heq]
            rfl
  obtain ⟨ys, hys, heq⟩ := hall bs h
  have htake : (bs.map f).take bucketsPerWeek = bs.map f := by
    rw [List.take_of_length_le]
    rw [List.length_map, hlen]
  unfold normalizeBuckets
  dsimp only
  rw [htake, hys]
  exact congrArg Except.ok heq

/-! ## Devices -/

structure Device where
  workerId : String
  hasGpu : Bool
  deviceClass : MeasurementDeviceClass := .unknown
  observations : List Observation

namespace Device

/-- What the device has saved. -/
def profile (d : Device) : UsageProfiler := { learn d.observations with gpuSupported := some d.hasGpu }

/-- The seconds that the device counted are below the loader's caps. -/
def BelowCaps (d : Device) : Prop :=
  PyFloat.le d.profile.availability.observedSeconds maxTrackedSeconds = true ∧
    PyFloat.le d.profile.availability.unavailableSeconds maxTrackedSeconds = true

def populated (d : Device) : List BucketStat := d.profile.buckets.filter BucketStat.populated

/-- The buckets with a GPU sample, as the file says. -/
def withGpu (d : Device) : List BucketStat :=
  if d.hasGpu then d.populated.filter BucketStat.sampled else []

/-- The buckets with a GPU sample, as the upload takes them. -/
def takenWithGpu (d : Device) : List BucketStat := if d.hasGpu then d.populated else []

def view (d : Device) (gpu : List BucketStat) : DeviceView :=
  deviceView (d.populated.map BucketStat.stored) (gpu.map BucketStat.stored) d.profile.availability

theorem learned (d : Device) : d.profile.Learned :=
  have h := learn_learned d.observations
  ⟨h.buckets, h.week, h.availability⟩

theorem populated_learned {d : Device} {b : BucketStat} (hb : b ∈ d.populated) : b.Learned :=
  d.learned.buckets b (List.mem_of_mem_filter hb)

theorem populated_sane (d : Device) : ∀ b ∈ d.populated.map BucketStat.stored, b.Sane := by
  intro b hb
  obtain ⟨c, hc, rfl⟩ := List.mem_map.mp hb
  exact (populated_learned hc).sane

theorem withGpu_subset {d : Device} {b : BucketStat} (hb : b ∈ d.withGpu) : b ∈ d.populated := by
  unfold withGpu at hb
  split at hb
  · exact List.mem_of_mem_filter hb
  · cases hb

theorem takenWithGpu_subset {d : Device} {b : BucketStat} (hb : b ∈ d.takenWithGpu) :
    b ∈ d.populated := by
  unfold takenWithGpu at hb
  split at hb
  · exact hb
  · cases hb

theorem view_inRange {d : Device} {gpu : List BucketStat} (h : ∀ b ∈ gpu, b ∈ d.populated) :
    (d.view gpu).InRange := by
  apply deviceView_inRange d.populated_sane
  · intro b hb
    obtain ⟨c, hc, rfl⟩ := List.mem_map.mp hb
    exact (populated_learned (h c hc)).sane
  · rw [List.length_map, ← d.learned.week]
    exact List.length_filter_le _ _
  · exact d.learned.availability.sane

end Device

/-! ## The file -/

theorem hasGpuSample_stored {profile : Profile} {g : Bool} (h : profile.gpuSupported = .bool g)
    (b : BucketStat) : hasGpuSample profile b.stored = (g && b.sampled) := by
  unfold hasGpuSample BucketStat.stored BucketStat.sampled
  rw [h]
  by_cases hn : 0 < b.gpuN
  · simp [hn]
  · have hzero : b.gpuN = 0 := by omega
    simp [hzero]

theorem filter_stored {d : Device} {profile : Profile} (h : profile.gpuSupported = .bool d.hasGpu) :
    (d.populated.map BucketStat.stored).filter (hasGpuSample profile) =
      d.withGpu.map BucketStat.stored := by
  have hp : hasGpuSample profile ∘ BucketStat.stored = fun b => d.hasGpu && b.sampled := by
    funext b
    exact hasGpuSample_stored h b
  rw [List.filter_map, hp, Device.withGpu]
  cases d.hasGpu with
  | true => rfl
  | false => simp

/-- Below the caps, the seconds are read back as they were saved. -/
theorem fromDict_toDict {t : AvailabilityTracker} (h : t.Sane)
    (hobserved : PyFloat.le t.observedSeconds maxTrackedSeconds = true)
    (hunavailable : PyFloat.le t.unavailableSeconds maxTrackedSeconds = true) :
    ∃ u, AvailabilityTracker.fromDict exact t.toDict = .ok u ∧
      u.observedSeconds = t.observedSeconds ∧ u.unavailableSeconds = t.unavailableSeconds := by
  have hread : ∀ x : PyFloat, x.isFinite = true ∧ 0 ≤ x.val →
      PyFloat.le x maxTrackedSeconds = true →
      PyFloat.pyMin maxTrackedSeconds (nonnegativeFinite x (.fin 0)) = x := by
    intro x hx hle
    rw [fin_val hx.1] at hle ⊢
    have hcap : x.val ≤ 400 * 24 * 3600 := by
      simpa [PyFloat.le, maxTrackedSeconds] using hle
    change PyFloat.pyMin (.fin (400 * 24 * 3600)) (PyFloat.pyMax (.fin 0) (.fin x.val)) = _
    rw [PyNumber.pyMax_fin, PyNumber.pyMin_fin, max_eq_right hx.2, min_eq_right hcap]
  exact ⟨_, rfl, hread _ h.observed hobserved, hread _ h.unavailable hunavailable⟩

theorem deviceView_timing {t u : AvailabilityTracker} (ho : u.observedSeconds = t.observedSeconds)
    (hu : u.unavailableSeconds = t.unavailableSeconds) (bs gpu : List Bucket) :
    deviceView bs gpu u = deviceView bs gpu t := by
  unfold deviceView
  rw [ho, hu]

theorem file_summary {d : Device} (hcaps : d.BelowCaps) :
    ∃ profile s, loadProfile exact d.profile.toJson = .ok (some profile) ∧
      summarizeProfile exact (defaultAssumptions exact) profile = .ok s ∧
      Summary.Of s (d.view d.withGpu) := by
  have hlearned := d.learned
  obtain ⟨u, hu, hobserved, hunavailable⟩ :=
    fromDict_toDict hlearned.availability.sane hcaps.1 hcaps.2
  have hsane : u.Sane := by
    have h := hlearned.availability.sane
    exact ⟨hobserved ▸ h.observed, hunavailable ▸ h.unavailable⟩
  have hbuckets := normalizeBuckets_map hlearned.week
    (fun b hb => normalizeBucket_stored (hlearned.buckets b hb))
  have hload : loadProfile exact d.profile.toJson = .ok (some {
      populated := d.populated.map BucketStat.stored
      gpuSupported := .bool d.hasGpu
      availability := d.profile.availability.toDict }) := by
    change (do
      let populated ← normalizeBuckets exact (.arr (d.profile.buckets.map BucketStat.toJson))
      return _ : Except String (Option Profile)) = _
    rw [hbuckets]
    rfl
  have ha : summarizeAvailability exact d.profile.availability.toDict =
      .ok (summarizeTracker exact u) := by
    unfold summarizeAvailability
    rw [hu]
    rfl
  obtain ⟨s, hs, hshows, havail⟩ := summarizeProfile_exact {
    populated := d.populated.map BucketStat.stored
    gpuSupported := .bool d.hasGpu
    availability := d.profile.availability.toDict } (fun b hb => (d.populated_sane b hb).inRange) ha
    d.profile.availability
  refine ⟨_, s, hload, hs, ?_, ?_, Device.view_inRange fun b hb => Device.withGpu_subset hb⟩
  · rw [filter_stored rfl] at hshows
    exact hshows
  · rw [havail, Device.view, ← deviceView_timing hobserved hunavailable]
    exact summarizeTracker_shows hsane _ _

/-- The report of files is the view of the fleet by the samples they count. -/
theorem measureReport_exact {ds : List Device} (hcaps : ∀ d ∈ ds, d.BelowCaps) :
    ∃ fleet, measureReport exact (ds.map fun d => d.profile.toJson) = .ok fleet ∧
      fleet.view = fleetView (ds.map fun d => d.view d.withGpu) := by
  have hload : List.Forall₂ (fun file v => ∃ loaded, loadProfile exact file = .ok loaded ∧
      ∃ profile, loaded = some profile ∧ ∃ s,
        summarizeProfile exact (defaultAssumptions exact) profile = .ok s ∧ Summary.Of s v)
      (ds.map fun d => d.profile.toJson) (ds.map fun d => d.view d.withGpu) := by
    rw [List.forall₂_map_left_iff, List.forall₂_map_right_iff, List.forall₂_same]
    intro d hd
    obtain ⟨profile, s, hload, hs, hof⟩ := file_summary (hcaps d hd)
    exact ⟨_, hload, profile, rfl, s, hs, hof⟩
  obtain ⟨loaded, hloaded, hall⟩ := Results.mapM_related hload
  obtain ⟨ss, hss, hof⟩ := Results.mapM_related (Results.reduceOption_related hall)
  unfold measureReport
  rw [hloaded]
  dsimp only [bind, Except.bind]
  rw [hss]
  exact aggregate_exact hof

/-! ## The upload -/

theorem hasGpuSample_unlabelled {profile : Profile} {g : Bool} (h : profile.gpuSupported = .bool g)
    (b : BucketStat) : hasGpuSample profile b.unlabelled = g := by
  unfold hasGpuSample BucketStat.unlabelled
  rw [h]
  rfl

/-- Without the sample counts, what a device shows is the same but for its GPU. -/
theorem deviceView_unlabelled (bs gpu : List BucketStat) (t : AvailabilityTracker) :
    deviceView (bs.map BucketStat.unlabelled) (gpu.map BucketStat.unlabelled) t =
      deviceView (bs.map BucketStat.stored) (gpu.map BucketStat.stored) t := by
  simp only [deviceView, Reading.of, List.map_map, Function.comp_def, List.length_map,
    List.isEmpty_map]
  rfl

theorem filter_unlabelled {d : Device} {profile : Profile}
    (h : profile.gpuSupported = .bool d.hasGpu) :
    (d.populated.map BucketStat.unlabelled).filter (hasGpuSample profile) =
      d.takenWithGpu.map BucketStat.unlabelled := by
  have hp : hasGpuSample profile ∘ BucketStat.unlabelled = fun _ => d.hasGpu := by
    funext b
    exact hasGpuSample_unlabelled h b
  rw [List.filter_map, hp, Device.takenWithGpu]
  cases d.hasGpu with
  | true => simp
  | false => simp

theorem reportProfile_exact (d : Device) :
    ∃ report, reportProfile exact d.workerId d.hasGpu d.deviceClass d.profile = .ok report ∧
      report.workerId = d.workerId ∧ report.Shows (d.view d.takenWithGpu) := by
  have hlearned := d.learned
  have hbuckets := normalizeBuckets_map hlearned.week
    (fun b hb => normalizeBucket_unlabelled (hlearned.buckets b hb))
  have hsane : ∀ b ∈ d.populated.map BucketStat.unlabelled, b.Sane := by
    intro b hb
    obtain ⟨c, hc, rfl⟩ := List.mem_map.mp hb
    have h := (Device.populated_learned hc).sane
    exact ⟨h.cpu, h.gpu, h.ram, h.ac, h.idle⟩
  obtain ⟨s, hs, hshows, -⟩ := summarizeProfile_exact {
    populated := d.populated.map BucketStat.unlabelled
    gpuSupported := .bool d.hasGpu } (fun b hb => (hsane b hb).inRange) rfl d.profile.availability
  rw [filter_unlabelled rfl, deviceView_unlabelled] at hshows
  have htiming : (summarizeTracker exact d.profile.availability).Shows (d.view d.takenWithGpu) :=
    summarizeTracker_shows hlearned.availability.sane _ _
  have hspan := fin_val (htiming.finite _ List.mem_cons_self)
  have hpos := htiming.span
  have htimed := htiming.timed
  generalize (summarizeTracker exact d.profile.availability).spanSeconds.val = span at hspan hpos
  unfold reportProfile
  rw [Device.populated] at hs
  rw [hbuckets]
  dsimp only [bind, Except.bind]
  rw [hs]
  refine ⟨_, rfl, rfl, rfl, ?_, ?_, ?_, hshows.gpuSampled, hshows.ram, hshows.ac, ?_⟩
  · rw [hshows.coverage]
    rfl
  · rw [hshows.cpu]
    rfl
  · rw [hshows.gpu]
    rfl
  · refine ⟨⟨span / 3600, ?_, by positivity, ?_⟩, htiming.observed, htiming.unavailable⟩
    · rw [hspan]
      rfl
    · rw [← htimed, hspan]
      change decide (0 < span / 3600) = decide (0 < span)
      rw [decide_eq_decide]
      exact div_pos_iff_of_pos_right (by norm_num)

/-- An upload, as the orchestrator stores it. -/
def upload (d : Device) (now : Time) (db : Db) : Except String Db := do
  let report ← reportProfile exact d.workerId d.hasGpu d.deviceClass d.profile
  let compact ← sanitizeProfileReport exact report
  return storeProfile report.workerId compact now db

def uploadAll : List (Device × Time) → Db → Except String Db
  | [], db => .ok db
  | (d, now) :: rest, db => do
      let db ← upload d now db
      uploadAll rest db

/-- What the orchestrator answers about the fleet. -/
def measured (db : Db) : Except String MeasurementSummary :=
  measurementOf exact (db.profiles.rows.map (·.bucketsJson))

theorem upload_exact (d : Device) (now : Time) {db : Db}
    (hfresh : ∀ row ∈ db.profiles, row.workerId ≠ d.workerId) :
    ∃ db' row, upload d now db = .ok db' ∧ db'.profiles.rows = db.profiles.rows ++ [row] ∧
      row.workerId = d.workerId ∧ StoredFor row.bucketsJson (d.view d.takenWithGpu) := by
  obtain ⟨report, hreport, hid, hshows⟩ := reportProfile_exact d
  have hrange := Device.view_inRange fun b (hb : b ∈ d.takenWithGpu) => Device.takenWithGpu_subset hb
  obtain ⟨compact, hcompact, hshown⟩ := sanitizeProfileReport_exact hshows hrange
  refine ⟨storeProfile d.workerId compact now db, ProfileRow.of d.workerId compact now, ?_, ?_, rfl,
    compact, rfl, hshown, hrange⟩
  · unfold upload
    rw [hreport]
    dsimp only [bind, Except.bind]
    rw [hcompact, hid]
    rfl
  · apply Table.rows_upsert_fresh
    exact hfresh

theorem uploadAll_exact {uploads : List (Device × Time)} {db : Db}
    (hids : (uploads.map fun u => u.1.workerId).Nodup)
    (hfresh : ∀ u ∈ uploads, ∀ row ∈ db.profiles, row.workerId ≠ u.1.workerId) :
    ∃ db' rows, uploadAll uploads db = .ok db' ∧ db'.profiles.rows = db.profiles.rows ++ rows ∧
      List.Forall₂ StoredFor (rows.map (·.bucketsJson))
        (uploads.map fun u => u.1.view u.1.takenWithGpu) := by
  induction uploads generalizing db with
  | nil => exact ⟨db, [], rfl, by simp, .nil⟩
  | cons u rest ih =>
      obtain ⟨d, now⟩ := u
      rw [List.map_cons, List.nodup_cons] at hids
      obtain ⟨db', row, hdb', hrows, hrow, hstored⟩ :=
        upload_exact d now (hfresh (d, now) List.mem_cons_self)
      have hfresh' : ∀ u ∈ rest, ∀ r ∈ db'.profiles, r.workerId ≠ u.1.workerId := by
        intro u hu r hr
        rw [Table.mem_iff, hrows, List.mem_append, List.mem_singleton] at hr
        rcases hr with hr | rfl
        · exact hfresh u (List.mem_cons_of_mem _ hu) r hr
        · rw [hrow]
          intro heq
          exact hids.1 (List.mem_map.mpr ⟨u, hu, heq.symm⟩)
      obtain ⟨db'', rows, hdb'', hrows', hall⟩ := ih hids.2 hfresh'
      refine ⟨db'', row :: rows, ?_, ?_, .cons hstored hall⟩
      · rw [uploadAll, hdb']
        exact hdb''
      · rw [hrows', hrows, List.append_assoc]
        rfl

/-! ## Agreement -/

section Gpu

def gpuReading (bs : List BucketStat) : Reading :=
  Reading.of Bucket.gpuMean Bucket.gpuMax 0 (bs.map BucketStat.stored)

variable {bs : List BucketStat} (h : ∀ b ∈ bs, b.Learned)
include h

theorem unsampled_zero : (∀ b ∈ bs, b.sampled = false → b.gpuMean.val = 0) ∧
    ∀ b ∈ bs, b.sampled = false → b.gpuMax.val = 0 := by
  have hzero : ∀ b ∈ bs, b.sampled = false → b.gpuMean = .fin 0 ∧ b.gpuMax = .fin 0 := by
    intro b hb hs
    exact (h b hb).unsampled (by simpa [BucketStat.sampled] using hs)
  constructor
  · intro b hb hs
    rw [(hzero b hb hs).1]
    rfl
  · intro b hb hs
    rw [(hzero b hb hs).2]
    rfl

theorem gpuReading_le :
    (gpuReading bs).avg ≤ (gpuReading (bs.filter BucketStat.sampled)).avg := by
  simp only [gpuReading, Reading.of, List.map_map]
  exact Mean.mean_le_filter (unsampled_zero h).1 (fun b hb => (h b hb).gpu.level.low)

theorem gpuReading_avg_eq (hne : bs.filter BucketStat.sampled ≠ []) :
    (gpuReading bs).avg = (gpuReading (bs.filter BucketStat.sampled)).avg ↔
      (∀ b ∈ bs, b.sampled = true) ∨ ∀ b ∈ bs, b.gpuMean.val = 0 := by
  simp only [gpuReading, Reading.of, List.map_map]
  exact Mean.mean_filter_eq (unsampled_zero h).1 (fun b hb => (h b hb).gpu.level.low) hne

/-- Where the averages agree, so does the rest of the reading. -/
theorem gpuReading_eq (hne : bs.filter BucketStat.sampled ≠ [])
    (havg : (gpuReading bs).avg = (gpuReading (bs.filter BucketStat.sampled)).avg) :
    gpuReading bs = gpuReading (bs.filter BucketStat.sampled) := by
  rcases (gpuReading_avg_eq h hne).mp havg with hall | hzero
  · rw [List.filter_eq_self.mpr hall]
  · have hpeak : (gpuReading bs).peak = (gpuReading (bs.filter BucketStat.sampled)).peak := by
      simp only [gpuReading, Reading.of, List.map_map]
      exact (Mean.peak_filter (unsampled_zero h).2).symm
    have hspare : ∀ cs : List BucketStat, cs ≠ [] → (∀ b ∈ cs, b.gpuMean.val = 0) →
        (gpuReading cs).spare = 100 := by
      intro cs hcs hcs0
      simp only [gpuReading, Reading.of, List.map_map]
      apply Mean.mean_const hcs
      intro b hb
      have hb0 : b.stored.gpuMean.val = 0 := hcs0 b hb
      rw [Function.comp_apply, hb0]
      norm_num
    have hbs : bs ≠ [] := by
      rintro rfl
      exact hne rfl
    have hboth := (hspare bs hbs hzero).trans
      (hspare _ hne fun b hb => hzero b (List.mem_of_mem_filter hb)).symm
    cases hr : gpuReading bs
    cases hs : gpuReading (bs.filter BucketStat.sampled)
    rw [hr, hs] at havg hpeak hboth
    exact (Reading.mk.injEq _ _ _ _ _ _).mpr ⟨havg, hpeak, hboth⟩

end Gpu

/-- The upload of a device counts its GPU as its file does: it has no GPU, or every
populated bucket has a GPU sample, or one has and the GPU was never busy. -/
def Device.GpuCounted (d : Device) : Prop :=
  d.hasGpu = true → (∀ b ∈ d.populated, b.sampled = true) ∨
    ((∃ b ∈ d.populated, b.sampled = true) ∧ ∀ b ∈ d.populated, b.gpuMean = .fin 0)

theorem view_sameButGpu (d : Device) (xs ys : List BucketStat) :
    (d.view xs).SameButGpu (d.view ys) :=
  ⟨rfl, rfl, rfl, rfl, rfl, rfl, rfl⟩

theorem view_gpuSampled (d : Device) (xs : List BucketStat) :
    (d.view xs).gpuSampled = true ↔ xs ≠ [] := by
  simp [Device.view, deviceView]

theorem withGpu_eq {d : Device} (h : d.hasGpu = true) :
    d.withGpu = d.populated.filter BucketStat.sampled := by
  rw [Device.withGpu, if_pos h]

theorem takenWithGpu_eq {d : Device} (h : d.hasGpu = true) : d.takenWithGpu = d.populated := by
  rw [Device.takenWithGpu, if_pos h]

theorem fleetViews_agree_iff (devices : List Device) :
    fleetView (devices.map fun d => d.view d.takenWithGpu) =
      fleetView (devices.map fun d => d.view d.withGpu) ↔ ∀ d ∈ devices, d.GpuCounted := by
  have hlearned : ∀ d : Device, ∀ b ∈ d.populated, b.Learned :=
    fun d b hb => Device.populated_learned hb
  have hgpu : ∀ (d : Device) (xs : List BucketStat), (d.view xs).gpu = gpuReading xs :=
    fun _ _ => rfl
  rw [fleetView_eq_iff]
  · simp only [view_gpuSampled, hgpu]
    apply forall₂_congr
    intro d _
    by_cases hd : d.hasGpu = true
    · rw [withGpu_eq hd, takenWithGpu_eq hd]
      constructor
      · intro h _
        by_cases hpop : d.populated = []
        · left
          simp [hpop]
        · have hcontributes : (d.view d.populated).contributes = true := by
            simpa [DeviceView.contributes, Device.view, deviceView, List.length_pos_iff] using hpop
          obtain ⟨hne, havg⟩ := h hcontributes hpop
          rcases (gpuReading_avg_eq (hlearned d) hne).mp havg with hall | hzero
          · exact .inl hall
          · right
            obtain ⟨b, hb⟩ := List.exists_mem_of_ne_nil _ hne
            refine ⟨⟨b, List.mem_filter.mp hb⟩, fun c hc => ?_⟩
            rw [fin_val (hlearned d c hc).gpu.level.finite, hzero c hc]
      · intro h _ hpop
        rcases h hd with hall | ⟨⟨b, hb, hs⟩, hzero⟩
        · have hself := List.filter_eq_self.mpr hall
          exact ⟨by rwa [hself], by rw [hself]⟩
        · have hne : d.populated.filter BucketStat.sampled ≠ [] :=
            List.ne_nil_of_mem (List.mem_filter.mpr ⟨hb, hs⟩)
          refine ⟨hne, (gpuReading_avg_eq (hlearned d) hne).mpr (.inr fun c hc => ?_)⟩
          rw [hzero c hc]
          rfl
    · have htaken : d.takenWithGpu = [] := by rw [Device.takenWithGpu, if_neg hd]
      rw [htaken]
      exact ⟨fun _ hg => absurd hg hd, fun _ _ hne => absurd rfl hne⟩
  · exact fun d _ => view_sameButGpu d _ _
  · intro d _ hs
    rw [view_gpuSampled] at hs ⊢
    by_cases hd : d.hasGpu = true
    · rw [withGpu_eq hd] at hs
      rw [takenWithGpu_eq hd]
      rintro hnil
      rw [hnil] at hs
      exact hs rfl
    · rw [Device.withGpu, if_neg hd] at hs
      exact absurd rfl hs
  · intro d _
    rw [hgpu, hgpu]
    by_cases hd : d.hasGpu = true
    · rw [withGpu_eq hd, takenWithGpu_eq hd]
      exact gpuReading_le (hlearned d)
    · rw [Device.withGpu, Device.takenWithGpu, if_neg hd, if_neg hd]
  · intro d _ hs havg
    rw [view_gpuSampled] at hs
    rw [hgpu, hgpu] at havg ⊢
    by_cases hd : d.hasGpu = true
    · rw [withGpu_eq hd] at hs havg ⊢
      rw [takenWithGpu_eq hd] at havg ⊢
      exact gpuReading_eq (hlearned d) hs havg
    · rw [Device.withGpu, if_neg hd] at hs
      exact absurd rfl hs

/-- The uploads and the files of a set of devices are read without error, and show the
fleet by the buckets that each takes to have GPU samples. -/
theorem measured_views (devices files : List Device) (uploads : List (Device × Time)) (db : Db)
    (hids : (devices.map Device.workerId).Nodup) (hcaps : ∀ d ∈ devices, d.BelowCaps)
    (hfiles : files.Perm devices) (huploads : (uploads.map (·.1)).Perm devices)
    (hdb : db.profiles.rows = []) :
    ∃ after online offline, uploadAll uploads db = .ok after ∧ measured after = .ok online ∧
      measureReport exact (files.map fun d => d.profile.toJson) = .ok offline ∧
      online.view = fleetView (devices.map fun d => d.view d.takenWithGpu) ∧
      offline.view = fleetView (devices.map fun d => d.view d.withGpu) := by
  have hids' : (uploads.map fun u => u.1.workerId).Nodup := by
    have hperm := huploads.map Device.workerId
    rw [List.map_map] at hperm
    exact hperm.nodup_iff.mpr hids
  have hfresh : ∀ u ∈ uploads, ∀ row ∈ db.profiles, row.workerId ≠ u.1.workerId := by
    intro u _ row hrow
    rw [Table.mem_iff, hdb] at hrow
    cases hrow
  obtain ⟨after, rows, hafter, hrows, hstored⟩ := uploadAll_exact hids' hfresh
  rw [hdb, List.nil_append] at hrows
  obtain ⟨online, honline, hon⟩ := measurementOf_exact hstored
  obtain ⟨offline, hoffline, hoff⟩ :=
    measureReport_exact fun d hd => hcaps d (hfiles.mem_iff.mp hd)
  refine ⟨after, online, offline, hafter, ?_, hoffline, ?_, ?_⟩
  · rw [measured, hrows]
    exact honline
  · have huploaded := huploads.map fun d => d.view d.takenWithGpu
    rw [List.map_map] at huploaded
    rw [hon, ← fleetView_perm huploaded]
    rfl
  · rw [hoff, fleetView_perm (hfiles.map fun d => d.view d.withGpu)]

/-- For every set of devices, however their profiles were learned and in whatever order
they upload and their files are read, the orchestrator's view of the fleet is that of the
files if and only if every upload counts the GPU of its device as its file does. -/
theorem measurement_agrees_iff (devices files : List Device) (uploads : List (Device × Time))
    (db : Db) (hids : (devices.map Device.workerId).Nodup)
    (hcaps : ∀ d ∈ devices, d.BelowCaps) (hfiles : files.Perm devices)
    (huploads : (uploads.map (·.1)).Perm devices) (hdb : db.profiles.rows = []) :
    ∃ after online offline, uploadAll uploads db = .ok after ∧ measured after = .ok online ∧
      measureReport exact (files.map fun d => d.profile.toJson) = .ok offline ∧
      (online.view = offline.view ↔ ∀ d ∈ devices, d.GpuCounted) := by
  obtain ⟨after, online, offline, hafter, honline, hoffline, hon, hoff⟩ :=
    measured_views devices files uploads db hids hcaps hfiles huploads hdb
  refine ⟨after, online, offline, hafter, honline, hoffline, ?_⟩
  rw [hon, hoff]
  exact fleetViews_agree_iff devices

/-- One sample with the GPU half busy, in the first hour of the week. -/
def gpuSample : Observation :=
  .sample { cpu := .fin 10, gpu := some (.fin 50), ram := .fin 40, taken := ⟨0, 0, .fin 1000⟩ }

theorem measurement_agrees_sampled : ∃ after online offline,
    uploadAll [(⟨"a", true, .laptop, [gpuSample]⟩, 0)] .empty = .ok after ∧
      measured after = .ok online ∧
      measureReport exact [(⟨"a", true, .laptop, [gpuSample]⟩ : Device).profile.toJson] =
        .ok offline ∧ online.view = offline.view := by
  obtain ⟨after, online, offline, hafter, honline, hoffline, hiff⟩ :=
    measurement_agrees_iff [⟨"a", true, .laptop, [gpuSample]⟩]
      [⟨"a", true, .laptop, [gpuSample]⟩] [(⟨"a", true, .laptop, [gpuSample]⟩, 0)] .empty (by simp)
      (by simp only [List.forall_mem_singleton]; exact ⟨by decide +kernel, by decide +kernel⟩)
      (List.Perm.refl _) (List.Perm.refl _) rfl
  refine ⟨after, online, offline, hafter, honline, hoffline, hiff.mpr ?_⟩
  rw [List.forall_mem_singleton]
  exact fun _ => .inl (by decide +kernel)

/-- A sample in the second hour of the week, when the GPU could not be read. -/
def blindSample : Observation :=
  .sample { cpu := .fin 10, gpu := none, ram := .fin 40, taken := ⟨0, 1, .fin 4600⟩ }

theorem blindBucket_dilutes : ∃ after online offline,
    uploadAll [(⟨"a", true, .laptop, [gpuSample, blindSample]⟩, 0)] .empty = .ok after ∧
      measured after = .ok online ∧
      measureReport exact [(⟨"a", true, .laptop, [gpuSample, blindSample]⟩ : Device).profile.toJson] =
        .ok offline ∧ online.view.gpu.avg = .fin 25 ∧ offline.view.gpu.avg = .fin 50 := by
  obtain ⟨after, online, offline, hafter, honline, hoffline, hon, hoff⟩ :=
    measured_views [⟨"a", true, .laptop, [gpuSample, blindSample]⟩]
      [⟨"a", true, .laptop, [gpuSample, blindSample]⟩]
      [(⟨"a", true, .laptop, [gpuSample, blindSample]⟩, 0)] .empty (by simp)
      (by simp only [List.forall_mem_singleton]; exact ⟨by decide +kernel, by decide +kernel⟩)
      (List.Perm.refl _) (List.Perm.refl _) rfl
  refine ⟨after, online, offline, hafter, honline, hoffline, ?_, ?_⟩
  · rw [hon]
    decide +kernel
  · rw [hoff]
    decide +kernel

end OneCompute.Worker
