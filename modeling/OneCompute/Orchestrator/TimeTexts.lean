import OneCompute.Lib.PyTimeOrder
import OneCompute.Orchestrator.Transitions

/-!
The columns for times hold ISO texts. Where SQL or Python compares two of them, it decides
what a comparison of the instants decides.
-/

namespace OneCompute
open PyTime (isoformat utf8Bytes endOfTime isoformat_lt_iff isoformat_inj utf8Bytes_lt_iff)

/-- `x < y` of two texts in SQL, byte by byte; of `NULL` it is not true. -/
def sqlLess : Option String → Option String → Bool
  | some s, some t => decide (utf8Bytes s < utf8Bytes t)
  | _, _ => false

def sqlAtMost : Option String → Option String → Bool
  | some s, some t => !decide (utf8Bytes t < utf8Bytes s)
  | _, _ => false

/-! ## The texts of a row -/

def JobRow.leaseText (job : JobRow) : Option String := job.leaseExpires.map isoformat

def JobRow.createdText (job : JobRow) : String := isoformat job.createdAt

def WorkerRow.heartbeatText (row : WorkerRow) : Option String := row.lastHeartbeat.map isoformat

/-! ## Sections that compare texts -/

def reapExpiredByText (clock : Time) (db : Db) : Db :=
  requeue clock (fun job => decide (job.state = .leased) &&
    sqlLess job.leaseText (some (isoformat clock))) db

@[simp] theorem JobRow.extended_jobId (now clock : Time) (job : JobRow) :
    (job.extended now clock).jobId = job.jobId := rfl

def extendLeaseByText (workerId jobId : String) (now clock : Time) (db : Db) : Db :=
  db.updateJobs
    (fun j => decide (j.jobId = jobId) && j.leasedTo workerId &&
      sqlLess (some (isoformat now)) j.leaseText)
    (JobRow.extended now clock) (JobRow.extended_jobId now clock)

def renewLeaseByText (workerId jobId : String) (now clock : Time) (db : Db) : Db :=
  extendLeaseByText workerId jobId now clock
    (requeue now (fun j => decide (j.jobId = jobId) && j.leasedTo workerId &&
      sqlAtMost j.leaseText (some (isoformat now))) db)

/-- `not job["lease_expires"] or job["lease_expires"] <= now`, compared by Python. -/
def leaseLapsed (leaseExpires : Option String) (now : String) : Bool :=
  match leaseExpires with
  | some text => decide (text = "") || decide (text ≤ now)
  | none => true

def livePeerByText (db : Db) (workerId : String) (now : Time) (peer : WorkerRow) : Bool :=
  decide (peer.workerId ≠ workerId) && peer.approved && !peer.blacklisted &&
    sqlAtMost (some (isoformat (now - PyTime.seconds 3))) peer.heartbeatText &&
    !busy db peer.workerId

def deferByText (db : Db) (workerId : String) (jobCreatedAt now : Time) : Bool :=
  if pastGrace now jobCreatedAt then false
  else
    match db.workers.find? workerId with
    | none => false
    | some me => (db.workers.rows.filter (livePeerByText db workerId now)).any fun peer =>
        PyFloat.le (.fin 15) (PyFloat.sub me.load peer.load)

def JobRow.leByText (a b : JobRow) : Bool :=
  sqlLess (some a.createdText) (some b.createdText) ||
    (decide (a.createdText = b.createdText) && decide (a.jobId ≤ b.jobId))

def queuedJobsByText (db : Db) : List JobRow :=
  (db.jobs.rows.filter (fun j => j.state = .queued)).insertionSort (fun a b => a.leByText b = true)

/-! ## Instants of the calendar -/

structure JobRow.Dated (job : JobRow) : Prop where
  lease : ∀ t, job.leaseExpires = some t → t < endOfTime
  created : job.createdAt < endOfTime

def WorkerRow.Dated (row : WorkerRow) : Prop := ∀ t, row.lastHeartbeat = some t → t < endOfTime

/-- Every time that is compared is one that a `datetime` can be. -/
structure Db.Dated (db : Db) : Prop where
  jobs : ∀ job ∈ db.jobs, job.Dated
  workers : ∀ row ∈ db.workers, row.Dated

theorem sqlLess_isoformat {s t : Time} (hs : s < endOfTime) (ht : t < endOfTime) :
    sqlLess (some (isoformat s)) (some (isoformat t)) = decide (s < t) := by
  have hiff := utf8Bytes_lt_iff hs ht
  generalize isoformat s = x at hiff ⊢
  generalize isoformat t = y at hiff ⊢
  exact decide_eq_decide.mpr hiff

theorem sqlAtMost_isoformat {s t : Time} (hs : s < endOfTime) (ht : t < endOfTime) :
    sqlAtMost (some (isoformat s)) (some (isoformat t)) = decide (s ≤ t) := by
  have hiff := utf8Bytes_lt_iff ht hs
  generalize isoformat s = x at hiff ⊢
  generalize isoformat t = y at hiff ⊢
  change (!decide (utf8Bytes y < utf8Bytes x)) = _
  rw [← decide_not]
  exact decide_eq_decide.mpr ((not_congr hiff).trans Nat.not_lt)

theorem isoformat_ne_empty (t : Time) : isoformat t ≠ "" := by
  intro h
  have hchars := congrArg String.toList h
  rw [PyTime.isoformat_toList] at hchars
  simp at hchars

section Decisions
variable {now : Time} (hnow : now < endOfTime)
include hnow

theorem leaseText_less {job : JobRow} (hjob : job.Dated) :
    sqlLess job.leaseText (some (isoformat now)) = job.leaseExpires.any fun t => decide (t < now) := by
  unfold JobRow.leaseText
  cases hlease : job.leaseExpires with
  | none => rfl
  | some t => exact sqlLess_isoformat (hjob.lease t hlease) hnow

theorem leaseText_lapsed {job : JobRow} (hjob : job.Dated) :
    sqlAtMost job.leaseText (some (isoformat now)) = job.lapsedBy now := by
  unfold JobRow.leaseText JobRow.lapsedBy
  cases hlease : job.leaseExpires with
  | none => rfl
  | some t => exact sqlAtMost_isoformat (hjob.lease t hlease) hnow

theorem leaseText_live {job : JobRow} (hjob : job.Dated) :
    sqlLess (some (isoformat now)) job.leaseText = job.leaseExpires.any fun t => decide (now < t) := by
  unfold JobRow.leaseText
  cases hlease : job.leaseExpires with
  | none => rfl
  | some t => exact sqlLess_isoformat hnow (hjob.lease t hlease)

theorem reapExpired_byText {db : Db} (hdb : db.Dated) :
    reapExpiredByText now db = reapExpired now db := by
  unfold reapExpiredByText reapExpired requeue Db.updateJobs
  congr 1
  refine Table.update_congr _ fun job hjob => ?_
  rw [leaseText_less hnow (hdb.jobs job hjob)]
  cases job.leaseExpires <;> rfl

theorem renewLease_byText {db : Db} (hdb : db.Dated) (workerId jobId : String) (clock : Time) :
    renewLeaseByText workerId jobId now clock db = renewLease workerId jobId now clock db := by
  have hlapsed : requeue now (fun j => decide (j.jobId = jobId) && j.leasedTo workerId &&
        sqlAtMost j.leaseText (some (isoformat now))) db =
      requeue now (fun j => decide (j.jobId = jobId) && j.leasedTo workerId && j.lapsedBy now) db := by
    unfold requeue Db.updateJobs
    congr 1
    refine Table.update_congr _ fun job hjob => ?_
    rw [leaseText_lapsed hnow (hdb.jobs job hjob)]
  unfold renewLeaseByText renewLease
  rw [hlapsed]
  unfold extendLeaseByText extendLease Db.updateJobs
  congr 1
  refine Table.update_congr _ fun job hjob => ?_
  -- the row has the lease it had before, or none
  obtain ⟨old, hold, heq⟩ := (Table.mem_update (f := JobRow.requeued now) (fun _ => rfl)).mp hjob
  have hdated := hdb.jobs old hold
  have hjob : job.Dated := by
    rw [← heq]
    split
    · exact ⟨nofun, hdated.created⟩
    · exact hdated
  rw [leaseText_live hnow hjob]
  cases job.leaseExpires <;> rfl

/-- A result is refused as late exactly if the texts say so. -/
theorem settle_byText {db : Db} (hdb : db.Dated) {jobId : String} {req : ResultRequest} {job : JobRow}
    (hfind : db.jobs.find? jobId = some job) (hleased : job.leasedTo req.workerId = true) :
    (settle jobId req now db).answer = .ok (refused "lease_expired") ↔
      leaseLapsed job.leaseText (isoformat now) = true := by
  have hdated := hdb.jobs job (Table.find?_eq_some.mp hfind).1
  have htext : leaseLapsed job.leaseText (isoformat now) = true ↔
      ∀ t, job.leaseExpires = some t → t ≤ now := by
    unfold leaseLapsed JobRow.leaseText
    cases hlease : job.leaseExpires with
    | none => exact iff_of_true rfl nofun
    | some t =>
        have hlt : isoformat t ≤ isoformat now ↔ t ≤ now :=
          (not_congr (isoformat_lt_iff hnow (hdated.lease t hlease))).trans Nat.not_lt
        have hempty := isoformat_ne_empty t
        rw [Option.map_some]
        generalize isoformat t = x at hlt hempty ⊢
        simp [hempty, hlt]
  rw [htext]
  have hc := settle_cases jobId req now db
  generalize settle jobId req now db = out at hc ⊢
  have hrefused : ∀ {reason : String}, reason ≠ "lease_expired" →
      (Except.ok (refused reason) : Except Failure ResultResponse) ≠ .ok (refused "lease_expired") := by
    intro reason hne heq
    exact hne (Option.some.inj (congrArg ResultResponse.reason (Except.ok.inj heq)))
  have hheld : ∀ {held : JobRow}, HeldJob jobId req.workerId now db held →
      ¬ ∀ t, job.leaseExpires = some t → t ≤ now := by
    rintro held ⟨hfound, -, t, ht, hlt⟩ hle
    cases hfind.symm.trans hfound
    exact absurd (hle t ht) (Nat.not_le.mpr hlt)
  cases hc with
  | missing hnone => exact absurd (hfind.symm.trans hnone) nofun
  | notLeased other hother hfree =>
      cases hfind.symm.trans hother
      exact absurd (hleased.symm.trans hfree) nofun
  | lapsed other hother _ hlapsed =>
      cases hfind.symm.trans hother
      exact iff_of_true rfl hlapsed
  | tooLarge other held _ | invalidProof other held _ _ | cheated other held _ _ =>
      exact iff_of_false (hrefused (by decide)) (hheld held)
  | raised other failure held _ _ => exact iff_of_false nofun (hheld held)
  | completed other held _ _ _ _ =>
      refine iff_of_false (fun heq => ?_) (hheld held)
      exact absurd (congrArg ResultResponse.accepted (Except.ok.inj heq)) nofun
  | returned other held hstatus =>
      refine iff_of_false (hrefused ?_) (hheld held)
      cases req.status <;> decide

theorem livePeer_byText {db : Db} {peer : WorkerRow} (hpeer : peer.Dated) (workerId : String) :
    livePeerByText db workerId now peer = livePeer db workerId now peer := by
  have hcutoff : now - PyTime.seconds 3 < endOfTime := Nat.lt_of_le_of_lt (Nat.sub_le _ _) hnow
  unfold livePeerByText livePeer WorkerRow.heartbeatText
  congr 2
  cases hbeat : peer.lastHeartbeat with
  | none => rfl
  | some t =>
      rw [Option.map_some, sqlAtMost_isoformat hcutoff (hpeer t hbeat)]
      exact decide_eq_decide.mpr Nat.sub_le_iff_le_add

theorem defer_byText {db : Db} (hdb : db.Dated) (workerId : String) (jobCreatedAt : Time) :
    deferByText db workerId jobCreatedAt now = deferToLessLoaded db workerId jobCreatedAt now := by
  have hpeers : db.workers.rows.filter (livePeerByText db workerId now) =
      db.workers.rows.filter (livePeer db workerId now) :=
    List.filter_congr fun peer hpeer => livePeer_byText hnow (hdb.workers peer hpeer) workerId
  unfold deferByText deferToLessLoaded
  refine if_congr Iff.rfl rfl ?_
  cases db.workers.find? workerId with
  | none => rfl
  | some me => exact congrArg (List.any · _) hpeers

end Decisions

theorem queuedJobs_byText {db : Db} (hdb : db.Dated) : queuedJobsByText db = queuedJobs db := by
  have hle : ∀ {a b : JobRow}, a.Dated → b.Dated → (a.leByText b = true ↔ a.le b = true) := by
    intro a b ha hb
    have heq := isoformat_inj ha.created hb.created
    unfold JobRow.leByText JobRow.le JobRow.createdText
    rw [sqlLess_isoformat ha.created hb.created, decide_eq_decide.mpr heq]
  have hdated : ∀ job ∈ db.jobs.rows.filter (fun j => j.state = .queued), job.Dated :=
    fun job hjob => hdb.jobs job (List.mem_of_mem_filter hjob)
  have hsort := List.map_insertionSort (fun a b : JobRow => a.leByText b = true)
    (fun a b : JobRow => a.le b = true) id (db.jobs.rows.filter (fun j => j.state = .queued))
    fun a ha b hb => hle (hdated a ha) (hdated b hb)
  rw [List.map_id, List.map_id] at hsort
  exact hsort

/-- Texts are in the order of the instants, by code points and by bytes, and every
comparison of two decides by time. -/
theorem texts_decide_by_time {now : Time} (hnow : now < endOfTime) {db : Db} (hdb : db.Dated) :
    (∀ s t : Time, s < endOfTime → t < endOfTime →
      (isoformat s < isoformat t ↔ s < t) ∧
      (utf8Bytes (isoformat s) < utf8Bytes (isoformat t) ↔ s < t) ∧
      (isoformat s = isoformat t ↔ s = t)) ∧
    reapExpiredByText now db = reapExpired now db ∧
    (∀ workerId jobId clock,
      renewLeaseByText workerId jobId now clock db = renewLease workerId jobId now clock db) ∧
    (∀ jobId req job, db.jobs.find? jobId = some job → job.leasedTo req.workerId = true →
      ((settle jobId req now db).answer = .ok (refused "lease_expired") ↔
        leaseLapsed job.leaseText (isoformat now) = true)) ∧
    (∀ workerId jobCreatedAt,
      deferByText db workerId jobCreatedAt now = deferToLessLoaded db workerId jobCreatedAt now) ∧
    queuedJobsByText db = queuedJobs db :=
  ⟨fun _ _ hs ht => ⟨isoformat_lt_iff hs ht, utf8Bytes_lt_iff hs ht, isoformat_inj hs ht⟩,
    reapExpired_byText hnow hdb, renewLease_byText hnow hdb,
    fun _ _ _ hfind hleased => settle_byText hnow hdb hfind hleased, defer_byText hnow hdb,
    queuedJobs_byText hdb⟩

def leasedJob (lease created : Time) : JobRow where
  jobId := "job"
  kind := .render
  manifestJson := { jobId := "job", kind := .render, issuedAt := created }
  inputJson := []
  state := .leased
  assignedWorker := some "worker"
  leaseExpires := some lease
  createdAt := created
  updatedAt := created

/-- A lease that ends with a second is over a microsecond later. -/
theorem texts_decide_by_time_lease :
    reapExpiredByText 63839664000000001
        { Db.empty with
          jobs := ⟨[leasedJob 63839664000000000 63839663000000000], List.nodup_singleton _⟩ } =
      reapExpired 63839664000000001
        { Db.empty with
          jobs := ⟨[leasedJob 63839664000000000 63839663000000000], List.nodup_singleton _⟩ } := by
  have hend : endOfTime = 315537897600000000 := rfl
  have hdated : ∀ lease created : Time, lease < endOfTime → created < endOfTime →
      Db.Dated { Db.empty with jobs := ⟨[leasedJob lease created], List.nodup_singleton _⟩ } := by
    intro lease created hlease hcreated
    refine ⟨fun job hjob => ?_, fun row hrow => absurd hrow (Table.not_mem_empty row)⟩
    rw [List.mem_singleton.mp hjob]
    exact ⟨fun t ht => by cases ht; exact hlease, hcreated⟩
  refine (texts_decide_by_time ?_ (hdated _ _ ?_ ?_)).2.1
  · rw [hend]
    norm_num
  · rw [hend]
    norm_num
  · rw [hend]
    norm_num

end OneCompute
