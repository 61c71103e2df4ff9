import Mathlib.Data.List.Sort
import OneCompute.Orchestrator.RoutingPolicy
import OneCompute.Orchestrator.Schema

/-!
Matching a job to a polling worker, and picking the job the worker gets: the
first eligible one in the order of creation time and identifier.
-/

namespace OneCompute

def capabilityMatch (requires : Requires) (cap : Capability) (freeRamGb : Option PyFloat) : Bool :=
  if requires.needsGpu && !cap.hasGpu then false
  else if (match requires.minVramGb with
      | some need => PyFloat.lt (PyFloat.orZero cap.gpuVramGb) need
      | none => false) then false
  else if (match requires.minRamGb with
      | some need => PyFloat.lt (freeRamGb.getD cap.ramGb) need
      | none => false) then false
  else if cap.cpus < requires.minCpus then false
  else if !requires.accel.all (fun a => cap.accel.contains a) then false
  else true

def classWeightFor (cap : Capability) : PyFloat := if cap.hasGpu then .fin 5 else .fin 1

/-- The order of the queue: `created_at ASC, job_id ASC`. -/
def JobRow.le (a b : JobRow) : Bool :=
  decide (a.createdAt < b.createdAt) ||
    (decide (a.createdAt = b.createdAt) && decide (a.jobId ≤ b.jobId))

theorem JobRow.le_total (a b : JobRow) : a.le b = true ∨ b.le a = true := by
  simp only [JobRow.le, Bool.or_eq_true, Bool.and_eq_true, decide_eq_true_eq]
  rcases Nat.lt_trichotomy a.createdAt b.createdAt with h | h | h
  · exact .inl (.inl h)
  · rcases Std.Total.total (r := (· ≤ ·)) a.jobId b.jobId with hj | hj
    · exact .inl (.inr ⟨h, hj⟩)
    · exact .inr (.inr ⟨h.symm, hj⟩)
  · exact .inr (.inl h)

theorem JobRow.le_trans {a b c : JobRow} (hab : a.le b = true) (hbc : b.le c = true) :
    a.le c = true := by
  simp only [JobRow.le, Bool.or_eq_true, Bool.and_eq_true, decide_eq_true_eq] at *
  rcases hab with hab | ⟨hab, hj⟩ <;> rcases hbc with hbc | ⟨hbc, hk⟩
  · exact .inl (Nat.lt_trans hab hbc)
  · exact .inl (hbc ▸ hab)
  · exact .inl (hab ▸ hbc)
  · exact .inr ⟨hab.trans hbc, String.le_trans hj hk⟩

instance : Std.Total (fun a b : JobRow => a.le b = true) := ⟨JobRow.le_total⟩
instance : IsTrans JobRow (fun a b => a.le b = true) := ⟨fun _ _ _ => JobRow.le_trans⟩

/-- `SELECT * FROM jobs WHERE state = 'queued' ORDER BY created_at ASC, job_id ASC`. -/
def queuedJobs (db : Db) : List JobRow :=
  (db.jobs.rows.filter (fun j => j.state = .queued)).insertionSort (fun a b => a.le b = true)

/-- The server-assigned tier, or the default when there is no row or no tier. -/
def trustTierOf (db : Db) (workerId : String) : String :=
  match db.workers.find? workerId with
  | some row => if row.trustTier = "" then defaultTrustTier else row.trustTier
  | none => defaultTrustTier

def eligible (cap : Capability) (freeRamGb : Option PyFloat) (trustTier : String) (job : JobRow) :
    Bool :=
  capabilityMatch job.manifestJson.requires cap freeRamGb &&
    mayRoute job.manifestJson.dataClassification.text trustTier

def pickJobFor (db : Db) (cap : Capability) (freeRamGb : Option PyFloat) : Option JobRow :=
  (queuedJobs db).find? (eligible cap freeRamGb (trustTierOf db cap.workerId))

theorem mem_queuedJobs {db : Db} {job : JobRow} :
    job ∈ queuedJobs db ↔ job ∈ db.jobs ∧ job.state = .queued := by
  rw [queuedJobs, (List.perm_insertionSort _ _).mem_iff, List.mem_filter, decide_eq_true_eq,
    Table.mem_iff]

theorem queuedJobs_sorted (db : Db) :
    (queuedJobs db).Pairwise (fun a b => a.le b = true) :=
  List.pairwise_insertionSort _ _

/-- In a sorted list the first match precedes every other match. -/
theorem find?_least {l : List JobRow} (hl : l.Pairwise (fun a b => a.le b = true))
    {p : JobRow → Bool} {j : JobRow} (h : l.find? p = some j) :
    ∀ k ∈ l, p k = true → j.le k = true := by
  induction l with
  | nil => cases h
  | cons a l ih =>
      rw [List.pairwise_cons] at hl
      rw [List.find?_cons] at h
      intro k hk hpk
      cases hpa : p a with
      | true =>
          simp only [hpa, Option.some.injEq] at h
          subst h
          rcases List.mem_cons.mp hk with rfl | hk
          · rcases JobRow.le_total k k with hkk | hkk <;> exact hkk
          · exact hl.1 k hk
      | false =>
          simp only [hpa] at h
          rcases List.mem_cons.mp hk with rfl | hk
          · rw [hpa] at hpk
            cases hpk
          · exact ih hl.2 h k hk hpk

theorem pickJobFor_eq_some {db : Db} {cap : Capability} {free : Option PyFloat} {job : JobRow}
    (h : pickJobFor db cap free = some job) :
    job ∈ db.jobs ∧ job.state = .queued ∧
      eligible cap free (trustTierOf db cap.workerId) job = true ∧
      ∀ k ∈ db.jobs, k.state = .queued →
        eligible cap free (trustTierOf db cap.workerId) k = true → job.le k = true := by
  have hmem := mem_queuedJobs.mp (List.mem_of_find?_eq_some h)
  refine ⟨hmem.1, hmem.2, List.find?_some h, ?_⟩
  intro k hk hq he
  exact find?_least (queuedJobs_sorted db) h k (mem_queuedJobs.mpr ⟨hk, hq⟩) he

theorem pickJobFor_eq_none {db : Db} {cap : Capability} {free : Option PyFloat}
    (h : pickJobFor db cap free = none) :
    ∀ k ∈ db.jobs, k.state = .queued →
      eligible cap free (trustTierOf db cap.workerId) k = false := by
  intro k hk hq
  simpa using List.find?_eq_none.mp h k (mem_queuedJobs.mpr ⟨hk, hq⟩)

end OneCompute
