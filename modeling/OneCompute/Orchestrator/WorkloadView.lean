import Mathlib.Data.List.Sort
import OneCompute.Orchestrator.App
import OneCompute.Workloads.Summaries

/-!
What the dashboard reads of a launched workload: its jobs, how many of them are
completed, and the summary of their outputs.
-/

namespace OneCompute
open Interleaving (Prog)
open Interleaving.Prog (perform)
open Workloads (Platform Summary aggregateWorkload)

structure JobDetail where
  jobId : String
  kind : JobKind
  state : JobState
  assignedWorker : Option String
  units : Int
  workloadId : Option String
  output : Option Dict
  createdAt : Time
  updatedAt : Time

/-- `_job_detail` -/
def jobDetail (row : JobRow) : JobDetail where
  jobId := row.jobId
  kind := row.kind
  state := row.state
  assignedWorker := row.assignedWorker
  units := row.units
  workloadId := row.workloadId
  output := row.resultJson
  createdAt := row.createdAt
  updatedAt := row.updatedAt

structure WorkloadView where
  workloadId : String
  kind : JobKind
  total : Nat
  completed : Nat
  jobs : List JobDetail
  summary : Option Summary

/-- `ORDER BY created_at ASC, job_id ASC` -/
def Listed (j k : JobRow) : Prop :=
  j.createdAt < k.createdAt ∨ j.createdAt = k.createdAt ∧ j.jobId ≤ k.jobId

instance : DecidableRel Listed := fun j k => by
  unfold Listed
  infer_instance

def workloadRows (workloadId : String) (db : Db) : List JobRow :=
  (db.jobs.rows.filter fun j => decide (j.workloadId = some workloadId)).insertionSort Listed

def JobRow.isCompleted (row : JobRow) : Bool := decide (row.state = .completed)

/-- The outputs that are summarised. -/
def completedOutputs (rows : List JobRow) : List Dict :=
  (rows.filter JobRow.isCompleted).filterMap (·.resultJson)

def workloadView (F : Platform) (workloadId : String) (db : Db) : Except Failure WorkloadView :=
  match workloadRows workloadId db with
  | [] => .error (.http 404 "workload not found")
  | first :: rest =>
      .ok { workloadId := workloadId
            kind := first.kind
            total := (first :: rest).length
            completed := (first :: rest).countP JobRow.isCompleted
            jobs := (first :: rest).map jobDetail
            summary := aggregateWorkload F first.kind.text (completedOutputs (first :: rest)) }

/-- `GET /workloads/{workload_id}` -/
def workloadDetail (cfg : Config) (F : Platform) (workloadId : String)
    (authorization : Option String) : Handler WorkloadView := do
  requireOperatorReadToken cfg authorization
  let db ← perform Cmd.query
  Prog.ofExcept (workloadView F workloadId db)

theorem workloadRows_perm (workloadId : String) (db : Db) :
    (workloadRows workloadId db).Perm
      (db.jobs.rows.filter fun j => decide (j.workloadId = some workloadId)) :=
  List.perm_insertionSort _ _

theorem mem_workloadRows {workloadId : String} {db : Db} {j : JobRow} :
    j ∈ workloadRows workloadId db ↔ j ∈ db.jobs ∧ j.workloadId = some workloadId := by
  rw [(workloadRows_perm workloadId db).mem_iff, List.mem_filter, decide_eq_true_eq]
  rfl

end OneCompute
