import Mathlib.Algebra.Ring.Int.Defs
import OneCompute.Contracts.Models
import OneCompute.Lib.Table

/-!
The orchestrator's database. Rows are read as the records their JSON columns
hold; timestamps are instants; a `REAL` column has no NaN, which SQLite stores as
`NULL`.
-/

namespace OneCompute

structure WorkerRow where
  workerId : String
  token : String
  capabilityJson : Capability
  classWeight : PyFloat := .fin 1
  freeRamGb : Option PyFloat := none
  idle : Bool := true
  cpuPct : Option PyFloat := none
  gpuPct : Option PyFloat := none
  onAc : Bool := true
  blacklisted : Bool := false
  approved : Bool := true
  trustTier : String := "untrusted"
  tierPinned : Bool := false
  deviceCode : Option String := none
  lastHeartbeat : Option Time := none
  registeredAt : Time
  certFingerprint : Option String := none

structure JobRow where
  jobId : String
  kind : JobKind
  manifestJson : JobManifest
  inputJson : Dict
  state : JobState := .queued
  units : Int := 1
  workloadId : Option String := none
  assignedWorker : Option String := none
  leaseExpires : Option Time := none
  resultJson : Option Dict := none
  attempts : Nat := 0
  createdAt : Time
  updatedAt : Time

structure LedgerRow where
  id : Nat
  workerId : String
  jobId : Option String
  credits : PyFloat
  reason : Option String
  createdAt : Time

/-- A value of a `TEXT` column: numbers are converted to text on the way in, and
text may hold bytes that are not UTF-8. -/
inductive SqlValue where
  | null
  | text (s : String)
  | blob (bytes : List UInt8)
  | undecodable (bytes : List UInt8)
  deriving DecidableEq

def SqlValue.ofOption : Option String → SqlValue
  | none => .null
  | some s => .text s

structure EventRow where
  id : Nat
  ts : SqlValue
  type : SqlValue
  workerId : SqlValue
  jobId : SqlValue
  detail : SqlValue
  prevHash : SqlValue
  hash : SqlValue
  deriving DecidableEq

/-- `bucketsJson` is the value its JSON text encodes. -/
structure ProfileRow where
  workerId : String
  bucketsJson : Json
  coverage : Int
  updatedAt : Time

structure Db where
  workers : Table WorkerRow.workerId
  jobs : Table JobRow.jobId
  ledger : AutoTable LedgerRow.id
  events : AutoTable EventRow.id
  profiles : Table ProfileRow.workerId

def Db.empty : Db := ⟨.empty, .empty, .empty, .empty, .empty⟩

/-- What is stored in a `REAL` column for a float. -/
def sqlReal : PyFloat → Option PyFloat
  | .nan => none
  | x => some x

/-- The largest integer SQLite stores. -/
def maxSqlInteger : Int := 2 ^ 63 - 1

def minSqlInteger : Int := -2 ^ 63

/-- The database together with the wall clock. -/
structure World where
  clock : Time
  db : Db

end OneCompute
