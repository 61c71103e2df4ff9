import OneCompute.Contracts.Hashing
import OneCompute.Lib.HashChain
import OneCompute.Orchestrator.Schema

/-!
The audit log: how an event is appended, and how the log is verified. Rows are
links of a hash chain whose bodies are the five hashed columns as the verifier
reads them.
-/

namespace OneCompute

def auditGenesisHash : String := String.ofList (List.replicate 64 '0')

/-- `repr` of a byte string, which the JSON encoder falls back to. -/
def bytesRepr (bytes : List UInt8) : String :=
  let quote : Char := if bytes.contains 39 && !bytes.contains 34 then '"' else '\''
  let body := bytes.flatMap fun b =>
    let c := Char.ofNat b.toNat
    if c = quote || c = '\\' then ['\\', c]
    else if c = '\t' then ['\\', 't']
    else if c = '\n' then ['\\', 'n']
    else if c = '\r' then ['\\', 'r']
    else if b < 32 || 127 ≤ b then '\\' :: 'x' :: PyText.hexDigits 2 b.toNat
    else [c]
  String.ofList ('b' :: quote :: (body ++ [quote]))

/-- `value or ""`, and what the encoder makes of it. -/
def auditText : SqlValue → String
  | .null => ""
  | .text s => s
  | .blob bytes => if bytes = [] then "" else bytesRepr bytes
  | .undecodable _ => ""

def EventRow.texts (row : EventRow) : List String :=
  [row.ts, row.type, row.workerId, row.jobId, row.detail].map auditText

def auditRecordBytes (prevHash : String) (texts : List String) : List UInt8 :=
  canonicalBytes (.arr ((prevHash :: texts).map .str))

def auditEventHash (prevHash : String) (texts : List String) : String :=
  Sha256.hexdigest (auditRecordBytes prevHash texts)

structure Verdict where
  ok : Bool
  count : Nat
  brokenAt : Option Nat
  deriving DecidableEq

def verifyFrom (prevHash : String) (count : Nat) : List EventRow → Verdict
  | [] => ⟨true, count, none⟩
  | row :: rows =>
      let expected := auditEventHash prevHash row.texts
      if row.prevHash ≠ .text prevHash ∨ row.hash ≠ .text expected then
        ⟨false, count + 1, some row.id⟩
      else verifyFrom expected (count + 1) rows

def SqlValue.decodable : SqlValue → Bool
  | .undecodable _ => false
  | _ => true

def EventRow.decodable (row : EventRow) : Bool :=
  [row.ts, row.type, row.workerId, row.jobId, row.detail, row.prevHash, row.hash].all
    SqlValue.decodable

/-- The buffered cursor swallows the error of a row it cannot decode, and then
has no rows at all. -/
def fetchall (rows : List EventRow) : List EventRow :=
  if rows.all EventRow.decodable then rows else []

/-- `rows` is the table in the order of its identifiers. -/
def verifyAuditChain (rows : List EventRow) : Verdict :=
  verifyFrom auditGenesisHash 0 (fetchall rows)

structure Emission where
  type : String
  workerId : Option String := none
  jobId : Option String := none
  detail : Option String := none

/-- The hash of the last event, or the genesis value. -/
def tailHash (rows : List EventRow) : String :=
  match rows.getLast? with
  | none => auditGenesisHash
  | some row => if auditText row.hash = "" then auditGenesisHash else auditText row.hash

def EventRow.make (prevHash : String) (now : Time) (e : Emission) (id : Nat) : EventRow :=
  let row : EventRow :=
    { id := id
      ts := .text (PyTime.isoformat now)
      type := .text e.type
      workerId := .ofOption e.workerId
      jobId := .ofOption e.jobId
      detail := .ofOption e.detail
      prevHash := .text prevHash
      hash := .null }
  { row with hash := .text (auditEventHash prevHash row.texts) }

theorem make_id (prevHash : String) (now : Time) (e : Emission) (id : Nat) :
    (EventRow.make prevHash now e id).id = id := rfl

def emit (now : Time) (db : Db) (e : Emission) : Db :=
  { db with
    events := db.events.insert (EventRow.make (tailHash db.events.rows) now e) (make_id _ now e) }

theorem emit_rows (now : Time) (db : Db) (e : Emission) : (emit now db e).events.rows =
    db.events.rows ++ [EventRow.make (tailHash db.events.rows) now e (db.events.seq + 1)] := rfl

/-- Append the events of a section. -/
def emitAll (now : Time) (db : Db) (es : List Emission) : Db := es.foldl (emit now) db

/-- What appending an event leaves alone stays. -/
theorem emitAll_frame {β : Type} {g : Db → β} {now : Time} (hg : ∀ db e, g (emit now db e) = g db)
    (db : Db) (es : List Emission) : g (emitAll now db es) = g db := by
  induction es generalizing db with
  | nil => rfl
  | cons e es ih => exact (ih (emit now db e)).trans (hg db e)

@[simp] theorem emitAll_workers (now : Time) (db : Db) (es : List Emission) :
    (emitAll now db es).workers = db.workers :=
  emitAll_frame (fun _ _ => rfl) db es

@[simp] theorem emitAll_jobs (now : Time) (db : Db) (es : List Emission) :
    (emitAll now db es).jobs = db.jobs :=
  emitAll_frame (fun _ _ => rfl) db es

@[simp] theorem emitAll_ledger (now : Time) (db : Db) (es : List Emission) :
    (emitAll now db es).ledger = db.ledger :=
  emitAll_frame (fun _ _ => rfl) db es

@[simp] theorem emitAll_profiles (now : Time) (db : Db) (es : List Emission) :
    (emitAll now db es).profiles = db.profiles :=
  emitAll_frame (fun _ _ => rfl) db es

/-! ## The log as a hash chain -/

def auditLink (row : EventRow) : HashChain.Link SqlValue (List String) :=
  ⟨row.prevHash, row.hash, row.texts⟩

def chainHash (prev : SqlValue) (texts : List String) : SqlValue :=
  .text (auditEventHash (auditText prev) texts)

def AuditChained (rows : List EventRow) : Prop :=
  HashChain.Chained chainHash (.text auditGenesisHash) (rows.map auditLink)

theorem verifyFrom_of_chained {prevHash : String} {rows : List EventRow}
    (h : HashChain.Chained chainHash (.text prevHash) (rows.map auditLink)) (count : Nat) :
    verifyFrom prevHash count rows = ⟨true, count + rows.length, none⟩ := by
  induction rows generalizing prevHash count with
  | nil => rfl
  | cons row rows ih =>
      obtain ⟨hprev, hhash, hrest⟩ := h
      have hp : row.prevHash = .text prevHash := hprev
      have hh : row.hash = .text (auditEventHash prevHash row.texts) := hhash
      have htail : HashChain.Chained chainHash (.text (auditEventHash prevHash row.texts))
          (rows.map auditLink) := by
        rw [← hh]
        exact hrest
      have hnext := ih htail (count + 1)
      simp only [verifyFrom, hp, hh, ne_eq, not_true_eq_false, or_self, if_false, hnext,
        List.length_cons]
      congr 1
      omega

theorem chained_of_verifyFrom {prevHash : String} {count : Nat} {rows : List EventRow}
    (h : (verifyFrom prevHash count rows).ok = true) :
    HashChain.Chained chainHash (.text prevHash) (rows.map auditLink) := by
  induction rows generalizing prevHash count with
  | nil => trivial
  | cons row rows ih =>
      simp only [verifyFrom] at h
      split at h
      next => cases h
      next hcond =>
        obtain ⟨hp, hh⟩ : row.prevHash = .text prevHash ∧
            row.hash = .text (auditEventHash prevHash row.texts) := by
          simpa [not_or] using hcond
        exact ⟨hp, hh, by
          change HashChain.Chained chainHash row.hash (rows.map auditLink)
          rw [hh]
          exact ih h⟩

theorem fetchall_of_decodable {rows : List EventRow} (h : ∀ r ∈ rows, r.decodable = true) :
    fetchall rows = rows := by
  simp only [fetchall, List.all_eq_true.mpr h, if_true]

theorem verifyAuditChain_of_chained {rows : List EventRow} (hd : ∀ r ∈ rows, r.decodable = true)
    (h : AuditChained rows) : verifyAuditChain rows = ⟨true, rows.length, none⟩ := by
  rw [verifyAuditChain, fetchall_of_decodable hd, verifyFrom_of_chained h, Nat.zero_add]

theorem chained_of_verifyAuditChain {rows : List EventRow} (hd : ∀ r ∈ rows, r.decodable = true)
    (h : (verifyAuditChain rows).ok = true) : AuditChained rows := by
  rw [verifyAuditChain, fetchall_of_decodable hd] at h
  exact chained_of_verifyFrom h

/-! ## Appending an event -/

theorem make_decodable (prevHash : String) (now : Time) (e : Emission) (id : Nat) :
    (EventRow.make prevHash now e id).decodable = true := by
  obtain ⟨type, workerId, jobId, detail⟩ := e
  cases workerId <;> cases jobId <;> cases detail <;> rfl

theorem tailHash_snoc {rows : List EventRow} {row : EventRow} {s : String}
    (h : row.hash = .text s) (hs : s ≠ "") : tailHash (rows ++ [row]) = s := by
  simp [tailHash, h, auditText, hs]

/-- In a chain, the hash an appended event refers to is the head of the chain. -/
theorem head_eq_tailHash {rows : List EventRow} (h : AuditChained rows) :
    HashChain.head (.text auditGenesisHash) (rows.map auditLink) = .text (tailHash rows) := by
  rcases List.eq_nil_or_concat rows with rfl | ⟨rows, row, rfl⟩
  · rfl
  · rw [List.concat_eq_append] at *
    rw [AuditChained, List.map_append] at h
    have hhash : row.hash = _ := (HashChain.chained_snoc.mp h).2.2
    rw [List.map_append, List.map_singleton, HashChain.head_snoc,
      tailHash_snoc hhash (Sha256.hexdigest_ne_empty _)]
    exact hhash

theorem emit_chained {now : Time} {db : Db} {e : Emission} (h : AuditChained db.events.rows) :
    AuditChained (emit now db e).events.rows := by
  rw [AuditChained, emit_rows, List.map_append, List.map_singleton]
  refine HashChain.chained_snoc.mpr ⟨h, ?_, ?_⟩
  · rw [head_eq_tailHash h]
    rfl
  · rw [head_eq_tailHash h]
    rfl

end OneCompute
