import OneCompute.Lib.JsonLines
import OneCompute.Orchestrator.AuditChain

/-!
The audit log as a file: one JSON object per line, from which the rows and so the chain
are recovered. The number of lines that is reported for the file may be too large.
-/

namespace OneCompute

/-- A column as a JSON value; bytes are none. -/
def SqlValue.toJson : SqlValue → Option Json
  | .null => some .null
  | .text s => some (.str s)
  | .blob _ => none
  | .undecodable _ => none

def EventRow.columns (row : EventRow) : List SqlValue :=
  [row.ts, row.type, row.workerId, row.jobId, row.detail, row.prevHash, row.hash]

/-- `dict(row)` as the encoder takes it. -/
def EventRow.record (row : EventRow) : Option Json := do
  let ts ← row.ts.toJson
  let type ← row.type.toJson
  let workerId ← row.workerId.toJson
  let jobId ← row.jobId.toJson
  let detail ← row.detail.toJson
  let prevHash ← row.prevHash.toJson
  let hash ← row.hash.toJson
  return .obj [("id", .int row.id), ("ts", ts), ("type", type), ("worker_id", workerId),
    ("job_id", jobId), ("detail", detail), ("prev_hash", prevHash), ("hash", hash)]

def exportStyle : Json.Style := { ensureAscii := false }

/-- `GET /events/export` -/
def eventsExport (rows : List EventRow) : Except Failure String :=
  match (fetchall rows).mapM EventRow.record with
  | some records => .ok (String.ofList (Json.jsonl exportStyle records))
  | none => .error (.uncaught "TypeError")

/-! ## Downstream -/

def SqlValue.ofJson : Json → Option SqlValue
  | .null => some .null
  | .str s => some (.text s)
  | _ => none

/-- The row that a line of the file stands for. -/
def EventRow.ofRecord : Json → Option EventRow
  | .obj fields => do
      let column (name : String) : Option SqlValue := (Json.lookup fields name).bind SqlValue.ofJson
      let id ← match Json.lookup fields "id" with
        | some (.int (.ofNat n)) => some n
        | _ => none
      return { id := id
               ts := ← column "ts"
               type := ← column "type"
               workerId := ← column "worker_id"
               jobId := ← column "job_id"
               detail := ← column "detail"
               prevHash := ← column "prev_hash"
               hash := ← column "hash" }
  | _ => none

def readExport (body : String) : Option (List EventRow) :=
  (Json.loadLines body.toList).mapM fun value => value.bind EventRow.ofRecord

/-! ## One row -/

theorem ofJson_toJson {value : SqlValue} {j : Json} (h : value.toJson = some j) :
    SqlValue.ofJson j = some value := by
  cases value with
  | null | text s =>
      cases h
      rfl
  | blob _ | undecodable _ => cases h

theorem toJson_storable {value : SqlValue} {j : Json} (h : value.toJson = some j) :
    j.storable = true := by
  cases value with
  | null | text s =>
      cases h
      rfl
  | blob _ | undecodable _ => cases h

theorem record_eq_some {row : EventRow} {v : Json} : row.record = some v ↔
    ∃ ts type workerId jobId detail prevHash hash,
      row.ts.toJson = some ts ∧ row.type.toJson = some type ∧
      row.workerId.toJson = some workerId ∧ row.jobId.toJson = some jobId ∧
      row.detail.toJson = some detail ∧ row.prevHash.toJson = some prevHash ∧
      row.hash.toJson = some hash ∧
      v = .obj [("id", .int row.id), ("ts", ts), ("type", type), ("worker_id", workerId),
        ("job_id", jobId), ("detail", detail), ("prev_hash", prevHash), ("hash", hash)] := by
  simp only [EventRow.record, Option.bind_eq_bind, Option.bind_eq_some_iff, Option.pure_def,
    Option.some.injEq]
  constructor
  · rintro ⟨ts, hts, type, htype, worker, hworker, job, hjob, detail, hdetail, prev, hprev, hash,
      hhash, rfl⟩
    exact ⟨_, _, _, _, _, _, _, hts, htype, hworker, hjob, hdetail, hprev, hhash, rfl⟩
  · rintro ⟨ts, type, worker, job, detail, prev, hash, hts, htype, hworker, hjob, hdetail, hprev,
      hhash, rfl⟩
    exact ⟨_, hts, _, htype, _, hworker, _, hjob, _, hdetail, _, hprev, _, hhash, rfl⟩

/-- A row is recovered from its record. -/
theorem ofRecord_record {row : EventRow} {v : Json} (h : row.record = some v) :
    EventRow.ofRecord v = some row := by
  obtain ⟨ts, type, worker, job, detail, prev, hash, hts, htype, hworker, hjob, hdetail, hprev,
    hhash, rfl⟩ := record_eq_some.mp h
  have hid : Json.lookup [("id", .int row.id), ("ts", ts), ("type", type), ("worker_id", worker),
      ("job_id", job), ("detail", detail), ("prev_hash", prev), ("hash", hash)] "id" =
      some (.int (.ofNat row.id)) := rfl
  simp only [EventRow.ofRecord, hid]
  simp [Json.lookup, ofJson_toJson hts, ofJson_toJson htype, ofJson_toJson hworker,
    ofJson_toJson hjob, ofJson_toJson hdetail, ofJson_toJson hprev, ofJson_toJson hhash]

/-- The identifiers of SQLite have nineteen digits at most. -/
theorem record_storable {row : EventRow} {v : Json} (hid : (row.id : Int) ≤ maxSqlInteger)
    (h : row.record = some v) : v.storable = true := by
  obtain ⟨ts, type, worker, job, detail, prev, hash, hts, htype, hworker, hjob, hdetail, hprev,
    hhash, rfl⟩ := record_eq_some.mp h
  have hdigits : (Nat.toDigits 10 (row.id : Int).natAbs).length ≤ PyText.maxStrDigits := by
    have hlt : (row.id : Int).natAbs < 10 ^ 19 := by
      have hmax : maxSqlInteger < 10 ^ 19 := by decide
      omega
    exact ((Nat.length_toDigits_le_iff (by decide) (by decide)).mpr hlt).trans (by decide)
  simp [Json.storable, Json.fieldsStorable, toJson_storable hts, toJson_storable htype,
    toJson_storable hworker, toJson_storable hjob, toJson_storable hdetail, toJson_storable hprev,
    toJson_storable hhash] at hdigits ⊢
  exact hdigits

/-! ## The whole table -/

/-- Each row has its record. -/
def Recorded : List EventRow → List Json → Prop := List.Forall₂ fun row v => row.record = some v

theorem recorded_of_mapM {rows : List EventRow} {records : List Json}
    (h : rows.mapM EventRow.record = some records) : Recorded rows records := by
  induction rows generalizing records with
  | nil =>
      cases h
      exact .nil
  | cons row rows ih =>
      simp only [List.mapM_cons, Option.bind_eq_bind, Option.bind_eq_some_iff, Option.pure_def,
        Option.some.injEq] at h
      obtain ⟨v, hv, rest, hrest, rfl⟩ := h
      exact .cons hv (ih hrest)

theorem Recorded.read {rows : List EventRow} {records : List Json} (h : Recorded rows records) :
    (records.map some).mapM (fun value : Option Json => value.bind EventRow.ofRecord) =
      some rows := by
  induction h with
  | nil => rfl
  | cons hv _ ih => simp [ofRecord_record hv, ih]

theorem Recorded.storable {rows : List EventRow} {records : List Json} (h : Recorded rows records)
    (hids : ∀ row ∈ rows, (row.id : Int) ≤ maxSqlInteger) : ∀ v ∈ records, v.storable = true := by
  induction h with
  | nil => simp
  | cons hv _ ih =>
      rintro w (_ | ⟨_, hw⟩)
      · exact record_storable (hids _ List.mem_cons_self) hv
      · exact ih (fun row hrow => hids row (List.mem_cons_of_mem _ hrow)) w hw

theorem fetchall_subset (rows : List EventRow) : ∀ row ∈ fetchall rows, row ∈ rows := by
  unfold fetchall
  split
  · exact fun _ h => h
  · exact fun _ h => absurd h List.not_mem_nil

/-- An export holds the rows that the server itself reads. -/
theorem readExport_of_export {rows : List EventRow} {body : String}
    (hids : ∀ row ∈ rows, (row.id : Int) ≤ maxSqlInteger) (h : eventsExport rows = .ok body) :
    readExport body = some (fetchall rows) := by
  unfold eventsExport at h
  split at h
  next records hrecords =>
    cases h
    have hrec := recorded_of_mapM hrecords
    have hstorable := hrec.storable fun row hrow => hids row (fetchall_subset rows row hrow)
    rw [readExport, String.toList_ofList, Json.loadLines_jsonl rfl hstorable]
    exact hrec.read
  · cases h

/-! ## Lines of the file -/

/-- The separators that the encoder does not escape: `NEL`, `LS` and `PS`. -/
def rawLineBreaks : List Nat := [0x85, 0x2028, 0x2029]

/-- No text of the row holds such a separator. -/
def EventRow.Unbroken (row : EventRow) : Prop :=
  ∀ s, .text s ∈ row.columns → ∀ c ∈ s.toList, c.toNat ∉ rawLineBreaks

theorem rawLineBreaks_iff {c : Char} (hc : 32 ≤ c.toNat) :
    Json.isLineBreak c = true ↔ c.toNat ∈ rawLineBreaks := by
  simp only [Json.isLineBreak, rawLineBreaks, List.contains_iff_mem, List.mem_cons,
    List.not_mem_nil, or_false]
  omega

theorem mem_column {c : Char} (hc : 128 ≤ c.toNat) {value : SqlValue} {j : Json}
    (h : value.toJson = some j) :
    c ∈ Json.chars exportStyle j ↔ ∃ s, value = .text s ∧ c ∈ s.toList := by
  cases value with
  | null =>
      cases h
      refine iff_of_false (Json.not_mem_of_ascii hc fun d hd => ?_) (by simp)
      have hall : ((Json.chars exportStyle .null).all fun d => decide (d.toNat < 128)) = true := rfl
      exact of_decide_eq_true (List.all_eq_true.mp hall d hd)
  | text s =>
      cases h
      rw [Json.chars, exportStyle, Json.mem_quote hc]
      simp
  | blob _ | undecodable _ => cases h

/-- The text of a record between its braces. -/
theorem record_chars {row : EventRow} {v : Json} (h : row.record = some v) :
    ∃ body, Json.chars exportStyle v = '\x7b' :: (body ++ ['\x7d']) ∧
      ∀ c, 128 ≤ c.toNat → (c ∈ body ↔ ∃ s, .text s ∈ row.columns ∧ c ∈ s.toList) := by
  obtain ⟨ts, type, worker, job, detail, prev, hash, hts, htype, hworker, hjob, hdetail, hprev,
    hhash, rfl⟩ := record_eq_some.mp h
  obtain ⟨body, htext, hbody⟩ := @Json.mem_object [("id", .int row.id), ("ts", ts),
    ("type", type), ("worker_id", worker), ("job_id", job), ("detail", detail),
    ("prev_hash", prev), ("hash", hash)] (by simp)
  refine ⟨body, htext, fun c hc => ?_⟩
  have hvalue : ∀ (value : SqlValue) (j : Json), value.toJson = some j →
      (c ∈ Json.chars { ensureAscii := false } j ↔ ∃ s, value = .text s ∧ c ∈ s.toList) :=
    fun _ _ h => mem_column hc h
  rw [hbody c hc]
  simp only [List.mem_cons, List.not_mem_nil, or_false, exists_eq_left,
    Json.mem_int hc, false_or, hvalue _ _ hts, hvalue _ _ htype, hvalue _ _ hworker,
    hvalue _ _ hjob, hvalue _ _ hdetail, hvalue _ _ hprev, hvalue _ _ hhash, EventRow.columns,
    or_and_right, exists_or, eq_comm (a := SqlValue.text _)]

/-- A record is counted as one line exactly when its row holds no separator. -/
theorem lineCount_record {row : EventRow} {v : Json} (h : row.record = some v) :
    0 < Json.lineCount (Json.chars exportStyle v) ∧
      (Json.lineCount (Json.chars exportStyle v) = 1 ↔ row.Unbroken) := by
  obtain ⟨body, htext, hbody⟩ := record_chars h
  have hone := @Json.lineCount_eq_one_iff '\x7b' '\x7d' body (by decide) (by decide)
  rw [← htext] at hone
  refine ⟨hone.1, hone.2.trans ?_⟩
  have hprintable : ∀ c ∈ body, 32 ≤ c.toNat := fun c hc =>
    Json.printable_chars exportStyle v c (by rw [htext]; simp [hc])
  constructor
  · intro hall s hs c hc hraw
    have hhigh : 128 ≤ c.toNat := by
      simp only [rawLineBreaks, List.mem_cons, List.not_mem_nil, or_false] at hraw
      omega
    have hmem := (hbody c hhigh).mpr ⟨s, hs, hc⟩
    have hbreak := (rawLineBreaks_iff (hprintable c hmem)).mpr hraw
    rw [hall c hmem] at hbreak
    cases hbreak
  · intro hunbroken c hc
    rw [Bool.eq_false_iff]
    intro hbreak
    have hraw := (rawLineBreaks_iff (hprintable c hc)).mp hbreak
    have hhigh : 128 ≤ c.toNat := by
      simp only [rawLineBreaks, List.mem_cons, List.not_mem_nil, or_false] at hraw
      omega
    obtain ⟨s, hs, hcs⟩ := (hbody c hhigh).mp hc
    exact hunbroken s hs c hcs hraw

theorem Recorded.lineCount {rows : List EventRow} {records : List Json}
    (h : Recorded rows records) :
    rows.length ≤ Json.lineCount (Json.jsonl exportStyle records) ∧
      (Json.lineCount (Json.jsonl exportStyle records) = rows.length ↔
        ∀ row ∈ rows, row.Unbroken) := by
  induction h with
  | nil =>
      have hempty : Json.lineCount (Json.jsonl exportStyle []) = 0 := by decide
      simp [hempty]
  | @cons row v rows records hv hrest ih =>
      obtain ⟨hpos, hone⟩ := lineCount_record hv
      obtain ⟨hle, hiff⟩ := ih
      have htext : Json.jsonl exportStyle (v :: records) =
          Json.chars exportStyle v ++ '\n' :: Json.jsonl exportStyle records := by
        simp [Json.jsonl]
      rw [htext, Json.lineCount_append, List.length_cons, List.forall_mem_cons, ← hone, ← hiff]
      omega

/-! ## The log of a run -/

/-- Every row can be exported. -/
def Exportable (rows : List EventRow) : Prop := ∀ row ∈ rows, ∃ v, row.record = some v

theorem make_record (prevHash : String) (now : Time) (e : Emission) (id : Nat) :
    ∃ v, (EventRow.make prevHash now e id).record = some v := by
  obtain ⟨type, workerId, jobId, detail⟩ := e
  cases workerId <;> cases jobId <;> cases detail <;> exact ⟨_, rfl⟩

theorem Exportable.emit {db : Db} (h : Exportable db.events.rows) (now : Time) (e : Emission) :
    Exportable (emit now db e).events.rows := by
  intro row hrow
  rw [emit_rows] at hrow
  rcases List.mem_append.mp hrow with hrow | hrow
  · exact h row hrow
  · rw [List.mem_singleton.mp hrow]
    exact make_record _ _ _ _

theorem Exportable.emitAll {db : Db} (h : Exportable db.events.rows) (now : Time)
    (es : List Emission) : Exportable (emitAll now db es).events.rows := by
  induction es generalizing db with
  | nil => exact h
  | cons e es ih => exact ih (h.emit now e)

theorem run_exportable (cfg : Config) (clock : Time) (ms : List Move) :
    Exportable (run cfg clock ms).state.db.events.rows := by
  apply run_induction cfg clock (I := fun _ w => Exportable w.db.events.rows)
  · exact fun _ h => absurd h List.not_mem_nil
  · intro ms m p hp h
    have hdb : Exportable (runCommand p.input p.pre p.cmd).db.events.rows := by
      rw [(runCommand_frame p.input p.pre p.cmd).1]
      exact h
    exact hdb.emitAll p.pre.clock _
  · exact fun _ _ _ h => h
  · exact fun _ _ _ _ h => h

theorem export_of_exportable {rows : List EventRow} (h : Exportable rows) :
    ∃ records, rows.mapM EventRow.record = some records := by
  induction rows with
  | nil => exact ⟨[], rfl⟩
  | cons row rows ih =>
      obtain ⟨v, hv⟩ := h row List.mem_cons_self
      obtain ⟨records, hrecords⟩ := ih fun r hr => h r (List.mem_cons_of_mem _ hr)
      exact ⟨v :: records, by simp [hv, hrecords]⟩

theorem lineCount_export {rows : List EventRow} {body : String} (h : eventsExport rows = .ok body) :
    (fetchall rows).length ≤ Json.lineCount body.toList ∧
      (Json.lineCount body.toList = (fetchall rows).length ↔
        ∀ row ∈ fetchall rows, row.Unbroken) := by
  unfold eventsExport at h
  split at h
  next records hrecords =>
    cases h
    rw [String.toList_ofList]
    exact (recorded_of_mapM hrecords).lineCount
  · cases h

/-- The export says what the server verifies. Read line by line it gives back the rows, so a
consumer comes to the verdict of the server, also on a log that was tampered with; the log of a
run is always exported, whole and intact. The lines counted for the file are as many as the
events exactly when no text in them holds a separator that JSON leaves as it is, else more. -/
theorem events_export (cfg : Config) (clock : Time) (ms : List Move) :
    (∀ (rows : List EventRow) (body : String), (∀ row ∈ rows, (row.id : Int) ≤ maxSqlInteger) →
      eventsExport rows = .ok body →
      (readExport body).map (verifyFrom auditGenesisHash 0) = some (verifyAuditChain rows)) ∧
    ((∀ row ∈ (run cfg clock ms).state.db.events.rows, (row.id : Int) ≤ maxSqlInteger) →
      ∃ body, eventsExport (run cfg clock ms).state.db.events.rows = .ok body ∧
        readExport body = some (run cfg clock ms).state.db.events.rows ∧
        (run cfg clock ms).state.db.events.rows.length ≤ Json.lineCount body.toList ∧
        (Json.lineCount body.toList = (run cfg clock ms).state.db.events.rows.length ↔
          ∀ row ∈ (run cfg clock ms).state.db.events.rows, row.Unbroken)) := by
  refine ⟨?_, ?_⟩
  · intro rows body hids hbody
    rw [readExport_of_export hids hbody]
    rfl
  · intro hids
    have hfetch := fetchall_of_decodable (run_logged cfg clock ms).decodable
    obtain ⟨records, hrecords⟩ := export_of_exportable (run_exportable cfg clock ms)
    have hbody : eventsExport (run cfg clock ms).state.db.events.rows =
        .ok (String.ofList (Json.jsonl exportStyle records)) := by
      rw [eventsExport, hfetch, hrecords]
    have hread := readExport_of_export hids hbody
    have hlines := lineCount_export hbody
    rw [hfetch] at hread hlines
    exact ⟨_, hbody, hread, hlines⟩

/-- One job is submitted. -/
def submittedOne : List Move := serve 0 8 (.submit { kind := .render } none)

theorem events_export_submitted : ∃ body,
    eventsExport (run {} 0 submittedOne).state.db.events.rows = .ok body ∧
      (readExport body).map List.length = some 1 := by
  obtain ⟨body, hbody, hread, -⟩ := (events_export {} 0 submittedOne).2 (by decide +kernel)
  refine ⟨body, hbody, ?_⟩
  rw [hread]
  decide +kernel

end OneCompute
