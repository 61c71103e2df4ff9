import OneCompute.Lib.JsonLines
import OneCompute.Lib.RotatingLog

/-!
The pilot telemetry of a worker: one JSON record a line, in files that are rotated by size.
-/

namespace OneCompute.Worker
open RotatingLog (Files contents Use)

structure PilotTelemetry where
  workerId : String
  enabled : Bool
  maxBytes : Nat
  backups : Nat

/-- Without its directory the log does nothing. -/
def PilotTelemetry.new (workerId : String) (enabled madeDirectory : Bool)
    (maxBytes backups : Int) : PilotTelemetry where
  workerId := workerId
  enabled := enabled && madeDirectory
  maxBytes := (max 1024 maxBytes).toNat
  backups := (max 0 (min 10 backups)).toNat

/-- A call of `log`, how many operations of a rotation succeed, and how much of the line
reaches the file, if that opens. -/
structure LogCall where
  ts : String
  event : String
  fields : List (String × Json) := []
  done : Nat
  opened : Bool
  written : Nat

namespace PilotTelemetry
variable (t : PilotTelemetry)

/-- Fields may take the place of the time and of the worker. -/
def record (c : LogCall) : Json :=
  .obj (Json.asDict ([("ts", .str c.ts), ("worker_id", .str t.workerId), ("event", .str c.event)] ++
    c.fields))

def line (c : LogCall) : List Char := Json.chars {} (t.record c) ++ ['\n']

def use (c : LogCall) : Use Char :=
  ⟨c.done, if c.opened then some ((t.line c).take c.written) else none⟩

def log (files : Files Char) (c : LogCall) : Files Char :=
  if t.enabled then RotatingLog.step List.length t.maxBytes t.backups files (t.use c) else files

def logs (files : Files Char) (calls : List LogCall) : Files Char := calls.foldl t.log files

/-- What a call adds to the file. -/
def added (c : LogCall) : List Char := if t.enabled then (t.use c).entries else []

/-- No operation of the call fails. -/
structure Faultless (c : LogCall) : Prop where
  done : t.backups + 1 ≤ c.done
  opened : c.opened = true
  written : (t.line c).length ≤ c.written

variable {t} {calls : List LogCall}

theorem logs_run (h : t.enabled = true) (files : Files Char) (calls : List LogCall) :
    t.logs files calls =
      RotatingLog.run List.length t.maxBytes t.backups files (calls.map t.use) := by
  unfold logs RotatingLog.run
  rw [List.foldl_map]
  congr 1
  funext files c
  rw [log, if_pos h]

theorem logs_disabled (h : t.enabled = false) (files : Files Char) (calls : List LogCall) :
    t.logs files calls = files := by
  induction calls with
  | nil => rfl
  | cons c calls ih =>
      have hlog : t.log files c = files := by rw [log, h, if_neg (by simp)]
      rw [logs, List.foldl_cons, hlog]
      exact ih

/-- Calls that do not fail write whole records. -/
theorem logs_faultless (h : t.enabled = true) (hcalls : ∀ c ∈ calls, t.Faultless c)
    (files : Files Char) :
    t.logs files calls = RotatingLog.run List.length t.maxBytes t.backups files
      (((calls.map fun c => [t.record c]).map (Use.whole t.backups)).map
        (Use.map (Json.jsonl {}))) := by
  rw [logs_run h]
  induction calls generalizing files with
  | nil => rfl
  | cons c calls ih =>
      have hc := hcalls c List.mem_cons_self
      have huse : (t.use c).written = some (Json.jsonl {} [t.record c]) := by
        unfold use
        rw [if_pos hc.opened, List.take_of_length_le hc.written]
        simp [line, Json.jsonl]
      have hstep : RotatingLog.step List.length t.maxBytes t.backups files (t.use c) =
          RotatingLog.step List.length t.maxBytes t.backups files
            ((Use.whole t.backups [t.record c]).map (Json.jsonl {})) := by
        rw [RotatingLog.step_done files hc.done, huse]
        rfl
      rw [List.map_cons, List.map_cons, List.map_cons, List.map_cons]
      unfold RotatingLog.run
      rw [List.foldl_cons, List.foldl_cons, hstep]
      exact ih (fun c' hc' => hcalls c' (List.mem_cons_of_mem _ hc')) _

/-- The length of the lines that records take. -/
def bytes (records : List Json) : Nat := (Json.jsonl {} records).length

theorem jsonl_append (xs ys : List Json) :
    Json.jsonl {} (xs ++ ys) = Json.jsonl {} xs ++ Json.jsonl {} ys := List.flatMap_append

theorem bytes_append (xs ys : List Json) : bytes (xs ++ ys) = bytes xs + bytes ys := by
  rw [bytes, jsonl_append, List.length_append]
  rfl

end PilotTelemetry

/-- What a log without failures leaves, if no line is longer than `longest`. -/
structure WholeLog (t : PilotTelemetry) (longest : Nat) (calls : List LogCall)
    (files : Files Char) : Prop where
  small : ∀ i text, files i = some text → i ≤ t.backups ∧ text.length < t.maxBytes + longest
  /-- The files are whole records, the newest that were logged, in order, and these are what
  is read back from the oldest file on. -/
  newest : ∃ kept : Files Json, files = RotatingLog.mapFiles (Json.jsonl {}) kept ∧
    contents kept t.backups <:+ calls.map t.record ∧
    (contents kept t.backups = calls.map t.record ∨
      t.backups * t.maxBytes ≤ (contents files t.backups).length) ∧
    ((∀ c ∈ calls, (t.record c).storable = true) →
      Json.loadLines (contents files t.backups) = (contents kept t.backups).map some)

/-- The files are the texts of a log of records. -/
theorem logs_kept {t : PilotTelemetry} (henabled : t.enabled = true) (hmax : 0 < t.maxBytes)
    {longest : Nat} {calls : List LogCall} (hcalls : ∀ c ∈ calls, t.Faultless c)
    (hlongest : ∀ c ∈ calls, (t.line c).length ≤ longest) :
    ∃ kept : Files Json, t.logs (fun _ => none) calls = RotatingLog.mapFiles (Json.jsonl {}) kept ∧
      contents kept t.backups <:+ calls.map t.record ∧
      RotatingLog.Holds PilotTelemetry.bytes t.maxBytes t.backups longest (calls.map t.record)
        kept := by
  have hflat : (calls.map fun c => [t.record c]).flatten = calls.map t.record := by
    rw [← List.flatMap_def]
    exact List.map_eq_flatMap.symm
  have hwrites : ∀ entries ∈ calls.map (fun c => [t.record c]),
      PilotTelemetry.bytes entries ≤ longest := by
    intro entries hentries
    obtain ⟨c, hc, rfl⟩ := List.mem_map.mp hentries
    have := hlongest c hc
    simpa [PilotTelemetry.bytes, PilotTelemetry.line, Json.jsonl] using this
  refine ⟨RotatingLog.run PilotTelemetry.bytes t.maxBytes t.backups (fun _ => none)
    ((calls.map fun c => [t.record c]).map (Use.whole t.backups)), ?_, ?_, ?_⟩
  · have hrun := @RotatingLog.mapFiles_run Json PilotTelemetry.bytes t.maxBytes t.backups Char
      (Json.jsonl {}) List.length rfl PilotTelemetry.jsonl_append (fun _ => rfl) (fun _ => none)
      ((calls.map fun c => [t.record c]).map (Use.whole t.backups))
    rw [PilotTelemetry.logs_faultless henabled hcalls, hrun]
    rfl
  · have hsuffix := @RotatingLog.contents_run Json PilotTelemetry.bytes t.maxBytes t.backups
      (fun _ => none) ((calls.map fun c => [t.record c]).map (Use.whole t.backups))
    rw [RotatingLog.contents_empty, List.nil_append, RotatingLog.entries_whole, hflat] at hsuffix
    exact hsuffix
  · have hholds := RotatingLog.holds_run PilotTelemetry.bytes_append hmax
      (calls.map fun c => [t.record c])
      (RotatingLog.holds_empty PilotTelemetry.bytes t.maxBytes t.backups longest) hwrites
    rw [List.nil_append, hflat] at hholds
    exact hholds

theorem wholeLog_logs {t : PilotTelemetry} (henabled : t.enabled = true) (hmax : 0 < t.maxBytes)
    {longest : Nat} {calls : List LogCall} (hcalls : ∀ c ∈ calls, t.Faultless c)
    (hlongest : ∀ c ∈ calls, (t.line c).length ≤ longest) :
    WholeLog t longest calls (t.logs (fun _ => none) calls) := by
  obtain ⟨kept, hfiles, hsuffix, hholds⟩ := logs_kept henabled hmax hcalls hlongest
  have hcontents : contents (t.logs (fun _ => none) calls) t.backups =
      Json.jsonl {} (contents kept t.backups) := by
    rw [hfiles]
    exact RotatingLog.contents_mapFiles rfl PilotTelemetry.jsonl_append kept t.backups
  constructor
  · intro i text htext
    rw [hfiles] at htext
    obtain ⟨records, hrecords, rfl⟩ := Option.map_eq_some_iff.mp htext
    exact hholds.small i records hrecords
  · refine ⟨kept, hfiles, hsuffix, ?_, ?_⟩
    · rw [hcontents]
      exact hholds.kept
    · intro hstorable
      rw [hcontents]
      refine Json.loadLines_jsonl rfl fun v hv => ?_
      obtain ⟨c, hc, rfl⟩ := List.mem_map.mp (hsuffix.subset hv)
      exact hstorable c hc

/-- Whatever fails in the telemetry of a worker, only the oldest of what was written is dropped;
when nothing fails, the files are bounded and hold whole records. -/
theorem telemetry_log (workerId : String) (enabled madeDirectory : Bool) (maxBytes backups : Int)
    (calls : List LogCall) :
    let t := PilotTelemetry.new workerId enabled madeDirectory maxBytes backups
    (∀ files, contents (t.logs files calls) t.backups <:+
      contents files t.backups ++ calls.flatMap t.added) ∧
    (t.enabled = true → (∀ c ∈ calls, t.Faultless c) → ∀ longest,
      (∀ c ∈ calls, (t.line c).length ≤ longest) →
      WholeLog t longest calls (t.logs (fun _ => none) calls)) := by
  intro t
  constructor
  · intro files
    cases henabled : t.enabled with
    | false =>
        rw [PilotTelemetry.logs_disabled henabled]
        have hnone : calls.flatMap t.added = [] := by
          rw [List.flatMap_eq_nil_iff]
          intro c _
          rw [PilotTelemetry.added, henabled, if_neg (by simp)]
        rw [hnone, List.append_nil]
    | true =>
        rw [PilotTelemetry.logs_run henabled]
        have hadded : calls.flatMap t.added = (calls.map t.use).flatMap Use.entries := by
          rw [List.flatMap_map]
          congr 1
          funext c
          rw [PilotTelemetry.added, henabled]
          exact if_pos rfl
        rw [hadded]
        exact RotatingLog.contents_run files (calls.map t.use)
  · intro henabled hcalls longest hlongest
    have hmax : 0 < t.maxBytes := by
      change 0 < (max 1024 maxBytes).toNat
      omega
    exact wholeLog_logs henabled hmax hcalls hlongest

/-- A call with many readings, none of whose operations fails. -/
def longCall (n : Nat) : LogCall where
  ts := "2026-01-01T00:00:00+00:00"
  event := "note"
  fields := [("n", .int n), ("readings", .arr (List.replicate 100 (.int 0)))]
  done := 3
  opened := true
  written := 500

def smallLog : PilotTelemetry := .new "w" true true 1024 1

def longCalls : List LogCall := (List.range 9).map longCall

theorem longCalls_line : ∀ c ∈ longCalls, (smallLog.line c).length ≤ 285 := by
  have hlines : ∀ n ∈ List.range 9, (smallLog.line (longCall n)).length ≤ 285 := by
    decide +kernel
  intro c hc
  obtain ⟨n, hn, rfl⟩ := List.mem_map.mp hc
  exact hlines n hn

theorem longCalls_faultless : ∀ c ∈ longCalls, smallLog.Faultless c := by
  intro c hc
  have hline := longCalls_line c hc
  obtain ⟨n, -, rfl⟩ := List.mem_map.mp hc
  have hdone : smallLog.backups + 1 ≤ 3 := by decide
  exact ⟨hdone, rfl, hline.trans (by norm_num [longCall])⟩

/-- Nine records, of which the two files hold the last five. -/
theorem telemetry_log_rotated :
    WholeLog smallLog 285 longCalls (smallLog.logs (fun _ => none) longCalls) ∧
      (contents (smallLog.logs (fun _ => none) longCalls) 1).length = 1425 :=
  ⟨(telemetry_log "w" true true 1024 1 longCalls).2 rfl longCalls_faultless 285 longCalls_line,
    by decide +kernel⟩

end OneCompute.Worker
