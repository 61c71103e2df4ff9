import OneCompute.Orchestrator.Transitions

/-!
The audit log over whole runs, under tampering, and as a commitment. SHA-256 is
assumed ideal only on the records that occur.
-/

namespace OneCompute

/-! ## Every run leaves a chain -/

/-- The four columns of an event that its emission fixes. -/
def EventRow.recorded (row : EventRow) : SqlValue × SqlValue × SqlValue × SqlValue :=
  (row.type, row.workerId, row.jobId, row.detail)

def Emission.recorded (e : Emission) : SqlValue × SqlValue × SqlValue × SqlValue :=
  (.text e.type, .ofOption e.workerId, .ofOption e.jobId, .ofOption e.detail)

/-- `rows` is a chain of readable rows that records `es`. -/
structure Logged (es : List Emission) (rows : List EventRow) : Prop where
  chained : AuditChained rows
  decodable : ∀ r ∈ rows, r.decodable = true
  records : rows.map EventRow.recorded = es.map Emission.recorded

theorem Logged.empty : Logged [] Db.empty.events.rows :=
  ⟨trivial, fun _ h => absurd h List.not_mem_nil, rfl⟩

theorem Logged.emit {es : List Emission} {db : Db} (h : Logged es db.events.rows) (now : Time)
    (e : Emission) : Logged (es ++ [e]) (emit now db e).events.rows where
  chained := emit_chained h.chained
  decodable := by
    intro r hr
    rw [emit_rows] at hr
    rcases List.mem_append.mp hr with hr | hr
    · exact h.decodable r hr
    · rw [List.mem_singleton.mp hr]
      exact make_decodable _ _ _ _
  records := by
    rw [emit_rows, List.map_append, List.map_append, h.records]
    rfl

theorem Logged.emitAll {es : List Emission} {db : Db} (h : Logged es db.events.rows) (now : Time)
    (new : List Emission) :
    Logged (es ++ new) (OneCompute.emitAll now db new).events.rows := by
  induction new generalizing es db with
  | nil => rwa [List.append_nil]
  | cons e new ih =>
      have := ih (h.emit now e)
      rwa [List.append_assoc] at this

/-- The events a command appended. -/
def emittedBy (p : Performed) : List Emission := (runCommand p.input p.pre p.cmd).emits

/-- The events emitted along a trace, in order. -/
def emitted (ps : List Performed) : List Emission := ps.flatMap emittedBy

theorem logged_post {es : List Emission} (p : Performed) (cfg : Config)
    (h : Logged es p.pre.db.events.rows) :
    Logged (es ++ emittedBy p) (p.post (machine cfg)).db.events.rows := by
  have hdb : Logged es (runCommand p.input p.pre p.cmd).db.events.rows := by
    rw [(runCommand_frame p.input p.pre p.cmd).1]
    exact h
  exact hdb.emitAll p.pre.clock _

theorem emitted_snoc (cfg : Config) (clock : Time) (ms : List Move) (m : Move) :
    emitted (runTrace cfg clock (ms ++ [m])) =
      emitted (runTrace cfg clock ms) ++ emitted (performedAt cfg clock ms m).toList := by
  rw [runTrace_snoc, emitted, List.flatMap_append]
  rfl

theorem run_logged (cfg : Config) (clock : Time) (ms : List Move) :
    Logged (emitted (runTrace cfg clock ms)) (run cfg clock ms).state.db.events.rows := by
  apply run_induction cfg clock
    (I := fun ms w => Logged (emitted (runTrace cfg clock ms)) w.db.events.rows)
  · exact Logged.empty
  · intro ms m p hp h
    rw [emitted_snoc, hp]
    simpa [emitted] using logged_post p cfg h
  · intro ms t w h
    rw [emitted_snoc]
    simpa [performedAt, Interleaving.performed, emitted] using h
  · intro ms m w hp h
    rw [emitted_snoc, hp]
    simpa [emitted] using h

/-- After any run from a fresh database the chain verifies with the count of the
events emitted, identifiers increase, and every row refers to the row before it. -/
theorem audit_chain_run (cfg : Config) (clock : Time) (ms : List Move) :
    let rows := (run cfg clock ms).state.db.events.rows
    verifyAuditChain rows = ⟨true, (emitted (runTrace cfg clock ms)).length, none⟩ ∧
      rows.map EventRow.recorded = (emitted (runTrace cfg clock ms)).map Emission.recorded ∧
      (rows.map EventRow.id).Pairwise (· < ·) ∧
      (∀ r, rows[0]? = some r → r.prevHash = .text auditGenesisHash) ∧
      ∀ i r s, rows[i]? = some r → rows[i + 1]? = some s → s.prevHash = r.hash := by
  have h := run_logged cfg clock ms
  refine ⟨?_, h.records, (run cfg clock ms).state.db.events.sorted, ?_, ?_⟩
  · have hlen := congrArg List.length h.records
    simp only [List.length_map] at hlen
    rw [verifyAuditChain_of_chained h.decodable h.chained, hlen]
  · intro r hr
    exact h.chained.first (l := auditLink r) (by simp [hr])
  · intro i r s hr hs
    exact h.chained.next (l := auditLink r) (m := auditLink s) (i := i) (by simp [hr])
      (by simp [hs])

/-! ## An ideal hash -/

/-- The bytes whose digest the row's hash is. -/
def auditRecord (row : EventRow) : List UInt8 :=
  auditRecordBytes (auditText row.prevHash) row.texts

/-- On the records of these rows SHA-256 has no collision and never yields the
genesis value. -/
structure IdealHash (rows : List EventRow) : Prop where
  collisionFree : ∀ r ∈ rows, ∀ s ∈ rows,
    Sha256.hexdigest (auditRecord r) = Sha256.hexdigest (auditRecord s) →
      auditRecord r = auditRecord s
  notGenesis : ∀ r ∈ rows, Sha256.hexdigest (auditRecord r) ≠ auditGenesisHash

theorem prevHash_text {prevHash : String} {rows : List EventRow}
    (h : HashChain.Chained chainHash (.text prevHash) (rows.map auditLink)) :
    ∀ r ∈ rows, ∃ s, r.prevHash = .text s := by
  induction rows generalizing prevHash with
  | nil => simp
  | cons row rows ih =>
      obtain ⟨hprev, hhash, hrest⟩ := h
      intro r hr
      cases List.mem_cons.mp hr with
      | inl hr =>
          subst hr
          exact ⟨prevHash, hprev⟩
      | inr hr =>
          have hh : (auditLink row).hash = .text _ := hhash
          rw [hh] at hrest
          exact ih hrest r hr

theorem IdealHash.collisionFree_links {rows : List EventRow} (h : IdealHash rows)
    (hp : ∀ r ∈ rows, ∃ s, r.prevHash = .text s) :
    HashChain.CollisionFree chainHash (rows.map auditLink) := by
  intro a ha b hb hab
  obtain ⟨r, hr, rfl⟩ := List.mem_map.mp ha
  obtain ⟨s, hs, rfl⟩ := List.mem_map.mp hb
  have hrec : auditRecord r = auditRecord s := h.collisionFree r hr s hs (SqlValue.text.inj hab)
  have hlist : auditText r.prevHash :: r.texts = auditText s.prevHash :: s.texts :=
    canonicalBytes_strings_inj (by simp [EventRow.texts]) hrec
  obtain ⟨hprev, htexts⟩ := List.cons.inj hlist
  obtain ⟨p, hp'⟩ := hp r hr
  obtain ⟨q, hq'⟩ := hp s hs
  refine ⟨?_, htexts⟩
  change r.prevHash = s.prevHash
  rw [hp', hq'] at hprev ⊢
  exact congrArg SqlValue.text hprev

theorem IdealHash.collisionFree_chains {as bs : List EventRow} (h : IdealHash (as ++ bs))
    (ha : AuditChained as) (hb : AuditChained bs) :
    HashChain.CollisionFree chainHash ((as ++ bs).map auditLink) := by
  apply h.collisionFree_links
  intro r hr
  cases List.mem_append.mp hr with
  | inl hr => exact prevHash_text ha r hr
  | inr hr => exact prevHash_text hb r hr

theorem IdealHash.notGenesis_links {rows : List EventRow} (h : IdealHash rows) :
    ∀ l ∈ rows.map auditLink, chainHash l.prev l.body ≠ .text auditGenesisHash := by
  intro l hl hgen
  obtain ⟨r, hr, rfl⟩ := List.mem_map.mp hl
  exact h.notGenesis r hr (SqlValue.text.inj hgen)

theorem IdealHash.mono {rows rows' : List EventRow} (h : IdealHash rows')
    (hs : ∀ r ∈ rows, ∃ s ∈ rows', auditRecord s = auditRecord r) : IdealHash rows where
  collisionFree := by
    intro r hr s hs' hrs
    obtain ⟨r', hr', hrr⟩ := hs r hr
    obtain ⟨s', hs', hss⟩ := hs s hs'
    rw [← hrr, ← hss] at hrs ⊢
    exact h.collisionFree r' hr' s' hs' hrs
  notGenesis := by
    intro r hr
    obtain ⟨r', hr', hrr⟩ := hs r hr
    rw [← hrr]
    exact h.notGenesis r' hr'

theorem IdealHash.subset {rows rows' : List EventRow} (h : IdealHash rows') (hs : rows ⊆ rows') :
    IdealHash rows :=
  h.mono fun r hr => ⟨r, hs hr, rfl⟩

theorem AuditChained.of_initial {rows rows' : List EventRow} (h : AuditChained rows')
    (hp : rows <+: rows') : AuditChained rows :=
  HashChain.Chained.of_initial h (hp.map auditLink)

theorem texts_of_head {as bs : List EventRow} (ha : AuditChained as) (hb : AuditChained bs)
    (ideal : IdealHash (as ++ bs))
    (hh : HashChain.head (.text auditGenesisHash) (as.map auditLink) =
      HashChain.head (.text auditGenesisHash) (bs.map auditLink)) :
    as.map EventRow.texts = bs.map EventRow.texts := by
  have hfree := ideal.collisionFree_chains ha hb
  have hgen := ideal.notGenesis_links
  rw [List.map_append] at hfree hgen
  have := HashChain.commit ha hb hfree hgen hh
  simpa [Function.comp_def, auditLink] using this

/-! ## Tampering -/

/-- The log that these emissions, each at its time, write on a fresh database. -/
def writtenDb (es : List (Time × Emission)) : Db :=
  es.foldl (fun db e => emit e.1 db e.2) .empty

def writtenLog (es : List (Time × Emission)) : List EventRow := (writtenDb es).events.rows

theorem writtenDb_seq (es : List (Time × Emission)) : (writtenDb es).events.seq = es.length := by
  induction es using List.reverseRecOn with
  | nil => rfl
  | append_singleton es e ih =>
      rw [writtenDb, List.foldl_append, List.length_append, ← ih]
      rfl

theorem writtenLog_snoc (es : List (Time × Emission)) (e : Time × Emission) :
    writtenLog (es ++ [e]) =
      writtenLog es ++ [.make (tailHash (writtenLog es)) e.1 e.2 (es.length + 1)] := by
  rw [writtenLog, writtenDb, List.foldl_append, ← writtenDb_seq es]
  rfl

theorem writtenLog_chained (es : List (Time × Emission)) : AuditChained (writtenLog es) := by
  induction es using List.reverseRecOn with
  | nil => trivial
  | append_singleton es e ih =>
      simp only [writtenLog, writtenDb, List.foldl_append, List.foldl_cons, List.foldl_nil]
      exact emit_chained ih

theorem writtenLog_sorted (es : List (Time × Emission)) :
    (writtenLog es).Pairwise (fun r s => r.id < s.id) :=
  List.pairwise_map.mp (writtenDb es).events.sorted

/-- A later state of the table: `survivors` are the rows of the log that are left,
in the order of their new identifiers, and `table` is what they have become, with
the stored hashes as written. -/
structure Tampering (log : List EventRow) where
  survivors : List EventRow
  table : List EventRow
  survive : survivors.Subperm log
  kept : List.Forall₂ (fun o t => t.prevHash = o.prevHash ∧ t.hash = o.hash) survivors table

namespace Tampering
variable {log : List EventRow}

/-- Some surviving row has another text than it had, as the verifier reads it. -/
def EditsText (t : Tampering log) : Prop :=
  ∃ (i : Nat) (o r : EventRow), t.survivors[i]? = some o ∧ t.table[i]? = some r ∧ r.texts ≠ o.texts

/-- Some deleted row stood before a row that survives. -/
def DeletesBefore (t : Tampering log) : Prop :=
  ∃ r ∈ log, r ∉ t.survivors ∧ ∃ s ∈ t.survivors, r.id < s.id

def Reorders (t : Tampering log) : Prop :=
  ∃ (i j : Nat) (r s : EventRow), i < j ∧ t.survivors[i]? = some r ∧ t.survivors[j]? = some s ∧ s.id < r.id

/-- Some surviving row has another stored value in a hashed column. -/
def ChangesStored (t : Tampering log) : Prop :=
  ∃ (i : Nat) (o r : EventRow), t.survivors[i]? = some o ∧ t.table[i]? = some r ∧
    (r.ts, r.type, r.workerId, r.jobId, r.detail) ≠ (o.ts, o.type, o.workerId, o.jobId, o.detail)

def Deletes (t : Tampering log) : Prop := ∃ r ∈ log, r ∉ t.survivors

end Tampering

/-- What a tampered table that verifies can be: the beginning of the log, with
the texts it had. -/
theorem survivors_of_verified {es : List (Time × Emission)} (t : Tampering (writtenLog es))
    (readable : ∀ r ∈ t.table, r.decodable = true) (ideal : IdealHash (writtenLog es ++ t.table))
    (h : (verifyAuditChain t.table).ok = true) :
    t.survivors <+: writtenLog es ∧
      List.Forall₂ (fun o r => r.texts = o.texts) t.survivors t.table := by
  have hlog := writtenLog_chained es
  have htab := chained_of_verifyAuditChain readable h
  have hfree := ideal.collisionFree_chains hlog htab
  have hgen := (ideal.subset (List.subset_append_left _ _)).notGenesis_links
  have hchain : HashChain.Chained chainHash (.text auditGenesisHash)
      ((writtenLog es).map auditLink) := hlog
  exact HashChain.survivors_initial hchain hfree hgen t.survive.subset t.kept htab

theorem not_reorders_of_initial {es : List (Time × Emission)} {t : Tampering (writtenLog es)}
    (h : t.survivors <+: writtenLog es) : ¬ t.Reorders := by
  rintro ⟨i, j, r, s, hij, hr, hs, hlt⟩
  have hsorted := (writtenLog_sorted es).sublist h.sublist
  obtain ⟨hi, rfl⟩ := List.getElem?_eq_some_iff.mp hr
  obtain ⟨hj, rfl⟩ := List.getElem?_eq_some_iff.mp hs
  have := List.pairwise_iff_getElem.mp hsorted i j hi hj hij
  omega

theorem not_deletesBefore_of_initial {es : List (Time × Emission)} {t : Tampering (writtenLog es)}
    (h : t.survivors <+: writtenLog es) : ¬ t.DeletesBefore := by
  rintro ⟨r, hr, hdel, s, hs, hlt⟩
  obtain ⟨rest, hrest⟩ := h
  have hsorted := writtenLog_sorted es
  rw [← hrest] at hr hsorted
  have hrr : r ∈ rest := (List.mem_append.mp hr).resolve_left hdel
  have := (List.pairwise_append.mp hsorted).2.2 s hs r hrr
  omega

theorem not_editsText_of_forall₂ {log : List EventRow} {t : Tampering log}
    (h : List.Forall₂ (fun o r => r.texts = o.texts) t.survivors t.table) : ¬ t.EditsText := by
  rintro ⟨i, o, r, ho, hr, hne⟩
  obtain ⟨hi, rfl⟩ := List.getElem?_eq_some_iff.mp ho
  obtain ⟨hj, rfl⟩ := List.getElem?_eq_some_iff.mp hr
  exact hne ((List.forall₂_iff_get.mp h).2 i hi hj)

/-- A row got another text, is missing before one that survives, or was moved. -/
def Tampering.Detectable {log : List EventRow} (t : Tampering log) : Prop :=
  t.EditsText ∨ t.DeletesBefore ∨ t.Reorders

theorem detectable_detected {es : List (Time × Emission)} (t : Tampering (writtenLog es))
    (readable : ∀ r ∈ t.table, r.decodable = true) (ideal : IdealHash (writtenLog es ++ t.table))
    (change : t.Detectable) : (verifyAuditChain t.table).ok = false := by
  by_contra hok
  obtain ⟨hpre, htexts⟩ := survivors_of_verified t readable ideal (by simpa using hok)
  cases change with
  | inl h => exact not_editsText_of_forall₂ htexts h
  | inr h =>
      cases h with
      | inl h => exact not_deletesBefore_of_initial hpre h
      | inr h => exact not_reorders_of_initial hpre h

/-- The table up to a row that has the hash of a row as written. -/
theorem texts_before {es : List (Time × Emission)} {table : List EventRow}
    (readable : ∀ r ∈ table, r.decodable = true) (ideal : IdealHash (writtenLog es ++ table))
    (h : (verifyAuditChain table).ok = true) {i k : Nat} {r o : EventRow}
    (hr : table[i]? = some r) (ho : (writtenLog es)[k]? = some o) (hh : r.hash = o.hash) :
    (table.take (i + 1)).map EventRow.texts =
      ((writtenLog es).take (k + 1)).map EventRow.texts := by
  have htable := (chained_of_verifyAuditChain readable h).of_initial (List.take_prefix (i + 1) table)
  have hlog := (writtenLog_chained es).of_initial (List.take_prefix (k + 1) (writtenLog es))
  have hfree : IdealHash (table.take (i + 1) ++ (writtenLog es).take (k + 1)) := by
    apply ideal.subset
    apply List.append_subset.mpr
    constructor
    · exact List.Subset.trans (List.take_subset _ _) (List.subset_append_right _ _)
    · exact List.Subset.trans (List.take_subset _ _) (List.subset_append_left _ _)
  apply texts_of_head htable hlog hfree
  rw [List.take_add_one, List.take_add_one, hr, ho]
  simp only [Option.toList_some, List.map_append, List.map_singleton, HashChain.head_snoc]
  exact hh

/-- A readable table that was tampered with in a detectable way does not verify.
One that verifies, whatever was inserted into it, reads up to each row that has the
hash of a row as written as the log did up to that row. -/
theorem tampering_detected {es : List (Time × Emission)} (table : List EventRow)
    (readable : ∀ r ∈ table, r.decodable = true) (ideal : IdealHash (writtenLog es ++ table)) :
    (∀ t : Tampering (writtenLog es), t.table = table → t.Detectable →
      (verifyAuditChain table).ok = false) ∧
    ((verifyAuditChain table).ok = true → ∀ i k r o,
      table[i]? = some r → (writtenLog es)[k]? = some o → r.hash = o.hash →
        (table.take (i + 1)).map EventRow.texts =
          ((writtenLog es).take (k + 1)).map EventRow.texts) := by
  constructor
  · rintro t rfl change
    exact detectable_detected t readable ideal change
  · intro h i k r o hr ho hh
    exact texts_before readable ideal h hr ho hh

/-! A log of three events, a table in which one of them names another worker, and
one to which a forged approval was appended. -/

def jobEvents : List (Time × Emission) :=
  [(0, ⟨"submitted", none, some "j", some "hashcrack"⟩), (1, ⟨"assigned", some "w", some "j", none⟩),
    (2, ⟨"completed", some "w", some "j", some "valid"⟩)]

def forgedEvent : Time × Emission := (3, ⟨"approved", some "v", none, none⟩)

def submittedRow : EventRow :=
  .make auditGenesisHash 0 ⟨"submitted", none, some "j", some "hashcrack"⟩ 1

def assignedRow : EventRow :=
  .make "a87fcc8f81f6dee438b63d2daef2e2d790ccb570b7a51c3baa815fa1d526d381" 1
    ⟨"assigned", some "w", some "j", none⟩ 2

def completedRow : EventRow :=
  .make "8bd403e5047b2c82964e19c0745a525c2a93e93985f7b8d4b57b18f6a4eb8a6c" 2
    ⟨"completed", some "w", some "j", some "valid"⟩ 3

def forgedRow : EventRow :=
  .make "6cd0b5bfdc43b12795261549d741d5dd67375c94024ef9263f8e44f624071515" 3
    ⟨"approved", some "v", none, none⟩ 4

def reassignedRow : EventRow := { assignedRow with workerId := .text "v" }

set_option maxRecDepth 20000 in
theorem jobRows_digests :
    [submittedRow, assignedRow, completedRow, forgedRow, reassignedRow].map
        (fun r => Sha256.hexdigest (auditRecord r)) =
      ["a87fcc8f81f6dee438b63d2daef2e2d790ccb570b7a51c3baa815fa1d526d381",
        "8bd403e5047b2c82964e19c0745a525c2a93e93985f7b8d4b57b18f6a4eb8a6c",
        "6cd0b5bfdc43b12795261549d741d5dd67375c94024ef9263f8e44f624071515",
        "eb8902a1e36513900b4c972f9077eb225fa6c696ad1b040b516bd119e2ff27df",
        "e12c9ee8caefed33d64c8479fe8f90fa74381474b043bd3958c2d96a28de11b9"] := by
  decide +kernel

theorem IdealHash.of_digests {rows : List EventRow} {digests : List String}
    (h : rows.map (fun r => Sha256.hexdigest (auditRecord r)) = digests) (distinct : digests.Nodup)
    (notGenesis : auditGenesisHash ∉ digests) : IdealHash rows where
  collisionFree := by
    intro r hr s hs hrs
    rw [← h] at distinct
    exact congrArg auditRecord (List.inj_on_of_nodup_map distinct hr hs hrs)
  notGenesis := by
    intro r hr hgen
    apply notGenesis
    rw [← h, ← hgen]
    exact List.mem_map_of_mem (f := fun r => Sha256.hexdigest (auditRecord r)) hr

theorem jobRows_ideal :
    IdealHash [submittedRow, assignedRow, completedRow, forgedRow, reassignedRow] :=
  .of_digests jobRows_digests (by decide +kernel) (by decide +kernel)

theorem writtenLog_next {es : List (Time × Emission)} {rows : List EventRow} {row : EventRow}
    {s : String} (h : writtenLog es = rows ++ [row]) (hrow : row.hash = .text s) (hs : s ≠ "")
    (e : Time × Emission) :
    writtenLog (es ++ [e]) = rows ++ [row] ++ [.make s e.1 e.2 (es.length + 1)] := by
  rw [writtenLog_snoc, h, tailHash_snoc hrow hs]

theorem writtenLog_jobEvents :
    writtenLog jobEvents = [submittedRow, assignedRow, completedRow] := by
  have h := jobRows_digests
  simp only [List.map_cons, List.map_nil, List.cons.injEq] at h
  obtain ⟨h1, h2, -⟩ := h
  have log1 : writtenLog (jobEvents.take 1) = [] ++ [submittedRow] := rfl
  have log2 := writtenLog_next log1 (congrArg SqlValue.text h1) (by decide)
    (1, ⟨"assigned", some "w", some "j", none⟩)
  exact writtenLog_next log2 (congrArg SqlValue.text h2) (by decide)
    (2, ⟨"completed", some "w", some "j", some "valid"⟩)

theorem writtenLog_forgedEvent : writtenLog (jobEvents ++ [forgedEvent]) =
    [submittedRow, assignedRow, completedRow, forgedRow] := by
  have h := jobRows_digests
  simp only [List.map_cons, List.map_nil, List.cons.injEq] at h
  exact @writtenLog_next jobEvents [submittedRow, assignedRow] completedRow _ writtenLog_jobEvents
    (congrArg SqlValue.text h.2.2.1) (by decide) forgedEvent

def assignmentEdit : Tampering (writtenLog jobEvents) where
  survivors := [submittedRow, assignedRow, completedRow]
  table := [submittedRow, reassignedRow, completedRow]
  survive := by rw [writtenLog_jobEvents]
  kept := .cons ⟨rfl, rfl⟩ (.cons ⟨rfl, rfl⟩ (.cons ⟨rfl, rfl⟩ .nil))

theorem assignmentEdit_editsText : assignmentEdit.EditsText :=
  ⟨1, assignedRow, reassignedRow, rfl, rfl, by decide +kernel⟩

theorem jobLog_ideal {table : List EventRow}
    (h : table ⊆ [submittedRow, assignedRow, completedRow, forgedRow, reassignedRow]) :
    IdealHash (writtenLog jobEvents ++ table) := by
  apply jobRows_ideal.subset
  rw [writtenLog_jobEvents]
  exact List.append_subset.mpr ⟨by simp, h⟩

theorem forgedLog_verified :
    (verifyAuditChain [submittedRow, assignedRow, completedRow, forgedRow]).ok = true := by
  have h := writtenLog_chained (jobEvents ++ [forgedEvent])
  rw [writtenLog_forgedEvent] at h
  rw [verifyAuditChain_of_chained (by decide +kernel) h]

theorem tampering_detected_assignment :
    (verifyAuditChain [submittedRow, reassignedRow, completedRow]).ok = false ∧
      [submittedRow, assignedRow, completedRow].map EventRow.texts =
        ((writtenLog jobEvents).take 3).map EventRow.texts :=
  ⟨(tampering_detected [submittedRow, reassignedRow, completedRow] (by decide +kernel)
      (jobLog_ideal (by simp))).1 assignmentEdit rfl (.inl assignmentEdit_editsText),
    (tampering_detected [submittedRow, assignedRow, completedRow, forgedRow] (by decide +kernel)
      (jobLog_ideal (by simp))).2 forgedLog_verified 2 2 completedRow completedRow rfl
      (by rw [writtenLog_jobEvents]; rfl) rfl⟩

/-- A log of one event, about a worker whose name is the text of a byte string. -/
def approvalLog : List EventRow := writtenLog [(0, ⟨"approved", some "b'w'", none, none⟩)]

def approvalRow : EventRow :=
  .make auditGenesisHash 0 ⟨"approved", some "b'w'", none, none⟩ 1

def approvalEdit (row : EventRow) (hp : row.prevHash = approvalRow.prevHash)
    (hh : row.hash = approvalRow.hash) : Tampering approvalLog where
  survivors := [approvalRow]
  table := [row]
  survive := List.Subperm.refl _
  kept := List.Forall₂.cons ⟨hp, hh⟩ List.Forall₂.nil

def approvalDeletion : Tampering approvalLog where
  survivors := []
  table := []
  survive := List.nil_subperm
  kept := List.Forall₂.nil

theorem sameText_verified {row : EventRow} (hp : row.prevHash = approvalRow.prevHash)
    (hh : row.hash = approvalRow.hash) (ht : row.texts = approvalRow.texts)
    (hd : row.decodable = true) : (verifyAuditChain [row]).ok = true := by
  rw [verifyAuditChain_of_chained (by simpa using hd)]
  have hchain := writtenLog_chained [(0, ⟨"approved", some "b'w'", none, none⟩)]
  have hlink : auditLink row = auditLink approvalRow := by
    simp only [auditLink, hp, hh, ht]
  change HashChain.Chained chainHash _ [auditLink row]
  rw [hlink]
  exact hchain

/-- `NULL` against the empty text, a text against the bytes whose text it is, the
loss of the last row, and a text that cannot be decoded all go undetected. -/
theorem tampering_undetected :
    (∃ t : Tampering approvalLog, t.ChangesStored ∧ (∃ r ∈ t.table, r.jobId = .text "") ∧
      (verifyAuditChain t.table).ok = true) ∧
    (∃ t : Tampering approvalLog, t.ChangesStored ∧ (∃ r ∈ t.table, r.workerId = .blob [119]) ∧
      (verifyAuditChain t.table).ok = true) ∧
    (∃ t : Tampering approvalLog, t.Deletes ∧ (verifyAuditChain t.table).ok = true) ∧
    (∃ t : Tampering approvalLog, t.EditsText ∧ (verifyAuditChain t.table).ok = true) := by
  refine ⟨⟨approvalEdit { approvalRow with jobId := .text "" } rfl rfl, ?_, ?_, ?_⟩,
    ⟨approvalEdit { approvalRow with workerId := .blob [119] } rfl rfl, ?_, ?_, ?_⟩,
    ⟨approvalDeletion, ?_, ?_⟩,
    ⟨approvalEdit { approvalRow with ts := .undecodable [255] } rfl rfl, ?_, ?_⟩⟩
  · exact ⟨0, _, _, rfl, rfl, by simp [approvalRow, EventRow.make, SqlValue.ofOption]⟩
  · exact ⟨_, List.mem_singleton_self _, rfl⟩
  · exact sameText_verified rfl rfl rfl rfl
  · exact ⟨0, _, _, rfl, rfl, by simp [approvalRow, EventRow.make, SqlValue.ofOption]⟩
  · exact ⟨_, List.mem_singleton_self _, rfl⟩
  · exact sameText_verified rfl rfl (by decide +kernel) rfl
  · exact ⟨approvalRow, List.mem_singleton_self _, List.not_mem_nil⟩
  · rfl
  · exact ⟨0, _, _, rfl, rfl, by decide +kernel⟩
  · rfl

/-! ## The head commits to the log -/

/-- A log as the schema types it: text columns, `NULL` where that is allowed, rows
in the order of their identifiers. -/
structure EventLog where
  rows : List EventRow
  ascending : (rows.map EventRow.id).Pairwise (· < ·)
  typed : ∀ r ∈ rows, ∀ v ∈ [r.ts, r.type, r.workerId, r.jobId, r.detail, r.prevHash, r.hash],
    v = .null ∨ ∃ s, v = .text s

/-- Equal, or one is `NULL` and the other the empty text. -/
def SameUpToNull (v w : SqlValue) : Prop :=
  v = w ∨ (v = .null ∧ w = .text "") ∨ (v = .text "" ∧ w = .null)

theorem sameUpToNull_of_auditText {v w : SqlValue} (hv : v = .null ∨ ∃ s, v = .text s)
    (hw : w = .null ∨ ∃ s, w = .text s) (h : auditText v = auditText w) : SameUpToNull v w := by
  rcases hv with rfl | ⟨s, rfl⟩ <;> rcases hw with rfl | ⟨t, rfl⟩
  · exact .inl rfl
  · exact .inr (.inl ⟨rfl, congrArg SqlValue.text h.symm⟩)
  · exact .inr (.inr ⟨congrArg SqlValue.text h, rfl⟩)
  · exact .inl (congrArg SqlValue.text h)

structure EventRow.Agrees (r s : EventRow) : Prop where
  ts : SameUpToNull r.ts s.ts
  type : SameUpToNull r.type s.type
  workerId : SameUpToNull r.workerId s.workerId
  jobId : SameUpToNull r.jobId s.jobId
  detail : SameUpToNull r.detail s.detail

theorem EventLog.decodable (log : EventLog) : ∀ r ∈ log.rows, r.decodable = true := by
  intro r hr
  apply List.all_eq_true.mpr
  intro v hv
  rcases log.typed r hr v hv with rfl | ⟨s, rfl⟩ <;> rfl

theorem agrees_of_texts {a b : EventLog} {r s : EventRow} (hr : r ∈ a.rows) (hs : s ∈ b.rows)
    (h : r.texts = s.texts) : r.Agrees s := by
  have hr' := a.typed r hr
  have hs' := b.typed s hs
  simp only [EventRow.texts, List.map_cons, List.map_nil, List.cons.injEq, and_true] at h
  obtain ⟨h1, h2, h3, h4, h5⟩ := h
  constructor
  · exact sameUpToNull_of_auditText (hr' _ (by simp)) (hs' _ (by simp)) h1
  · exact sameUpToNull_of_auditText (hr' _ (by simp)) (hs' _ (by simp)) h2
  · exact sameUpToNull_of_auditText (hr' _ (by simp)) (hs' _ (by simp)) h3
  · exact sameUpToNull_of_auditText (hr' _ (by simp)) (hs' _ (by simp)) h4
  · exact sameUpToNull_of_auditText (hr' _ (by simp)) (hs' _ (by simp)) h5

theorem head_of_getLast {rows : List EventRow} (h : rows ≠ []) :
    HashChain.head (.text auditGenesisHash) (rows.map auditLink) = (rows.getLast h).hash := by
  obtain ⟨rows, row, rfl⟩ := (List.eq_nil_or_concat rows).resolve_left h
  simp [auditLink]

/-- Two verified logs that end in the same hash have the same events, up to `NULL`
against the empty text. -/
theorem head_hash_commits (a b : EventLog) (ha : a.rows ≠ []) (hb : b.rows ≠ [])
    (va : (verifyAuditChain a.rows).ok = true) (vb : (verifyAuditChain b.rows).ok = true)
    (ideal : IdealHash (a.rows ++ b.rows))
    (hh : (a.rows.getLast ha).hash = (b.rows.getLast hb).hash) :
    List.Forall₂ EventRow.Agrees a.rows b.rows := by
  have hca := chained_of_verifyAuditChain a.decodable va
  have hcb := chained_of_verifyAuditChain b.decodable vb
  have htexts := texts_of_head hca hcb ideal (by rw [head_of_getLast ha, head_of_getLast hb, hh])
  have hlen : a.rows.length = b.rows.length := by simpa using congrArg List.length htexts
  rw [List.forall₂_iff_get]
  refine ⟨hlen, ?_⟩
  intro i hi hj
  apply agrees_of_texts (List.get_mem _ _) (List.get_mem _ _)
  have := congrArg (fun l => l[i]?) htexts
  simpa [hi, hj] using this

theorem make_typed (prevHash : String) (now : Time) (e : Emission) (id : Nat) :
    let r := EventRow.make prevHash now e id
    ∀ v ∈ [r.ts, r.type, r.workerId, r.jobId, r.detail, r.prevHash, r.hash],
      v = .null ∨ ∃ s, v = .text s := by
  have hoption : ∀ o : Option String,
      SqlValue.ofOption o = .null ∨ ∃ s, SqlValue.ofOption o = .text s := by
    intro o
    cases o with
    | none => exact .inl rfl
    | some s => exact .inr ⟨s, rfl⟩
  intro r v hv
  simp only [List.mem_cons, List.not_mem_nil, or_false] at hv
  rcases hv with rfl | rfl | rfl | rfl | rfl | rfl | rfl
  · exact .inr ⟨_, rfl⟩
  · exact .inr ⟨_, rfl⟩
  · exact hoption e.workerId
  · exact hoption e.jobId
  · exact hoption e.detail
  · exact .inr ⟨_, rfl⟩
  · exact .inr ⟨_, rfl⟩

theorem writtenLog_typed (es : List (Time × Emission)) : ∀ r ∈ writtenLog es,
    ∀ v ∈ [r.ts, r.type, r.workerId, r.jobId, r.detail, r.prevHash, r.hash],
      v = .null ∨ ∃ s, v = .text s := by
  induction es using List.reverseRecOn with
  | nil => exact fun _ h => absurd h List.not_mem_nil
  | append_singleton es e ih =>
      simp only [writtenLog, writtenDb, List.foldl_append, List.foldl_cons, List.foldl_nil, emit_rows]
      intro r hr
      cases List.mem_append.mp hr with
      | inl hr => exact ih r hr
      | inr hr =>
          rw [List.mem_singleton.mp hr]
          exact make_typed _ _ _ _

def writtenEvents (es : List (Time × Emission)) : EventLog where
  rows := writtenLog es
  ascending := (writtenDb es).events.sorted
  typed := writtenLog_typed es

/-- The detail as the verifier reads it, stored in place of `NULL`. -/
def coalesced (row : EventRow) : EventRow := { row with detail := .text (auditText row.detail) }

def EventLog.coalesced (log : EventLog) : EventLog where
  rows := log.rows.map OneCompute.coalesced
  ascending := by
    rw [List.map_map]
    exact log.ascending
  typed := by
    intro r hr v hv
    obtain ⟨row, hrow, rfl⟩ := List.mem_map.mp hr
    have htyped := log.typed row hrow
    simp only [List.mem_cons, List.not_mem_nil, or_false] at hv
    rcases hv with rfl | rfl | rfl | rfl | rfl | rfl | rfl
    · exact htyped _ (by simp [OneCompute.coalesced])
    · exact htyped _ (by simp [OneCompute.coalesced])
    · exact htyped _ (by simp [OneCompute.coalesced])
    · exact htyped _ (by simp [OneCompute.coalesced])
    · exact .inr ⟨_, rfl⟩
    · exact htyped _ (by simp [OneCompute.coalesced])
    · exact htyped _ (by simp [OneCompute.coalesced])

theorem coalesced_verified {log : EventLog} (h : (verifyAuditChain log.rows).ok = true) :
    (verifyAuditChain log.coalesced.rows).ok = true := by
  have hchain := chained_of_verifyAuditChain log.decodable h
  rw [verifyAuditChain_of_chained log.coalesced.decodable]
  rw [AuditChained, EventLog.coalesced, List.map_map]
  exact hchain

theorem coalesced_ideal {rows : List EventRow} (h : IdealHash rows) :
    IdealHash (rows ++ rows.map coalesced) := by
  apply h.mono
  intro r hr
  cases List.mem_append.mp hr with
  | inl hr => exact ⟨r, hr, rfl⟩
  | inr hr =>
      obtain ⟨row, hrow, rfl⟩ := List.mem_map.mp hr
      exact ⟨row, hrow, rfl⟩

theorem writtenEvents_verified (es : List (Time × Emission)) :
    (verifyAuditChain (writtenEvents es).rows).ok = true := by
  rw [verifyAuditChain_of_chained (writtenEvents es).decodable (writtenLog_chained es)]

theorem head_hash_commits_null :
    List.Forall₂ EventRow.Agrees (writtenLog jobEvents) ((writtenLog jobEvents).map coalesced) :=
  head_hash_commits (writtenEvents jobEvents) (writtenEvents jobEvents).coalesced
    (by simp [writtenEvents, writtenLog_jobEvents])
    (by simp [EventLog.coalesced, writtenEvents, writtenLog_jobEvents])
    (writtenEvents_verified jobEvents) (coalesced_verified (writtenEvents_verified jobEvents))
    (coalesced_ideal ((jobLog_ideal (List.nil_subset _)).subset (List.subset_append_left _ _)))
    (by simp [EventLog.coalesced, writtenEvents, coalesced, List.getLast_map])

end OneCompute
