import OneCompute.Orchestrator.Removal

/-!
Device binding. With binding enabled every row carries the fingerprint of the
certificate it was registered with, and the gates compare it on every later call.
The tier that a registration derives is the one write after the comparison that
does not repeat it.
-/

namespace OneCompute

/-- The worker a call speaks for, with the credential and certificate it presents. -/
def Call.presents : Call → Option (String × Option String × Option String)
  | .jobsNext w auth cert => some (w, auth, cert)
  | .heartbeat req auth cert => some (req.workerId, auth, cert)
  | .results _ req auth cert => some (req.workerId, auth, cert)
  | .ingestProfile req auth cert => some (req.workerId, auth, cert)
  | _ => none

/-- The command reads the row of the caller, and the gate lets the caller pass
with it. -/
def PassesGate (cfg : Config) (p : Performed) (v : String) (auth cert : Option String)
    (row : WorkerRow) : Prop :=
  p.call.presents = some (v, auth, cert) ∧ p.cmd = .workerRow v ∧
    checkWorkerToken cfg.bindDeviceIdentity (p.pre.db.workers.find? v) auth
      (verifiedClientFingerprint cert) = .ok row

/-- The worker on whose behalf a command changes the store. -/
def Cmd.actsFor : Cmd → Option String
  | .assignNext w _ _ => some w
  | .recordHeartbeat _ req _ => some req.workerId
  | .settle _ req _ => some req.workerId
  | .storeProfile w _ _ => some w
  | _ => none

/-- The caller presents the token of the row and the certificate it is bound to. -/
def Proves (row : WorkerRow) (auth cert : Option String) : Prop :=
  (∃ header, auth = some header ∧ PyText.startsWith header "Bearer " = true ∧
    bearerToken header = row.token) ∧
  ∃ f, verifiedClientFingerprint cert = some f ∧ row.certFingerprint = some f

/-- The tier a registration derived is about to overwrite the tier of a row that
is bound to another certificate. -/
def StaleTier (p : Performed) : Prop :=
  ∃ v tier body cert row, p.cmd = .applyDerivedTier v tier ∧ p.call = .register body cert ∧
    p.pre.db.workers.find? v = some row ∧
    row.certFingerprint ≠ verifiedClientFingerprint cert ∧
    row.tierPinned = false ∧ row.trustTier ≠ tier

/-! ## Fingerprints -/

theorem hexDigit_plain : ∀ c ∈ "0123456789abcdef".toList, PyText.isSpace c = false ∧
    c.toNat ≠ 0x130 ∧ c.toNat ≠ 0x212a ∧ c.toLower = c := by
  have hall : ("0123456789abcdef".toList.all fun c => decide (PyText.isSpace c = false ∧
      c.toNat ≠ 0x130 ∧ c.toNat ≠ 0x212a ∧ c.toLower = c)) = true := by
    decide +kernel
  intro c hc
  exact of_decide_eq_true (List.all_eq_true.mp hall c hc)

theorem verified_fingerprint {cert : Option String} {f : String}
    (h : verifiedClientFingerprint cert = some f) :
    f ≠ "" ∧ PyText.lower (PyText.strip f) = f := by
  unfold verifiedClientFingerprint at h
  split at h
  next => cases h
  next value =>
    dsimp only at h
    split at h
    next hhex =>
      obtain ⟨hlength, hdigits⟩ := (Bool.and_eq_true _ _).mp hhex
      rw [Option.some.inj h] at hlength hdigits
      have hplain : ∀ c ∈ f.toList, _ := fun c hc =>
        hexDigit_plain c (List.contains_iff_mem.mp (List.all_eq_true.mp hdigits c hc))
      constructor
      · rintro rfl
        revert hlength
        decide
      · rw [PyText.strip_of_no_space (fun c hc => (hplain c hc).1),
          PyText.lower_of_lower (fun c hc => (hplain c hc).2)]
    next => cases h

theorem checkDevice_bound {row r : WorkerRow} {cert : Option String} {f : String}
    (h : checkDevice true row (verifiedClientFingerprint cert) = .ok r)
    (hf : row.certFingerprint = some f) (hne : f ≠ "") :
    verifiedClientFingerprint cert = some f := by
  unfold checkDevice at h
  simp only [hf, Option.getD_some, ne_eq, hne, not_false_eq_true, decide_true, Bool.and_self,
    if_true] at h
  split at h
  next => cases h
  next hgiven =>
    split at h
    next hcompare =>
      have heq := PyText.eq_of_compareDigest hcompare
      cases hc : verifiedClientFingerprint cert with
      | none => rw [hc] at hgiven; exact absurd rfl hgiven
      | some g =>
          rw [hc, Option.getD_some, (verified_fingerprint hc).2] at heq
          rw [heq]
    next => cases h
    next => cases h

theorem checkWorkerToken_ok {bind : Bool} {worker : Option WorkerRow}
    {auth presented : Option String} {row : WorkerRow}
    (h : checkWorkerToken bind worker auth presented = .ok row) :
    (∃ header, auth = some header ∧ PyText.startsWith header "Bearer " = true ∧
      bearerToken header = row.token) ∧ checkDevice bind row presented = .ok row := by
  have hworker := checkWorkerToken_row h
  subst hworker
  unfold checkWorkerToken at h
  dsimp only at h
  split at h
  next => cases h
  next header =>
    split at h
    next hscheme =>
      split at h
      next => cases h
      next =>
        split at h
        next => cases h
        next hcompare hrow =>
          cases hrow
          exact ⟨⟨header, rfl, hscheme, PyText.eq_of_compareDigest hcompare⟩, h⟩
        next => cases h
    next => cases h

/-- A registration that passes the binding check of a bound row presents the
fingerprint of the row. -/
theorem checkBinding_bound {row : WorkerRow} {presented : Option String} {f : String}
    (h : checkBinding true (some row) presented = .ok ()) (hf : row.certFingerprint = some f)
    (hne : f ≠ "") : presented = some f := by
  unfold checkBinding at h
  simp only [hf, Option.getD_some, hne, if_false] at h
  split at h
  next hcompare =>
    have heq := PyText.eq_of_compareDigest hcompare
    cases presented with
    | none => exact absurd heq hne
    | some g => rw [heq]; rfl
  next => cases h
  next => cases h

/-! ## One command -/

/-- A row bound to a certificate. -/
def WorkerRow.Bound (row : WorkerRow) : Prop := ∃ f, row.certFingerprint = some f ∧ f ≠ ""

theorem derive_fingerprint (tier : String) (row : WorkerRow) :
    (row.derive tier).certFingerprint = row.certFingerprint := by
  unfold WorkerRow.derive
  split <;> rfl

theorem beat_fingerprint (m : Bool) (req : HeartbeatRequest) (now : Time) (row : WorkerRow) :
    (row.beat m req now).certFingerprint = row.certFingerprint := by
  cases m <;> rfl

theorem reenrolled_fingerprint {e : Enrollment} {f : String} (h : e.certFingerprint = some f)
    (row : WorkerRow) : (row.reenrolled e).certFingerprint = some f := by
  change e.certFingerprint.orElse _ = some f
  rw [h]
  rfl

section Step
variable {cfg : Config} {clock : Time} {ms : List Move} {m : Move} {p : Performed}

/-- What a registration stores under binding. -/
theorem enroll_bound (hb : cfg.bindDeviceIdentity = true)
    (hp : performedAt cfg clock ms m = some p) {bind : Bool} {e : Enrollment}
    (hcmd : p.cmd = .enroll bind e) : bind = true ∧ ∃ body cert f, p.call = .register body cert ∧
      verifiedClientFingerprint cert = some f ∧ e.certFingerprint = some f ∧ f ≠ "" := by
  have hissued := (run_issued hp).1
  rw [hcmd] at hissued
  obtain ⟨body, cert, hcall, -, hbind, -, hcert, hne, -⟩ := hissued
  rw [hb, if_pos rfl] at hcert
  obtain ⟨f, hf⟩ := Option.ne_none_iff_exists'.mp (hne hb)
  exact ⟨hbind.trans hb, body, cert, f, hcall, hcert ▸ hf, hf,
    (verified_fingerprint (hcert ▸ hf)).1⟩

/-- A row that is bound stays bound to its certificate, until it is deleted. -/
theorem bound_post (hb : cfg.bindDeviceIdentity = true)
    (hp : performedAt cfg clock ms m = some p) {v : String} {row : WorkerRow}
    (hrow : p.pre.db.workers.find? v = some row) (hbound : row.Bound) :
    (∃ row', (p.post (machine cfg)).db.workers.find? v = some row' ∧
      row'.certFingerprint = row.certFingerprint) ∨ Removes p v := by
  have hc := rowChange_post cfg p v
  rw [hrow] at hc
  generalize (p.post (machine cfg)).db.workers.find? v = new at hc ⊢
  obtain ⟨f, hf, hne⟩ := hbound
  cases hc with
  | same => exact .inl ⟨row, rfl, rfl⟩
  | removed now hcmd => exact .inr ⟨now, hcmd⟩
  | enrolled bind e hcmd hv hok =>
      obtain ⟨rfl, -, -, g, -, -, hg, -⟩ := enroll_bound hb hp hcmd
      have hfg : e.certFingerprint = some f := checkBinding_bound hok hf hne
      exact .inl ⟨row.reenrolled e, rfl, (reenrolled_fingerprint hfg row).trans hf.symm⟩
  | derived tier old _ hold =>
      cases hold
      exact .inl ⟨_, rfl, derive_fingerprint tier row⟩
  | beat m req now old _ _ hold =>
      cases hold
      exact .inl ⟨_, rfl, beat_fingerprint m req now row⟩
  | granted _ _ old _ _ hold => cases hold; exact .inl ⟨_, rfl, rfl⟩
  | admitted old _ hold => cases hold; exact .inl ⟨_, rfl, rfl⟩
  | pinned tier old _ hold => cases hold; exact .inl ⟨_, rfl, rfl⟩
  | blacklisted _ _ _ old _ _ _ hold => cases hold; exact .inl ⟨_, rfl, rfl⟩

def RowsBound (w : World) : Prop := ∀ v row, w.db.workers.find? v = some row → row.Bound

theorem rowsBound_post (hb : cfg.bindDeviceIdentity = true)
    (hp : performedAt cfg clock ms m = some p) (h : RowsBound p.pre) :
    RowsBound (p.post (machine cfg)) := by
  intro v row' hrow'
  cases hrow : p.pre.db.workers.find? v with
  | some row =>
      rcases bound_post hb hp hrow (h v row hrow) with ⟨new, hnew, hsame⟩ | hremoves
      · obtain rfl : row' = new := Option.some.inj (hrow'.symm.trans hnew)
        rw [WorkerRow.Bound, hsame]
        exact h v row hrow
      · rw [removes_post hremoves] at hrow'
        cases hrow'
  | none =>
      have hc := rowChange_post cfg p v
      rw [hrow, hrow'] at hc
      generalize hnew : some row' = new at hc
      cases hc with
      | same => cases hnew
      | removed now hcmd => cases hnew
      | enrolled bind e hcmd hv hok =>
          obtain ⟨-, -, -, f, -, -, hf, hne⟩ := enroll_bound hb hp hcmd
          cases hnew
          exact ⟨f, hf, hne⟩
      | derived _ _ _ hold | granted _ _ _ _ _ hold | beat _ _ _ _ _ _ hold => cases hold
      | admitted _ _ hold | pinned _ _ _ hold | blacklisted _ _ _ _ _ _ _ hold => cases hold

end Step

theorem run_rowsBound {cfg : Config} (hb : cfg.bindDeviceIdentity = true) (clock : Time)
    (ms : List Move) : RowsBound (run cfg clock ms).state :=
  run_induction cfg clock (I := fun _ w => RowsBound w)
    (fun _ row hrow => absurd (Table.find?_eq_some.mp hrow).1 (Table.not_mem_empty row))
    (fun _ _ _ hp h => rowsBound_post hb hp h) (fun _ _ _ h => h) (fun _ _ _ _ h => h) ms

theorem performedAt_append {cfg : Config} {clock : Time} {before ms : List Move} {m : Move}
    {p : Performed}
    (h : Interleaving.performed (Interleaving.runs (machine cfg) (run cfg clock before) ms) m =
      some p) : performedAt cfg clock (before ++ ms) m = some p := by
  rw [performedAt, run, Interleaving.runs_append]
  exact h

/-- The commands performed while `later` follows `earlier`. -/
def traceSince (cfg : Config) (clock : Time) (earlier later : List Move) : List Performed :=
  Interleaving.trace (machine cfg) (run cfg clock earlier) later

/-- The fingerprint of a row does not change until the row is deleted. -/
theorem run_fingerprint_stable {cfg : Config} (hb : cfg.bindDeviceIdentity = true) {clock : Time}
    {earlier : List Move} {v : String} {row : WorkerRow}
    (hrow : (run cfg clock earlier).state.db.workers.find? v = some row) (later : List Move) :
    (∃ row', (run cfg clock (earlier ++ later)).state.db.workers.find? v = some row' ∧
      row'.certFingerprint = row.certFingerprint) ∨
    ∃ e ∈ traceSince cfg clock earlier later, Removes e v := by
  rw [run, Interleaving.runs_append]
  refine Interleaving.runs_since (M := machine cfg) (s := run cfg clock earlier)
    (J := fun w => ∃ row', w.db.workers.find? v = some row' ∧
      row'.certFingerprint = row.certFingerprint) ⟨row, hrow, rfl⟩ ?_ (fun _ _ h => h) later
  rintro ms m p hp ⟨row', hrow', hsame⟩
  have hperf := performedAt_append hp
  have hbound : row'.Bound := by
    apply run_rowsBound hb clock (earlier ++ ms) v
    rw [← hrow', Interleaving.performed_pre hperf]
  rcases bound_post hb hperf hrow' hbound with ⟨new, hnew, heq⟩ | hremoves
  · exact .inl ⟨new, hnew, heq.trans hsame⟩
  · exact .inr hremoves

theorem find?_enroll_ok {bind : Bool} {e : Enrollment} {db : Db} {answer : Bool × Option String}
    (h : (enroll bind e db).answer = .ok answer) :
    (enroll bind e db).db.workers.find? e.capability.workerId = some (enrolledRow e db) := by
  rcases enroll_cases bind e db with ⟨failure, -, heq⟩ | ⟨-, heq⟩
  · rw [heq] at h
    cases h
  · rw [heq]
    exact (Table.find?_upsert _ _ _ _ _).trans (if_pos rfl)

/-- A registration that returns a token has written it into its worker's row,
bound to the certificate it presented. -/
theorem run_token_bound {cfg : Config} (hb : cfg.bindDeviceIdentity = true) {clock : Time}
    {ms : List Move} {i : Nat} {body : Capability} {cert : Option String} {past : Past}
    {response : RegisterResponse}
    (ht : (run cfg clock ms).threads[i]? =
      some ⟨.register body cert, past, .ret (.registered response)⟩) :
    ∃ p ∈ runTrace cfg clock ms, p.thread = i ∧ ∃ row,
      (p.post (machine cfg)).db.workers.find? body.workerId = some row ∧
      row.token = response.workerToken ∧ row.certFingerprint ≠ none ∧
      row.certFingerprint = verifiedClientFingerprint cert := by
  obtain ⟨⟨e, answer, hsaw, hcap, htoken, hcert, hne⟩, hrecorded⟩ := run_ended ht
  obtain ⟨p, hp, hthread, -, hanswered⟩ := hrecorded _ _ hsaw
  rw [hb, if_pos rfl] at hcert
  obtain ⟨f, hf⟩ := Option.ne_none_iff_exists'.mp (hne hb)
  have hid : e.capability.workerId = body.workerId := by
    rw [hcap]
    unfold Capability.admitted
    split <;> rfl
  refine ⟨p, hp, hthread, enrolledRow e p.pre.db, ?_, ?_, ?_⟩
  · obtain ⟨thread, call, past', cmd, input, pre⟩ := p
    obtain rfl : cmd = .enroll cfg.bindDeviceIdentity e :=
      congrArg Interleaving.Answered.cmd hanswered
    have hanswer : (enroll cfg.bindDeviceIdentity e pre.db).answer = .ok answer :=
      eq_of_heq (Interleaving.Answered.mk.inj hanswered).2
    change (exec _ input pre).1.db.workers.find? _ = _
    rw [← hid]
    change (emitAll _ _ _).workers.find? _ = _
    rw [emitAll_workers]
    exact find?_enroll_ok hanswer
  · unfold enrolledRow
    cases p.pre.db.workers.find? e.capability.workerId <;> exact htoken
  · have hrow : (enrolledRow e p.pre.db).certFingerprint = some f := by
      unfold enrolledRow
      cases p.pre.db.workers.find? e.capability.workerId with
      | none => exact hf
      | some old => exact reenrolled_fingerprint hf old
    rw [hrow, ← hcert, hf]
    exact ⟨Option.some_ne_none f, rfl⟩

/-- A call that passes the gate presents, at that moment, the token and the
fingerprint of the row. -/
theorem gate_proves {cfg : Config} (hb : cfg.bindDeviceIdentity = true) {p : Performed}
    (hbound : RowsBound p.pre) {v : String} {auth cert : Option String} {row : WorkerRow}
    (h : PassesGate cfg p v auth cert row) :
    p.pre.db.workers.find? v = some row ∧ Proves row auth cert := by
  obtain ⟨-, -, hcheck⟩ := h
  have hrow := checkWorkerToken_row hcheck
  obtain ⟨htoken, hdevice⟩ := checkWorkerToken_ok hcheck
  obtain ⟨f, hf, hne⟩ := hbound v row hrow
  rw [hb] at hdevice
  exact ⟨hrow, htoken, f, checkDevice_bound hdevice hf hne, hf⟩

/-- What a worker call does to the store, it does after it passed the gate. -/
theorem run_gated {cfg : Config} {clock : Time} {ms : List Move} {m : Move} {p : Performed}
    (hp : performedAt cfg clock ms m = some p) {v : String} (hv : p.cmd.actsFor = some v) :
    ∃ auth cert row, ∃ q ∈ runTrace cfg clock ms, q.thread = p.thread ∧ q.call = p.call ∧
      PassesGate cfg q v auth cert row := by
  obtain ⟨hissued, hsaw⟩ := run_issued hp
  have hread : ∀ auth cert row, p.call.presents = some (v, auth, cert) →
      Admitted cfg p.past v auth cert row → ∃ q ∈ runTrace cfg clock ms, q.thread = p.thread ∧
        q.call = p.call ∧ PassesGate cfg q v auth cert row := by
    intro auth cert row hpresents hadmitted
    obtain ⟨q, hq, hthread, hcall, hanswered⟩ := hsaw _ _ hadmitted.read
    refine ⟨q, hq, hthread, hcall, by rw [hcall]; exact hpresents, ?_⟩
    obtain ⟨thread, call, past, cmd, input, pre⟩ := q
    obtain rfl : cmd = .workerRow v := congrArg Interleaving.Answered.cmd hanswered
    have hanswer : pre.db.workers.find? v = some row :=
      eq_of_heq (Interleaving.Answered.mk.inj hanswered).2
    refine ⟨rfl, ?_⟩
    change checkWorkerToken _ (pre.db.workers.find? v) _ _ = _
    rw [hanswer]
    exact hadmitted.token
  obtain ⟨thread, call, past, cmd, input, pre⟩ := p
  cases cmd with
  | assignNext w cap free =>
      obtain ⟨auth, cert, row, rfl, hpolls, -⟩ := hissued
      cases hv
      exact ⟨auth, cert, row, hread auth cert row rfl hpolls.admitted⟩
  | recordHeartbeat measurementOnly req now =>
      obtain ⟨auth, cert, row, cap, rfl, hadmitted, -⟩ := hissued
      cases hv
      exact ⟨auth, cert, row, hread auth cert row rfl hadmitted⟩
  | settle jobId req now =>
      obtain ⟨auth, cert, row, rfl, -, hadmitted, -⟩ := hissued
      cases hv
      exact ⟨auth, cert, row, hread auth cert row rfl hadmitted⟩
  | storeProfile w compact now =>
      obtain ⟨req, auth, cert, row, rfl, rfl, hadmitted, -⟩ := hissued
      cases hv
      exact ⟨auth, cert, row, hread auth cert row rfl hadmitted⟩
  | _ => cases hv

/-- A registration whose certificate is not the one the row is bound to leaves
the row alone, unless it has a tier left to store. -/
theorem register_frame {cfg : Config} (hb : cfg.bindDeviceIdentity = true) {clock : Time}
    {ms : List Move} {m : Move} {p : Performed} (hp : performedAt cfg clock ms m = some p)
    {body : Capability} {cert : Option String} (hcall : p.call = .register body cert) {v : String}
    {row : WorkerRow} (hrow : p.pre.db.workers.find? v = some row)
    (hcert : row.certFingerprint ≠ verifiedClientFingerprint cert) (hfresh : ¬ StaleTier p) :
    (p.post (machine cfg)).db.workers.find? v = some row := by
  have hissued := (run_issued hp).1
  have hbound : row.Bound := by
    apply run_rowsBound hb clock ms v
    rw [← hrow, Interleaving.performed_pre hp]
  obtain ⟨f, hf, hne⟩ := hbound
  have hc := rowChange_post cfg p v
  rw [hrow] at hc
  generalize (p.post (machine cfg)).db.workers.find? v = new at hc ⊢
  rw [hcall] at hissued
  cases hc with
  | same => rfl
  | enrolled bind e hcmd hv hok =>
      obtain ⟨rfl, body', cert', g, hcall', hg, heg, -⟩ := enroll_bound hb hp hcmd
      obtain ⟨rfl, rfl⟩ := Call.register.inj (hcall.symm.trans hcall')
      have hfg : e.certFingerprint = some f := checkBinding_bound hok hf hne
      exact absurd (hf.trans (hfg.symm.trans (heg.trans hg.symm))) hcert
  | derived tier old hcmd hold =>
      cases hold
      by_cases hpin : row.tierPinned = true
      · rw [WorkerRow.derive, if_pos hpin]
      · have htier : row.trustTier = tier := by
          by_contra hother
          exact hfresh ⟨v, tier, body, cert, row, hcmd, hcall, hrow, hcert, by simpa using hpin,
            hother⟩
        rw [WorkerRow.derive, if_neg hpin, ← htier]
  | removed now hcmd =>
      rw [hcmd] at hissued
      obtain ⟨auth, hother, -⟩ := hissued
      cases hother
  | granted cap free old hcmd _ _ =>
      rw [hcmd] at hissued
      obtain ⟨auth, cert, row, hother, -⟩ := hissued
      cases hother
  | beat measurementOnly req now old hcmd _ _ =>
      rw [hcmd] at hissued
      obtain ⟨auth, cert, row, cap, hother, -⟩ := hissued
      cases hother
  | admitted old hcmd _ =>
      rw [hcmd] at hissued
      obtain ⟨auth, hother, -⟩ := hissued
      cases hother
  | pinned tier old hcmd _ =>
      rw [hcmd] at hissued
      obtain ⟨auth, hother, -⟩ := hissued
      cases hother
  | blacklisted jobId req now old hcmd _ _ _ =>
      rw [hcmd] at hissued
      obtain ⟨auth, cert, row, hother, -⟩ := hissued
      cases hother

/-! ## Runs -/

/-- Device binding throughout a run. -/
structure DeviceBound (cfg : Config) (clock : Time) (ms : List Move) : Prop where
  fingerprinted : ∀ before after, ms = before ++ after →
    ∀ row ∈ (run cfg clock before).state.db.workers, row.certFingerprint ≠ none
  stable : ∀ earlier later after v row, ms = earlier ++ later ++ after →
    (run cfg clock earlier).state.db.workers.find? v = some row →
    (∃ row', (run cfg clock (earlier ++ later)).state.db.workers.find? v = some row' ∧
      row'.certFingerprint = row.certFingerprint) ∨
    ∃ e ∈ traceSince cfg clock earlier later, Removes e v
  tokens : ∀ before after i body cert past response, ms = before ++ after →
    (run cfg clock before).threads[i]? =
      some ⟨.register body cert, past, .ret (.registered response)⟩ →
    ∃ p ∈ runTrace cfg clock before, p.thread = i ∧ ∃ row,
      (p.post (machine cfg)).db.workers.find? body.workerId = some row ∧
      row.token = response.workerToken ∧ row.certFingerprint ≠ none ∧
      row.certFingerprint = verifiedClientFingerprint cert
  gate : ∀ p ∈ runTrace cfg clock ms, ∀ v auth cert row, PassesGate cfg p v auth cert row →
    p.pre.db.workers.find? v = some row ∧ Proves row auth cert
  gated : ∀ p ∈ runTrace cfg clock ms, ∀ v, p.cmd.actsFor = some v → ∃ auth cert row,
    ∃ q ∈ runTrace cfg clock ms, q.thread = p.thread ∧ q.call = p.call ∧
      PassesGate cfg q v auth cert row
  mismatched : ∀ p ∈ runTrace cfg clock ms, ∀ body cert v row, p.call = .register body cert →
    p.pre.db.workers.find? v = some row →
    row.certFingerprint ≠ verifiedClientFingerprint cert →
    (p.post (machine cfg)).db.workers.find? v = some row

theorem staleTier_changes (cfg : Config) {p : Performed} (h : StaleTier p) :
    ∃ body cert v row, p.call = .register body cert ∧ p.pre.db.workers.find? v = some row ∧
      row.certFingerprint ≠ verifiedClientFingerprint cert ∧
      (p.post (machine cfg)).db.workers.find? v ≠ some row := by
  obtain ⟨v, tier, body, cert, row, hcmd, hcall, hrow, hcert, hpin, htier⟩ := h
  refine ⟨body, cert, v, row, hcall, hrow, hcert, ?_⟩
  change (exec p.cmd p.input p.pre).1.db.workers.find? v ≠ some row
  rw [find?_exec, hcmd, hrow]
  simp only [rowAfter, if_true, Option.map_some, WorkerRow.derive, hpin, Bool.false_eq_true,
    if_false]
  intro heq
  exact htier (congrArg WorkerRow.trustTier (Option.some.inj heq)).symm

/-- Under binding, devices are bound throughout a run exactly if no registration
in it stores its tier in a row that has come to belong to another certificate. -/
theorem run_deviceBound_iff (cfg : Config) (hb : cfg.bindDeviceIdentity = true) (clock : Time)
    (ms : List Move) :
    (∀ p ∈ runTrace cfg clock ms, ¬ StaleTier p) ↔ DeviceBound cfg clock ms := by
  constructor
  · intro h
    refine ⟨?_, ?_, ?_, ?_, ?_, ?_⟩
    · rintro before after rfl row hrow
      obtain ⟨f, hf, -⟩ :=
        run_rowsBound hb clock before row.workerId row (Table.find?_of_mem hrow)
      rw [hf]
      exact Option.some_ne_none f
    · intro earlier later after v row _ hrow
      exact run_fingerprint_stable hb hrow later
    · intro before after i body cert past response _ ht
      exact run_token_bound hb ht
    · intro p hp v auth cert row hpass
      obtain ⟨before, m, after, rfl, hperf⟩ := Interleaving.mem_trace hp
      refine gate_proves hb ?_ hpass
      rw [Interleaving.performed_pre hperf]
      exact run_rowsBound hb clock before
    · intro p hp v hv
      obtain ⟨before, m, after, rfl, hperf⟩ := Interleaving.mem_trace hp
      obtain ⟨auth, cert, row, q, hq, hrest⟩ := run_gated hperf hv
      exact ⟨auth, cert, row, q, runTrace_mono hq _, hrest⟩
    · intro p hp body cert v row hcall hrow hcert
      have hfresh := h p hp
      obtain ⟨before, m, after, rfl, hperf⟩ := Interleaving.mem_trace hp
      exact register_frame hb hperf hcall hrow hcert hfresh
  · intro h p hp hstale
    obtain ⟨body, cert, v, row, hcall, hrow, hcert, hchanged⟩ := staleTier_changes cfg hstale
    exact hchanged (h.mismatched p hp body cert v row hcall hrow hcert)

def certificateOf (digit : Char) : Option String := some (String.ofList (List.replicate 64 digit))

def bindingConfig : Config :=
  { bindDeviceIdentity := true, attestationPubkey := some "authority", ed25519 := fun _ _ _ => true }

/-- A device that attests to its tier. -/
def attestedDevice : Capability :=
  { workerId := "w"
    attestation := some { workerId := "w", tee := true, signature := "s", issuedAt := .utc 0 } }

/-- Whether a registration is about to overwrite the tier of another device. -/
def overwritesTier (p : Performed) : Bool :=
  match p.cmd, p.call with
  | .applyDerivedTier v tier, .register _ cert =>
      (p.pre.db.workers.find? v).any fun row =>
        decide (row.certFingerprint ≠ verifiedClientFingerprint cert) && !row.tierPinned &&
          decide (row.trustTier ≠ tier)
  | _, _ => false

theorem not_staleTier {p : Performed} (h : overwritesTier p = false) : ¬ StaleTier p := by
  rintro ⟨v, tier, body, cert, row, hcmd, hcall, hrow, hcert, hpin, htier⟩
  unfold overwritesTier at h
  rw [hcmd, hcall] at h
  dsimp only at h
  rw [hrow] at h
  simp [hcert, hpin, htier] at h

/-- Two devices register, one of them attested, and one registers again. -/
def boundDevices : List Move :=
  serve 0 8 (.register attestedDevice (certificateOf 'a')) ++
    serve 1 8 (.register { workerId := "v" } (certificateOf 'b')) ++
    serve 2 8 (.register attestedDevice (certificateOf 'a'))

set_option maxRecDepth 20000 in
theorem run_deviceBound_iff_registered : DeviceBound bindingConfig 0 boundDevices ∧
    ∃ row, (run bindingConfig 0 boundDevices).state.db.workers.find? "w" = some row ∧
      row.certFingerprint = certificateOf 'a' ∧ row.trustTier = "confidential_compute" := by
  refine ⟨(run_deviceBound_iff bindingConfig rfl 0 boundDevices).mp fun p hp => ?_, ?_⟩
  · have hcheck : (runTrace bindingConfig 0 boundDevices).all (fun p => !overwritesTier p) = true := by
      decide +kernel
    exact not_staleTier (Bool.not_eq_true' _ ▸ List.all_eq_true.mp hcheck p hp)
  · have hrow : ((run bindingConfig 0 boundDevices).state.db.workers.find? "w").map
        (fun row => (row.certFingerprint, row.trustTier)) =
          some (certificateOf 'a', "confidential_compute") := by
      decide +kernel
    obtain ⟨row, hfound, heq⟩ := Option.map_eq_some_iff.mp hrow
    exact ⟨row, hfound, (Prod.mk.inj heq).1, (Prod.mk.inj heq).2⟩

/-- The attested device is removed and its identifier enrolled from another
certificate, before its registration stores the tier. -/
def staleTier : List Move :=
  [.spawn (.register attestedDevice (certificateOf 'a')), .run 0 0, .run 0 1, .run 0 2, .run 0 3, .run 0 4] ++
  serve 1 4 (.disconnectWorker "w" none) ++
  serve 2 4 (.register { workerId := "w" } (certificateOf 'b'))

/-- The command is one of a registration that presented this certificate. -/
def registersWith (cert : Option String) (p : Performed) : Bool :=
  match p.call with
  | .register _ presented => decide (presented = cert)
  | _ => false

set_option maxRecDepth 20000 in
/-- The row bound to the second certificate takes the tier of the first device. -/
theorem staleTier_changes_row :
    (performedAt bindingConfig 0 staleTier (.run 0 5)).any (registersWith (certificateOf 'a')) ∧
    ((run bindingConfig 0 staleTier).state.db.workers.find? "w").map
        (fun row => (row.certFingerprint, row.trustTier)) =
      some (certificateOf 'b', "untrusted") ∧
    ((run bindingConfig 0 (staleTier ++ [.run 0 5])).state.db.workers.find? "w").map
        (fun row => (row.certFingerprint, row.trustTier)) =
      some (certificateOf 'b', "confidential_compute") := by
  decide +kernel

end OneCompute
