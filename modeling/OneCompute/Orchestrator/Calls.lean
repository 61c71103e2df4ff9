import OneCompute.Orchestrator.Transitions

/-!
What each call may do: under which circumstances it issues a command that changes
the store, given what it read before, and how it can end.
-/

namespace OneCompute
open Interleaving (Prog)
open Interleaving.Prog (perform Sat sat_mono sat_bind sat_perform sat_perform_bind sat_ofExcept sat_mapError sat_pure)

abbrev Past := Interleaving.Past Cmd Ret

/-- The call performed `c` and was answered `r`. -/
def Saw (past : Past) (c : Cmd) (r : Ret c) : Prop :=
  (⟨c, r⟩ : Interleaving.Answered Cmd Ret) ∈ past

theorem Saw.later {past later : Past} {c : Cmd} {r : Ret c} (h : Saw past c r)
    (hl : past <:+ later) : Saw later c r :=
  hl.subset h

theorem saw_now {past : Past} {c : Cmd} {r : Ret c} : Saw (⟨c, r⟩ :: past) c r :=
  List.mem_cons_self

/-- The call passes the gate of device administration. -/
def AdminAdmits (cfg : Config) (authorization : Option String) : Prop :=
  cfg.effectiveAdminToken = "" ∨
    checkBearer "admin" cfg.effectiveAdminToken "invalid admin token" authorization = .ok ()

/-- The call read this row and passed the worker gate with it. -/
structure Admitted (cfg : Config) (past : Past) (w : String)
    (authorization certificate : Option String) (row : WorkerRow) : Prop where
  read : Saw past (.workerRow w) (some row)
  token : checkWorkerToken cfg.bindDeviceIdentity (some row) authorization
    (verifiedClientFingerprint certificate) = .ok row
  worker : row.workerId = w ∧ row.capabilityJson.workerId = w

theorem Admitted.later {cfg : Config} {past later : Past} {w : String} {auth cert : Option String}
    {row : WorkerRow} (h : Admitted cfg past w auth cert row) (hl : past <:+ later) :
    Admitted cfg later w auth cert row :=
  ⟨h.read.later hl, h.token, h.worker⟩

/-- A poll that gets as far as asking for a job, with the snapshot it took. -/
structure Polls (cfg : Config) (past : Past) (w : String) (auth cert : Option String)
    (row : WorkerRow) (cap : Capability) : Prop where
  admitted : Admitted cfg past w auth cert row
  standing : row.blacklisted = false
  approved : row.approved = true
  capability : row.capabilityJson.reload? = some cap
  working : cap.measurementOnly = false

theorem Polls.later {cfg : Config} {past later : Past} {w : String} {auth cert : Option String}
    {row : WorkerRow} {cap : Capability} (h : Polls cfg past w auth cert row cap)
    (hl : past <:+ later) : Polls cfg later w auth cert row cap :=
  ⟨h.admitted.later hl, h.standing, h.approved, h.capability, h.working⟩

/-- The request passes the checks of the routing gateway for this tenant: the
caller presents its token, and it may route the classification to the region. -/
structure TenantAdmits (cfg : Config) (req : FoundryRoutingRequest)
    (authorization : Option String) (tenant : FoundryTenant) : Prop where
  registered : cfg.foundryTenants.find? (fun p => p.1 == req.tenantId) = some (req.tenantId, tenant)
  token : checkBearer "foundry" tenant.token "invalid tenant token" authorization = .ok ()
  cleared : classificationCleared req.dataClassification.text tenant.maxClassification.text = true
  region : req.region ∈ tenant.allowedRegions

/-- The jobs a call may enqueue. Provenance is stamped by the routing gateway only,
for a tenant that admits the request. -/
def Enqueues (cfg : Config) : Call → Submission → Prop
  | .submit _ _, s | .launchWorkload _ _, s => s.manifest.provenance = none
  | .foundryRoute req auth, s => ∃ tenant, TenantAdmits cfg req auth tenant ∧
      s.manifest.provenance = some ⟨tenant.tenantId, req.region⟩ ∧
      s.manifest.dataClassification = req.dataClassification
  | _, _ => False

/-- The manifest names the stored input by its hash and does not expire. -/
structure Sealed (s : Submission) : Prop where
  hash : s.manifest.inputSha256 = sha256Hex (.obj s.input)
  lasting : s.manifest.expiresAt = none

/-- The circumstances in which a call issues a command. -/
def Issued (cfg : Config) (call : Call) (past : Past) : Cmd → Prop
  | .enroll bind e => ∃ body cert, call = .register body cert ∧ e.capability = body.admitted ∧
      bind = cfg.bindDeviceIdentity ∧ e.approved = !cfg.requireApproval ∧
      e.certFingerprint = (if cfg.bindDeviceIdentity then verifiedClientFingerprint cert else none) ∧
      (cfg.bindDeviceIdentity = true → e.certFingerprint ≠ none) ∧ Saw past .uuid4 e.token ∧
      (e.deviceCode = none ↔ cfg.requireApproval = false)
  | .applyDerivedTier w tier => ∃ body cert att now, call = .register body cert ∧
      body.admitted.workerId = w ∧ body.admitted.attestation = some att ∧ Saw past .now now ∧
      verifyAttestation cfg.ed25519 att cfg.attestationPubkey w now = true ∧ tier = deriveTier att
  | .insertJob s => 0 < s.units ∧ Sealed s ∧ Enqueues cfg call s
  | .assignNext w cap free => ∃ auth cert row, call = .jobsNext w auth cert ∧
      Polls cfg past w auth cert row cap ∧ free = row.freeRamGb
  | .recordHeartbeat m req now => ∃ auth cert row cap, call = .heartbeat req auth cert ∧
      Admitted cfg past req.workerId auth cert row ∧ row.capabilityJson.reload? = some cap ∧
      m = cap.measurementOnly ∧ Saw past .now now
  | .approveWorker w => ∃ auth, call = .approve w auth ∧ AdminAdmits cfg auth
  | .assignTier w tier => ∃ auth, call = .setTier w tier auth ∧ AdminAdmits cfg auth ∧
      isValidTier tier = true
  | .removeWorker w now => ∃ auth, call = .disconnectWorker w auth ∧ AdminAdmits cfg auth ∧
      Saw past .now now
  | .settle jobId req now => ∃ auth cert row, call = .results jobId req auth cert ∧
      req.jobId = jobId ∧ Admitted cfg past req.workerId auth cert row ∧ row.blacklisted = false ∧
      Saw past .now now
  | .storeProfile w compact now => ∃ req auth cert row, call = .ingestProfile req auth cert ∧
      req.workerId = w ∧ Admitted cfg past w auth cert row ∧ row.approved = true ∧
      sanitizeProfileReport PyNumber.binary64 req = .ok compact ∧ Saw past .now now
  | _ => True

/-- What holds of the answers: a worker row is the row that was asked for. -/
def Truthful : (c : Cmd) → Ret c → Prop
  | .workerRow w, some row => row.workerId = w ∧ row.capabilityJson.workerId = w
  | _, _ => True

/-- How a poll ends without a job. -/
def PollEnded (cfg : Config) (past : Past) (w : String) (auth cert : Option String) : Prop :=
  ∃ row, Admitted cfg past w auth cert row ∧
    (row.blacklisted = true ∨ row.approved = false ∨
      (∃ cap, row.capabilityJson.reload? = some cap ∧ cap.measurementOnly = true) ∨
      ∃ cap poll, Polls cfg past w auth cert row cap ∧
        Saw past (.assignNext w cap row.freeRamGb) poll ∧ ∀ job, poll ≠ .granted job)

theorem Polls.ended {cfg : Config} {past : Past} {w : String} {auth cert : Option String}
    {row : WorkerRow} {cap : Capability} (h : Polls cfg past w auth cert row cap) (poll : Poll)
    (hpoll : ∀ job, poll ≠ .granted job) :
    PollEnded cfg (⟨.assignNext w cap row.freeRamGb, poll⟩ :: ⟨.reapExpired, ()⟩ :: past) w auth
      cert := by
  have hlater := h.later (List.suffix_append
    [⟨.assignNext w cap row.freeRamGb, poll⟩, (⟨.reapExpired, ()⟩ : Interleaving.Answered Cmd Ret)]
    past)
  exact ⟨row, hlater.admitted, .inr (.inr (.inr ⟨cap, poll, hlater, saw_now, hpoll⟩))⟩

/-- A registration that answers with this token has stored it, with the
fingerprint of the certificate it presented. -/
def RegistrationEnded (cfg : Config) (past : Past) (body : Capability) (cert : Option String)
    (response : RegisterResponse) : Prop :=
  ∃ e answer, Saw past (.enroll cfg.bindDeviceIdentity e) (.ok answer) ∧
    e.capability = body.admitted ∧ e.token = response.workerToken ∧
    e.certFingerprint = (if cfg.bindDeviceIdentity then verifiedClientFingerprint cert else none) ∧
    (cfg.bindDeviceIdentity = true → e.certFingerprint ≠ none)

/-- How a call can end. -/
def Ended (cfg : Config) (past : Past) : Call → Reply → Prop
  | .register body cert, .registered response => RegistrationEnded cfg past body cert response
  | .jobsNext w auth cert, .noContent => PollEnded cfg past w auth cert
  | .jobsNext w auth cert, .assignment response => ∃ row cap job,
      Polls cfg past w auth cert row cap ∧
      Saw past (.assignNext w cap row.freeRamGb) (.granted job) ∧
      response = { signedManifest := signManifest cfg job.manifestJson, input := job.inputJson }
  | .heartbeat req auth cert, reply => ∃ row, Admitted cfg past req.workerId auth cert row ∧
      reply = .heartbeat { approved := row.approved }
  | .ingestProfile req auth cert, reply => ∃ row compact,
      Admitted cfg past req.workerId auth cert row ∧ row.approved = true ∧
      sanitizeProfileReport PyNumber.binary64 req = .ok compact ∧
      reply = .profile { coverageBuckets := compact.coverageBuckets }
  | .results jobId req _ _, .result response =>
      (∃ row, Saw past (.workerRow req.workerId) (some row) ∧ row.blacklisted = true ∧
        response = refused "blacklisted") ∨
      ∃ now, Saw past (.settle jobId req now) (.ok response)
  | _, _ => True

abbrev Keeps (cfg : Config) (call : Call) (past : Past) {A : Type} (p : Handler A)
    (post : Past → A → Prop) : Prop :=
  p.Sat (Issued cfg call) Truthful past post

section Gates
variable {cfg : Config} {call : Call} {past : Past}

theorem keeps_emitEvent {type : String} {w j d : Option String} :
    Keeps cfg call past (emitEvent type w j d) (fun _ _ => True) :=
  sat_perform trivial (fun _ _ => trivial)

theorem keeps_refuse {A : Type} {w : Option String} {r : Refusal} {post : Past → A → Prop} :
    Keeps cfg call past (refuse w r) post := by
  unfold refuse
  split
  · trivial
  · exact sat_bind keeps_emitEvent (fun _ _ _ _ => trivial)

theorem keeps_requireBearer {label expected invalid : String} {auth : Option String} :
    Keeps cfg call past (requireBearer label expected invalid auth)
      (fun _ _ => checkBearer label expected invalid auth = .ok ()) := by
  unfold requireBearer
  split
  next h => exact h
  next => exact keeps_refuse

theorem keeps_requireSubmitToken {auth : Option String} :
    Keeps cfg call past (requireSubmitToken cfg auth) (fun _ _ => True) := by
  unfold requireSubmitToken
  split
  · trivial
  · exact sat_mono keeps_requireBearer (fun _ _ _ _ => trivial)

theorem keeps_requireAdminToken {auth : Option String} :
    Keeps cfg call past (requireAdminToken cfg auth) (fun _ _ => AdminAdmits cfg auth) := by
  unfold requireAdminToken
  split
  next h => exact .inl h
  next => exact sat_mono keeps_requireBearer (fun _ _ _ h => .inr h)

theorem keeps_authenticateFoundryTenant {tenantId : String} {auth : Option String} :
    Keeps cfg call past (authenticateFoundryTenant cfg tenantId auth) (fun _ tenant =>
      cfg.foundryTenants.find? (fun p => p.1 == tenantId) = some (tenantId, tenant) ∧
        checkBearer "foundry" tenant.token "invalid tenant token" auth = .ok ()) := by
  unfold authenticateFoundryTenant
  split
  · exact keeps_refuse
  · split
    next => exact keeps_refuse
    next tenant htenant =>
      obtain ⟨⟨key, found⟩, hfind, hfound⟩ := Option.map_eq_some_iff.mp htenant
      have hkey : key = tenantId := by simpa using List.find?_some hfind
      subst hkey
      subst hfound
      exact sat_bind keeps_requireBearer (fun _ _ _ hbearer => ⟨hfind, hbearer⟩)

theorem keeps_ofExcept {A : Type} {x : Except Failure A} :
    Keeps cfg call past (Prog.ofExcept x) (fun _ _ => True) :=
  sat_ofExcept (fun _ _ => trivial)

theorem keeps_requireParsed {body : Dict} :
    Keeps cfg call past (requireParsed body) (fun _ _ => True) := by
  unfold requireParsed
  split <;> trivial

theorem checkDevice_row {bind : Bool} {row r : WorkerRow} {presented : Option String}
    (h : checkDevice bind row presented = .ok r) : r = row := by
  unfold checkDevice at h
  dsimp only at h
  split at h
  · split at h
    · cases h
    · split at h
      · cases h
        rfl
      · cases h
      · cases h
  · cases h
    rfl

theorem checkWorkerToken_row {bind : Bool} {worker : Option WorkerRow}
    {auth presented : Option String} {row : WorkerRow}
    (h : checkWorkerToken bind worker auth presented = .ok row) : worker = some row := by
  unfold checkWorkerToken at h
  dsimp only at h
  split at h
  · cases h
  · split at h
    · split at h
      · cases h
      · split at h
        · cases h
        · exact congrArg some (checkDevice_row h).symm
        · cases h
    · cases h

theorem keeps_requireWorkerToken {w : String} {auth cert : Option String} :
    Keeps cfg call past (requireWorkerToken cfg w auth cert)
      (fun past row => Admitted cfg past w auth cert row) := by
  unfold requireWorkerToken
  apply sat_perform_bind trivial
  intro worker htruth
  split
  next row hrow =>
    have hworker : worker = some row := checkWorkerToken_row hrow
    subst hworker
    exact ⟨saw_now, hrow, htruth⟩
  next => exact keeps_refuse

theorem keeps_workerOr404 {w : String} :
    Keeps cfg call past (workerOr404 w) (fun _ _ => True) := by
  unfold workerOr404
  apply sat_perform_bind trivial
  intro worker _
  cases worker <;> trivial

theorem keeps_requireOperatorReadToken {auth : Option String} :
    Keeps cfg call past (requireOperatorReadToken cfg auth) (fun _ _ => True) := by
  unfold requireOperatorReadToken
  split
  · trivial
  · exact sat_mono keeps_requireAdminToken (fun _ _ _ _ => trivial)

end Gates

/-! ## Handlers -/

section Handlers
variable {cfg : Config} {past : Past}

theorem keeps_requireEncodes {call : Call} {input : Dict} :
    Keeps cfg call past (requireEncodes cfg input) (fun _ _ => True) := by
  unfold requireEncodes
  split
  · trivial
  · trivial

theorem keeps_submitJob (call : Call) {req : SubmitRequest} {workloadId : Option String}
    {provenance : Option RoutingProvenance}
    (henqueues : ∀ s : Submission, s.manifest.provenance = provenance →
      s.manifest.dataClassification = req.dataClassification → Enqueues cfg call s) :
    Keeps cfg call past (submitJob cfg req workloadId provenance) (fun _ _ => True) := by
  unfold submitJob
  split
  · trivial
  next hunits =>
    apply sat_perform_bind trivial
    intro jobId _
    apply sat_bind keeps_requireEncodes
    intro _ _ _ _
    apply sat_perform_bind trivial
    intro issuedAt _
    apply sat_perform_bind trivial
    intro now _
    apply sat_perform_bind ⟨show 0 < req.units by omega, ⟨rfl, rfl⟩, henqueues _ rfl rfl⟩
    intro stored _
    exact sat_bind keeps_ofExcept (fun _ _ _ _ => trivial)

theorem keeps_submit {req : SubmitRequest} {auth : Option String} :
    Keeps cfg (.submit req auth) past (submit cfg req auth) (fun _ _ => True) := by
  apply sat_bind keeps_requireParsed
  intro _ _ _ _
  apply sat_bind keeps_requireSubmitToken
  intro _ _ _ _
  apply sat_bind (sat_mapError (keeps_submitJob (.submit req auth) (fun _ hp _ => hp)))
  intro _ jobId _ _
  exact sat_bind keeps_emitEvent (fun _ _ _ _ => trivial)

theorem keeps_foundryRoute {req : FoundryRoutingRequest} {auth : Option String} :
    Keeps cfg (.foundryRoute req auth) past (foundryRoute cfg req auth) (fun _ _ => True) := by
  apply sat_bind keeps_requireParsed
  intro _ _ _ _
  apply sat_bind keeps_authenticateFoundryTenant
  intro _ tenant _ htenant
  dsimp only
  split
  next => exact sat_bind keeps_emitEvent (fun _ _ _ _ => trivial)
  next hcleared =>
    split
    next => exact sat_bind keeps_emitEvent (fun _ _ _ _ => trivial)
    next hregion =>
      have hadmits : TenantAdmits cfg req auth tenant :=
        ⟨htenant.1, htenant.2, by simpa using hcleared, by simpa using hregion⟩
      apply sat_bind (sat_mapError (keeps_submitJob (.foundryRoute req auth)
        (fun _ hprovenance hclass => ⟨tenant, hadmits, hprovenance, hclass⟩)))
      intro _ jobId _ _
      exact sat_bind keeps_emitEvent (fun _ _ _ _ => trivial)

theorem keeps_resolveTileCount {call : Call} {req : WorkloadLaunchRequest} :
    Keeps cfg call past (resolveTileCount req) (fun _ _ => True) := by
  unfold resolveTileCount
  split
  · trivial
  · split
    · exact sat_perform_bind trivial (fun _ _ => trivial)
    · trivial

theorem keeps_launchTiles {req : WorkloadLaunchRequest} {auth : Option String}
    {kind workloadId : String} {specs : List (Except String SubmitRequest)} :
    Keeps cfg (.launchWorkload req auth) past (launchTiles cfg kind workloadId specs)
      (fun _ _ => True) := by
  induction specs generalizing past with
  | nil => trivial
  | cons spec rest ih =>
      cases spec with
      | error text => trivial
      | ok sub =>
          apply sat_bind (keeps_submitJob (.launchWorkload req auth) (fun _ hp _ => hp))
          intro _ jobId _ _
          apply sat_bind keeps_emitEvent
          intro _ _ _ _
          exact sat_bind ih (fun _ _ _ _ => trivial)

theorem keeps_launchWorkload {req : WorkloadLaunchRequest} {auth : Option String} :
    Keeps cfg (.launchWorkload req auth) past (launchWorkload cfg req auth) (fun _ _ => True) := by
  apply sat_bind keeps_requireParsed
  intro _ _ _ _
  apply sat_bind keeps_requireSubmitToken
  intro _ _ _ _
  split
  · trivial
  · apply sat_bind keeps_resolveTileCount
    intro _ nTiles _ _
    apply sat_perform_bind trivial
    intro workers _
    apply sat_bind (sat_mapError keeps_ofExcept)
    intro _ specs _ _
    apply sat_perform_bind trivial
    intro workloadId _
    exact sat_bind keeps_launchTiles (fun _ _ _ _ => trivial)

theorem keeps_freshDeviceCode {call : Call} :
    Keeps cfg call past (freshDeviceCode cfg)
      (fun _ code => code = none ↔ cfg.requireApproval = false) := by
  unfold freshDeviceCode
  split
  next happroval =>
    apply sat_perform_bind trivial
    intro raw _
    exact sat_pure (by simp [happroval])
  next happroval => exact sat_pure (by simpa using happroval)

theorem keeps_deriveRegisteredTier {body : Capability} {cert : Option String} :
    Keeps cfg (.register body cert) past (deriveRegisteredTier cfg body.admitted)
      (fun _ _ => True) := by
  unfold deriveRegisteredTier
  split
  next => trivial
  next att hatt =>
    split
    next => trivial
    next =>
      apply sat_perform_bind trivial
      intro now _
      split
      next hverified =>
        apply sat_perform_bind ⟨body, cert, att, now, rfl, rfl, hatt, saw_now, hverified, rfl⟩
        intro applied _
        split
        · exact keeps_emitEvent
        · trivial
      next => trivial

theorem keeps_register {body : Capability} {cert : Option String} :
    Keeps cfg (.register body cert) past (register cfg body cert)
      (fun past reply => Ended cfg past (.register body cert) reply) := by
  unfold register
  dsimp only
  split
  · trivial
  next hcert =>
    apply sat_perform_bind trivial
    intro token _
    apply sat_perform_bind trivial
    intro now _
    apply sat_bind keeps_freshDeviceCode
    intro past' deviceCode hpast hcode
    have htoken : Saw past' .uuid4 token := Saw.later (List.mem_cons_of_mem _ saw_now) hpast
    have hbound : cfg.bindDeviceIdentity = true →
        (if cfg.bindDeviceIdentity then verifiedClientFingerprint cert else none) ≠ none := by
      intro hb
      simpa [hb] using hcert
    apply sat_perform_bind ⟨body, cert, rfl, rfl, rfl, rfl, rfl, hbound, htoken, hcode⟩
    intro stored _
    cases stored with
    | error failure => trivial
    | ok answer =>
        apply sat_bind keeps_emitEvent
        intro _ _ hemit _
        apply sat_bind keeps_deriveRegisteredTier
        intro _ _ hderive _
        exact sat_pure ⟨_, answer, (saw_now.later hemit).later hderive, rfl, rfl, rfl, hbound⟩

theorem keeps_jobsNext {w : String} {auth cert : Option String} :
    Keeps cfg (.jobsNext w auth cert) past (jobsNext cfg w auth cert)
      (fun past reply => Ended cfg past (.jobsNext w auth cert) reply) := by
  apply sat_bind keeps_requireWorkerToken
  intro past' row _ hrow
  split
  next hblack => exact ⟨row, hrow, .inl hblack⟩
  next hblack =>
    split
    next happroved => exact ⟨row, hrow, .inr (.inl (by simpa using happroved))⟩
    next happroved =>
      apply sat_perform_bind trivial
      intro _ _
      split
      next => trivial
      next cap hcap =>
        split
        next hmeasure =>
          exact ⟨row, hrow.later (List.suffix_cons _ _), .inr (.inr (.inl ⟨cap, hcap, hmeasure⟩))⟩
        next hmeasure =>
          have hpolls : Polls cfg past' w auth cert row cap :=
            ⟨hrow, by simpa using hblack, by simpa using happroved, hcap, by simpa using hmeasure⟩
          apply sat_perform_bind
            ⟨auth, cert, row, rfl, hpolls.later (List.suffix_cons _ _), rfl⟩
          intro poll _
          split
          next job _ =>
            apply sat_bind keeps_emitEvent
            intro _ _ hemit _
            have hlater := hpolls.later (List.suffix_append
              [⟨.assignNext w cap row.freeRamGb, .granted job⟩,
                (⟨.reapExpired, ()⟩ : Interleaving.Answered Cmd Ret)] past')
            exact sat_pure ⟨row, cap, job, hlater.later hemit, saw_now.later hemit, rfl⟩
          next hgranted => exact sat_pure (hpolls.ended poll hgranted)

theorem keeps_heartbeat {req : HeartbeatRequest} {auth cert : Option String} :
    Keeps cfg (.heartbeat req auth cert) past (heartbeat cfg req auth cert)
      (fun past reply => Ended cfg past (.heartbeat req auth cert) reply) := by
  apply sat_bind keeps_requireWorkerToken
  intro past' row _ hrow
  split
  next => trivial
  next cap hcap =>
    apply sat_perform_bind trivial
    intro now _
    apply sat_perform_bind
      ⟨auth, cert, row, cap, rfl, hrow.later (List.suffix_cons _ _), hcap, rfl, saw_now⟩
    intro _ _
    exact sat_pure ⟨row, hrow.later ((List.suffix_cons _ _).trans (List.suffix_cons _ _)), rfl⟩

theorem keeps_results {jobId : String} {req : ResultRequest} {auth cert : Option String} :
    Keeps cfg (.results jobId req auth cert) past (results cfg jobId req auth cert)
      (fun past reply => Ended cfg past (.results jobId req auth cert) reply) := by
  apply sat_bind keeps_requireParsed
  intro _ _ _ _
  split
  next => trivial
  next hid =>
    apply sat_bind keeps_requireWorkerToken
    intro past' row _ hrow
    split
    next hblack => exact .inl ⟨row, hrow.read, hblack, rfl⟩
    next hblack =>
      apply sat_perform_bind trivial
      intro now _
      apply sat_perform_bind ⟨auth, cert, row, rfl, by simpa using hid,
        hrow.later (List.suffix_cons _ _), by simpa using hblack, saw_now⟩
      intro settled _
      cases settled with
      | error failure => trivial
      | ok response => exact .inr ⟨now, saw_now⟩

theorem keeps_approve {w : String} {auth : Option String} :
    Keeps cfg (.approve w auth) past (approve cfg w auth) (fun _ _ => True) := by
  apply sat_bind keeps_requireAdminToken
  intro _ _ _ hadmin
  apply sat_bind keeps_workerOr404
  intro _ row _ _
  apply sat_perform_bind ⟨auth, rfl, hadmin⟩
  intro _ _
  exact sat_bind keeps_emitEvent (fun _ _ _ _ => trivial)

theorem keeps_setTier {w tier : String} {auth : Option String} :
    Keeps cfg (.setTier w tier auth) past (setTier cfg w tier auth) (fun _ _ => True) := by
  apply sat_bind keeps_requireAdminToken
  intro _ _ _ hadmin
  apply sat_bind keeps_workerOr404
  intro _ row _ _
  split
  next => trivial
  next hvalid =>
    apply sat_perform_bind ⟨auth, rfl, hadmin, by simpa using hvalid⟩
    intro _ _
    exact sat_bind keeps_emitEvent (fun _ _ _ _ => trivial)

theorem keeps_disconnectWorker {w : String} {auth : Option String} :
    Keeps cfg (.disconnectWorker w auth) past (disconnectWorker cfg w auth) (fun _ _ => True) := by
  apply sat_bind keeps_requireAdminToken
  intro _ _ _ hadmin
  apply sat_bind keeps_workerOr404
  intro _ row _ _
  apply sat_perform_bind trivial
  intro now _
  apply sat_perform_bind ⟨auth, rfl, hadmin, saw_now⟩
  intro _ _
  exact sat_bind keeps_emitEvent (fun _ _ _ _ => trivial)

theorem keeps_ingestProfile {req : ProfileReport} {auth cert : Option String} :
    Keeps cfg (.ingestProfile req auth cert) past (ingestProfile cfg req auth cert)
      (fun past reply => Ended cfg past (.ingestProfile req auth cert) reply) := by
  apply sat_bind keeps_requireWorkerToken
  intro past' row _ hrow
  split
  next => trivial
  next happroved =>
    split
    next => trivial
    next compact hcompact =>
      apply sat_perform_bind trivial
      intro now _
      apply sat_perform_bind ⟨req, auth, cert, row, rfl, rfl, hrow.later (List.suffix_cons _ _),
        by simpa using happroved, hcompact, saw_now⟩
      intro _ _
      exact sat_pure ⟨row, compact, hrow.later ((List.suffix_cons _ _).trans (List.suffix_cons _ _)),
        by simpa using happroved, hcompact, rfl⟩

theorem keeps_measurement {auth : Option String} :
    Keeps cfg (.measurement auth) past (measurement cfg auth) (fun _ _ => True) := by
  apply sat_bind keeps_requireOperatorReadToken
  intro _ _ _ _
  apply sat_perform_bind trivial
  intro db _
  split <;> trivial

theorem keeps_queries {call : Call} (n : Nat) :
    Keeps cfg call past (queries n) (fun _ _ => True) := by
  induction n generalizing past with
  | zero => trivial
  | succ n ih =>
      apply sat_perform_bind trivial
      intro db _
      exact sat_bind ih (fun _ _ _ _ => trivial)

theorem keeps_operatorRead {n : Nat} {auth : Option String} :
    Keeps cfg (.operatorRead n auth) past (operatorRead cfg n auth) (fun _ _ => True) := by
  apply sat_bind keeps_requireOperatorReadToken
  intro _ _ _ _
  exact sat_bind (keeps_queries n) (fun _ _ _ _ => trivial)

theorem keeps_handle (call : Call) :
    Keeps cfg call past (handle cfg call) (fun past reply => Ended cfg past call reply) := by
  cases call with
  | register body cert => exact keeps_register
  | submit req auth => exact sat_mono keeps_submit (fun _ _ _ _ => trivial)
  | foundryRoute req auth => exact sat_mono keeps_foundryRoute (fun _ _ _ _ => trivial)
  | launchWorkload req auth => exact sat_mono keeps_launchWorkload (fun _ _ _ _ => trivial)
  | jobsNext w auth cert => exact keeps_jobsNext
  | heartbeat req auth cert => exact keeps_heartbeat
  | results jobId req auth cert => exact keeps_results
  | approve w auth => exact sat_mono keeps_approve (fun _ _ _ _ => trivial)
  | setTier w tier auth => exact sat_mono keeps_setTier (fun _ _ _ _ => trivial)
  | disconnectWorker w auth => exact sat_mono keeps_disconnectWorker (fun _ _ _ _ => trivial)
  | ingestProfile req auth cert => exact keeps_ingestProfile
  | measurement auth => exact sat_mono keeps_measurement (fun _ _ _ _ => trivial)
  | operatorRead n auth => exact sat_mono keeps_operatorRead (fun _ _ _ _ => trivial)

end Handlers
end OneCompute
