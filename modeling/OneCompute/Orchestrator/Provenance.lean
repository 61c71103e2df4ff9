import OneCompute.Orchestrator.JobRows

/-!
Provenance in a stored manifest was stamped by the routing gateway, for a tenant
whose token the caller presented and which may route such data to the region.
-/

namespace OneCompute

/-- Sensitivity, from the lowest. -/
def DataClassification.rank : DataClassification → Nat
  | .public => 0
  | .internal => 1
  | .confidential => 2
  | .restricted => 3

/-- The request names a registered tenant, presents its token, and stays within
its clearance and its regions. -/
structure Clears (cfg : Config) (req : FoundryRoutingRequest) (authorization : Option String)
    (tenant : FoundryTenant) : Prop where
  registered : cfg.foundryTenants.find? (fun t => t.1 == req.tenantId) = some (req.tenantId, tenant)
  token : ∃ header, authorization = some header ∧ PyText.startsWith header "Bearer " = true ∧
    bearerToken header = tenant.token
  classification : req.dataClassification.rank ≤ tenant.maxClassification.rank
  region : req.region ∈ tenant.allowedRegions

/-- The call routes this manifest for a tenant, whose name and region it carries. -/
def RoutedBy (cfg : Config) (call : Call) (m : JobManifest) (p : RoutingProvenance) : Prop :=
  ∃ req auth tenant, call = .foundryRoute req auth ∧ Clears cfg req auth tenant ∧
    p = ⟨tenant.tenantId, req.region⟩ ∧ m.dataClassification = req.dataClassification

/-- The command adds no job to the table. -/
def EnqueuesNothing (cfg : Config) (p : Performed) : Prop :=
  ∀ j' ∈ (p.post (machine cfg)).db.jobs, ∃ j ∈ p.pre.db.jobs, j.jobId = j'.jobId ∧
    j.submission = j'.submission

theorem rank_le_of_cleared {requested ceiling : DataClassification}
    (h : classificationCleared requested.text ceiling.text = true) :
    requested.rank ≤ ceiling.rank := by
  revert h
  cases requested <;> cases ceiling <;> decide

theorem checkBearer_token {label expected invalid : String} {authorization : Option String}
    (h : checkBearer label expected invalid authorization = .ok ()) :
    ∃ header, authorization = some header ∧ PyText.startsWith header "Bearer " = true ∧
      bearerToken header = expected := by
  cases authorization with
  | none => simp [checkBearer] at h
  | some header =>
      simp only [checkBearer, Option.getD_some] at h
      split at h
      next => cases h
      next =>
        split at h
        next hscheme =>
          split at h
          next => cases h
          next =>
            split at h
            next hcompare => exact ⟨header, rfl, hscheme, PyText.eq_of_compareDigest hcompare⟩
            next => cases h
            next => cases h
        next => cases h

theorem TenantAdmits.clears {cfg : Config} {req : FoundryRoutingRequest} {auth : Option String}
    {tenant : FoundryTenant} (h : TenantAdmits cfg req auth tenant) : Clears cfg req auth tenant :=
  ⟨h.registered, checkBearer_token h.token, rank_le_of_cleared h.cleared, h.region⟩

/-- A job that is there after a command was there before, or its call enqueued it. -/
theorem enqueued_post {cfg : Config} {clock : Time} {ms : List Move} {m : Move} {p : Performed}
    (hp : performedAt cfg clock ms m = some p) {j' : JobRow}
    (hj' : j' ∈ (p.post (machine cfg)).db.jobs) :
    (∃ j ∈ p.pre.db.jobs, j.jobId = j'.jobId ∧ j.submission = j'.submission) ∨
      Enqueues cfg p.call j'.submission := by
  cases job_exec hj' with
  | kept j hj hid hs _ => exact .inl ⟨j, hj, hid, hs⟩
  | inserted s hcmd hnew =>
      have hissued := (run_issued hp).1
      rw [hcmd] at hissued
      subst hnew
      exact .inr hissued.2.2

theorem provenance_enqueued {cfg : Config} {call : Call} {s : Submission} {p : RoutingProvenance}
    (h : Enqueues cfg call s) (hp : s.manifest.provenance = some p) :
    RoutedBy cfg call s.manifest p := by
  cases call with
  | foundryRoute req auth =>
      obtain ⟨tenant, hadmits, hprovenance, hclass⟩ := h
      exact ⟨req, auth, tenant, rfl, hadmits.clears, Option.some.inj (hp.symm.trans hprovenance),
        hclass⟩
  | submit _ _ | launchWorkload _ _ => cases hp.symm.trans h
  | _ => exact h.elim

/-- Provenance is honest: a stored manifest carries it only when the gateway
routed the job for a tenant that the request clears; a request that clears no
tenant enqueues nothing; and no other path, and no call under an empty registry,
leaves a job with provenance. -/
theorem foundry_provenance (cfg : Config) (clock : Time) (ms : List Move) :
    (∀ j ∈ (run cfg clock ms).state.db.jobs, ∀ p, j.manifestJson.provenance = some p →
      ∃ q ∈ runTrace cfg clock ms, q.cmd = .insertJob j.submission ∧
        RoutedBy cfg q.call j.manifestJson p) ∧
    (∀ q ∈ runTrace cfg clock ms, ∀ req auth, q.call = .foundryRoute req auth →
      (¬ ∃ tenant, Clears cfg req auth tenant) → EnqueuesNothing cfg q) ∧
    (cfg.foundryTenants = [] →
      ∀ j ∈ (run cfg clock ms).state.db.jobs, j.manifestJson.provenance = none) ∧
    (∀ q ∈ runTrace cfg clock ms,
      ((∃ req auth, q.call = .submit req auth) ∨ ∃ req auth, q.call = .launchWorkload req auth) →
      ∀ j' ∈ (q.post (machine cfg)).db.jobs, j'.manifestJson.provenance = none ∨
        ∃ j ∈ q.pre.db.jobs, j.jobId = j'.jobId ∧ j.submission = j'.submission) := by
  have hrouted : ∀ j ∈ (run cfg clock ms).state.db.jobs, ∀ p,
      j.manifestJson.provenance = some p → ∃ q ∈ runTrace cfg clock ms,
        q.cmd = .insertJob j.submission ∧ RoutedBy cfg q.call j.manifestJson p := by
    intro j hj p hprovenance
    obtain ⟨-, q, hq, hcmd⟩ := run_submitted ms j hj
    obtain ⟨before, m, after, -, hperf⟩ := Interleaving.mem_trace hq
    have hissued := (run_issued hperf).1
    rw [hcmd] at hissued
    exact ⟨q, hq, hcmd, provenance_enqueued hissued.2.2 hprovenance⟩
  refine ⟨hrouted, ?_, ?_, ?_⟩
  · intro q hq req auth hcall hfails j' hj'
    obtain ⟨before, m, after, -, hperf⟩ := Interleaving.mem_trace hq
    refine (enqueued_post hperf hj').resolve_right ?_
    rw [hcall]
    rintro ⟨tenant, hadmits, -⟩
    exact hfails ⟨tenant, hadmits.clears⟩
  · intro hempty j hj
    cases hprovenance : j.manifestJson.provenance with
    | none => rfl
    | some p =>
        obtain ⟨q, -, -, req, auth, tenant, -, hclears, -⟩ := hrouted j hj p hprovenance
        have hregistered := hclears.registered
        rw [hempty] at hregistered
        cases hregistered
  · intro q hq hpath j' hj'
    obtain ⟨before, m, after, -, hperf⟩ := Interleaving.mem_trace hq
    cases enqueued_post hperf hj' with
    | inl hold => exact .inr hold
    | inr henqueues =>
        rcases hpath with ⟨req, auth, hcall⟩ | ⟨req, auth, hcall⟩
        · rw [hcall] at henqueues
          exact .inl henqueues
        · rw [hcall] at henqueues
          exact .inl henqueues

end OneCompute
