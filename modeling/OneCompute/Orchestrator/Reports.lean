import OneCompute.Orchestrator.Calls

/-!
What a call may write into the audit log, and what it may tell its caller: only
what it has done.
-/

namespace OneCompute
open Interleaving (Prog)
open Interleaving.Prog (perform Sat sat_mono sat_bind sat_perform sat_perform_bind sat_ofExcept
  sat_mapError sat_pure)

/-- An event that an endpoint appends after a section tells what the section did. -/
inductive Recounts (past : Past) : Emission → Prop
  | authFailed (workerId detail : Option String) :
      Recounts past ⟨"auth_failed", workerId, none, detail⟩
  | registered (bind : Bool) (e : Enrollment) (answer : Bool × Option String) (detail : String)
      (h : Saw past (.enroll bind e) (.ok answer)) :
      Recounts past ⟨"registered", some e.capability.workerId, none, some detail⟩
  | tierDerived (workerId tier : String) (h : Saw past (.applyDerivedTier workerId tier) true) :
      Recounts past ⟨"tier_derived", some workerId, none, some tier⟩
  | submitted (s : Submission) (detail : String) (h : Saw past (.insertJob s) (.ok ())) :
      Recounts past ⟨"submitted", none, some s.manifest.jobId, some detail⟩
  | foundryDenied (detail : String) : Recounts past ⟨"foundry_denied", none, none, some detail⟩
  | foundryRouted (s : Submission) (detail : String) (h : Saw past (.insertJob s) (.ok ())) :
      Recounts past ⟨"foundry_routed", none, some s.manifest.jobId, some detail⟩
  | assigned (workerId : String) (cap : Capability) (free : Option PyFloat) (job : JobRow)
      (h : Saw past (.assignNext workerId cap free) (.granted job)) :
      Recounts past ⟨"assigned", some workerId, some job.jobId, some job.manifestJson.kind.text⟩
  | approved (workerId : String) (detail : String) (h : Saw past (.approveWorker workerId) ()) :
      Recounts past ⟨"approved", some workerId, none, some detail⟩
  | tierAssigned (workerId tier : String) (h : Saw past (.assignTier workerId tier) ()) :
      Recounts past ⟨"tier_assigned", some workerId, none, some tier⟩
  | removed (workerId : String) (now : Time) (detail : String)
      (h : Saw past (.removeWorker workerId now) ()) :
      Recounts past ⟨"removed", some workerId, none, some detail⟩

def Reported (past : Past) : Cmd → Prop
  | .emit e => Recounts past e
  | _ => True

/-- The caller was told the identifier of a job that was inserted for its request. -/
def Inserted (past : Past) (jobId : String) (input : Dict) (units : Int) : Prop :=
  ∃ s : Submission, Saw past (.insertJob s) (.ok ()) ∧ s.manifest.jobId = jobId ∧ s.input = input ∧
    s.units = units

theorem Inserted.later {past later : Past} {jobId : String} {input : Dict} {units : Int}
    (h : Inserted past jobId input units) (hl : past <:+ later) :
    Inserted later jobId input units := by
  obtain ⟨s, hs, hrest⟩ := h
  exact ⟨s, hs.later hl, hrest⟩

/-- What the answer of a call acknowledges. -/
def Acknowledged (past : Past) : Call → Reply → Prop
  | .submit req _, .submitted jobId => Inserted past jobId req.input req.units
  | .foundryRoute req _, .submitted jobId => Inserted past jobId req.input req.units
  | .launchWorkload _ _, .launched response =>
      ∀ jobId ∈ response.jobIds, ∃ input units, Inserted past jobId input units
  | .results jobId req _ _, .result response =>
      response.accepted = true → ∃ now, Saw past (.settle jobId req now) (.ok response)
  | _, _ => True

abbrev Tells (past : Past) {A : Type} (p : Handler A) (post : Past → A → Prop) : Prop :=
  p.Sat Reported (fun _ _ => True) past post

section Gates
variable {cfg : Config} {past : Past}

theorem tells_emitEvent {type : String} {w j d : Option String} (h : Recounts past ⟨type, w, j, d⟩) :
    Tells past (emitEvent type w j d) (fun _ _ => True) :=
  sat_perform h (fun _ _ => trivial)

theorem tells_refuse {A : Type} {w : Option String} {r : Refusal} {post : Past → A → Prop} :
    Tells past (refuse w r) post := by
  unfold refuse
  split
  · trivial
  · exact sat_bind (tells_emitEvent (.authFailed _ _)) (fun _ _ _ _ => trivial)

theorem tells_requireBearer {label expected invalid : String} {auth : Option String} :
    Tells past (requireBearer label expected invalid auth) (fun _ _ => True) := by
  unfold requireBearer
  split
  · trivial
  · exact tells_refuse

theorem tells_requireSubmitToken {auth : Option String} :
    Tells past (requireSubmitToken cfg auth) (fun _ _ => True) := by
  unfold requireSubmitToken
  split
  · trivial
  · exact tells_requireBearer

theorem tells_requireAdminToken {auth : Option String} :
    Tells past (requireAdminToken cfg auth) (fun _ _ => True) := by
  unfold requireAdminToken
  split
  · trivial
  · exact tells_requireBearer

theorem tells_requireOperatorReadToken {auth : Option String} :
    Tells past (requireOperatorReadToken cfg auth) (fun _ _ => True) := by
  unfold requireOperatorReadToken
  split
  · trivial
  · exact tells_requireAdminToken

theorem tells_authenticateFoundryTenant {tenantId : String} {auth : Option String} :
    Tells past (authenticateFoundryTenant cfg tenantId auth) (fun _ _ => True) := by
  unfold authenticateFoundryTenant
  split
  · exact tells_refuse
  · split
    · exact tells_refuse
    · exact sat_bind tells_requireBearer (fun _ _ _ _ => trivial)

theorem tells_requireWorkerToken {w : String} {auth cert : Option String} :
    Tells past (requireWorkerToken cfg w auth cert) (fun _ _ => True) := by
  unfold requireWorkerToken
  apply sat_perform_bind trivial
  intro worker _
  split
  · trivial
  · exact tells_refuse

theorem tells_workerOr404 {w : String} : Tells past (workerOr404 w) (fun _ _ => True) := by
  unfold workerOr404
  apply sat_perform_bind trivial
  intro worker _
  cases worker <;> trivial

theorem tells_requireParsed {body : Dict} :
    Tells past (requireParsed body) (fun _ _ => True) := by
  unfold requireParsed
  split <;> trivial

theorem tells_ofExcept {A : Type} {x : Except Failure A} :
    Tells past (Prog.ofExcept x) (fun _ a => x = .ok a) :=
  sat_ofExcept (fun _ h => h)

theorem tells_requireEncodes {input : Dict} :
    Tells past (requireEncodes cfg input) (fun _ _ => True) := by
  unfold requireEncodes
  split <;> trivial

theorem tells_freshDeviceCode : Tells past (freshDeviceCode cfg) (fun _ _ => True) := by
  unfold freshDeviceCode
  split
  · exact sat_perform_bind trivial (fun _ _ => trivial)
  · trivial

end Gates

section Handlers
variable {cfg : Config} {past : Past}

theorem tells_submitJob {req : SubmitRequest} {workloadId : Option String}
    {provenance : Option RoutingProvenance} :
    Tells past (submitJob cfg req workloadId provenance)
      (fun past jobId => Inserted past jobId req.input req.units) := by
  unfold submitJob
  split
  · trivial
  · apply sat_perform_bind trivial
    intro jobId _
    apply sat_bind tells_requireEncodes
    intro _ _ _ _
    apply sat_perform_bind trivial
    intro issuedAt _
    apply sat_perform_bind trivial
    intro now _
    apply sat_perform_bind trivial
    intro stored _
    apply sat_bind tells_ofExcept
    intro past' u hpast hstored
    rw [hstored] at hpast
    exact sat_pure ⟨_, saw_now.later hpast, rfl, rfl, rfl⟩

theorem tells_submit {req : SubmitRequest} {auth : Option String} :
    Tells past (submit cfg req auth)
      (fun past reply => Acknowledged past (.submit req auth) reply) := by
  apply sat_bind tells_requireParsed
  intro _ _ _ _
  apply sat_bind tells_requireSubmitToken
  intro _ _ _ _
  apply sat_bind (sat_mapError tells_submitJob)
  intro past' jobId _ hins
  have hins' := hins
  obtain ⟨s, hs, rfl, -⟩ := hins
  apply sat_bind (tells_emitEvent (.submitted s _ hs))
  intro _ _ hlater _
  exact sat_pure (hins'.later hlater)

theorem tells_foundryRoute {req : FoundryRoutingRequest} {auth : Option String} :
    Tells past (foundryRoute cfg req auth)
      (fun past reply => Acknowledged past (.foundryRoute req auth) reply) := by
  apply sat_bind tells_requireParsed
  intro _ _ _ _
  apply sat_bind tells_authenticateFoundryTenant
  intro _ tenant _ _
  dsimp only
  split
  · exact sat_bind (tells_emitEvent (.foundryDenied _)) (fun _ _ _ _ => trivial)
  · split
    · exact sat_bind (tells_emitEvent (.foundryDenied _)) (fun _ _ _ _ => trivial)
    · apply sat_bind (sat_mapError tells_submitJob)
      intro past' jobId _ hins
      have hins' := hins
      obtain ⟨s, hs, rfl, -⟩ := hins
      apply sat_bind (tells_emitEvent (.foundryRouted s _ hs))
      intro _ _ hlater _
      exact sat_pure (hins'.later hlater)

theorem tells_resolveTileCount {req : WorkloadLaunchRequest} :
    Tells past (resolveTileCount req) (fun _ _ => True) := by
  unfold resolveTileCount
  split
  · trivial
  · split
    · exact sat_perform_bind trivial (fun _ _ => trivial)
    · trivial

theorem tells_launchTiles {kind workloadId : String} {specs : List (Except String SubmitRequest)} :
    Tells past (launchTiles cfg kind workloadId specs)
      (fun past jobIds => ∀ jobId ∈ jobIds, ∃ input units, Inserted past jobId input units) := by
  induction specs generalizing past with
  | nil => exact sat_pure (List.forall_mem_nil _)
  | cons spec rest ih =>
      cases spec with
      | error text => trivial
      | ok sub =>
          apply sat_bind tells_submitJob
          intro past' jobId _ hins
          have hins' := hins
          obtain ⟨s, hs, rfl, -⟩ := hins
          apply sat_bind (tells_emitEvent (.submitted s _ hs))
          intro past'' _ hemit _
          apply sat_bind ih
          intro past''' jobIds hrest hjobs
          refine sat_pure (List.forall_mem_cons.mpr ⟨?_, hjobs⟩)
          exact ⟨_, _, hins'.later (hemit.trans hrest)⟩

theorem tells_launchWorkload {req : WorkloadLaunchRequest} {auth : Option String} :
    Tells past (launchWorkload cfg req auth)
      (fun past reply => Acknowledged past (.launchWorkload req auth) reply) := by
  apply sat_bind tells_requireParsed
  intro _ _ _ _
  apply sat_bind tells_requireSubmitToken
  intro _ _ _ _
  split
  · trivial
  · apply sat_bind tells_resolveTileCount
    intro _ nTiles _ _
    apply sat_perform_bind trivial
    intro workers _
    apply sat_bind (sat_mapError tells_ofExcept)
    intro _ specs _ _
    apply sat_perform_bind trivial
    intro workloadId _
    apply sat_bind tells_launchTiles
    intro _ jobIds _ hjobs
    exact sat_pure hjobs

theorem tells_deriveRegisteredTier {cap : Capability} :
    Tells past (deriveRegisteredTier cfg cap) (fun _ _ => True) := by
  unfold deriveRegisteredTier
  split
  · trivial
  · split
    · trivial
    · apply sat_perform_bind trivial
      intro now _
      split
      · apply sat_perform_bind trivial
        intro applied _
        split
        next happlied =>
          subst happlied
          exact tells_emitEvent (.tierDerived _ _ saw_now)
        next => trivial
      · trivial

theorem tells_register {body : Capability} {cert : Option String} :
    Tells past (register cfg body cert) (fun _ _ => True) := by
  unfold register
  dsimp only
  split
  · trivial
  · apply sat_perform_bind trivial
    intro token _
    apply sat_perform_bind trivial
    intro now _
    apply sat_bind tells_freshDeviceCode
    intro _ code _ _
    apply sat_perform_bind trivial
    intro stored _
    cases stored with
    | error failure => trivial
    | ok answer =>
        apply sat_bind (tells_emitEvent (.registered _ _ _ _ saw_now))
        intro _ _ _ _
        exact sat_bind tells_deriveRegisteredTier (fun _ _ _ _ => trivial)

theorem tells_jobsNext {w : String} {auth cert : Option String} :
    Tells past (jobsNext cfg w auth cert) (fun _ _ => True) := by
  apply sat_bind tells_requireWorkerToken
  intro _ row _ _
  split
  · trivial
  · split
    · trivial
    · apply sat_perform_bind trivial
      intro _ _
      split
      · trivial
      · split
        · trivial
        · apply sat_perform_bind trivial
          intro poll _
          split
          next job =>
            exact sat_bind (tells_emitEvent (.assigned w _ _ job saw_now)) (fun _ _ _ _ => trivial)
          next => trivial

theorem tells_heartbeat {req : HeartbeatRequest} {auth cert : Option String} :
    Tells past (heartbeat cfg req auth cert) (fun _ _ => True) := by
  apply sat_bind tells_requireWorkerToken
  intro _ row _ _
  split
  · trivial
  · apply sat_perform_bind trivial
    intro now _
    exact sat_perform_bind trivial (fun _ _ => trivial)

theorem tells_results {jobId : String} {req : ResultRequest} {auth cert : Option String} :
    Tells past (results cfg jobId req auth cert)
      (fun past reply => Acknowledged past (.results jobId req auth cert) reply) := by
  apply sat_bind tells_requireParsed
  intro _ _ _ _
  split
  · trivial
  · apply sat_bind tells_requireWorkerToken
    intro _ row _ _
    split
    · exact sat_pure fun haccepted => nomatch haccepted
    · apply sat_perform_bind trivial
      intro now _
      apply sat_perform_bind trivial
      intro settled _
      cases settled with
      | error failure => trivial
      | ok response => exact sat_pure fun _ => ⟨now, saw_now⟩

theorem tells_approve {w : String} {auth : Option String} :
    Tells past (approve cfg w auth) (fun _ _ => True) := by
  apply sat_bind tells_requireAdminToken
  intro _ _ _ _
  apply sat_bind tells_workerOr404
  intro _ _ _ _
  apply sat_perform_bind trivial
  intro _ _
  exact sat_bind (tells_emitEvent (.approved w _ saw_now)) (fun _ _ _ _ => trivial)

theorem tells_setTier {w tier : String} {auth : Option String} :
    Tells past (setTier cfg w tier auth) (fun _ _ => True) := by
  apply sat_bind tells_requireAdminToken
  intro _ _ _ _
  apply sat_bind tells_workerOr404
  intro _ _ _ _
  split
  · trivial
  · apply sat_perform_bind trivial
    intro _ _
    exact sat_bind (tells_emitEvent (.tierAssigned w tier saw_now)) (fun _ _ _ _ => trivial)

theorem tells_disconnectWorker {w : String} {auth : Option String} :
    Tells past (disconnectWorker cfg w auth) (fun _ _ => True) := by
  apply sat_bind tells_requireAdminToken
  intro _ _ _ _
  apply sat_bind tells_workerOr404
  intro _ _ _ _
  apply sat_perform_bind trivial
  intro now _
  apply sat_perform_bind trivial
  intro _ _
  exact sat_bind (tells_emitEvent (.removed w now _ saw_now)) (fun _ _ _ _ => trivial)

theorem tells_ingestProfile {req : ProfileReport} {auth cert : Option String} :
    Tells past (ingestProfile cfg req auth cert) (fun _ _ => True) := by
  apply sat_bind tells_requireWorkerToken
  intro _ row _ _
  split
  · trivial
  · split
    · trivial
    · apply sat_perform_bind trivial
      intro now _
      exact sat_perform_bind trivial (fun _ _ => trivial)

theorem tells_measurement {auth : Option String} :
    Tells past (measurement cfg auth) (fun _ _ => True) := by
  apply sat_bind tells_requireOperatorReadToken
  intro _ _ _ _
  apply sat_perform_bind trivial
  intro db _
  split <;> trivial

theorem tells_queries (n : Nat) : Tells past (queries n) (fun _ _ => True) := by
  induction n generalizing past with
  | zero => trivial
  | succ n ih =>
      apply sat_perform_bind trivial
      intro db _
      exact sat_bind ih (fun _ _ _ _ => trivial)

theorem tells_operatorRead {n : Nat} {auth : Option String} :
    Tells past (operatorRead cfg n auth) (fun _ _ => True) := by
  apply sat_bind tells_requireOperatorReadToken
  intro _ _ _ _
  exact sat_bind (tells_queries n) (fun _ _ _ _ => trivial)

theorem tells_handle (call : Call) :
    Tells past (handle cfg call) (fun past reply => Acknowledged past call reply) := by
  cases call with
  | submit req auth => exact tells_submit
  | foundryRoute req auth => exact tells_foundryRoute
  | launchWorkload req auth => exact tells_launchWorkload
  | results jobId req auth cert => exact tells_results
  | register body cert => exact sat_mono tells_register (fun _ _ _ _ => trivial)
  | jobsNext w auth cert => exact sat_mono tells_jobsNext (fun _ _ _ _ => trivial)
  | heartbeat req auth cert => exact sat_mono tells_heartbeat (fun _ _ _ _ => trivial)
  | approve w auth => exact sat_mono tells_approve (fun _ _ _ _ => trivial)
  | setTier w tier auth => exact sat_mono tells_setTier (fun _ _ _ _ => trivial)
  | disconnectWorker w auth => exact sat_mono tells_disconnectWorker (fun _ _ _ _ => trivial)
  | ingestProfile req auth cert => exact sat_mono tells_ingestProfile (fun _ _ _ _ => trivial)
  | measurement auth => exact sat_mono tells_measurement (fun _ _ _ _ => trivial)
  | operatorRead n auth => exact sat_mono tells_operatorRead (fun _ _ _ _ => trivial)

end Handlers
end OneCompute
