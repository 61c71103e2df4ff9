import OneCompute.Lib.Observation
import OneCompute.Orchestrator.Tiers

/-!
What has no influence on trust tiers. Two runs of the same schedule may differ in
every field of a registration but the worker it names and the attestation it is
admitted with, and in anything about the calls that neither register a worker nor
administer one; all tiers are the same throughout.
-/

namespace OneCompute
open Interleaving (Prog Silent Quiet Alike AlikeMoves AlikeSys)
open Interleaving.Prog (perform sat_imp sat_bind)

def rowView (row : WorkerRow) : TierState × Option String := (row.tierState, row.certFingerprint)

/-- The clock, and of every worker the tier and the device it is bound to. -/
def tierView (w : World) : Time × (String → Option (TierState × Option String)) :=
  (w.clock, fun v => (w.db.workers.find? v).map rowView)

theorem tierView_clock {w w' : World} (h : tierView w = tierView w') : w.clock = w'.clock :=
  congrArg Prod.fst h

theorem tierView_row {w w' : World} (h : tierView w = tierView w') (v : String) :
    (w.db.workers.find? v).map rowView = (w'.db.workers.find? v).map rowView :=
  congrFun (congrArg Prod.snd h) v

theorem tierOf_of_view {w w' : World} (h : tierView w = tierView w') (v : String) :
    tierOf w v = tierOf w' v := by
  have hrow := congrArg (Option.map Prod.fst) (tierView_row h v)
  rw [Option.map_map, Option.map_map] at hrow
  exact hrow

theorem tierView_exec {c c' : Cmd} {input : Nat} {w w' : World} (hw : tierView w = tierView w')
    (h : ∀ v r r', r.map rowView = r'.map rowView →
      (rowAfter w v r c).map rowView = (rowAfter w' v r' c').map rowView) :
    tierView (exec c input w).1 = tierView (exec c' input w').1 := by
  have hclock : w.clock = w'.clock := tierView_clock hw
  refine Prod.ext hclock ?_
  funext v
  simp only [tierView, find?_exec]
  exact h v _ _ (tierView_row hw v)

/-! ## Commands -/

def TierFree : Cmd → Prop
  | .enroll _ _ | .applyDerivedTier _ _ | .assignTier _ _ | .removeWorker _ _ => False
  | _ => True

theorem silent_of_tierFree (cfg : Config) {c : Cmd} (h : TierFree c) :
    Silent (machine cfg) tierView c := by
  intro input w
  refine Prod.ext rfl ?_
  funext v
  change ((exec c input w).1.db.workers.find? v).map rowView = _
  rw [find?_exec]
  cases c with
  | now | uuid4 | workerRow _ | activeWorkers | emit _ | reapExpired | insertJob _ => rfl
  | storeProfile _ _ _ | query => rfl
  | assignNext _ _ _ | approveWorker _ | settle _ _ _ => exact map_ite_frame (fun _ => rfl)
  | recordHeartbeat m req now =>
      refine map_ite_frame ?_
      intro r
      cases m <;> rfl
  | enroll _ _ | applyDerivedTier _ _ | assignTier _ _ | removeWorker _ _ => exact absurd h id

theorem map_ite_congr {p : Prop} [Decidable p] {r r' : Option WorkerRow} {f : WorkerRow → WorkerRow}
    {g : TierState × Option String → TierState × Option String}
    (hf : ∀ row, rowView (f row) = g (rowView row)) (h : r.map rowView = r'.map rowView) :
    (if p then r.map f else r).map rowView = (if p then r'.map f else r').map rowView := by
  have hcomp : rowView ∘ f = g ∘ rowView := funext hf
  split
  · rw [Option.map_map, Option.map_map, hcomp, ← Option.map_map, ← Option.map_map, h]
  · exact h

theorem view_applyDerivedTier {input : Nat} {w w' : World} (u tier : String)
    (h : tierView w = tierView w') :
    tierView (exec (.applyDerivedTier u tier) input w).1 =
      tierView (exec (.applyDerivedTier u tier) input w').1 := by
  apply tierView_exec h
  intro v r r' hr
  refine map_ite_congr (g := fun t => (t.1.derive tier, t.2)) ?_ hr
  intro row
  refine Prod.ext (derive_tierState tier row) ?_
  unfold WorkerRow.derive rowView
  split <;> rfl

theorem view_assignTier {input : Nat} {w w' : World} (u tier : String)
    (h : tierView w = tierView w') :
    tierView (exec (.assignTier u tier) input w).1 =
      tierView (exec (.assignTier u tier) input w').1 := by
  apply tierView_exec h
  intro v r r' hr
  exact map_ite_congr (g := fun t => (⟨tier, true⟩, t.2)) (fun _ => rfl) hr

theorem view_removeWorker {input : Nat} {w w' : World} (u : String) (now now' : Time)
    (h : tierView w = tierView w') :
    tierView (exec (.removeWorker u now) input w).1 =
      tierView (exec (.removeWorker u now') input w').1 := by
  apply tierView_exec h
  intro v r r' hr
  simp only [rowAfter]
  split
  · rfl
  · exact hr

theorem checkBinding_congr (bind : Bool) {r r' : Option WorkerRow} (cert : Option String)
    (h : r.map rowView = r'.map rowView) : checkBinding bind r cert = checkBinding bind r' cert := by
  cases r with
  | none =>
      cases r' with
      | none => rfl
      | some row' => cases h
  | some row =>
      cases r' with
      | none => cases h
      | some row' =>
          have hcert : row.certFingerprint = row'.certFingerprint :=
            congrArg Prod.snd (Option.some.inj h)
          cases bind with
          | false => rfl
          | true => simp only [checkBinding, hcert]

theorem view_enroll {input : Nat} {w w' : World} {bind : Bool} {e e' : Enrollment}
    (h : tierView w = tierView w') (hid : e.capability.workerId = e'.capability.workerId)
    (hcert : e.certFingerprint = e'.certFingerprint) :
    tierView (exec (.enroll bind e) input w).1 = tierView (exec (.enroll bind e') input w').1 := by
  apply tierView_exec h
  intro v r r' hr
  simp only [rowAfter, hid, hcert, checkBinding_congr bind _ hr]
  split
  · cases r with
    | none =>
        cases r' with
        | none => exact congrArg some (Prod.ext rfl hcert)
        | some row' => cases hr
    | some row =>
        cases r' with
        | none => cases hr
        | some row' =>
            have hrow : rowView row = rowView row' := Option.some.inj hr
            have htier : row.tierState = row'.tierState := congrArg Prod.fst hrow
            have hstored : row.certFingerprint = row'.certFingerprint := congrArg Prod.snd hrow
            refine congrArg some (Prod.ext htier ?_)
            change e.certFingerprint.orElse _ = e'.certFingerprint.orElse _
            rw [hcert, hstored]
  · exact hr

/-- A registration is refused in both runs or in neither. -/
theorem enroll_alike (bind : Bool) (e e' : Enrollment) {w w' : World} (h : tierView w = tierView w')
    (hid : e.capability.workerId = e'.capability.workerId)
    (hcert : e.certFingerprint = e'.certFingerprint) :
    (∃ failure failure', (enroll bind e w.db).answer = .error failure ∧
      (enroll bind e' w'.db).answer = .error failure') ∨
    (∃ a a', (enroll bind e w.db).answer = .ok a ∧ (enroll bind e' w'.db).answer = .ok a') := by
  have hsame := checkBinding_congr bind e'.certFingerprint
    (tierView_row h e'.capability.workerId)
  rw [← hid, ← hcert] at hsame
  rcases enroll_cases bind e w.db with ⟨failure, h1, heq⟩ | ⟨h1, heq⟩ <;>
    rcases enroll_cases bind e' w'.db with ⟨failure', h2, heq'⟩ | ⟨h2, heq'⟩
  · exact .inl ⟨failure, failure', by rw [heq], by rw [heq']⟩
  · rw [← hid, ← hcert, ← hsame, h1] at h2
    cases h2
  · rw [← hid, ← hcert, ← hsame, h1] at h2
    cases h2
  · exact .inr ⟨_, _, by rw [heq], by rw [heq']⟩

/-! ## Programs -/

abbrev Twins (cfg : Config) : Interleaving.Thread Cmd Ret Failure Reply Call →
    Interleaving.Thread Cmd Ret Failure Reply Call → Prop :=
  Alike (machine cfg) (fun w => RowsNamed w.db) Truthful tierView

section Programs
variable {cfg : Config} {call call' : Call} {past past' : Past}

abbrev QuietProg (cfg : Config) (past : Past) (p : Handler Reply) : Prop :=
  Quiet (machine cfg) Truthful tierView past p

theorem twins_quiet {p p' : Handler Reply} (h : QuietProg cfg past p) (h' : QuietProg cfg past' p') :
    Twins cfg ⟨call, past, p⟩ ⟨call', past', p'⟩ :=
  .quiet h h'

theorem quiet_emitEvent {type : String} {w j d : Option String} {p : Unit → Handler Reply}
    (h : ∀ past, QuietProg cfg past (p ())) :
    QuietProg cfg past (emitEvent type w j d >>= p) :=
  ⟨silent_of_tierFree _ trivial, fun _ _ => h _⟩

theorem quiet_refuse {A : Type} {w : Option String} {r : Refusal} {p : A → Handler Reply} :
    QuietProg cfg past (refuse w r >>= p) := by
  unfold refuse
  split
  · trivial
  · exact ⟨silent_of_tierFree _ trivial, fun _ _ => trivial⟩

/-- One command on both sides, after which the view is again the same. -/
theorem twins_perform {c c' : Cmd} {f : Ret c → Handler Reply} {f' : Ret c' → Handler Reply}
    (hview : ∀ input w w', tierView w = tierView w' →
      tierView (exec c input w).1 = tierView (exec c' input w').1)
    (hnext : ∀ input w w', tierView w = tierView w' →
      Twins cfg ⟨call, ⟨c, (exec c input w).2⟩ :: past, f (exec c input w).2⟩
        ⟨call', ⟨c', (exec c' input w').2⟩ :: past', f' (exec c' input w').2⟩) :
    Twins cfg ⟨call, past, perform c >>= f⟩ ⟨call', past', perform c' >>= f'⟩ :=
  .sync (fun input w w' _ _ h => hview input w w' h) (fun input w w' _ _ h => hnext input w w' h)

theorem view_tierFree {c c' : Cmd} (hc : TierFree c) (hc' : TierFree c') {input : Nat} {w w' : World}
    (h : tierView w = tierView w') : tierView (exec c input w).1 = tierView (exec c' input w').1 :=
  (silent_of_tierFree {} hc input w).trans
    (h.trans (silent_of_tierFree {} hc' input w').symm)

/-- One command on each side that has nothing to do with tiers. -/
theorem twins_tierFree {c c' : Cmd} {f : Ret c → Handler Reply} {f' : Ret c' → Handler Reply}
    (hc : TierFree c) (hc' : TierFree c')
    (hnext : ∀ input w w', tierView w = tierView w' →
      Twins cfg ⟨call, ⟨c, (exec c input w).2⟩ :: past, f (exec c input w).2⟩
        ⟨call', ⟨c', (exec c' input w').2⟩ :: past', f' (exec c' input w').2⟩) :
    Twins cfg ⟨call, past, perform c >>= f⟩ ⟨call', past', perform c' >>= f'⟩ :=
  twins_perform (fun _ _ _ h => view_tierFree hc hc' h) hnext

theorem twins_requireAdminToken {auth : Option String} {p p' : Unit → Handler Reply}
    (h : Twins cfg ⟨call, past, p ()⟩ ⟨call', past', p' ()⟩) :
    Twins cfg ⟨call, past, requireAdminToken cfg auth >>= p⟩
      ⟨call', past', requireAdminToken cfg auth >>= p'⟩ := by
  unfold requireAdminToken requireBearer
  split
  · exact h
  · split
    · exact h
    · exact twins_quiet quiet_refuse quiet_refuse

theorem twins_workerOr404 {w : String} {p p' : WorkerRow → Handler Reply}
    (h : ∀ past past' row row', Twins cfg ⟨call, past, p row⟩ ⟨call', past', p' row'⟩) :
    Twins cfg ⟨call, past, workerOr404 w >>= p⟩ ⟨call', past', workerOr404 w >>= p'⟩ := by
  unfold workerOr404
  rw [Prog.bind_bind, Prog.bind_bind]
  refine twins_tierFree (by trivial) (by trivial) ?_
  intro input x x' hx
  have hrow : (x.db.workers.find? w).map rowView = (x'.db.workers.find? w).map rowView :=
    tierView_row hx w
  change Twins cfg ⟨call, ⟨.workerRow w, x.db.workers.find? w⟩ :: past, _⟩
    ⟨call', ⟨.workerRow w, x'.db.workers.find? w⟩ :: past', _⟩
  have hans : (exec (.workerRow w) input x).2 = x.db.workers.find? w := rfl
  have hans' : (exec (.workerRow w) input x').2 = x'.db.workers.find? w := rfl
  rw [hans, hans']
  cases hr : x.db.workers.find? w with
  | none =>
      cases hr' : x'.db.workers.find? w with
      | none => exact twins_quiet trivial trivial
      | some row' => simp [hr, hr'] at hrow
  | some row =>
      cases hr' : x'.db.workers.find? w with
      | none => simp [hr, hr'] at hrow
      | some row' => exact h _ _ row row'

theorem twins_setTier (w tier : String) (auth : Option String) :
    Twins cfg ⟨call, past, setTier cfg w tier auth⟩ ⟨call', past', setTier cfg w tier auth⟩ := by
  apply twins_requireAdminToken
  apply twins_workerOr404
  intro past past' row row'
  split
  · exact twins_quiet trivial trivial
  · refine twins_perform
      (fun _ _ _ => view_assignTier w tier) ?_
    intro _ _ _ _
    exact twins_quiet (quiet_emitEvent (fun _ => trivial)) (quiet_emitEvent (fun _ => trivial))

theorem twins_disconnectWorker (w : String) (auth : Option String) :
    Twins cfg ⟨call, past, disconnectWorker cfg w auth⟩
      ⟨call', past', disconnectWorker cfg w auth⟩ := by
  apply twins_requireAdminToken
  apply twins_workerOr404
  intro past past' row row'
  refine twins_tierFree (by trivial) (by trivial) ?_
  intro input x x' _
  change Twins cfg ⟨_, _, perform (Cmd.removeWorker w x.clock) >>= _⟩
    ⟨_, _, perform (Cmd.removeWorker w x'.clock) >>= _⟩
  refine twins_perform (fun _ _ _ => view_removeWorker w x.clock x'.clock) ?_
  intro _ _ _ _
  exact twins_quiet (quiet_emitEvent (fun _ => trivial)) (quiet_emitEvent (fun _ => trivial))

theorem twins_deriveRegisteredTier {cap cap' : Capability} {p p' : Unit → Handler Reply}
    (hid : cap.workerId = cap'.workerId) (hatt : cap.attestation = cap'.attestation)
    (h : ∀ past, QuietProg cfg past (p ())) (h' : ∀ past, QuietProg cfg past (p' ())) :
    Twins cfg ⟨call, past, deriveRegisteredTier cfg cap >>= p⟩
      ⟨call', past', deriveRegisteredTier cfg cap' >>= p'⟩ := by
  have hsame : deriveRegisteredTier cfg cap = deriveRegisteredTier cfg cap' := by
    unfold deriveRegisteredTier
    rw [hid, hatt]
  rw [hsame]
  unfold deriveRegisteredTier
  split
  next => exact twins_quiet (h _) (h' _)
  next att _ =>
    split
    next => exact twins_quiet (h _) (h' _)
    next =>
      rw [Prog.bind_bind, Prog.bind_bind]
      refine twins_tierFree (by trivial) (by trivial) ?_
      intro input x x' hx
      have hans : (exec .now input x').2 = (exec .now input x).2 := (tierView_clock hx).symm
      rw [hans]
      split
      next =>
        rw [Prog.bind_bind, Prog.bind_bind]
        refine twins_perform
          (fun _ _ _ => view_applyDerivedTier cap'.workerId (deriveTier att)) ?_
        intro _ _ _ _
        refine twins_quiet ?_ ?_
        · split
          · exact quiet_emitEvent h
          · exact h _
        · split
          · exact quiet_emitEvent h'
          · exact h' _
      next => exact twins_quiet (h _) (h' _)

/-- The registrations name the same worker and are admitted with the same
attestation. -/
structure SameClaim (body body' : Capability) : Prop where
  worker : body.workerId = body'.workerId
  attestation : body.admitted.attestation = body'.admitted.attestation

theorem SameClaim.admitted {body body' : Capability} (h : SameClaim body body') :
    body.admitted.workerId = body'.admitted.workerId := by
  rw [admitted_workerId, admitted_workerId, h.worker]

theorem twins_enrolled {body body' : Capability} {token token' : String} {now now' : Time}
    {code code' : Option String} {cert : Option String} (h : SameClaim body body') :
    Twins cfg
      ⟨call, past, do
        let stored ← perform (Cmd.enroll cfg.bindDeviceIdentity
          ⟨body.admitted, token, now, !cfg.requireApproval, code, cert⟩)
        let (approved, code) ← Prog.ofExcept stored
        emitEvent "registered" (some body.admitted.workerId) none
          (some (if body.admitted.hasGpu then "gpu" else "cpu"))
        deriveRegisteredTier cfg body.admitted
        return .registered
          { workerToken := token, deviceCode := if approved then none else code, approved := approved }⟩
      ⟨call', past', do
        let stored ← perform (Cmd.enroll cfg.bindDeviceIdentity
          ⟨body'.admitted, token', now', !cfg.requireApproval, code', cert⟩)
        let (approved, code) ← Prog.ofExcept stored
        emitEvent "registered" (some body'.admitted.workerId) none
          (some (if body'.admitted.hasGpu then "gpu" else "cpu"))
        deriveRegisteredTier cfg body'.admitted
        return .registered
          { workerToken := token', deviceCode := if approved then none else code,
            approved := approved }⟩ := by
  refine twins_perform (fun _ _ _ hv => view_enroll hv h.admitted rfl) ?_
  intro input x x' hx
  have halike := enroll_alike cfg.bindDeviceIdentity
    ⟨body.admitted, token, now, !cfg.requireApproval, code, cert⟩
    ⟨body'.admitted, token', now', !cfg.requireApproval, code', cert⟩ hx h.admitted rfl
  have hans (e : Enrollment) (y : World) :
      (exec (.enroll cfg.bindDeviceIdentity e) input y).2 =
        (enroll cfg.bindDeviceIdentity e y.db).answer := rfl
  rw [hans, hans]
  rcases halike with ⟨failure, failure', h1, h2⟩ | ⟨⟨approved, code⟩, ⟨approved', code'⟩, h1, h2⟩
  · rw [h1, h2]
    exact twins_quiet trivial trivial
  · rw [h1, h2]
    refine twins_tierFree (by trivial) (by trivial) ?_
    intro _ _ _ _
    exact twins_deriveRegisteredTier h.admitted h.attestation (fun _ => trivial) (fun _ => trivial)

theorem twins_register {body body' : Capability} (h : SameClaim body body')
    (cert : Option String) :
    Twins cfg ⟨call, past, register cfg body cert⟩ ⟨call', past', register cfg body' cert⟩ := by
  unfold register
  dsimp only
  split
  · exact twins_quiet trivial trivial
  · refine twins_tierFree (by trivial) (by trivial) ?_
    intro _ _ _ _
    refine twins_tierFree (by trivial) (by trivial) ?_
    intro _ _ _ _
    unfold freshDeviceCode
    split
    · rw [Prog.bind_bind, Prog.bind_bind]
      refine twins_tierFree (by trivial) (by trivial) ?_
      intro _ _ _ _
      exact twins_enrolled h
    · exact twins_enrolled h

end Programs

/-! ## Runs -/

/-- The calls that enrol, tier or remove workers. -/
def Call.tiers : Call → Bool
  | .register _ _ | .setTier _ _ _ | .disconnectWorker _ _ => true
  | _ => false

theorem issued_tierFree {cfg : Config} {call : Call} {past : Past} {c : Cmd}
    (h : Issued cfg call past c) (hcall : call.tiers = false) : TierFree c := by
  cases c with
  | enroll bind e =>
      obtain ⟨body, cert, rfl, -⟩ := h
      cases hcall
  | applyDerivedTier u tier =>
      obtain ⟨body, cert, att, now, rfl, -⟩ := h
      cases hcall
  | assignTier u tier =>
      obtain ⟨auth, rfl, -⟩ := h
      cases hcall
  | removeWorker u now =>
      obtain ⟨auth, rfl, -⟩ := h
      cases hcall
  | _ => trivial

theorem quiet_handle {cfg : Config} {call : Call} (hcall : call.tiers = false) :
    QuietProg cfg [] (handle cfg call) :=
  sat_imp (keeps_handle call) (fun _ _ hc => silent_of_tierFree _ (issued_tierFree hc hcall))
    (fun _ _ _ => trivial)

/-- Calls of two runs that may differ: registrations with the same claim, and any
two calls that do not deal with tiers. -/
inductive TwinCalls : Call → Call → Prop where
  | same (call : Call) : TwinCalls call call
  | register {body body' : Capability} (cert : Option String) : SameClaim body body' →
      TwinCalls (.register body cert) (.register body' cert)
  | free {call call' : Call} : call.tiers = false → call'.tiers = false → TwinCalls call call'

theorem twins_handle {cfg : Config} {call call' : Call} (h : TwinCalls call call') :
    Twins cfg ⟨call, [], handle cfg call⟩ ⟨call', [], handle cfg call'⟩ := by
  cases h with
  | register cert hsame => exact twins_register hsame cert
  | free hc hc' => exact twins_quiet (quiet_handle hc) (quiet_handle hc')
  | same =>
      cases hcall : call.tiers with
      | false => exact twins_quiet (quiet_handle hcall) (quiet_handle hcall)
      | true =>
          cases call with
          | register body cert => exact twins_register ⟨rfl, rfl⟩ cert
          | setTier w tier auth => exact twins_setTier w tier auth
          | disconnectWorker w auth => exact twins_disconnectWorker w auth
          | _ => cases hcall

inductive TwinMoves : Move → Move → Prop where
  | spawn {call call' : Call} : TwinCalls call call' → TwinMoves (.spawn call) (.spawn call')
  | run (i input : Nat) : TwinMoves (.run i input) (.run i input)
  | disturb (t : Time) : TwinMoves (.disturb t) (.disturb t)

/-- Nothing but the claims of registrations and the administration of workers has
an influence on a tier. -/
theorem run_tier_influence (cfg : Config) (clock : Time) {ms ms' : List Move}
    (h : List.Forall₂ TwinMoves ms ms') (v : String) :
    tierOf (run cfg clock ms).state v = tierOf (run cfg clock ms').state v := by
  apply tierOf_of_view
  have hstart : AlikeSys (machine cfg) (fun w => RowsNamed w.db) Truthful tierView
      ⟨.fresh clock, []⟩ ⟨.fresh clock, []⟩ := ⟨rowsNamed_empty, rowsNamed_empty, rfl, .nil⟩
  refine Interleaving.runs_view hstart (rowsNamed_invariant cfg) (discipline cfg).answer ?_
    (h.imp ?_)
  · intro t w w' hw
    have hrows := congrArg Prod.snd hw
    exact Prod.ext rfl hrows
  · intro m m' hm
    cases hm with
    | spawn hcall => exact .spawn (twins_handle hcall)
    | run i input => exact .run i input
    | disturb t => exact .disturb t

/-- Where trust tiers come from, in every run. -/
theorem run_tiers (cfg : Config) (clock : Time) (ms : List Move) :
    (∀ v row, (run cfg clock ms).state.db.workers.find? v = some row →
      (row.trustTier ≠ defaultTrustTier → ∃ before p after,
        runTrace cfg clock ms = before ++ p :: after ∧
          (AdminSet cfg p v row.trustTier ∨ Attested cfg before p v row.trustTier)) ∧
      (row.tierPinned = true → ∃ before p after, runTrace cfg clock ms = before ++ p :: after ∧
        AdminSet cfg p v row.trustTier ∧ ∀ q ∈ after, KeepsPin v q.cmd)) ∧
    (∀ m p body cert, performedAt cfg clock ms m = some p → p.call = .register body cert →
      ∀ v t, tierOf p.pre v = some t → t.pinned = true ∨ cfg.attestationPubkey.getD "" = "" →
        tierOf (p.post (machine cfg)) v = some t) ∧
    ∀ ms', List.Forall₂ TwinMoves ms ms' → ∀ v,
      tierOf (run cfg clock ms).state v = tierOf (run cfg clock ms').state v := by
  refine ⟨?_, ?_, ?_⟩
  · intro v row hrow
    exact ⟨run_provenance hrow, run_pinned hrow⟩
  · intro m p body cert hp hcall v t ht h
    exact register_keepsTier hp hcall ht h
  · intro ms' h v
    exact run_tier_influence cfg clock h v

/-- A device with a trusted execution environment registers, with or without the
measurement-only flag. -/
def teeRegistration (measurementOnly : Bool) : List Move :=
  serve 0 7 (.register
    { workerId := "w"
      measurementOnly := measurementOnly
      attestation := some
        { workerId := "w", tee := true, issuedAt := .utc 0, signature := "00" } } none)

def trustingConfig : Config :=
  { attestationPubkey := some "authority", ed25519 := fun _ _ _ => true }

set_option maxRecDepth 20000 in
/-- The flag decides whether the attestation counts. -/
theorem measurementOnly_influence :
    tierOf (run trustingConfig 0 (teeRegistration false)).state "w" =
        some ⟨"confidential_compute", false⟩ ∧
      tierOf (run trustingConfig 0 (teeRegistration true)).state "w" = some ⟨"untrusted", false⟩ := by
  decide +kernel

end OneCompute
