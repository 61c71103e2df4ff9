import OneCompute.Lib.Sequential
import OneCompute.Orchestrator.Erasure

/-!
The approval gate, over calls served one at a time and restarts of the
orchestrator on the same database, each with a configuration of its own.
-/

namespace OneCompute
open Interleaving (Surroundings serveAlone serveAlone_sat)

inductive Event where
  | restart (cfg : Config)
  | call (c : Call) (env : Surroundings Nat Time)

/-- The running orchestrator: what it was started with, and its database. -/
structure Deployment where
  cfg : Config
  world : World

namespace Deployment

/-- Serve one call to its end. -/
def serve (d : Deployment) (call : Call) (env : Surroundings Nat Time) :
    World × Except Failure Reply :=
  serveAlone (machine d.cfg) (handle d.cfg call) env d.world

def step (d : Deployment) : Event → Deployment
  | .restart cfg => { d with cfg := cfg }
  | .call c env => { d with world := (d.serve c env).1 }

def after (d : Deployment) (events : List Event) : Deployment := events.foldl step d

theorem after_append (d : Deployment) (es fs : List Event) :
    d.after (es ++ fs) = (d.after es).after fs :=
  List.foldl_append

end Deployment

/-- The orchestrator after these events, since it was first started. -/
def deploy (cfg : Config) (clock : Time) (events : List Event) : Deployment :=
  Deployment.after ⟨cfg, .fresh clock⟩ events

/-- An administrator approves `v`. -/
def Approves (d : Deployment) (v : String) (e : Event) : Prop :=
  ∃ auth env, e = .call (.approve v auth) env ∧ AdminAdmits d.cfg auth

/-- Approval is required throughout, and nobody approves `v`. -/
def Gated (v : String) : Deployment → List Event → Prop
  | d, [] => d.cfg.requireApproval = true
  | d, e :: es => d.cfg.requireApproval = true ∧ ¬ Approves d v e ∧ Gated v (d.step e) es

/-- A worker has a device code as long as it is not approved. -/
def CodesPending (w : World) : Prop :=
  ∀ v row, w.db.workers.find? v = some row → (row.deviceCode ≠ none ↔ row.approved = false)

/-- Leases and profiles belong to approved workers. -/
structure OnlyApproved (w : World) : Prop where
  leases : ∀ j ∈ w.db.jobs, ∀ v, j.leasedTo v = true → Approved w v
  profiles : ∀ v, Measured w v → Approved w v

/-- What the gate keeps from a worker: leases, uploads, and the report that it is
approved. -/
structure HeldBack (d : Deployment) (v : String) : Prop where
  leaseless : ∀ j ∈ d.world.db.jobs, j.leasedTo v = false
  unserved : ∀ auth cert env response,
    (d.serve (.jobsNext v auth cert) env).2 ≠ .ok (.assignment response)
  refused : ∀ req auth cert env, req.workerId = v →
    ∃ failure, (d.serve (.ingestProfile req auth cert) env).2 = .error failure
  unmeasured : ¬ Measured d.world v
  unapproved : ∀ req auth cert env reply, req.workerId = v →
    (d.serve (.heartbeat req auth cert) env).2 = .ok reply →
    reply = .heartbeat { approved := false }

/-! ## One call -/

/-- Rule for calls served alone: what every command the call may issue keeps,
holds at its end, and the call ends in one of its ways. -/
theorem serve_induction (d : Deployment) (call : Call) {J : Past → World → Prop}
    (hnamed : RowsNamed d.world.db)
    (command : ∀ past c input w, Issued d.cfg call past c → J past w →
      J (⟨c, (exec c input w).2⟩ :: past) (exec c input w).1)
    (disturb : ∀ past t w, J past w → J past { w with clock := t })
    (env : Surroundings Nat Time) (start : J [] d.world) :
    ∃ past, RowsNamed (d.serve call env).1.db ∧ J past (d.serve call env).1 ∧
      ∀ reply, (d.serve call env).2 = .ok reply → Ended d.cfg past call reply := by
  obtain ⟨past, ⟨hnamed', hJ⟩, hended⟩ := serveAlone_sat (M := machine d.cfg)
    (J := fun past w => RowsNamed w.db ∧ J past w) (keeps_handle call)
    (fun past c input w hissued ⟨hw, hJ⟩ => ⟨truthful_exec c input w hw,
      (rowsNamed_invariant d.cfg).exec c input w hw, command past c input w hissued hJ⟩)
    (fun past t w ⟨hw, hJ⟩ => ⟨hw, disturb past t w hJ⟩) env ⟨hnamed, start⟩
  exact ⟨past, hnamed', hJ, hended⟩

theorem codesPending_exec {cfg : Config} {call : Call} {past : Past} {c : Cmd} {w : World}
    (hissued : Issued cfg call past c) (h : CodesPending w) (input : Nat) :
    CodesPending (exec c input w).1 := by
  intro v row' hrow'
  have hc := rowChange_exec c input w v
  rw [hrow'] at hc
  generalize hnew : some row' = new at hc
  cases hc with
  | same => exact h v row' hnew.symm
  | removed now _ => cases hnew
  | enrolled bind e hcmd hv hok =>
      rw [hcmd] at hissued
      obtain ⟨body, cert, -, -, -, happroved, -, -, -, hcode⟩ := hissued
      have hfresh : e.deviceCode ≠ none ↔ e.approved = false := by
        rw [happroved, ne_eq, hcode]
        simp
      cases hrow : w.db.workers.find? v with
      | none =>
          rw [hrow] at hnew
          cases hnew
          exact hfresh
      | some old =>
          rw [hrow] at hnew
          cases hnew
          change (if old.approved = true then none else e.deviceCode) ≠ none ↔
            (old.approved || e.approved) = false
          cases hold : old.approved with
          | true => simp
          | false => simpa [hold] using hfresh
  | derived tier old _ hold =>
      cases hnew
      have hkept := h v old hold
      unfold WorkerRow.derive
      split <;> exact hkept
  | beat m req now old _ _ hold =>
      cases hnew
      have hkept := h v old hold
      cases m <;> exact hkept
  | admitted old _ hold => cases hnew; simp [WorkerRow.approve]
  | granted _ _ old _ _ hold => cases hnew; exact h v old hold
  | pinned tier old _ hold => cases hnew; exact h v old hold
  | blacklisted _ _ _ old _ _ _ hold => cases hnew; exact h v old hold

/-- A worker becomes approved by an approval, or by a registration that needs none. -/
theorem approval_source {c : Cmd} {input : Nat} {w : World} {v : String}
    (h : Approved (exec c input w).1 v) :
    Approved w v ∨ c = .approveWorker v ∨ ∃ bind e, c = .enroll bind e ∧ e.approved = true := by
  obtain ⟨row', hrow', happroved⟩ := h
  have hc := rowChange_exec c input w v
  rw [hrow'] at hc
  generalize hnew : some row' = new at hc
  cases hc with
  | same => exact .inl ⟨row', hnew.symm, happroved⟩
  | removed now _ => cases hnew
  | enrolled bind e hcmd hv hok =>
      cases hrow : w.db.workers.find? v with
      | none =>
          rw [hrow] at hnew
          cases hnew
          exact .inr (.inr ⟨bind, e, hcmd, happroved⟩)
      | some old =>
          rw [hrow] at hnew
          cases hnew
          cases (Bool.or_eq_true _ _).mp happroved with
          | inl hold => exact .inl ⟨old, hrow, hold⟩
          | inr he => exact .inr (.inr ⟨bind, e, hcmd, he⟩)
  | admitted old hcmd _ => exact .inr (.inl hcmd)
  | derived tier old _ hold =>
      cases hnew
      refine .inl ⟨old, hold, ?_⟩
      unfold WorkerRow.derive at happroved
      split at happroved <;> exact happroved
  | beat m req now old _ _ hold =>
      cases hnew
      refine .inl ⟨old, hold, ?_⟩
      cases m <;> exact happroved
  | granted _ _ old _ _ hold => cases hnew; exact .inl ⟨old, hold, happroved⟩
  | pinned tier old _ hold => cases hnew; exact .inl ⟨old, hold, happroved⟩
  | blacklisted _ _ _ old _ _ _ hold => cases hnew; exact .inl ⟨old, hold, happroved⟩

/-- Rows that the call read as approved are approved still. -/
def ReadsHold (call : Call) (past : Past) (w : World) : Prop :=
  ∀ v, (∀ auth, call ≠ .disconnectWorker v auth) → ∀ row,
    Saw past (.workerRow v) (some row) → row.approved = true → Approved w v

theorem removal_issued {cfg : Config} {call : Call} {past : Past} {v : String} {now : Time}
    (h : Issued cfg call past (.removeWorker v now)) : ∃ auth, call = .disconnectWorker v auth := by
  obtain ⟨auth, hcall, -⟩ := h
  exact ⟨auth, hcall⟩

theorem saw_cons {past : Past} {c c' : Cmd} {r : Ret c} {r' : Ret c'}
    (h : Saw (⟨c', r'⟩ :: past) c r) : Saw past c r ∨ (⟨c, r⟩ : Interleaving.Answered Cmd Ret) = ⟨c', r'⟩ :=
  (List.mem_cons.mp h).symm

theorem readsHold_exec {cfg : Config} {call : Call} {past : Past} {c : Cmd} {input : Nat}
    {w : World} (hissued : Issued cfg call past c) (h : ReadsHold call past w) :
    ReadsHold call (⟨c, (exec c input w).2⟩ :: past) (exec c input w).1 := by
  intro v hcall row hsaw happroved
  have hbefore : Approved w v := by
    cases saw_cons hsaw with
    | inl hold => exact h v hcall row hold happroved
    | inr heq =>
        obtain rfl : Cmd.workerRow v = c := congrArg Interleaving.Answered.cmd heq
        have hrow : some row = w.db.workers.find? v := eq_of_heq (Interleaving.Answered.mk.inj heq).2
        exact ⟨row, hrow.symm, happroved⟩
  rcases approved_exec hbefore c input with ⟨now, rfl⟩ | hafter
  · obtain ⟨auth, hremoves⟩ := removal_issued hissued
    exact absurd hremoves (hcall auth)
  · exact hafter

theorem onlyApproved_exec {cfg : Config} {call : Call} {past : Past} {c : Cmd} {input : Nat}
    {w : World} (hissued : Issued cfg call past c) (hreads : ReadsHold call past w)
    (h : OnlyApproved w) : OnlyApproved (exec c input w).1 := by
  constructor
  · intro j' hj' v hl
    have hbefore : Approved w v := by
      rcases leased_exec hj' hl with ⟨j, hj, -, hjv⟩ | ⟨cap, free, rfl, -⟩
      · exact h.leases j hj v hjv
      · obtain ⟨auth, cert, row, rfl, hpolls, -⟩ := hissued
        exact hreads v (fun _ hcall => by cases hcall) row hpolls.admitted.read hpolls.approved
    rcases approved_exec hbefore c input with ⟨now, rfl⟩ | hafter
    · rw [removeWorker_leases v now input w j' hj'] at hl
      cases hl
    · exact hafter
  · intro v hv
    have hbefore : Approved w v := by
      rcases measured_exec hv with ⟨compact, now, rfl⟩ | hold
      · obtain ⟨req, auth, cert, row, rfl, -, hadmitted, happroved, -⟩ := hissued
        exact hreads v (fun _ hcall => by cases hcall) row hadmitted.read happroved
      · exact h.profiles v hold
    rcases approved_exec hbefore c input with ⟨now, rfl⟩ | hafter
    · exact absurd hv (removeWorker_erases v now input w)
    · exact hafter

/-- `v` is not approved, and the call has not read that it is. -/
def Pending (v : String) (past : Past) (w : World) : Prop :=
  ¬ Approved w v ∧ ∀ row, Saw past (.workerRow v) (some row) → row.approved = false

theorem pending_exec {cfg : Config} {call : Call} {past : Past} {c : Cmd} {input : Nat} {w : World}
    {v : String} (hrequired : cfg.requireApproval = true)
    (happrove : ∀ auth, call = .approve v auth → ¬ AdminAdmits cfg auth)
    (hissued : Issued cfg call past c) (h : Pending v past w) :
    Pending v (⟨c, (exec c input w).2⟩ :: past) (exec c input w).1 := by
  constructor
  · intro happroved
    rcases approval_source happroved with hold | rfl | ⟨bind, e, rfl, he⟩
    · exact h.1 hold
    · obtain ⟨auth, hcall, hadmin⟩ := hissued
      exact happrove auth hcall hadmin
    · obtain ⟨body, cert, -, -, -, heq, -⟩ := hissued
      rw [heq, hrequired] at he
      cases he
  · intro row hsaw
    cases saw_cons hsaw with
    | inl hold => exact h.2 row hold
    | inr heq =>
        obtain rfl : Cmd.workerRow v = c := congrArg Interleaving.Answered.cmd heq
        have hrow : some row = w.db.workers.find? v := eq_of_heq (Interleaving.Answered.mk.inj heq).2
        cases happroved : row.approved with
        | false => rfl
        | true => exact absurd ⟨row, hrow.symm, happroved⟩ h.1

/-! ## Histories -/

/-- What holds of the database after any history of complete calls and restarts. -/
structure Admission (w : World) : Prop where
  named : RowsNamed w.db
  codes : CodesPending w
  onlyApproved : OnlyApproved w

theorem admission_fresh (clock : Time) : Admission (.fresh clock) := by
  refine ⟨rowsNamed_empty, ?_, ?_, ?_⟩
  · exact fun v row hrow => absurd (Table.find?_eq_some.mp hrow).1 (Table.not_mem_empty row)
  · exact fun j hj => absurd hj (Table.not_mem_empty j)
  · exact fun v hv => absurd rfl hv

theorem admission_serve {d : Deployment} (h : Admission d.world) (call : Call)
    (env : Surroundings Nat Time) : Admission (d.serve call env).1 := by
  obtain ⟨past, hnamed, ⟨-, hcodes, honly⟩, -⟩ := serve_induction d call
    (J := fun past w => ReadsHold call past w ∧ CodesPending w ∧ OnlyApproved w) h.named
    (fun past c input w hissued ⟨hreads, hcodes, honly⟩ => ⟨readsHold_exec hissued hreads,
      codesPending_exec hissued hcodes input, onlyApproved_exec hissued hreads honly⟩)
    (fun past t w hw => ⟨hw.1, hw.2.1, hw.2.2.leases, hw.2.2.profiles⟩) env
    ⟨fun v _ row hsaw => absurd hsaw List.not_mem_nil, h.codes, h.onlyApproved⟩
  exact ⟨hnamed, hcodes, honly⟩

theorem admission_after {d : Deployment} (h : Admission d.world) (events : List Event) :
    Admission (d.after events).world := by
  induction events generalizing d with
  | nil => exact h
  | cons e events ih =>
      apply ih (d := d.step e)
      cases e with
      | restart cfg => exact h
      | call c env => exact admission_serve h c env

theorem approved_serve_register {d : Deployment} (h : RowsNamed d.world.db) (body : Capability)
    (cert : Option String) (env : Surroundings Nat Time) {v : String} (hv : Approved d.world v) :
    Approved (d.serve (.register body cert) env).1 v := by
  obtain ⟨past, -, hafter, -⟩ := serve_induction d (.register body cert)
    (J := fun _ w => Approved w v) h
    (fun past c input w hissued hw => by
      rcases approved_exec hw c input with ⟨now, rfl⟩ | hafter
      · obtain ⟨auth, hcall⟩ := removal_issued hissued
        cases hcall
      · exact hafter)
    (fun _ _ _ hw => hw) env hv
  exact hafter

theorem pending_serve {d : Deployment} (h : RowsNamed d.world.db) (call : Call) {v : String}
    (hrequired : d.cfg.requireApproval = true)
    (happrove : ∀ auth, call = .approve v auth → ¬ AdminAdmits d.cfg auth)
    (env : Surroundings Nat Time) (hv : ¬ Approved d.world v) :
    ∃ past, Pending v past (d.serve call env).1 ∧
      ∀ reply, (d.serve call env).2 = .ok reply → Ended d.cfg past call reply := by
  obtain ⟨past, -, hpending, hended⟩ := serve_induction d call
    (J := fun past w => Pending v past w) h
    (fun past c input w hissued hw => pending_exec hrequired happrove hissued hw)
    (fun _ _ _ hw => hw) env ⟨hv, fun row hsaw => absurd hsaw List.not_mem_nil⟩
  exact ⟨past, hpending, hended⟩

theorem pending_after {v : String} {d : Deployment} (h : Admission d.world) {events : List Event}
    (hv : ¬ Approved d.world v) (hgated : Gated v d events) :
    ¬ Approved (d.after events).world v ∧ (d.after events).cfg.requireApproval = true := by
  induction events generalizing d with
  | nil => exact ⟨hv, hgated⟩
  | cons e events ih =>
      obtain ⟨hrequired, happroves, hrest⟩ := hgated
      cases e with
      | restart cfg => exact ih (d := d.step (.restart cfg)) h hv hrest
      | call c env =>
          refine ih (d := d.step (.call c env)) (admission_serve h c env) ?_ hrest
          obtain ⟨past, hpending, -⟩ := pending_serve h.named c hrequired
            (fun auth hcall hadmin => happroves ⟨auth, env, by rw [hcall], hadmin⟩) env hv
          exact hpending.1

theorem heldBack_of_pending {d : Deployment} (h : Admission d.world) {v : String}
    (hrequired : d.cfg.requireApproval = true) (hv : ¬ Approved d.world v) : HeldBack d v := by
  refine ⟨?_, ?_, ?_, ?_, ?_⟩
  · intro j hj
    rw [← Bool.not_eq_true]
    exact fun hl => hv (h.onlyApproved.leases j hj v hl)
  · intro auth cert env response hreply
    obtain ⟨past, hpending, hended⟩ := pending_serve h.named (.jobsNext v auth cert)
      hrequired (fun _ hcall => by cases hcall) env hv
    obtain ⟨row, cap, job, hpolls, -⟩ := hended _ hreply
    have hunapproved := hpending.2 row hpolls.admitted.read
    rw [hpolls.approved] at hunapproved
    cases hunapproved
  · rintro req auth cert env rfl
    obtain ⟨past, hpending, hended⟩ := pending_serve h.named
      (.ingestProfile req auth cert) hrequired (fun _ hcall => by cases hcall) env hv
    cases hreply : (d.serve (.ingestProfile req auth cert) env).2 with
    | error failure => exact ⟨failure, rfl⟩
    | ok reply =>
        obtain ⟨row, compact, hadmitted, happroved, -⟩ := hended _ hreply
        have hunapproved := hpending.2 row hadmitted.read
        rw [happroved] at hunapproved
        cases hunapproved
  · exact fun hm => hv (h.onlyApproved.profiles v hm)
  · rintro req auth cert env reply rfl hreply
    obtain ⟨past, hpending, hended⟩ := pending_serve h.named
      (.heartbeat req auth cert) hrequired (fun _ hcall => by cases hcall) env hv
    obtain ⟨row, hadmitted, heq⟩ := hended _ hreply
    rw [heq, hpending.2 row hadmitted.read]

/-- The approval gate: device codes mark exactly the workers that are not
approved, a registration takes no approval away, and a worker that has no row, or
came to have one under the gate, is held back until it is approved. -/
theorem approval_gate (cfg : Config) (clock : Time) (events : List Event) :
    (∀ row ∈ (deploy cfg clock events).world.db.workers,
      (row.deviceCode ≠ none ↔ row.approved = false)) ∧
    (∀ body cert env v, Approved (deploy cfg clock events).world v →
      Approved ((deploy cfg clock events).serve (.register body cert) env).1 v) ∧
    ∀ earlier later v, events = earlier ++ later →
      (deploy cfg clock earlier).world.db.workers.find? v = none →
      Gated v (deploy cfg clock earlier) later → HeldBack (deploy cfg clock events) v := by
  have hadmission : ∀ es, Admission (deploy cfg clock es).world :=
    fun es => admission_after (admission_fresh clock) es
  refine ⟨?_, ?_, ?_⟩
  · intro row hrow
    exact (hadmission events).codes row.workerId row (Table.find?_of_mem hrow)
  · intro body cert env v hv
    exact approved_serve_register (hadmission events).named body cert env hv
  · rintro earlier later v rfl habsent hgated
    have hv : ¬ Approved (deploy cfg clock earlier).world v := by
      rintro ⟨row, hrow, -⟩
      rw [habsent] at hrow
      cases hrow
    obtain ⟨hpending, hrequired⟩ := pending_after (hadmission earlier) hv hgated
    have hafter : deploy cfg clock (earlier ++ later) = (deploy cfg clock earlier).after later :=
      Deployment.after_append _ _ _
    rw [← hafter] at hpending hrequired
    exact heldBack_of_pending (hadmission _) hrequired hpending

def firstRegistration : Event := .call (.register { workerId := "w" } none) (fun n => ([], n))

theorem approval_gate_first :
    HeldBack (deploy { requireApproval := true } 0 [firstRegistration]) "w" := by
  refine (approval_gate { requireApproval := true } 0 [firstRegistration]).2.2 []
    [firstRegistration] "w" rfl rfl ⟨rfl, ?_, rfl⟩
  rintro ⟨auth, env, heq, -⟩
  cases heq

end OneCompute
