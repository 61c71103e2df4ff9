import OneCompute.Orchestrator.WorkerRows

/-!
Trust tiers. The tier of a worker is an automaton of its own, driven by four
commands; the worker table refines it. From it follow where tiers come from, and
that nothing else in the system has an influence on them.
-/

namespace OneCompute

structure TierState where
  tier : String
  pinned : Bool
  deriving DecidableEq

def WorkerRow.tierState (row : WorkerRow) : TierState := ⟨row.trustTier, row.tierPinned⟩

def TierState.fresh : TierState := ⟨defaultTrustTier, false⟩

def TierState.derive (tier : String) (t : TierState) : TierState :=
  if t.pinned then t else ⟨tier, false⟩

/-- The tier of the worker `v` after a command, given the one before. -/
def tierAfter (v : String) (t : Option TierState) : Cmd → Option TierState
  | .enroll _ e => if e.capability.workerId = v then some (t.getD .fresh) else t
  | .applyDerivedTier u tier => if u = v then t.map (TierState.derive tier) else t
  | .assignTier u tier => if u = v then t.map (fun _ => ⟨tier, true⟩) else t
  | .removeWorker u _ => if u = v then none else t
  | _ => t

def tierOf (w : World) (v : String) : Option TierState :=
  (w.db.workers.find? v).map WorkerRow.tierState

theorem derive_tierState (tier : String) (row : WorkerRow) :
    (row.derive tier).tierState = row.tierState.derive tier := by
  by_cases hpin : row.tierPinned = true
  · simp [WorkerRow.derive, TierState.derive, WorkerRow.tierState, hpin]
  · simp [WorkerRow.derive, TierState.derive, WorkerRow.tierState, hpin]

theorem beat_tierState (m : Bool) (req : HeartbeatRequest) (now : Time) (row : WorkerRow) :
    (row.beat m req now).tierState = row.tierState := by
  cases m <;> rfl

theorem rowAfter_tierState (w : World) (v : String) (row : Option WorkerRow) (c : Cmd) :
    (rowAfter w v row c).map WorkerRow.tierState = tierAfter v (row.map WorkerRow.tierState) c := by
  cases c with
  | now | uuid4 | workerRow _ | activeWorkers | emit _ | reapExpired | insertJob _ => rfl
  | storeProfile _ _ _ | query => rfl
  | assignNext _ _ _ | approveWorker _ | settle _ _ _ => exact map_ite_frame (fun _ => rfl)
  | recordHeartbeat m req now => exact map_ite_frame (beat_tierState m req now)
  | enroll bind e =>
      simp only [rowAfter, tierAfter]
      by_cases hv : e.capability.workerId = v
      · cases row with
        | none =>
            have hok : (checkBinding bind none e.certFingerprint).isOk = true := by
              cases bind <;> rfl
            rw [if_pos ⟨hv, hok⟩, if_pos hv]
            rfl
        | some r =>
            rw [if_pos hv]
            split <;> rfl
      · rw [if_neg (fun h => hv h.1), if_neg hv]
  | applyDerivedTier u tier =>
      simp only [rowAfter, tierAfter]
      split
      · have hcomp : WorkerRow.tierState ∘ WorkerRow.derive tier =
            TierState.derive tier ∘ WorkerRow.tierState := funext (derive_tierState tier)
        rw [Option.map_map, Option.map_map, hcomp]
      · rfl
  | assignTier u tier =>
      simp only [rowAfter, tierAfter]
      split
      · rw [Option.map_map, Option.map_map]
        rfl
      · rfl
  | removeWorker u now =>
      simp only [rowAfter, tierAfter]
      split <;> rfl

/-- Every command moves every tier as the automaton does. -/
theorem tierOf_exec (c : Cmd) (input : Nat) (w : World) (v : String) :
    tierOf (exec c input w).1 v = tierAfter v (tierOf w v) c := by
  unfold tierOf
  rw [find?_exec, rowAfter_tierState]

/-- The commands of a run, in the order in which they were performed. -/
def commands (cfg : Config) (clock : Time) (ms : List Move) : List Cmd :=
  (runTrace cfg clock ms).map (·.cmd)

theorem commands_snoc (cfg : Config) (clock : Time) (ms : List Move) (m : Move) :
    commands cfg clock (ms ++ [m]) =
      commands cfg clock ms ++ ((performedAt cfg clock ms m).map (·.cmd)).toList := by
  rw [commands, runTrace_snoc, List.map_append, commands]
  cases performedAt cfg clock ms m <;> rfl

/-- In every run the worker table refines the tier automaton. -/
theorem run_tierOf (cfg : Config) (clock : Time) (ms : List Move) (v : String) :
    tierOf (run cfg clock ms).state v = (commands cfg clock ms).foldl (tierAfter v) none := by
  apply run_induction cfg clock
    (I := fun ms w => tierOf w v = (commands cfg clock ms).foldl (tierAfter v) none)
  · rfl
  · intro ms m p hp ih
    have hpost : tierOf (p.post (machine cfg)) v = tierAfter v (tierOf p.pre v) p.cmd :=
      tierOf_exec _ _ _ _
    rw [hpost, ih, commands_snoc, hp, List.foldl_append]
    rfl
  · intro ms t w ih
    have hquiet : commands cfg clock (ms ++ [.disturb t]) = commands cfg clock ms :=
      (commands_snoc cfg clock ms _).trans (List.append_nil _)
    rw [hquiet]
    exact ih
  · intro ms m w hm ih
    rw [commands_snoc, hm]
    simpa using ih

/-! ## Provenance in the automaton -/

/-- The command is not one that pins or removes the tier of `v`. -/
def KeepsPin (v : String) (c : Cmd) : Prop :=
  (∀ tier, c ≠ .assignTier v tier) ∧ ∀ now, c ≠ .removeWorker v now

/-- A pinned tier is the one that was last assigned, and an unpinned one is the
default or was derived. -/
structure TierOrigin (v : String) (cs : List Cmd) (t : TierState) : Prop where
  assigned : t.pinned = true → ∃ before after, cs = before ++ .assignTier v t.tier :: after ∧
    ∀ c ∈ after, KeepsPin v c
  derived : t.pinned = false → t.tier = defaultTrustTier ∨ .applyDerivedTier v t.tier ∈ cs

theorem TierOrigin.keep {v : String} {cs : List Cmd} {t : TierState} {c : Cmd}
    (h : TierOrigin v cs t) (hc : KeepsPin v c) : TierOrigin v (cs ++ [c]) t where
  assigned hpin := by
    obtain ⟨before, after, rfl, hafter⟩ := h.assigned hpin
    refine ⟨before, after ++ [c], by simp, ?_⟩
    intro c' hc'
    cases List.mem_append.mp hc' with
    | inl hold => exact hafter c' hold
    | inr hnew =>
        obtain rfl := List.mem_singleton.mp hnew
        exact hc
  derived hpin := by
    cases h.derived hpin with
    | inl hdefault => exact .inl hdefault
    | inr hmem => exact .inr (List.mem_append_left _ hmem)

theorem tierOrigin_fresh (v : String) (cs : List Cmd) : TierOrigin v cs .fresh where
  assigned hpin := by cases hpin
  derived _ := .inl rfl

theorem tierOrigin_derived (v tier : String) (cs : List Cmd) :
    TierOrigin v (cs ++ [.applyDerivedTier v tier]) ⟨tier, false⟩ where
  assigned hpin := by cases hpin
  derived _ := .inr (List.mem_append_right _ (List.mem_singleton_self _))

theorem tierOrigin_assigned (v tier : String) (cs : List Cmd) :
    TierOrigin v (cs ++ [.assignTier v tier]) ⟨tier, true⟩ where
  assigned _ := ⟨cs, [], rfl, fun _ h => absurd h List.not_mem_nil⟩
  derived hpin := by cases hpin

/-- One command: a tier that is there afterwards was kept, or comes from it. -/
theorem tierOrigin_after {v : String} {cs : List Cmd} {old : Option TierState} {c : Cmd}
    {t : TierState} (h : ∀ s, old = some s → TierOrigin v cs s)
    (ht : tierAfter v old c = some t) : TierOrigin v (cs ++ [c]) t := by
  cases c with
  | enroll bind e =>
      have hkeep : KeepsPin v (.enroll bind e) := ⟨nofun, nofun⟩
      simp only [tierAfter] at ht
      split at ht
      next =>
        cases old with
        | none =>
            cases ht
            exact tierOrigin_fresh v _
        | some s =>
            cases ht
            exact (h _ rfl).keep hkeep
      next => exact (h t ht).keep hkeep
  | applyDerivedTier u tier =>
      have hkeep : KeepsPin v (.applyDerivedTier u tier) := ⟨nofun, nofun⟩
      simp only [tierAfter] at ht
      split at ht
      next huv =>
        subst huv
        cases old with
        | none => cases ht
        | some s =>
            simp only [Option.map_some, Option.some.injEq, TierState.derive] at ht
            split at ht
            next =>
              subst ht
              exact (h _ rfl).keep hkeep
            next =>
              subst ht
              exact tierOrigin_derived u tier cs
      next => exact (h t ht).keep hkeep
  | assignTier u tier =>
      simp only [tierAfter] at ht
      split at ht
      next huv =>
        subst huv
        cases old with
        | none => cases ht
        | some s =>
            cases ht
            exact tierOrigin_assigned u tier cs
      next huv =>
        refine (h t ht).keep ⟨?_, nofun⟩
        intro tier' heq
        exact huv (Cmd.assignTier.inj heq).1
  | removeWorker u now =>
      simp only [tierAfter] at ht
      split at ht
      next => cases ht
      next huv =>
        refine (h t ht).keep ⟨nofun, ?_⟩
        intro now' heq
        exact huv (Cmd.removeWorker.inj heq).1
  | _ => exact (h t ht).keep ⟨nofun, nofun⟩

theorem foldl_tierOrigin (v : String) (cs : List Cmd) :
    ∀ t, cs.foldl (tierAfter v) none = some t → TierOrigin v cs t := by
  induction cs using List.reverseRecOn with
  | nil => exact fun t ht => by cases ht
  | append_singleton cs c ih =>
      intro t ht
      rw [List.foldl_append] at ht
      exact tierOrigin_after ih ht

/-! ## Provenance in a run -/

/-- An admin-authorised call put the tier on `v`. -/
structure AdminSet (cfg : Config) (p : Performed) (v tier : String) : Prop where
  cmd : p.cmd = .assignTier v tier
  authorised : ∃ auth, p.call = .setTier v tier auth ∧ AdminAdmits cfg auth

/-- A registration of `v` carried an attestation that names `v`, is signed by the
configured authority, had not expired when the clock was read, and yields the tier. -/
structure Attested (cfg : Config) (before : List Performed) (p : Performed) (v tier : String) :
    Prop where
  cmd : p.cmd = .applyDerivedTier v tier
  attested : ∃ body cert att now key, p.call = .register body cert ∧ body.workerId = v ∧
    body.attestation = some att ∧ tier = deriveTier att ∧
    (∃ q ∈ before, q.thread = p.thread ∧ q.answered (machine cfg) = ⟨.now, now⟩) ∧
    cfg.attestationPubkey = some key ∧ key ≠ "" ∧ att.workerId = v ∧ expired att now = false ∧
    cfg.ed25519 key att.signature (canonicalClaimsBytes att) = true

theorem admitted_workerId (body : Capability) : body.admitted.workerId = body.workerId := by
  unfold Capability.admitted
  split <;> rfl

theorem admitted_attestation {body : Capability} {att : DeviceAttestation}
    (h : body.admitted.attestation = some att) :
    body.measurementOnly = false ∧ body.attestation = some att := by
  unfold Capability.admitted at h
  split at h
  next => cases h
  next hm => exact ⟨by simpa using hm, h⟩

theorem adminSet_of_trace {cfg : Config} {clock : Time} {ms : List Move}
    {before after : List Performed} {p : Performed} {v tier : String}
    (h : runTrace cfg clock ms = before ++ p :: after) (hc : p.cmd = .assignTier v tier) :
    AdminSet cfg p v tier := by
  obtain ⟨_, m, _, -, hp, -⟩ := Interleaving.trace_split h
  have hissued := (run_issued hp).1
  rw [hc] at hissued
  obtain ⟨auth, hcall, hadmin, -⟩ := hissued
  exact ⟨hc, auth, hcall, hadmin⟩

theorem attested_of_trace {cfg : Config} {clock : Time} {ms : List Move}
    {before after : List Performed} {p : Performed} {v tier : String}
    (h : runTrace cfg clock ms = before ++ p :: after) (hc : p.cmd = .applyDerivedTier v tier) :
    Attested cfg before p v tier := by
  obtain ⟨prior, m, _, -, hp, hbefore⟩ := Interleaving.trace_split h
  obtain ⟨hissued, hsaw⟩ := run_issued hp
  rw [hc] at hissued
  obtain ⟨body, cert, att, now, hcall, hworker, hatt, hnow, hverified, htier⟩ := hissued
  obtain ⟨key, hkey, hkey', hnamed, hlive, hsigned⟩ := verifyAttestation_sound hverified
  obtain ⟨q, hq, hthread, -, hanswer⟩ := hsaw _ _ hnow
  rw [admitted_workerId] at hworker
  have hq' : q ∈ before := hbefore ▸ hq
  exact ⟨hc, body, cert, att, now, key, hcall, hworker, (admitted_attestation hatt).2, htier,
    ⟨q, hq', hthread, hanswer⟩, hkey, hkey', hnamed, hlive, hsigned⟩

/-- Split the trace where its commands are split. -/
theorem commands_split {cfg : Config} {clock : Time} {ms : List Move} {before after : List Cmd}
    {c : Cmd} (h : commands cfg clock ms = before ++ c :: after) : ∃ done p rest,
      runTrace cfg clock ms = done ++ p :: rest ∧ p.cmd = c ∧ rest.map (·.cmd) = after := by
  obtain ⟨done, tail, htrace, -, htail⟩ := List.map_eq_append_iff.mp h
  obtain ⟨p, rest, rfl, hp, hrest⟩ := List.map_eq_cons_iff.mp htail
  exact ⟨done, p, rest, htrace, hp, hrest⟩

theorem run_tierOrigin {cfg : Config} {clock : Time} {ms : List Move} {v : String} {row : WorkerRow}
    (hrow : (run cfg clock ms).state.db.workers.find? v = some row) :
    TierOrigin v (commands cfg clock ms) row.tierState := by
  apply foldl_tierOrigin
  rw [← run_tierOf, tierOf, hrow]
  rfl

/-- A pinned tier is the one most recently set by an admin. -/
theorem run_pinned {cfg : Config} {clock : Time} {ms : List Move} {v : String} {row : WorkerRow}
    (hrow : (run cfg clock ms).state.db.workers.find? v = some row) (hpin : row.tierPinned = true) :
    ∃ before p after, runTrace cfg clock ms = before ++ p :: after ∧
      AdminSet cfg p v row.trustTier ∧ ∀ q ∈ after, KeepsPin v q.cmd := by
  obtain ⟨_, _, hsplit, hafter⟩ := (run_tierOrigin hrow).assigned hpin
  obtain ⟨done, p, rest, htrace, hp, rfl⟩ := commands_split hsplit
  exact ⟨done, p, rest, htrace, adminSet_of_trace htrace hp,
    fun q hq => hafter q.cmd (List.mem_map_of_mem hq)⟩

/-- Every tier but the default was set by an admin or derived from an attestation. -/
theorem run_provenance {cfg : Config} {clock : Time} {ms : List Move} {v : String} {row : WorkerRow}
    (hrow : (run cfg clock ms).state.db.workers.find? v = some row)
    (htier : row.trustTier ≠ defaultTrustTier) :
    ∃ before p after, runTrace cfg clock ms = before ++ p :: after ∧
      (AdminSet cfg p v row.trustTier ∨ Attested cfg before p v row.trustTier) := by
  cases hpin : row.tierPinned with
  | true =>
      obtain ⟨before, p, after, htrace, hset, -⟩ := run_pinned hrow hpin
      exact ⟨before, p, after, htrace, .inl hset⟩
  | false =>
      cases (run_tierOrigin hrow).derived hpin with
      | inl hdefault => exact absurd hdefault htier
      | inr hmem =>
          obtain ⟨_, _, hsplit⟩ := List.append_of_mem hmem
          obtain ⟨done, p, rest, htrace, hp, -⟩ := commands_split hsplit
          exact ⟨done, p, rest, htrace, .inr (attested_of_trace htrace hp)⟩

/-- A registration leaves the tier of every row there is alone, when the row is
pinned or no authority is configured. -/
theorem register_keepsTier {cfg : Config} {clock : Time} {ms : List Move} {m : Move} {p : Performed}
    {body : Capability} {cert : Option String} {v : String} {t : TierState}
    (hp : performedAt cfg clock ms m = some p) (hcall : p.call = .register body cert)
    (ht : tierOf p.pre v = some t) (h : t.pinned = true ∨ cfg.attestationPubkey.getD "" = "") :
    tierOf (p.post (machine cfg)) v = some t := by
  have hpost : tierOf (p.post (machine cfg)) v = tierAfter v (tierOf p.pre v) p.cmd :=
    tierOf_exec _ _ _ _
  have hissued := (run_issued hp).1
  rw [hpost, ht]
  cases hc : p.cmd with
  | enroll bind e => simp [tierAfter]
  | applyDerivedTier u tier =>
      rw [hc] at hissued
      obtain ⟨_, _, _, _, _, _, _, _, hverified, _⟩ := hissued
      obtain ⟨key, hkey, hkey', -⟩ := verifyAttestation_sound hverified
      have hpin : t.pinned = true := by
        cases h with
        | inl hpin => exact hpin
        | inr hnone => exact absurd (by simpa [hkey] using hnone) hkey'
      simp [tierAfter, TierState.derive, hpin]
  | assignTier u tier =>
      rw [hc] at hissued
      obtain ⟨_, hcall', _⟩ := hissued
      cases hcall.symm.trans hcall'
  | removeWorker u now =>
      rw [hc] at hissued
      obtain ⟨_, hcall', _⟩ := hissued
      cases hcall.symm.trans hcall'
  | _ => rfl

end OneCompute
