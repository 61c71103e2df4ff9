import OneCompute.Orchestrator.Removal

/-!
Erasure of telemetry. Profile ingest checks the worker's row in one section and
writes the profile in another. Profiles belong to approved workers, and a removal
erases for good, exactly in the runs in which the row is still there and approved
when the profile is written.
-/

namespace OneCompute

def Approved (w : World) (v : String) : Prop :=
  ∃ row, w.db.workers.find? v = some row ∧ row.approved = true

/-- A profile of `v` is among those that the measurement endpoint aggregates. -/
def Measured (w : World) (v : String) : Prop := w.db.profiles.find? v ≠ none

/-- Every profile belongs to a worker that exists and is approved. -/
def ProfilesOwned (w : World) : Prop :=
  ∀ r ∈ w.db.profiles, Approved w r.workerId

/-- When the command writes a profile, its worker still has an approved row. -/
def FreshIngest (p : Performed) : Prop :=
  ∀ v compact now, p.cmd = .storeProfile v compact now → Approved p.pre v

/-! ## The profile of one worker -/

theorem settle_profiles (jobId : String) (req : ResultRequest) (now : Time) (db : Db) :
    (settle jobId req now db).db.profiles = db.profiles := by
  have hc := settle_cases jobId req now db
  generalize settle jobId req now db = out at hc ⊢
  cases hc <;> rfl

theorem recordHeartbeat_profiles (m : Bool) (req : HeartbeatRequest) (now clock : Time) (db : Db) :
    (recordHeartbeat m req now clock db).profiles = db.profiles := by
  unfold recordHeartbeat
  dsimp only
  split
  · split <;> rfl
  · rfl

/-- All that a command can do to the profile of `v`. -/
inductive ProfileChange (v : String) (row : Option ProfileRow) (c : Cmd) :
    Option ProfileRow → Prop where
  | same : ProfileChange v row c row
  | stored (compact : CompactProfile) (now : Time) : c = .storeProfile v compact now →
      ProfileChange v row c
        (some (row.elim (.of v compact now) (ProfileRow.of v compact now).replacedBy))
  | erased (now : Time) : c = .removeWorker v now → ProfileChange v row c none

theorem find?_storeProfile (u : String) (compact : CompactProfile) (now : Time) (db : Db)
    (v : String) : ProfileChange v (db.profiles.find? v) (.storeProfile u compact now)
      ((storeProfile u compact now db).profiles.find? v) := by
  have hfind : (storeProfile u compact now db).profiles.find? v =
      if u = v then some ((db.profiles.find? v).elim (.of u compact now)
        (ProfileRow.of u compact now).replacedBy)
      else db.profiles.find? v := Table.find?_upsert _ _ _ _ _
  rw [hfind]
  by_cases huv : u = v
  · subst huv
    rw [if_pos rfl]
    exact .stored compact now rfl
  · rw [if_neg huv]
    exact .same

theorem find?_removeProfile (u : String) (now : Time) (db : Db) (v : String) :
    ProfileChange v (db.profiles.find? v) (.removeWorker u now)
      ((removeWorker u now db).profiles.find? v) := by
  have hfind : (removeWorker u now db).profiles.find? v =
      (db.profiles.find? v).filter (fun r => !decide (r.workerId = u)) := Table.find?_delete _ _ _
  rw [hfind]
  cases hrow : db.profiles.find? v with
  | none => exact .same
  | some row =>
      have hid : row.workerId = v := (Table.find?_eq_some.mp hrow).2
      by_cases huv : u = v
      · subst huv
        simp only [Option.filter, hid, decide_true, Bool.not_true, Bool.false_eq_true, if_false]
        exact .erased now rfl
      · have hvu : v ≠ u := Ne.symm huv
        simp only [Option.filter, hid, hvu, decide_false, Bool.not_false, if_true]
        exact .same

theorem profileChange_exec (c : Cmd) (input : Nat) (w : World) (v : String) :
    ProfileChange v (w.db.profiles.find? v) c ((exec c input w).1.db.profiles.find? v) := by
  change ProfileChange v _ c ((emitAll _ _ _).profiles.find? v)
  rw [emitAll_profiles]
  have hsame : (runCommand input w c).db.profiles = w.db.profiles →
      ProfileChange v (w.db.profiles.find? v) c
        ((runCommand input w c).db.profiles.find? v) := by
    intro h
    rw [h]
    exact .same
  cases c with
  | now | uuid4 | workerRow _ | activeWorkers | emit _ | query => exact hsame rfl
  | reapExpired | approveWorker _ | assignTier _ _ => exact hsame rfl
  | storeProfile u compact now => exact find?_storeProfile u compact now w.db v
  | removeWorker u now => exact find?_removeProfile u now w.db v
  | enroll bind e =>
      apply hsame
      rcases enroll_cases bind e w.db with ⟨failure, -, heq⟩ | ⟨-, heq⟩ <;>
        simp only [runCommand, heq, enrolled]
  | applyDerivedTier u tier =>
      apply hsame
      rcases applyDerivedTier_cases u tier w.db with ⟨heq, -⟩ | ⟨row, -, -, heq⟩ <;>
        simp only [runCommand, heq, Db.updateWorker]
  | insertJob s =>
      apply hsame
      rcases insertJob_cases s w.db with ⟨failure, heq⟩ | ⟨jobs, -, -, -, heq⟩ <;>
        simp only [runCommand, heq]
  | assignNext u cap free =>
      apply hsame
      have hc := assignNext_cases u cap free w.clock w.db
      simp only [runCommand]
      generalize assignNext u cap free w.clock w.db = out at hc ⊢
      cases hc <;> rfl
  | recordHeartbeat m req now => exact hsame (recordHeartbeat_profiles m req now w.clock w.db)
  | settle jobId req now => exact hsame (settle_profiles jobId req now w.db)

/-! ## Approval is lost by removal only -/

theorem approved_change {w : World} {v : String} {row : WorkerRow} {c : Cmd}
    {new : Option WorkerRow} (h : RowChange w v (some row) c new) (happroved : row.approved = true) :
    (∃ now, c = .removeWorker v now) ∨ ∃ row', new = some row' ∧ row'.approved = true := by
  cases h with
  | same => exact .inr ⟨row, rfl, happroved⟩
  | removed now hc => exact .inl ⟨now, hc⟩
  | enrolled bind e hc hv hok =>
      refine .inr ⟨_, rfl, ?_⟩
      change (row.approved || e.approved) = true
      rw [happroved]
      rfl
  | derived tier old _ hold =>
      cases hold
      refine .inr ⟨_, rfl, ?_⟩
      unfold WorkerRow.derive
      split <;> exact happroved
  | granted _ _ old _ _ hold => cases hold; exact .inr ⟨_, rfl, happroved⟩
  | beat m req now old _ _ hold =>
      cases hold
      refine .inr ⟨_, rfl, ?_⟩
      cases m <;> exact happroved
  | admitted old _ hold => exact .inr ⟨_, rfl, rfl⟩
  | pinned tier old _ hold => cases hold; exact .inr ⟨_, rfl, happroved⟩
  | blacklisted _ _ _ old _ _ _ hold => cases hold; exact .inr ⟨_, rfl, happroved⟩

theorem approved_exec {w : World} {v : String} (h : Approved w v) (c : Cmd) (input : Nat) :
    (∃ now, c = .removeWorker v now) ∨ Approved (exec c input w).1 v := by
  obtain ⟨row, hrow, happroved⟩ := h
  have hc := rowChange_exec c input w v
  rw [hrow] at hc
  exact approved_change hc happroved

/-! ## Runs -/

theorem profilesOwned_iff {w : World} : ProfilesOwned w ↔ ∀ v, Measured w v → Approved w v := by
  constructor
  · intro h v hv
    obtain ⟨r, hr⟩ := Option.ne_none_iff_exists'.mp hv
    obtain ⟨hmem, rfl⟩ := Table.find?_eq_some.mp hr
    exact h r hmem
  · intro h r hr
    apply h r.workerId
    rw [Measured, Table.find?_of_mem hr]
    exact Option.some_ne_none r

/-- The command writes a profile of `v`. -/
def Stores (p : Performed) (v : String) : Prop :=
  ∃ compact now, p.cmd = .storeProfile v compact now

theorem measured_exec {c : Cmd} {input : Nat} {w : World} {v : String}
    (h : Measured (exec c input w).1 v) :
    (∃ compact now, c = .storeProfile v compact now) ∨ Measured w v := by
  have hc := profileChange_exec c input w v
  unfold Measured at h
  generalize (exec c input w).1.db.profiles.find? v = new at hc h
  cases hc with
  | same => exact .inr h
  | stored compact now hc => exact .inl ⟨compact, now, hc⟩
  | erased now hc => exact absurd rfl h

theorem stores_post {cfg : Config} {p : Performed} {v : String} (h : Stores p v) :
    Measured (p.post (machine cfg)) v := by
  obtain ⟨compact, now, hcmd⟩ := h
  change (exec p.cmd p.input p.pre).1.db.profiles.find? v ≠ none
  rw [hcmd]
  change (storeProfile v compact now p.pre.db).profiles.find? v ≠ none
  intro hnone
  have hfind : (storeProfile v compact now p.pre.db).profiles.find? v =
      if v = v then some ((p.pre.db.profiles.find? v).elim (.of v compact now)
        (ProfileRow.of v compact now).replacedBy)
      else p.pre.db.profiles.find? v := Table.find?_upsert _ _ _ _ _
  rw [hfind, if_pos rfl] at hnone
  cases hnone

theorem removeWorker_erases (v : String) (now : Time) (input : Nat) (w : World) :
    ¬ Measured (exec (.removeWorker v now) input w).1 v := by
  intro hm
  apply hm
  apply Table.find?_eq_none.mpr
  intro r hr
  simpa using (Table.mem_delete.mp hr).2

theorem removes_erases {cfg : Config} {p : Performed} {v : String} (h : Removes p v) :
    ¬ Measured (p.post (machine cfg)) v := by
  obtain ⟨now, hcmd⟩ := h
  change ¬ Measured (exec p.cmd p.input p.pre).1 v
  rw [hcmd]
  exact removeWorker_erases v now p.input p.pre

theorem profilesOwned_post {cfg : Config} {p : Performed} (h : ProfilesOwned p.pre)
    (hfresh : FreshIngest p) : ProfilesOwned (p.post (machine cfg)) := by
  rw [profilesOwned_iff] at h ⊢
  intro v hv
  have hbefore : Approved p.pre v := by
    cases measured_exec hv with
    | inl hstores =>
        obtain ⟨compact, now, hcmd⟩ := hstores
        exact hfresh v compact now hcmd
    | inr hpre => exact h v hpre
  cases approved_exec hbefore p.cmd p.input with
  | inl hremoves => exact absurd hv (removes_erases hremoves)
  | inr happroved => exact happroved

theorem run_profilesOwned {cfg : Config} {clock : Time} (ms : List Move)
    (h : ∀ p ∈ runTrace cfg clock ms, FreshIngest p) :
    ProfilesOwned (run cfg clock ms).state := by
  have hrun := run_induction cfg clock
    (I := fun ms w => (∀ p ∈ runTrace cfg clock ms, FreshIngest p) → ProfilesOwned w)
    ?_ ?_ ?_ ?_ ms
  · exact hrun h
  · exact fun _ r hr => absurd hr (Table.not_mem_empty r)
  · intro ms m p hp ih h
    rw [runTrace_snoc, hp] at h
    exact profilesOwned_post (ih fun q hq => h q (List.mem_append_left _ hq))
      (h p (List.mem_append_right _ (List.mem_singleton_self _)))
  · intro ms t w ih h
    rw [runTrace_snoc] at h
    exact ih fun q hq => h q (List.mem_append_left _ hq)
  · intro ms m w _ ih h
    rw [runTrace_snoc] at h
    exact ih fun q hq => h q (List.mem_append_left _ hq)

/-- A device that was removed is measured only after it has registered again and
then, approved, uploaded again. -/
def ErasureLasts (trace : List Performed) (w : World) : Prop :=
  ∀ v before q after, trace = before ++ q :: after → Removes q v → Measured w v →
    ∃ between s rest, after = between ++ s :: rest ∧ (∃ e ∈ between, Enrolls e v) ∧
      Stores s v ∧ Approved s.pre v

theorem run_erasureLasts {cfg : Config} {clock : Time} {ms : List Move}
    (h : ∀ p ∈ runTrace cfg clock ms, FreshIngest p) :
    ErasureLasts (runTrace cfg clock ms) (run cfg clock ms).state := by
  intro v before q after hsplit hq hmeasured
  have hsince := Interleaving.trace_since (J := fun w => ¬ Measured w v)
    (X := fun p => Stores p v) hsplit (removes_erases hq)
    (fun p hpre => by
      by_cases hpost : Measured (p.post (machine cfg)) v
      · exact .inr ((measured_exec hpost).resolve_right hpre)
      · exact .inl hpost)
    (fun _ _ hx => hx)
  obtain ⟨s, hs, hstores⟩ := hsince.resolve_left (not_not_intro hmeasured)
  obtain ⟨between, rest, rfl⟩ := List.append_of_mem hs
  have hsplit' : runTrace cfg clock ms = (before ++ q :: between) ++ s :: rest := by
    rw [hsplit]
    simp
  obtain ⟨prior, m, later, rfl, hperf, hprior⟩ := Interleaving.trace_split hsplit'
  have happroved : Approved s.pre v := by
    obtain ⟨compact, now, hcmd⟩ := hstores
    refine h s ?_ v compact now hcmd
    rw [hsplit']
    simp
  have hpre : s.pre = (run cfg clock prior).state := Interleaving.performed_pre hperf
  have hthere : (run cfg clock prior).state.db.workers.find? v ≠ none := by
    obtain ⟨row, hrow, -⟩ := happroved
    rw [← hpre, hrow]
    exact Option.some_ne_none row
  exact ⟨between, s, rest, rfl, enrolled_since hprior hq hthere, hstores, happroved⟩

/-- Profiles belong to approved workers and erasures last throughout a run exactly
if every profile in it is written while its worker's row is there and approved. -/
theorem run_erasure_iff (cfg : Config) (clock : Time) (ms : List Move) :
    (∀ p ∈ runTrace cfg clock ms, FreshIngest p) ↔
      ∀ before after, ms = before ++ after → ProfilesOwned (run cfg clock before).state ∧
        ErasureLasts (runTrace cfg clock before) (run cfg clock before).state := by
  constructor
  · rintro h before after rfl
    have hprior : ∀ p ∈ runTrace cfg clock before, FreshIngest p :=
      fun p hp => h p (runTrace_mono hp after)
    exact ⟨run_profilesOwned before hprior, run_erasureLasts hprior⟩
  · intro h p hp v compact now hcmd
    obtain ⟨before, m, after, rfl, hperf⟩ := Interleaving.mem_trace hp
    have hpost : (run cfg clock (before ++ [m])).state = p.post (machine cfg) := run_post hperf
    have howned := (h (before ++ [m]) after (by simp)).1
    rw [hpost, profilesOwned_iff] at howned
    obtain ⟨row', hrow', happroved⟩ := howned v (stores_post ⟨compact, now, hcmd⟩)
    change (exec p.cmd p.input p.pre).1.db.workers.find? v = some row' at hrow'
    rw [find?_exec, hcmd] at hrow'
    exact ⟨row', hrow', happroved⟩

/-- The ingest of a profile has passed its checks when the worker is deleted. -/
def staleIngest : List Move :=
  serve 0 4 (.register { workerId := "w" } none) ++
  [.spawn (.ingestProfile { workerId := "w" } (some ("Bearer " ++ PyText.uuidHex 0)) none),
    .run 1 0, .run 1 0] ++
  serve 2 4 (.disconnectWorker "w" none) ++
  [.run 1 0]

set_option maxRecDepth 20000 in
/-- The erased profile is back, and its worker is gone. -/
theorem staleIngest_measured :
    ∃ r ∈ (run {} 0 staleIngest).state.db.profiles.rows, r.workerId = "w" ∧
      ((run {} 0 staleIngest).state.db.workers.find? "w").isNone = true := by
  decide +kernel

end OneCompute
