import OneCompute.Orchestrator.JobRows

/-!
Removal and blacklisting. A poll hands out a job on the strength of a row that
it read before it took the lock. Leases belong to workers in good standing, and
removals are final, exactly in the runs in which no such row went stale before
the job was handed out.
-/

namespace OneCompute

/-- The worker has a row, is approved and is not blacklisted. -/
def GoodStanding (w : World) (v : String) : Prop :=
  ∃ row, w.db.workers.find? v = some row ∧ row.approved = true ∧ row.blacklisted = false

/-- Every leased job is held by a worker in good standing. -/
def LeasesHeld (w : World) : Prop :=
  ∀ j ∈ w.db.jobs, j.state = .leased → ∃ v, j.assignedWorker = some v ∧ GoodStanding w v

/-- When the command hands out a job, the row that let the poll through is not stale. -/
def NotStale (p : Performed) : Prop :=
  ∀ v cap free, p.cmd = .assignNext v cap free → FindsJob p.pre v cap free → GoodStanding p.pre v

/-! ## What a command does to the standing of a worker -/

/-- The command removes the row of `v`, or blacklists `v`. -/
inductive Ousts (w : World) (v : String) : Cmd → Prop where
  | removed (now : Time) : Ousts w v (.removeWorker v now)
  | blacklisted (jobId : String) (req : ResultRequest) (now : Time) : req.workerId = v →
      blacklists (settle jobId req now w.db).answer = true → Ousts w v (.settle jobId req now)

theorem standing_ite {p : Prop} [Decidable p] {row : WorkerRow} {f : WorkerRow → WorkerRow}
    (ha : row.approved = true → (f row).approved = true)
    (hb : (f row).blacklisted = row.blacklisted) (happroved : row.approved = true)
    (hblack : row.blacklisted = false) :
    ∃ row', (if p then (some row).map f else some row) = some row' ∧ row'.approved = true ∧
      row'.blacklisted = false := by
  by_cases hp : p
  · exact ⟨f row, by rw [if_pos hp]; rfl, ha happroved, hb.trans hblack⟩
  · exact ⟨row, by rw [if_neg hp], happroved, hblack⟩

/-- Good standing is lost by removal and by blacklisting only. -/
theorem goodStanding_exec {w : World} {v : String} (h : GoodStanding w v) (c : Cmd) (input : Nat) :
    GoodStanding (exec c input w).1 v ∨ Ousts w v c := by
  obtain ⟨row, hrow, happroved, hblack⟩ := h
  unfold GoodStanding
  rw [find?_exec, hrow]
  cases c with
  | now | uuid4 | workerRow _ | activeWorkers | emit _ | reapExpired | insertJob _ =>
      exact .inl ⟨row, rfl, happroved, hblack⟩
  | storeProfile _ _ _ | query => exact .inl ⟨row, rfl, happroved, hblack⟩
  | assignNext _ _ _ | assignTier _ _ =>
      exact .inl (standing_ite (fun h => h) rfl happroved hblack)
  | approveWorker _ => exact .inl (standing_ite (fun _ => rfl) rfl happroved hblack)
  | recordHeartbeat m req now =>
      refine .inl (standing_ite ?_ ?_ happroved hblack) <;> cases m
      · exact fun h => h
      · exact fun h => h
      · rfl
      · rfl
  | applyDerivedTier u tier =>
      refine .inl (standing_ite ?_ ?_ happroved hblack)
      · unfold WorkerRow.derive
        split <;> exact fun h => h
      · unfold WorkerRow.derive
        split <;> rfl
  | enroll bind e =>
      left
      simp only [rowAfter]
      split
      · refine ⟨_, rfl, ?_, hblack⟩
        change (row.approved || e.approved) = true
        rw [happroved]
        rfl
      · exact ⟨row, rfl, happroved, hblack⟩
  | removeWorker u now =>
      by_cases huv : u = v
      · subst huv
        exact .inr (.removed now)
      · simp only [rowAfter, if_neg huv]
        exact .inl ⟨row, rfl, happroved, hblack⟩
  | settle jobId req now =>
      by_cases hp : req.workerId = v ∧ blacklists (settle jobId req now w.db).answer = true
      · exact .inr (.blacklisted jobId req now hp.1 hp.2)
      · simp only [rowAfter, if_neg hp]
        exact .inl ⟨row, rfl, happroved, hblack⟩

theorem removeWorker_leases (v : String) (now : Time) (input : Nat) (w : World) :
    ∀ j ∈ (exec (.removeWorker v now) input w).1.db.jobs, j.leasedTo v = false := by
  intro j' hj'
  obtain ⟨j, -, rfl⟩ := mem_requeue.mp hj'
  split
  next => exact requeued_not_leased now j v
  next hp => simpa using hp

/-- A worker that is removed or blacklisted keeps no lease. -/
theorem ousts_lease {w : World} (hs : StoreInv w.db) {v : String} {c : Cmd} (h : Ousts w v c)
    (input : Nat) : ∀ j ∈ (exec c input w).1.db.jobs, j.leasedTo v = false := by
  cases h with
  | removed now => exact removeWorker_leases v now input w
  | blacklisted jobId req now hv hblack =>
      subst hv
      intro j' hj'
      have hjobs : (exec (.settle jobId req now) input w).1.db.jobs =
          (settle jobId req now w.db).db.jobs := emitAll_jobs _ _ _
      obtain ⟨⟨job, held⟩, heq⟩ := blacklists_cheated hblack
      rw [hjobs, heq] at hj'
      obtain ⟨j, hj, rfl⟩ := mem_requeue.mp hj'
      split
      next => exact requeued_not_leased now j req.workerId
      next hp =>
        -- the job of the result is the only one the worker can hold
        obtain ⟨hmem, hid⟩ := Table.find?_eq_some.mp held.found
        by_contra hl
        rw [Bool.not_eq_false] at hl
        have hsame : j = job := hs.oneLease j hj job hmem req.workerId hl held.leased
        apply hp
        rw [hl, hsame, hid]
        simp

/-! ## Runs -/

def Held (w : World) : Prop := ∀ j ∈ w.db.jobs, ∀ v, j.leasedTo v = true → GoodStanding w v

theorem held_iff {w : World} (hs : StoreInv w.db) : Held w ↔ LeasesHeld w := by
  constructor
  · intro h j hj hstate
    cases hv : j.assignedWorker with
    | none =>
        rw [(hs.jobs j hj).assigned.mp hv] at hstate
        cases hstate
    | some v => exact ⟨v, rfl, h j hj v (leasedTo_iff.mpr ⟨hstate, hv⟩)⟩
  · intro h j hj v hl
    obtain ⟨hstate, hv⟩ := leasedTo_iff.mp hl
    obtain ⟨u, hu, hgood⟩ := h j hj hstate
    obtain rfl : v = u := Option.some.inj (hv.symm.trans hu)
    exact hgood

/-- One command keeps leases with workers in good standing, if it does not act on
a stale row. -/
theorem held_exec {p : Performed} {cfg : Config} (hs : StoreInv p.pre.db) (h : Held p.pre)
    (hfresh : NotStale p) : Held (p.post (machine cfg)) := by
  intro j' hj' v hl
  have hbefore : GoodStanding p.pre v := by
    rcases leased_exec hj' hl with ⟨j, hj, -, hjv⟩ | ⟨cap, free, hcmd, hfinds⟩
    · exact h j hj v hjv
    · exact hfresh v cap free hcmd hfinds
  cases goodStanding_exec hbefore p.cmd p.input with
  | inl hgood => exact hgood
  | inr houst =>
      have hnone := ousts_lease hs houst p.input j' hj'
      rw [hnone] at hl
      cases hl

theorem run_held {cfg : Config} {clock : Time} (ms : List Move)
    (h : ∀ p ∈ runTrace cfg clock ms, NotStale p) : Held (run cfg clock ms).state := by
  have hrun := run_induction cfg clock
    (I := fun ms w => (∀ p ∈ runTrace cfg clock ms, NotStale p) → Held w) ?_ ?_ ?_ ?_ ms
  · exact hrun h
  · exact fun _ j hj => absurd hj (Table.not_mem_empty j)
  · intro ms m p hp ih h
    rw [runTrace_snoc, hp] at h
    have hs : StoreInv p.pre.db := (storeInv_invariant cfg).pre storeInv_empty hp
    exact held_exec hs (ih fun q hq => h q (List.mem_append_left _ hq))
      (h p (List.mem_append_right _ (List.mem_singleton_self _)))
  · intro ms t w ih h
    rw [runTrace_snoc] at h
    exact ih fun q hq => h q (List.mem_append_left _ hq)
  · intro ms m w _ ih h
    rw [runTrace_snoc] at h
    exact ih fun q hq => h q (List.mem_append_left _ hq)

/-- The command gives `v` a lease, or a row in the ledger. -/
def Serves (cfg : Config) (p : Performed) (v : String) : Prop :=
  (∃ cap free job, p.answered (machine cfg) = ⟨.assignNext v cap free, .granted job⟩) ∨
  ∃ l ∈ (p.post (machine cfg)).db.ledger.rows, l ∉ p.pre.db.ledger.rows ∧ l.workerId = v

def Removes (p : Performed) (v : String) : Prop := ∃ now, p.cmd = .removeWorker v now

def Blacklists (p : Performed) (v : String) : Prop :=
  ∃ jobId req now, p.cmd = .settle jobId req now ∧ req.workerId = v ∧
    blacklists (settle jobId req now p.pre.db).answer = true

def Enrolls (p : Performed) (v : String) : Prop :=
  ∃ bind e, p.cmd = .enroll bind e ∧ e.capability.workerId = v

/-- After a removal a worker is served only if it has registered again, and after
a blacklisting only if it has been removed and then registered again. -/
def RemovalsFinal (cfg : Config) (trace : List Performed) : Prop :=
  ∀ v before q between p after, trace = before ++ q :: (between ++ p :: after) → Serves cfg p v →
    (Removes q v → ∃ e ∈ between, Enrolls e v) ∧
    (Blacklists q v → ∃ first d rest, between = first ++ d :: rest ∧ Removes d v ∧
      ∃ e ∈ rest, Enrolls e v)

theorem serves_standing {cfg : Config} {p : Performed} {v : String} (h : Serves cfg p v)
    (hheld : Held p.pre) (hfresh : NotStale p) : GoodStanding p.pre v := by
  rcases h with ⟨cap, free, job, hgrant⟩ | ⟨l, hl, hnew, rfl⟩
  · obtain ⟨thread, call, past, cmd, input, pre⟩ := p
    obtain rfl : cmd = .assignNext v cap free := congrArg Interleaving.Answered.cmd hgrant
    have hanswer : (assignNext v cap free pre.clock pre.db).answer = .granted job :=
      eq_of_heq (Interleaving.Answered.mk.inj hgrant).2
    refine hfresh v cap free rfl (granted_iff.mp ?_)
    change (assignNext v cap free pre.clock pre.db).answer.isGrant = true
    rw [hanswer]
    rfl
  · rcases ledger_post cfg p l hl with hold | ⟨jobId, req, now, job, -, -, held, -⟩
    · exact absurd hold hnew
    · exact hheld job (Table.find?_eq_some.mp held.found).1 l.workerId held.leased

theorem absent_or_enrolls {cfg : Config} {v : String} (p : Performed)
    (h : p.pre.db.workers.find? v = none) :
    (p.post (machine cfg)).db.workers.find? v = none ∨ Enrolls p v := by
  have hs := rowAfter_step p.pre v none p.cmd
  rw [← h, ← find?_exec p.cmd p.input p.pre v] at hs
  generalize hnew : (exec p.cmd p.input p.pre).1.db.workers.find? v = new at hs
  cases hs with
  | same => exact .inl (hnew.trans h)
  | enrolled bind e hc hv _ => exact .inr ⟨bind, e, hc, hv⟩
  | removed _ _ => exact .inl hnew
  | updated old f hold _ =>
      rw [h] at hold
      cases hold

/-- The worker has a row, which is blacklisted. -/
def Barred (v : String) (w : World) : Prop :=
  ∃ row, w.db.workers.find? v = some row ∧ row.blacklisted = true

theorem barred_ite {p : Prop} [Decidable p] {row : WorkerRow} {f : WorkerRow → WorkerRow}
    (hf : row.blacklisted = true → (f row).blacklisted = true) (h : row.blacklisted = true) :
    ∃ row', (if p then (some row).map f else some row) = some row' ∧ row'.blacklisted = true := by
  by_cases hp : p
  · exact ⟨f row, by rw [if_pos hp]; rfl, hf h⟩
  · exact ⟨row, by rw [if_neg hp], h⟩

theorem barred_or_removes {cfg : Config} {v : String} (p : Performed) (h : Barred v p.pre) :
    Barred v (p.post (machine cfg)) ∨ Removes p v := by
  obtain ⟨row, hrow, hblack⟩ := h
  change (∃ row', (exec p.cmd p.input p.pre).1.db.workers.find? v = some row' ∧ _) ∨ _
  rw [find?_exec, hrow]
  unfold Removes
  cases p.cmd with
  | now | uuid4 | workerRow _ | activeWorkers | emit _ | reapExpired | insertJob _ =>
      exact .inl ⟨row, rfl, hblack⟩
  | storeProfile _ _ _ | query => exact .inl ⟨row, rfl, hblack⟩
  | assignNext _ _ _ | assignTier _ _ | approveWorker _ =>
      exact .inl (barred_ite (fun h => h) hblack)
  | settle _ _ _ => exact .inl (barred_ite (fun _ => rfl) hblack)
  | recordHeartbeat m req now =>
      refine .inl (barred_ite ?_ hblack)
      cases m <;> exact fun h => h
  | applyDerivedTier u tier =>
      refine .inl (barred_ite ?_ hblack)
      unfold WorkerRow.derive
      split <;> exact fun h => h
  | enroll bind e =>
      left
      simp only [rowAfter]
      split
      · exact ⟨_, rfl, hblack⟩
      · exact ⟨row, rfl, hblack⟩
  | removeWorker u now =>
      by_cases huv : u = v
      · subst huv
        exact .inr ⟨now, rfl⟩
      · simp only [rowAfter, if_neg huv]
        exact .inl ⟨row, rfl, hblack⟩

theorem blacklists_post {cfg : Config} {p : Performed} {v : String} (h : Blacklists p v)
    (hheld : Held p.pre) : Barred v (p.post (machine cfg)) := by
  obtain ⟨jobId, req, now, hcmd, rfl, hblack⟩ := h
  obtain ⟨⟨job, held⟩, -⟩ := blacklists_cheated hblack
  have hgood : GoodStanding p.pre req.workerId :=
    hheld job (Table.find?_eq_some.mp held.found).1 req.workerId held.leased
  obtain ⟨row, hrow, -, -⟩ := hgood
  refine ⟨row.blacklist, ?_, rfl⟩
  change (exec p.cmd p.input p.pre).1.db.workers.find? req.workerId = _
  rw [find?_exec, hrow, hcmd]
  exact if_pos ⟨rfl, hblack⟩

theorem removes_post {cfg : Config} {p : Performed} {v : String} (h : Removes p v) :
    (p.post (machine cfg)).db.workers.find? v = none := by
  obtain ⟨now, hcmd⟩ := h
  change (exec p.cmd p.input p.pre).1.db.workers.find? v = none
  rw [find?_exec, hcmd]
  exact if_pos rfl

/-- A worker with a row has registered since it was removed. -/
theorem enrolled_since {cfg : Config} {clock : Time} {ms : List Move} {before after : List Performed}
    {q : Performed} {v : String} (h : runTrace cfg clock ms = before ++ q :: after)
    (hq : Removes q v) (hrow : (run cfg clock ms).state.db.workers.find? v ≠ none) :
    ∃ e ∈ after, Enrolls e v := by
  have hsince := Interleaving.trace_since (J := fun w : World => w.db.workers.find? v = none)
    (X := fun p => Enrolls p v) h (removes_post hq) absent_or_enrolls (fun _ _ hx => hx)
  exact hsince.resolve_left hrow

theorem run_removalsFinal {cfg : Config} {clock : Time} {ms : List Move}
    (h : ∀ p ∈ runTrace cfg clock ms, NotStale p) : RemovalsFinal cfg (runTrace cfg clock ms) := by
  intro v before q between p after hsplit hserves
  have hp : p ∈ runTrace cfg clock ms := by
    rw [hsplit]
    simp
  have hsplit' : runTrace cfg clock ms = (before ++ q :: between) ++ p :: after := by
    rw [hsplit]
    simp
  obtain ⟨prior, m, rest, rfl, hperf, hprior⟩ := Interleaving.trace_split hsplit'
  have hfresh : ∀ r ∈ runTrace cfg clock prior, NotStale r :=
    fun r hr => h r (runTrace_mono hr _)
  have hpre : p.pre = (run cfg clock prior).state := Interleaving.performed_pre hperf
  have hgood : GoodStanding p.pre v :=
    serves_standing hserves (hpre ▸ run_held prior hfresh) (h p hp)
  rw [hpre] at hgood
  obtain ⟨row, hrow, -, hblack⟩ := hgood
  have hthere : (run cfg clock prior).state.db.workers.find? v ≠ none := by
    rw [hrow]
    exact Option.some_ne_none row
  constructor
  · intro hq
    exact enrolled_since hprior hq hthere
  · intro hq
    obtain ⟨earlier, m', rest', hms, hperf', -⟩ := Interleaving.trace_split hprior
    have hheld : Held q.pre := by
      rw [Interleaving.performed_pre hperf']
      apply run_held earlier
      intro r hr
      apply hfresh
      rw [hms]
      exact runTrace_mono hr _
    have hsince := Interleaving.trace_since (J := Barred v) (X := fun p => Removes p v) hprior
      (blacklists_post hq hheld) barred_or_removes (fun _ _ hx => hx)
    rcases hsince with ⟨row', hrow', hblack'⟩ | ⟨d, hd, hremoves⟩
    · obtain rfl : row = row' := Option.some.inj (hrow.symm.trans hrow')
      rw [hblack] at hblack'
      cases hblack'
    · obtain ⟨first, rest, rfl⟩ := List.append_of_mem hd
      have hsplit'' : runTrace cfg clock prior = (before ++ q :: first) ++ d :: rest := by
        rw [runTrace, hprior]
        simp
      exact ⟨first, d, rest, rfl, hremoves, enrolled_since hsplit'' hremoves hthere⟩

/-- A poll that hands out a job on a stale row leaves a lease with a worker that
is not in good standing. -/
theorem notStale_of_held (cfg : Config) {p : Performed}
    (h : Held (p.post (machine cfg))) : NotStale p := by
  intro v cap free hcmd ⟨hfree, job, hpick, hdefer⟩
  have hgood : GoodStanding (p.post (machine cfg)) v := by
    have hgrant : (assignNext v cap free p.pre.clock p.pre.db).db =
        grant v job.jobId p.pre.clock p.pre.db := by
      simp only [assignNext, hfree, hpick, hdefer, Bool.false_eq_true, if_false]
    obtain ⟨hmem, hqueued, -, -⟩ := pickJobFor_eq_some hpick
    have hleased : job.lease v p.pre.clock ∈ (p.post (machine cfg)).db.jobs := by
      have hjobs : (exec p.cmd p.input p.pre).1.db.jobs = (runCommand p.input p.pre p.cmd).db.jobs :=
        emitAll_jobs _ _ _
      change _ ∈ (exec p.cmd p.input p.pre).1.db.jobs
      rw [hjobs, hcmd]
      change _ ∈ (assignNext v cap free p.pre.clock p.pre.db).db.jobs
      rw [hgrant]
      exact mem_grant.mpr ⟨job, hmem, by simp [hqueued]⟩
    exact h _ hleased v (leasedTo_iff.mpr ⟨rfl, rfl⟩)
  obtain ⟨row', hrow', happroved, hblack⟩ := hgood
  change (exec p.cmd p.input p.pre).1.db.workers.find? v = some row' at hrow'
  rw [find?_exec, hcmd] at hrow'
  cases hrow : p.pre.db.workers.find? v with
  | none =>
      rw [hrow] at hrow'
      simp [rowAfter] at hrow'
  | some row =>
      refine ⟨row, hrow, ?_⟩
      rw [hrow] at hrow'
      simp only [rowAfter] at hrow'
      split at hrow'
      · cases hrow'
        exact ⟨happroved, hblack⟩
      · cases hrow'
        exact ⟨happroved, hblack⟩

/-- Leases belong to workers in good standing and removals are final throughout a
run exactly if no poll in it hands out a job on a stale row. -/
theorem run_removal_iff (cfg : Config) (clock : Time) (ms : List Move) :
    (∀ p ∈ runTrace cfg clock ms, NotStale p) ↔
      (∀ before after, ms = before ++ after → LeasesHeld (run cfg clock before).state) ∧
        RemovalsFinal cfg (runTrace cfg clock ms) := by
  constructor
  · intro h
    refine ⟨?_, run_removalsFinal h⟩
    rintro before after rfl
    rw [← held_iff (run_storeInv cfg clock before)]
    apply run_held before
    exact fun p hp => h p (runTrace_mono hp after)
  · rintro ⟨h, -⟩ p hp
    obtain ⟨before, m, after, rfl, hperf⟩ := Interleaving.mem_trace hp
    apply notStale_of_held cfg
    have hpost : (run cfg clock (before ++ [m])).state = p.post (machine cfg) := run_post hperf
    have hheld := h (before ++ [m]) after (by simp)
    rw [← held_iff (run_storeInv cfg clock _), hpost] at hheld
    exact hheld

/-- A poll has passed its checks when the worker is deleted. -/
def stalePoll : List Move :=
  serve 0 4 (.register { workerId := "w" } none) ++
  serve 1 5 (.submit { kind := .render, dataClassification := .public } none) ++
  [.spawn (.jobsNext "w" (some ("Bearer " ++ PyText.uuidHex 0)) none), .run 2 0, .run 2 0] ++
  serve 3 4 (.disconnectWorker "w" none) ++
  [.run 2 0]

set_option maxRecDepth 20000 in
/-- It is leased the job all the same. -/
theorem stalePoll_leased :
    ∃ j ∈ (run {} 0 stalePoll).state.db.jobs.rows, j.state = .leased ∧
      j.assignedWorker = some "w" ∧
      ((run {} 0 stalePoll).state.db.workers.find? "w").isNone = true := by
  decide +kernel

end OneCompute
