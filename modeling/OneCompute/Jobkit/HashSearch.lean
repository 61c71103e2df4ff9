import OneCompute.Jobkit.Parallel
import OneCompute.Jobkit.Tiles
import OneCompute.Lib.Search
import OneCompute.Workloads.Partition

/-!
The hash search: one tile scans its nonces in many small chunks. `digest` gives the
hexadecimal SHA-256 of a prefix and a nonce as text, or the exception of encoding them.
-/

namespace OneCompute.Jobkit
open Search (Report Searched merge)
open Spans (range spans nonempty)
open Workloads (evenSizes)

structure HashTask where
  pre : String
  target : String
  start : Int
  stop : Int

structure HashPart where
  nonce : Option Int
  hash : Option String
  tried : Int

section Digest
variable (digest : String → Int → Except String String)

def hashScan (task : HashTask) : List Int → Except String HashPart
  | [] => .ok ⟨none, none, task.stop - task.start⟩
  | nonce :: rest => do
      let hash ← digest task.pre nonce
      if PyText.startsWith hash task.target then
        return ⟨some nonce, some hash, nonce - task.start + 1⟩
      else hashScan task rest

/-- `_hash_chunk` -/
def hashChunk (task : HashTask) : Except String HashPart :=
  hashScan digest task (range task.start task.stop)

structure HashOutput where
  pre : String
  targetPre : String
  found : Bool
  nonce : Option Int
  hash : Option String
  hashesTried : Int
  nonceStart : Int
  nonceEnd : Int
  yielded : Bool

/-- Many small chunks of nonces; none is empty. -/
def hashTasks (cores : Nat) (pre target : String) (start stop : Int) : List HashTask :=
  let span := max 0 (stop - start)
  let nChunks := max (cores : Int) (min 4096 (span / 500000 + 1))
  (nonempty (spans start (evenSizes span nChunks))).map fun r => ⟨pre, target, r.1, r.2⟩

def hashOutput (pre target : String) (start stop : Int) (parts : List HashPart) (yielded : Bool) :
    HashOutput :=
  let winner := parts.find? (·.nonce.isSome)
  { pre := pre
    targetPre := target
    found := winner.isSome
    nonce := winner.bind (·.nonce)
    hash := winner.bind (·.hash)
    hashesTried := (parts.map (·.tried)).sum
    nonceStart := start
    nonceEnd := stop
    yielded := yielded }

/-- What a tile searches: the text before the nonce, the target and the range. -/
structure HashInput where
  pre : String
  target : String
  start : Int
  stop : Int

def hashInput (input : Dict) : Option HashInput := do
  let pre := ((Json.lookup input "prefix").map Json.pyStr).getD "onecompute"
  let target := PyText.lower (((Json.lookup input "target_prefix").map Json.pyStr).getD "00000")
  let start ← getInt input "nonce_start" 0
  let stop ← getInt input "nonce_end" (start + 2000000)
  return ⟨pre, target, start, stop⟩

/-- `_hashcrack`; `none` is any exception. -/
def hashcrack (host : Host) (shouldYield : Nat → Bool) (input : Dict) : Option HashOutput := do
  let job ← hashInput input
  let tasks := hashTasks host.cores job.pre job.target job.start job.stop
  let (parts, yielded) ← (parallelMap host (hashChunk digest) tasks shouldYield).toOption
  return hashOutput job.pre job.target job.start job.stop parts yielded

/-! ## One chunk -/

/-- The nonce whose digest starts with the target, and that digest. -/
def Hit (pre target : String) (nonce : Int) (w : Option Int × Option String) : Prop :=
  ∃ hash, digest pre nonce = .ok hash ∧ PyText.startsWith hash target = true ∧
    w = (some nonce, some hash)

def HashPart.report (part : HashPart) : Report (Option Int × Option String) :=
  ⟨if part.nonce.isSome then some (part.nonce, part.hash) else none, part.tried⟩

variable {digest}

/-- The scan goes on with `rest` as long as it has hit nothing `before`. -/
theorem hashScan_searched {task : HashTask} {before rest : List Int} {part : HashPart}
    (hsplit : before ++ rest = range task.start task.stop) (hle : task.start ≤ task.stop)
    (hbefore : ∀ i ∈ before, ∀ w, ¬ Hit digest task.pre task.target i w)
    (h : hashScan digest task rest = .ok part) :
    Searched (Hit digest task.pre task.target) (range task.start task.stop) part.report := by
  have hlen : ((range task.start task.stop).length : Int) = task.stop - task.start := by
    rw [Spans.length_range]
    omega
  induction rest generalizing before with
  | nil =>
      cases h
      rw [List.append_nil] at hsplit
      rw [hsplit] at hbefore
      refine ⟨?_, ?_, ?_⟩
      · intro w hw
        cases hw
      · intro _
        exact ⟨hbefore, hlen.symm⟩
      · exact hlen.symm.le
  | cons nonce rest ih =>
      obtain ⟨hash, hhash, h⟩ := Results.bind_eq_ok.mp h
      have hnonce := Spans.range_split hsplit
      have hmem : nonce ∈ range task.start task.stop := by
        rw [← hsplit]
        simp
      split at h
      next hhit =>
        cases h
        refine ⟨?_, ?_, ?_⟩
        · intro w hw
          cases hw
          exact ⟨nonce, hmem, hash, hhash, hhit, rfl⟩
        · intro hnone
          cases hnone
        · have := Spans.mem_range.mp hmem
          rw [hlen]
          change nonce - task.start + 1 ≤ _
          omega
      next hmiss =>
        have hsplit' : (before ++ [nonce]) ++ rest = range task.start task.stop := by
          rw [← hsplit]
          simp
        apply ih hsplit' _ h
        intro i hi w hw
        rcases List.mem_append.mp hi with hi | hi
        · exact hbefore i hi w hw
        · rw [List.mem_singleton.mp hi] at hw
          obtain ⟨hash', hhash', hhit, -⟩ := hw
          rw [hhash] at hhash'
          cases hhash'
          exact hmiss hhit

theorem hashChunk_searched {task : HashTask} {part : HashPart} (hle : task.start ≤ task.stop)
    (h : hashChunk digest task = .ok part) :
    Searched (Hit digest task.pre task.target) (range task.start task.stop) part.report :=
  hashScan_searched (List.nil_append _) hle (by simp) h

theorem hashChunk_ok (hdigest : ∀ pre nonce, ∃ hash, digest pre nonce = .ok hash)
    (task : HashTask) : ∃ part, hashChunk digest task = .ok part := by
  unfold hashChunk
  induction range task.start task.stop with
  | nil => exact ⟨_, rfl⟩
  | cons nonce rest ih =>
      obtain ⟨hash, hhash⟩ := hdigest task.pre nonce
      unfold hashScan
      rw [hhash]
      dsimp only [bind, Except.bind]
      split
      · exact ⟨_, rfl⟩
      · exact ih

/-! ## One tile -/

def HashOutput.report (out : HashOutput) : Report (Option Int × Option String) :=
  ⟨if out.found then some (out.nonce, out.hash) else none, out.hashesTried⟩

theorem hashOutput_report (pre target : String) (start stop : Int) (parts : List HashPart)
    (yielded : Bool) : (hashOutput pre target start stop parts yielded).report =
      merge (parts.map HashPart.report) := by
  have hmerge := Search.merge_find (fun part : HashPart => part.nonce.isSome)
    (fun part => (part.nonce, part.hash)) HashPart.tried parts
  refine Eq.trans ?_ hmerge.symm
  unfold HashOutput.report hashOutput
  cases parts.find? (·.nonce.isSome) with
  | none => rfl
  | some winner => rfl

theorem hashTasks_cover (cores : Nat) (pre target : String) (start stop : Int) :
    (∀ t ∈ hashTasks cores pre target start stop,
      t.pre = pre ∧ t.target = target ∧ t.start ≤ t.stop) ∧
    ((hashTasks cores pre target start stop).map fun t => range t.start t.stop).flatten =
      range start stop := by
  have hspan : 0 ≤ max 0 (stop - start) := le_max_left _ _
  have hchunks : 0 < max (cores : Int) (min 4096 (max 0 (stop - start) / 500000 + 1)) := by
    omega
  constructor
  · intro t ht
    obtain ⟨r, hr, rfl⟩ := List.mem_map.mp ht
    have hlt : r.1 < r.2 := by simpa using (List.mem_filter.mp hr).2
    exact ⟨rfl, rfl, hlt.le⟩
  · have hcover : (spans start _).flatMap (fun r => range r.1 r.2) = range start _ :=
      Spans.spans_flatMap (Workloads.evenSizes_nonneg hchunks hspan)
    rw [Workloads.evenSizes_sum hchunks, ← Spans.nonempty_flatMap] at hcover
    unfold hashTasks
    rw [List.map_map, ← List.flatMap_def]
    refine hcover.trans ?_
    by_cases hle : start ≤ stop
    · rw [max_eq_right (by omega), add_sub_cancel]
    · rw [max_eq_left (by omega), Spans.range_nil (by omega), Spans.range_nil (by omega)]

/-- What the chunks of a tile are merged from. -/
theorem hashcrack_parts {host : Host} {input : Dict} {job : HashInput} {out : HashOutput}
    (hjob : hashInput input = some job) (h : hashcrack digest host never input = some out) :
    ∃ parts yielded, parallelMap host (hashChunk digest)
        (hashTasks host.cores job.pre job.target job.start job.stop) never = .ok (parts, yielded) ∧
      out = hashOutput job.pre job.target job.start job.stop parts yielded := by
  unfold hashcrack at h
  obtain ⟨job', hjob', h⟩ := Option.bind_eq_some_iff.mp h
  rw [hjob] at hjob'
  cases hjob'
  obtain ⟨⟨parts, yielded⟩, hparts, hout⟩ := Option.bind_eq_some_iff.mp h
  exact ⟨parts, yielded, Results.toOption_eq_some.mp hparts, (Option.some.inj hout).symm⟩

/-- A search leaves out no chunk exactly when it does not use the pool or no chunk raises. -/
theorem hashcrack_complete_iff {host : Host} {input : Dict} {job : HashInput}
    (hjob : hashInput input = some job)
    (hhost : host.Completes (hashTasks host.cores job.pre job.target job.start job.stop).length) :
    (∀ out, hashcrack digest host never input = some out → ∃ parts,
        EveryResult (hashChunk digest)
          (hashTasks host.cores job.pre job.target job.start job.stop) parts ∧
        out = hashOutput job.pre job.target job.start job.stop parts false) ↔
      host.pooled (hashTasks host.cores job.pre job.target job.start job.stop) = false ∨
      ∀ task ∈ hashTasks host.cores job.pre job.target job.start job.stop,
        ∃ part, hashChunk digest task = .ok part := by
  constructor
  · intro hall
    by_contra hcond
    push Not at hcond
    obtain ⟨hpooled, task, htask, hraises⟩ := hcond
    obtain ⟨parts, hpool, hperm⟩ := runPool_perm (hashChunk digest) hhost
    have hrun : hashcrack digest host never input =
        some (hashOutput job.pre job.target job.start job.stop parts false) := by
      unfold hashcrack parallelMap
      rw [hjob]
      dsimp only [bind, Option.bind]
      rw [if_pos (by simpa using hpooled), hpool]
      rfl
    obtain ⟨_, ⟨inOrder, hmapM, -⟩, -⟩ := hall _ hrun
    obtain ⟨part, hpart⟩ := mapM_ok_iff.mp ⟨inOrder, hmapM⟩ task htask
    exact hraises part hpart
  · intro hsafe out hout
    obtain ⟨parts, yielded, hmap, rfl⟩ := hashcrack_parts hjob hout
    have hyielded := parallelMap_yielded hhost hmap
    subst hyielded
    exact ⟨parts, (parallelMap_complete_iff _ hhost).mpr hsafe parts false hmap, rfl⟩

/-- A tile none of whose chunks raises has searched its nonces, whatever the order in
which the chunks complete. -/
theorem hashcrack_searched {host : Host} {input : Dict} {job : HashInput} {out : HashOutput}
    (hjob : hashInput input = some job)
    (hhost : host.Completes (hashTasks host.cores job.pre job.target job.start job.stop).length)
    (hchunks : ∀ task ∈ hashTasks host.cores job.pre job.target job.start job.stop,
      ∃ part, hashChunk digest task = .ok part)
    (h : hashcrack digest host never input = some out) :
    Searched (Hit digest job.pre job.target) (range job.start job.stop) out.report ∧
      out.targetPre = job.target := by
  obtain ⟨parts, yielded, hall, rfl⟩ := hashcrack_parts hjob h
  refine ⟨?_, rfl⟩
  obtain ⟨inOrder, hmapM, hperm⟩ :=
    (parallelMap_complete_iff (hashChunk digest) hhost).mpr (.inr hchunks) _ _ hall
  obtain ⟨htasks, hcover⟩ := hashTasks_cover host.cores job.pre job.target job.start job.stop
  generalize hashTasks host.cores job.pre job.target job.start job.stop = tasks at hmapM htasks hcover
  obtain ⟨order, horder, htasksPerm⟩ :=
    List.perm_comp_forall₂ hperm (Results.mapM_forall₂ hmapM).flip
  have hsearched : List.Forall₂ (Searched (Hit digest job.pre job.target))
      (order.map fun t => range t.start t.stop) (parts.map HashPart.report) := by
    rw [List.forall₂_map_left_iff, List.forall₂_map_right_iff]
    have hmem : ∀ t ∈ order, t ∈ tasks := fun t ht => htasksPerm.mem_iff.mp ht
    refine ((List.forall₂_and_left _ _).mpr ⟨hmem, horder.flip⟩).imp ?_
    rintro task part ⟨htask, hpart⟩
    obtain ⟨hpre, htarget, hle⟩ := htasks task htask
    rw [← hpre, ← htarget]
    exact hashChunk_searched hle hpart
  rw [hashOutput_report]
  refine (Search.searched_merge hsearched).perm ?_
  rw [← hcover]
  exact (htasksPerm.map fun t => range t.start t.stop).flatten

end Digest
end OneCompute.Jobkit
