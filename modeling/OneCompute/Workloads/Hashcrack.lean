import OneCompute.Jobkit.HashSearch

/-!
The distributed hash search: its tiles, and what is made of what they report.
-/

namespace OneCompute.Workloads
open Jobkit (HashInput HashOutput HashPart Host Hit hashChunk hashTasks hashInput hashcrack never)
open PyNumber (binary64)
open Search (Report Searched merge)
open Spans (range spans nonempty)

def hashcrackJob (targetPre pre : String) (nonceStart : Int) (r : Int × Int) : SubmitRequest where
  kind := .hashcrack
  input := [("prefix", .str pre), ("target_prefix", .str targetPre),
    ("nonce_start", .int (nonceStart + r.1)), ("nonce_end", .int (nonceStart + r.2))]
  units := r.2 - r.1

/-- One job for each slice with a nonce in it. -/
def buildHashcrackJobs (sum : List PyFloat → PyFloat) (nTiles keyspace : Int)
    (targetPre pre : String) (nonceStart : Int) (weights : Option (List PyFloat)) :
    Except Raised (List SubmitRequest) :=
  if nTiles ≤ 0 then .error (.valueError "n_tiles must be positive")
  else if keyspace ≤ 0 then .error (.valueError "keyspace must be positive")
  else if targetPre = "" then .error (.valueError "target_prefix must be non-empty")
  else do
    let ranges ← split binary64 sum keyspace nTiles weights
    return (nonempty ranges).map (hashcrackJob targetPre pre nonceStart)

structure HashWinner where
  found : Bool
  targetPre : Option String
  nonce : Option Int
  hash : Option String
  hashesTried : Int
  tiles : Nat

/-- Tiles without a result are left out. -/
def aggregateHashcrack (results : List (Option HashOutput)) : HashWinner :=
  let parts := results.reduceOption
  let winner := parts.find? (·.found)
  { found := winner.isSome
    targetPre := (parts.find? (·.targetPre ≠ "")).map (·.targetPre)
    nonce := winner.bind (·.nonce)
    hash := winner.bind (·.hash)
    hashesTried := (parts.map (·.hashesTried)).sum
    tiles := parts.length }

/-! ## Search -/

variable {digest : String → Int → Except String String}

/-- A tile ran to the end on some machine, and no chunk raised. -/
def TileRan (digest : String → Int → Except String String) (job : SubmitRequest)
    (out : HashOutput) : Prop :=
  ∃ (host : Host) (task : HashInput), hashInput job.input = some task ∧
    host.Completes (hashTasks host.cores task.pre task.target task.start task.stop).length ∧
    (∀ chunk ∈ hashTasks host.cores task.pre task.target task.start task.stop,
      ∃ part, hashChunk digest chunk = .ok part) ∧
    hashcrack digest host never job.input = some out

/-- The nonce is in the keyspace, and its digest starts with the target. -/
def Solves (digest : String → Int → Except String String) (targetPre pre : String)
    (nonceStart keyspace nonce : Int) (hash : String) : Prop :=
  nonceStart ≤ nonce ∧ nonce < nonceStart + keyspace ∧ digest pre nonce = .ok hash ∧
    PyText.startsWith hash (PyText.lower targetPre) = true

/-- `w` is the answer of a search of the keyspace. -/
structure IsAnswer (digest : String → Int → Except String String) (targetPre pre : String)
    (nonceStart keyspace : Int) (w : HashWinner) : Prop where
  complete : w.found = true ↔ ∃ nonce hash, Solves digest targetPre pre nonceStart keyspace nonce hash
  sound : w.found = true → ∃ nonce hash, w.nonce = some nonce ∧ w.hash = some hash ∧
    Solves digest targetPre pre nonceStart keyspace nonce hash
  bound : w.hashesTried ≤ keyspace
  exhausted : w.found = false → w.hashesTried = keyspace

theorem hashcrackJob_input (targetPre pre : String) (nonceStart : Int) (r : Int × Int) :
    hashInput (hashcrackJob targetPre pre nonceStart r).input =
      some ⟨pre, PyText.lower targetPre, nonceStart + r.1, nonceStart + r.2⟩ :=
  rfl

def HashWinner.report (w : HashWinner) : Report (Option Int × Option String) :=
  ⟨if w.found then some (w.nonce, w.hash) else none, w.hashesTried⟩

theorem aggregate_report (results : List (Option HashOutput)) :
    (aggregateHashcrack results).report = merge (results.reduceOption.map HashOutput.report) := by
  have hmerge := Search.merge_find HashOutput.found (fun out => (out.nonce, out.hash))
    HashOutput.hashesTried results.reduceOption
  have hwinner : ∀ winner : Option HashOutput, (if winner.isSome then
      some (winner.bind (·.nonce), winner.bind (·.hash)) else none) =
      winner.map fun out => (out.nonce, out.hash) := by
    intro winner
    cases winner with
    | none => rfl
    | some out => rfl
  exact (congrArg₂ Report.mk (hwinner _) rfl).trans hmerge.symm

/-- What is made of the tiles of a split, in any order, is true of all their nonces. -/
theorem aggregate_searched {targetPre pre : String} {nonceStart : Int} {sizes : List Int}
    (hsizes : ∀ s ∈ sizes, 0 ≤ s) {outputs : List HashOutput} {results : List (Option HashOutput)}
    (hran : List.Forall₂ (TileRan digest)
      ((nonempty (spans 0 sizes)).map (hashcrackJob targetPre pre nonceStart)) outputs)
    (horder : results.reduceOption.Perm outputs) :
    Searched (Hit digest pre (PyText.lower targetPre))
      (range nonceStart (nonceStart + sizes.sum)) (aggregateHashcrack results).report := by
  rw [List.forall₂_map_left_iff] at hran
  obtain ⟨ranges, hranges, hperm⟩ := List.perm_comp_forall₂ horder hran.flip
  have htiles : List.Forall₂ (Searched (Hit digest pre (PyText.lower targetPre)))
      (ranges.map fun r => range (nonceStart + r.1) (nonceStart + r.2))
      (results.reduceOption.map HashOutput.report) := by
    rw [List.forall₂_map_left_iff, List.forall₂_map_right_iff]
    refine hranges.flip.imp ?_
    rintro r out ⟨host, task, htask, hhost, hchunks, hout⟩
    rw [hashcrackJob_input] at htask
    cases htask
    exact (Jobkit.hashcrack_searched (hashcrackJob_input _ _ _ _) hhost hchunks hout).1
  rw [aggregate_report]
  refine (Search.searched_merge htiles).perm ?_
  have hshift : (spans nonceStart sizes).flatMap (fun r => range r.1 r.2) =
      (spans 0 sizes).flatMap fun r => range (nonceStart + r.1) (nonceStart + r.2) := by
    have hspans := Spans.spans_shift nonceStart 0 sizes
    rw [Int.add_zero] at hspans
    rw [hspans, List.flatMap_map]
  have hempty : ∀ rs : List (Int × Int),
      (nonempty rs).flatMap (fun r => range (nonceStart + r.1) (nonceStart + r.2)) =
        rs.flatMap fun r => range (nonceStart + r.1) (nonceStart + r.2) := by
    intro rs
    induction rs with
    | nil => rfl
    | cons r rs ih =>
        unfold nonempty at ih ⊢
        by_cases hr : r.1 < r.2
        · rw [List.filter_cons_of_pos (by simpa using hr), List.flatMap_cons, List.flatMap_cons, ih]
        · rw [List.filter_cons_of_neg (by simpa using hr), List.flatMap_cons,
            Spans.range_nil (by omega), List.nil_append, ih]
  rw [← List.flatMap_def]
  refine (hperm.flatMap_right _).trans ?_
  rw [hempty, ← hshift, Spans.spans_flatMap hsizes]

/-- A search that is true of exactly the keyspace is its answer. -/
theorem isAnswer_of_searched {targetPre pre : String} {nonceStart keyspace : Int} {w : HashWinner}
    (hpos : 0 ≤ keyspace)
    (h : Searched (Hit digest pre (PyText.lower targetPre))
      (range nonceStart (nonceStart + keyspace)) w.report) :
    IsAnswer digest targetPre pre nonceStart keyspace w := by
  have hlen : ((range nonceStart (nonceStart + keyspace)).length : Int) = keyspace := by
    rw [Spans.length_range]
    omega
  have hsolves : ∀ nonce hash, Solves digest targetPre pre nonceStart keyspace nonce hash ↔
      nonce ∈ range nonceStart (nonceStart + keyspace) ∧
        Hit digest pre (PyText.lower targetPre) nonce (some nonce, some hash) := by
    intro nonce hash
    rw [Spans.mem_range]
    constructor
    · rintro ⟨hlow, hhigh, hdigest, hstarts⟩
      exact ⟨⟨hlow, hhigh⟩, hash, hdigest, hstarts, rfl⟩
    · rintro ⟨⟨hlow, hhigh⟩, hash', hdigest, hstarts, heq⟩
      cases heq
      exact ⟨hlow, hhigh, hdigest, hstarts⟩
  have hsound : w.found = true → ∃ nonce hash, w.nonce = some nonce ∧ w.hash = some hash ∧
      Solves digest targetPre pre nonceStart keyspace nonce hash := by
    intro hfound
    have hwinner : w.report.winner = some (w.nonce, w.hash) := by
      unfold HashWinner.report
      rw [hfound]
      rfl
    obtain ⟨nonce, hmem, hash, hdigest, hstarts, heq⟩ := h.hit _ hwinner
    obtain ⟨hnonce, hhash⟩ := Prod.mk.inj heq
    exact ⟨nonce, hash, hnonce, hhash, (hsolves _ _).mpr ⟨hmem, hash, hdigest, hstarts, rfl⟩⟩
  have hmiss : w.found = false → w.report.winner = none := by
    intro hfound
    unfold HashWinner.report
    rw [hfound]
    rfl
  refine ⟨⟨?_, ?_⟩, hsound, hlen ▸ h.bound, ?_⟩
  · intro hfound
    obtain ⟨nonce, hash, -, -, hs⟩ := hsound hfound
    exact ⟨nonce, hash, hs⟩
  · rintro ⟨nonce, hash, hs⟩
    by_contra hfound
    have hnone := (h.miss (hmiss (by simpa using hfound))).1
    obtain ⟨hmem, hhit⟩ := (hsolves _ _).mp hs
    exact hnone nonce hmem _ hhit
  · intro hfound
    rw [← hlen]
    exact (h.miss (hmiss hfound)).2

/-- One machine that runs the chunks of a tile one after the other. -/
def singleCore (n : Nat) : Host := ⟨1, true, [List.range n]⟩

/-- With a digest that never raises, every tile can be run. -/
theorem tileRan_exists {digest : String → Int → Except String String}
    (hdigest : ∀ text nonce, ∃ hash, digest text nonce = .ok hash) (targetPre pre : String)
    (nonceStart : Int) (r : Int × Int) :
    ∃ out, TileRan digest (hashcrackJob targetPre pre nonceStart r) out := by
  have hchunks : ∀ chunk ∈ hashTasks 1 pre (PyText.lower targetPre) (nonceStart + r.1)
      (nonceStart + r.2), ∃ part, hashChunk digest chunk = .ok part :=
    fun chunk _ => Jobkit.hashChunk_ok hdigest chunk
  obtain ⟨parts, hparts⟩ := Jobkit.mapM_ok_iff.mpr hchunks
  have hall : ∀ n, Jobkit.parallelMap (singleCore n) (hashChunk digest)
      (hashTasks 1 pre (PyText.lower targetPre) (nonceStart + r.1) (nonceStart + r.2)) never =
        .ok (parts, false) := by
    intro n
    unfold Jobkit.parallelMap
    rw [if_neg (by simp [Host.pooled, singleCore]), Jobkit.runInProcess_never, hparts]
    rfl
  refine ⟨Jobkit.hashOutput pre (PyText.lower targetPre) (nonceStart + r.1) (nonceStart + r.2)
    parts false, singleCore (hashTasks 1 pre (PyText.lower targetPre) (nonceStart + r.1)
    (nonceStart + r.2)).length, _, hashcrackJob_input targetPre pre nonceStart r, ?_, hchunks, ?_⟩
  · exact List.Perm.of_eq (by simp [singleCore])
  · unfold hashcrack
    rw [hashcrackJob_input]
    change ((Jobkit.parallelMap _ _ (hashTasks 1 pre (PyText.lower targetPre) (nonceStart + r.1)
      (nonceStart + r.2)) never).toOption >>= _) = _
    rw [hall]
    rfl

theorem startsWith_empty {target : String} (h : target ≠ "") :
    PyText.startsWith "" (PyText.lower target) = false := by
  have hne : target.toList ≠ [] := fun hnil => h (String.toList_inj.mp (by simpa using hnil))
  obtain ⟨c, cs, hcs⟩ := List.exists_cons_of_ne_nil hne
  unfold PyText.startsWith PyText.lower
  rw [hcs, String.toList_ofList, List.flatMap_cons]
  split
  · rfl
  split
  · rfl
  · rfl

/-- A digest that nothing starts with makes every tile try all its nonces. -/
theorem unhit_tiles {targetPre : String} (htarget : targetPre ≠ "") (pre : String)
    (nonceStart : Int) {sizes : List Int} (hsizes : ∀ s ∈ sizes, 0 ≤ s) :
    ∃ outputs, List.Forall₂ (TileRan fun _ _ => .ok "")
        ((nonempty (spans 0 sizes)).map (hashcrackJob targetPre pre nonceStart)) outputs ∧
      (outputs.map some).reduceOption.Perm outputs ∧
      (aggregateHashcrack (outputs.map some)).found = false ∧
      (aggregateHashcrack (outputs.map some)).hashesTried = sizes.sum := by
  have hdigest : ∀ (text : String) (nonce : Int), ∃ hash,
      (Except.ok "" : Except String String) = .ok hash := fun _ _ => ⟨"", rfl⟩
  choose out hout using tileRan_exists hdigest targetPre pre nonceStart
  have hran : List.Forall₂ (TileRan fun _ _ => .ok "")
      ((nonempty (spans 0 sizes)).map (hashcrackJob targetPre pre nonceStart))
      ((nonempty (spans 0 sizes)).map out) := by
    rw [List.forall₂_map_left_iff, List.forall₂_map_right_iff, List.forall₂_same]
    exact fun r _ => hout r
  generalize (nonempty (spans 0 sizes)).map out = outputs at hran
  have horder : (outputs.map some).reduceOption.Perm outputs :=
    List.Perm.of_eq (by simp [List.reduceOption])
  have hsearched := aggregate_searched hsizes hran horder
  have hfound : (aggregateHashcrack (outputs.map some)).found = false := by
    by_contra hfound
    have hwinner : (aggregateHashcrack (outputs.map some)).report.winner =
        some ((aggregateHashcrack (outputs.map some)).nonce,
          (aggregateHashcrack (outputs.map some)).hash) := by
      unfold HashWinner.report
      rw [Bool.not_eq_false] at hfound
      rw [hfound]
      rfl
    obtain ⟨_, _, _, heq, hstarts, -⟩ := hsearched.hit _ hwinner
    cases heq
    rw [startsWith_empty htarget] at hstarts
    cases hstarts
  have hnone : (aggregateHashcrack (outputs.map some)).report.winner = none := by
    unfold HashWinner.report
    rw [hfound]
    rfl
  have htried := (hsearched.miss hnone).2
  rw [Spans.length_range] at htried
  have hnonneg := Spans.le_sum hsizes
  refine ⟨outputs, hran, horder, hfound, ?_⟩
  change (aggregateHashcrack (outputs.map some)).hashesTried = _ at htried
  rw [htried]
  omega

/-- For every digest and every order of chunks and tiles the search has its answer,
exactly when the weights let their shares be made up to the keyspace. -/
theorem hash_search_iff (sum : List PyFloat → PyFloat) {nTiles keyspace nonceStart : Int}
    {targetPre pre : String} {weights : Option (List PyFloat)} {jobs : List SubmitRequest}
    (h : buildHashcrackJobs sum nTiles keyspace targetPre pre nonceStart weights = .ok jobs) :
    (∀ (digest : String → Int → Except String String) outputs results,
        List.Forall₂ (TileRan digest) jobs outputs → results.reduceOption.Perm outputs →
        IsAnswer digest targetPre pre nonceStart keyspace (aggregateHashcrack results)) ↔
      Fits binary64 sum keyspace weights := by
  unfold buildHashcrackJobs at h
  split at h
  · cases h
  split at h
  · cases h
  next hpos =>
    split at h
    · cases h
    next htarget =>
      obtain ⟨ranges, hranges, h⟩ := Results.bind_eq_ok.mp h
      cases h
      obtain ⟨sizes, rfl, hsizes, hfits, -⟩ := split_spec PyNumber.binary64_keepsSign hranges
      rw [← hfits]
      constructor
      · intro hall
        obtain ⟨outputs, hran, horder, hfound, htried⟩ := unhit_tiles htarget pre nonceStart hsizes
        rw [← htried]
        exact (hall _ _ _ hran horder).exhausted hfound
      · intro hsum digest outputs results hran horder
        apply isAnswer_of_searched (by omega)
        rw [← hsum]
        exact aggregate_searched hsizes hran horder

theorem hash_search_uneven : ∃ jobs,
    buildHashcrackJobs binary64.sum 2 4 "0" "x" 0 (some [.fin 1, .fin 2]) = .ok jobs ∧
      ∀ (digest : String → Int → Except String String) outputs,
        List.Forall₂ (TileRan digest) jobs outputs →
        IsAnswer digest "0" "x" 0 4 (aggregateHashcrack (outputs.reverse.map some)) := by
  have h : buildHashcrackJobs binary64.sum 2 4 "0" "x" 0 (some [.fin 1, .fin 2]) =
      .ok ([(0, 1), (1, 4)].map (hashcrackJob "0" "x" 0)) := by
    rw [buildHashcrackJobs, unevenSplit]
    rfl
  refine ⟨_, h, ?_⟩
  intro digest outputs hran
  apply (hash_search_iff binary64.sum h).mpr unevenSplit_fits digest outputs _ hran
  rw [Results.reduceOption_map_some]
  exact List.reverse_perm _

theorem hugeKeyspace_overshoots : ∃ jobs outputs,
    buildHashcrackJobs binary64.sum 1 (2 ^ 54 + 3) "0" "x" 0 (some [.fin 1]) = .ok jobs ∧
      List.Forall₂ (TileRan fun _ _ => .ok "") jobs outputs ∧
      ¬ IsAnswer (fun _ _ => .ok "") "0" "x" 0 (2 ^ 54 + 3)
        (aggregateHashcrack (outputs.map some)) := by
  have hsizes : ∀ s ∈ [(2 ^ 54 + 4 : Int)], 0 ≤ s := by simp
  have htarget : "0" ≠ "" := by decide
  obtain ⟨outputs, hran, -, -, htried⟩ := unhit_tiles htarget "x" 0 hsizes
  refine ⟨_, outputs, ?_, hran, ?_⟩
  · unfold buildHashcrackJobs
    rw [hugeSplit]
    rfl
  · intro hw
    have hbound := hw.bound
    rw [htried] at hbound
    simp at hbound

end OneCompute.Workloads
