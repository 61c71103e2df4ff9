import OneCompute.Jobkit.Execute
import OneCompute.Orchestrator.StoreInvariant
import OneCompute.Orchestrator.WorkerRows

/-!
Integrity challenges. The executor of the worker and the check of the
orchestrator compute the same answer from an integer, and only the executor's
answer is ever credited.
-/

namespace OneCompute
open Jobkit (pyInt challenge challenge_eq_some)

/-- The square of a number of so many digits is not too long to be written. -/
def plainDigits : Nat := 2150

/-- A number that both sides read as the same integer, and whose answer is not
too long to be written in decimal. -/
def Plain : Json → Prop
  | .int i => i.natAbs < 10 ^ plainDigits
  | .bool _ => True
  | _ => False

theorem succ_square_lt {n b : Nat} (hb : 2 ≤ b) (h : n < b) : n * n + 1 < b * b := by
  have hsq : (n + 1) * (n + 1) ≤ b * b := Nat.mul_le_mul h h
  by_cases hn : n = 0
  · subst hn
    have hbb : 2 * 2 ≤ b * b := Nat.mul_le_mul hb hb
    omega
  · have hexpand : (n + 1) * (n + 1) = n * n + 2 * n + 1 := by ring
    omega

theorem answer_natAbs (i : Int) : (i * i + 1).natAbs = i.natAbs * i.natAbs + 1 := by
  rw [Int.natAbs_add_of_nonneg (mul_self_nonneg i) (by decide), Int.natAbs_mul]
  rfl

theorem answer_digits {i : Int} {k : Nat} (hk : 0 < k) (h : i.natAbs < 10 ^ k) :
    (Nat.toDigits 10 (i * i + 1).natAbs).length ≤ k + k := by
  have hbase : 2 ≤ 10 ^ k :=
    (by decide : 2 ≤ 10 ^ 1).trans (Nat.pow_le_pow_right (by decide) hk)
  rw [Nat.length_toDigits_le_iff (by decide) (by omega), answer_natAbs, Nat.pow_add]
  exact succ_square_lt hbase h

/-- Both sides compute the same integer. -/
theorem squarePlusOne_plain {v : Json} (h : Plain v) : ∃ x : Int, pyInt v = some x ∧
    squarePlusOne v = some (.int (x * x + 1)) ∧
    (Nat.toDigits 10 (x * x + 1).natAbs).length ≤ PyText.maxStrDigits := by
  cases v with
  | bool b => cases b <;> exact ⟨_, rfl, rfl, by decide⟩
  | int i => exact ⟨i, rfl, rfl, answer_digits (k := plainDigits) (by decide) h⟩
  | _ => exact absurd h id

/-- An integer answer is that of the executor. -/
theorem pyInt_of_squarePlusOne {v : Json} {y : Int} (h : squarePlusOne v = some (.int y)) :
    ∃ x : Int, pyInt v = some x ∧ y = x * x + 1 := by
  cases v with
  | bool b =>
      cases b <;>
      · simp only [squarePlusOne, Option.some.injEq, Json.int.injEq] at h
        exact ⟨_, rfl, h.symm⟩
  | int i =>
      simp only [squarePlusOne, Option.some.injEq, Json.int.injEq] at h
      exact ⟨i, rfl, h.symm⟩
  | float x => simp [squarePlusOne] at h
  | _ => cases h

/-- The executor's answer passes. -/
theorem passesChallenge_honest {job : JobRow} {v : Json} {output : Dict}
    (hv : Json.lookup job.inputJson "x" = some v) (hplain : Plain v)
    (hrun : challenge job.inputJson = some output) : passesChallenge job output = .ok true := by
  unfold passesChallenge
  split
  · obtain ⟨x, hx, hy, -⟩ := squarePlusOne_plain hplain
    obtain ⟨v', x', hv', hx', rfl⟩ := challenge_eq_some.mp hrun
    obtain rfl : v = v' := Option.some.inj (hv.symm.trans hv')
    obtain rfl : x = x' := Option.some.inj (hx.symm.trans hx')
    have hcheck : checkChallenge [("y", .int (x * x + 1))] [("y", .int (x * x + 1))] = true :=
      (checkChallenge_iff _ _).mpr ⟨_, rfl, rfl⟩
    simp only [hv, hy, hcheck]
  · rfl

/-- What passes has the executor's answer. -/
theorem passesChallenge_sound {job : JobRow} {output : Dict}
    (hkind : job.manifestJson.kind = .challenge) (h : passesChallenge job output = .ok true) :
    ∃ y : Int, challenge job.inputJson = some [("y", .int y)] ∧
      Json.lookup output "y" = some (.int y) := by
  unfold passesChallenge at h
  rw [if_pos hkind] at h
  split at h
  · cases h
  next v hv =>
    split at h
    · cases h
    next expected hexpected =>
      obtain ⟨y, hy, rfl⟩ := (checkChallenge_iff output expected).mp (Except.ok.inj h)
      obtain ⟨x, hx, rfl⟩ := pyInt_of_squarePlusOne hexpected
      exact ⟨_, challenge_eq_some.mpr ⟨v, x, hv, hx, rfl⟩, hy⟩

theorem intChars_length {i : Int} (h : (Nat.toDigits 10 i.natAbs).length ≤ PyText.maxStrDigits) :
    (Json.intChars i).length ≤ PyText.maxStrDigits + 1 := by
  unfold Json.intChars
  split
  · exact Nat.succ_le_succ h
  · exact Nat.le_succ_of_le h

theorem outputJson_answer (y : Int) :
    (outputJson [("y", .int y)]).length = (Json.intChars y).length + 6 := by
  have hbrace : "\x7b".length = 1 ∧ "\x7d".length = 1 := by decide
  have hkey : "\"".length = 1 ∧ "y".length = 1 ∧ ":".length = 1 := by decide
  simp [outputJson, Json.dumps, Json.chars, Json.fieldChars, Json.arrange, Json.commaSep,
    Json.quote, Json.escapeChar]
  omega

/-- The result that an honest worker posts: the executor's output, with no proof
or with its own. -/
structure HonestResult (job : JobRow) (req : ResultRequest) : Prop where
  status : req.status = .completed
  output : ∃ output, challenge job.inputJson = some output ∧ req.output = some output ∧
    (req.proofSha256 = none ∨ req.proofSha256 = some "" ∨
      req.proofSha256 = some (sha256Hex (.obj output)))
  plain : ∃ v, Json.lookup job.inputJson "x" = some v ∧ Plain v

theorem HonestResult.fits {job : JobRow} {req : ResultRequest} (h : HonestResult job req) :
    Json.withinDigits (.obj req.outputOrEmpty) = true ∧
      (outputJson req.outputOrEmpty).length ≤ maxResultOutputBytes := by
  obtain ⟨output, hrun, hreq, -⟩ := h.output
  obtain ⟨v, hv, hplain⟩ := h.plain
  obtain ⟨x, hx, -, hdigits⟩ := squarePlusOne_plain hplain
  obtain ⟨v', x', hv', hx', rfl⟩ := challenge_eq_some.mp hrun
  obtain rfl : v = v' := Option.some.inj (hv.symm.trans hv')
  obtain rfl : x = x' := Option.some.inj (hx.symm.trans hx')
  have hout : req.outputOrEmpty = [("y", .int (x * x + 1))] := by
    simp [ResultRequest.outputOrEmpty, hreq]
  rw [hout]
  constructor
  · simpa [Json.withinDigits, Json.fieldsWithinDigits] using hdigits
  · rw [outputJson_answer]
    have hlen := intChars_length hdigits
    have hmax : PyText.maxStrDigits + 1 + 6 ≤ maxResultOutputBytes := by decide
    omega

theorem HonestResult.proof {job : JobRow} {req : ResultRequest} (h : HonestResult job req) :
    proofMismatch req = false := by
  obtain ⟨output, -, hreq, hproof⟩ := h.output
  rcases hproof with hnone | hempty | hown
  · simp [proofMismatch, hnone]
  · simp [proofMismatch, hempty]
  · simp [proofMismatch, hown, ResultRequest.outputOrEmpty, hreq]

/-- An honest result posted in time is accepted and credited. -/
theorem settle_honest {jobId : String} {req : ResultRequest} {now : Time} {db : Db} {job : JobRow}
    (held : HeldJob jobId req.workerId now db job) (h : HonestResult job req) :
    (settle jobId req now db).answer = .ok { accepted := true, credited := creditsFor job } ∧
      (settle jobId req now db).db =
        completeJob req.workerId jobId req.outputOrEmpty (creditsFor job) now db := by
  have hpass : passesChallenge job req.outputOrEmpty = .ok true := by
    obtain ⟨output, hrun, hreq, -⟩ := h.output
    obtain ⟨v, hv, hplain⟩ := h.plain
    rw [ResultRequest.outputOrEmpty, hreq]
    exact passesChallenge_honest hv hplain hrun
  have hfits := h.fits.2
  have hproof := h.proof
  obtain ⟨t, hlease, hlive⟩ := held.live
  have hc := settle_cases jobId req now db
  generalize settle jobId req now db = out at hc ⊢
  cases hc with
  | missing hnone => cases hnone.symm.trans held.found
  | notLeased other hfound hnot =>
      obtain rfl : other = job := Option.some.inj (hfound.symm.trans held.found)
      rw [held.leased] at hnot
      cases hnot
  | lapsed other hfound _ hlapsed =>
      obtain rfl : other = job := Option.some.inj (hfound.symm.trans held.found)
      exact absurd (hlapsed t hlease) (Nat.not_le_of_lt hlive)
  | tooLarge other _ hsize => omega
  | invalidProof other _ _ hmismatch =>
      rw [hproof] at hmismatch
      cases hmismatch
  | raised other failure hother _ hraised =>
      obtain rfl : other = job := Option.some.inj (hother.found.symm.trans held.found)
      cases hpass.symm.trans hraised
  | cheated other hother _ hcheated =>
      obtain rfl : other = job := Option.some.inj (hother.found.symm.trans held.found)
      cases hpass.symm.trans hcheated
  | completed other hother _ _ _ _ =>
      obtain rfl : other = job := Option.some.inj (hother.found.symm.trans held.found)
      exact ⟨rfl, rfl⟩
  | returned other _ hstatus => exact absurd h.status hstatus

/-- A challenge that the orchestrator makes is plain, and its known answer is the
executor's. -/
theorem makeChallenge_answer (random : Fin 9998) :
    challenge (makeChallenge random).1 = some (makeChallenge random).2 ∧
      ∃ v, Json.lookup (makeChallenge random).1 "x" = some v ∧ Plain v := by
  refine ⟨rfl, _, rfl, ?_⟩
  have hsmall : ((random : Int) + 2).natAbs < 10 ^ 4 := by omega
  exact hsmall.trans_le (Nat.pow_le_pow_right (by decide) (by decide : 4 ≤ plainDigits))

/-- The result of a worker that answers a challenge of the orchestrator's as it is known. -/
structure KnownResult (random : Fin 9998) (job : JobRow) (req : ResultRequest) : Prop where
  input : job.inputJson = (makeChallenge random).1
  status : req.status = .completed
  output : req.output = some (makeChallenge random).2
  proof : req.proofSha256 = none ∨ req.proofSha256 = some "" ∨
    req.proofSha256 = some (sha256Hex (.obj (makeChallenge random).2))

theorem KnownResult.honest {random : Fin 9998} {job : JobRow} {req : ResultRequest}
    (h : KnownResult random job req) : HonestResult job req := by
  obtain ⟨hanswer, hplain⟩ := makeChallenge_answer random
  rw [← h.input] at hanswer hplain
  exact ⟨h.status, ⟨_, hanswer, h.output, h.proof⟩, hplain⟩

/-- The answer that the executor gives is the one in the output. -/
def ExecutorsAnswer (input output : Dict) : Prop :=
  ∃ y : Int, challenge input = some [("y", .int y)] ∧ Json.lookup output "y" = some (.int y)

/-- Challenges in every run: an honest result posted by the lease holder in time
is credited, as the known answer of every challenge that the orchestrator makes is,
what is credited has the executor's answer, and a call answers what its section
found. -/
theorem run_challenges (cfg : Config) (clock : Time) (ms : List Move) :
    (∀ p ∈ runTrace cfg clock ms, ∀ jobId req now job, p.cmd = .settle jobId req now →
      HeldJob jobId req.workerId now p.pre.db job → job.manifestJson.kind = .challenge →
      HonestResult job req → Json.withinDigits (.obj req.outputOrEmpty) = true ∧
        p.answered (machine cfg) =
          ⟨.settle jobId req now, .ok { accepted := true, credited := creditsFor job }⟩ ∧
        ∃ l ∈ (p.post (machine cfg)).db.ledger.rows,
          l.jobId = some jobId ∧ l.workerId = req.workerId ∧ l.credits = creditsFor job) ∧
    (∀ random job req, KnownResult random job req → HonestResult job req) ∧
    (∀ l ∈ (run cfg clock ms).state.db.ledger.rows, ∃ p ∈ runTrace cfg clock ms,
      ∃ jobId req now job, p.cmd = .settle jobId req now ∧ l.jobId = some jobId ∧
        l.workerId = req.workerId ∧ HeldJob jobId req.workerId now p.pre.db job ∧
        (job.manifestJson.kind = .challenge → ExecutorsAnswer job.inputJson req.outputOrEmpty)) ∧
    ∀ i jobId req auth cert past response,
      (run cfg clock ms).threads[i]? =
        some ⟨.results jobId req auth cert, past, .ret (.result response)⟩ →
      (∃ row, Saw past (.workerRow req.workerId) (some row) ∧ row.blacklisted = true) ∨
      ∃ p ∈ runTrace cfg clock ms, p.thread = i ∧
        ∃ now, p.answered (machine cfg) = ⟨.settle jobId req now, .ok response⟩ := by
  refine ⟨?_, fun random job req h => h.honest, ?_, ?_⟩
  · intro p _ jobId req now job hcmd held _ honest
    obtain ⟨thread, call, past, cmd, input, pre⟩ := p
    obtain rfl : cmd = .settle jobId req now := hcmd
    obtain ⟨hanswer, hdb⟩ := settle_honest held honest
    refine ⟨honest.fits.1, congrArg (Interleaving.Answered.mk _) hanswer, ?_⟩
    have hledger : (exec (.settle jobId req now) input pre).1.db.ledger =
        (settle jobId req now pre.db).db.ledger := emitAll_ledger _ _ _
    refine ⟨.completed req.workerId jobId (creditsFor job) now (pre.db.ledger.seq + 1), ?_, rfl, rfl,
      rfl⟩
    change _ ∈ (exec (.settle jobId req now) input pre).1.db.ledger.rows
    rw [hledger, hdb]
    exact List.mem_append_right _ (List.mem_singleton_self _)
  · intro l hl
    obtain ⟨p, hp, jobId, req, now, job, hcmd, hworker, held, hjob, -, -, hpass⟩ :=
      run_paid cfg clock ms l hl
    refine ⟨p, hp, jobId, req, now, job, hcmd, hjob, hworker.symm, hworker ▸ held, ?_⟩
    exact fun hkind => passesChallenge_sound hkind hpass
  · intro i jobId req auth cert past response hended
    obtain ⟨hwhy, hsaw⟩ := run_ended hended
    rcases hwhy with ⟨row, hrow, hblack, -⟩ | ⟨now, hsettled⟩
    · exact .inl ⟨row, hrow, hblack⟩
    · obtain ⟨p, hp, hthread, -, hanswer⟩ := hsaw _ _ hsettled
      exact .inr ⟨p, hp, hthread, now, hanswer⟩

/-- The next power of ten can be submitted, and its answer cannot be posted. -/
theorem plainDigits_tight :
    Json.withinDigits (.obj [("x", .int (10 ^ plainDigits))]) = true ∧
      Json.withinDigits (.obj [("y", .int (10 ^ plainDigits * 10 ^ plainDigits + 1))]) = false := by
  have hpow (k : Nat) : ((10 : Int) ^ k).natAbs = 10 ^ k := Int.natAbs_pow 10 k
  have hbase := hpow plainDigits
  constructor
  · simp only [Json.withinDigits, Json.fieldsWithinDigits, Bool.and_true, decide_eq_true_eq]
    rw [Nat.length_toDigits_le_iff (by decide) (by decide), hbase]
    exact Nat.pow_lt_pow_right (by decide) (by decide)
  · simp only [Json.withinDigits, Json.fieldsWithinDigits, Bool.and_true, decide_eq_false_iff_not]
    rw [Nat.length_toDigits_le_iff (by decide) (by decide), answer_natAbs, hbase, ← Nat.pow_add]
    have hle : (10 : Nat) ^ PyText.maxStrDigits ≤ 10 ^ (plainDigits + plainDigits) :=
      Nat.pow_le_pow_right (by decide) (by decide)
    omega

/-- A challenge is submitted with the input `x`, leased, and answered. -/
def challengeRun (x : Json) (output : Dict) : List Move :=
  let bearer := some ("Bearer " ++ PyText.uuidHex 0)
  let jobId := PyText.uuidHex 16
  serve 0 4 (.register { workerId := "w" } none) ++
  serve 1 5 (.submit { kind := .challenge, dataClassification := .public, input := [("x", x)] } none) ++
  serve 2 4 (.jobsNext "w" bearer none) ++
  serve 3 3 (.results jobId
    { workerId := "w", jobId := jobId, status := .completed, output := some output } bearer none)

/-- How the last call ended. -/
def challengeReply (x : Json) (output : Dict) : Option (Except Failure ResultResponse) :=
  ((run {} 0 (challengeRun x output)).threads[3]?).bind fun thread =>
    match thread.prog with
    | .ret (.result response) => some (.ok response)
    | .raise failure => some (.error failure)
    | _ => none

set_option maxRecDepth 20000 in
/-- An output with more in it than the executor's is credited. An honest answer
to a float is taken for cheating, one to a numeric string is a server error, and
one that is too long is not read. -/
theorem challengeReply_counterexamples :
    (challenge [("x", .int 3)] = some [("y", .int 10)] ∧
      challengeReply (.int 3) [("y", .int 10), ("z", .int 0)] =
        some (.ok { accepted := true, credited := .fin 1 })) ∧
    (challenge [("x", .float (.fin 2))] = some [("y", .int 5)] ∧
      challengeReply (.float (.fin 2)) [("y", .int 5)] = some (.ok (refused "cheater_blacklisted"))) ∧
    (challenge [("x", .str "3")] = some [("y", .int 10)] ∧
      challengeReply (.str "3") [("y", .int 10)] = some (.error (.uncaught "TypeError"))) ∧
    (challenge [("x", .int (10 ^ plainDigits))] =
        some [("y", .int (10 ^ plainDigits * 10 ^ plainDigits + 1))] ∧
      Json.withinDigits (.obj [("x", .int (10 ^ plainDigits))]) = true ∧
      Json.withinDigits (.obj [("y", .int (10 ^ plainDigits * 10 ^ plainDigits + 1))]) = false) := by
  refine ⟨⟨rfl, ?_⟩, ⟨rfl, ?_⟩, ⟨rfl, ?_⟩, ⟨rfl, plainDigits_tight⟩⟩ <;> decide +kernel

end OneCompute
