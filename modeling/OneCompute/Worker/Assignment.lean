import OneCompute.Orchestrator.JobRows
import OneCompute.Worker.Agent

/-!
Assignments between the orchestrator and its workers: those it hands out pass the
worker's checks, and a worker with a pinned key executes nothing else than what was
signed under that key.
-/

namespace OneCompute.Worker

/-- The orchestrator's key pair: what it signs verifies under its public key. -/
structure SignerCorrect (cfg : Config) : Prop where
  key : cfg.publicKeyHex ≠ ""
  signature : ∀ data, cfg.sign data ≠ ""
  verifies : ∀ data, cfg.ed25519 cfg.publicKeyHex (cfg.sign data) data = true

/-- The agent pins no key, or the orchestrator's. -/
def Trusts (agent : WorkerAgent) (cfg : Config) : Prop :=
  agent.pinned = none ∨ agent.trustedPublicKeyHex = some cfg.publicKeyHex

theorem checkSignature_signed {cfg : Config} (hcfg : SignerCorrect cfg) {agent : WorkerAgent}
    (htrusts : Trusts agent cfg) (manifest : JobManifest) :
    checkSignature cfg.ed25519 cfg.manifestBytes agent (signManifest cfg manifest) = none := by
  have hverifies : ∀ pin, pin = none ∨ pin = some cfg.publicKeyHex →
      verifyManifest cfg.ed25519 cfg.manifestBytes (signManifest cfg manifest) pin = true := by
    intro pin hpin
    unfold verifyManifest signManifest
    rw [if_neg (hcfg.signature _)]
    rcases hpin with rfl | rfl
    · exact hcfg.verifies _
    · simp [hcfg.key, hcfg.verifies]
  have hpinned : agent.pinned = none ∨ agent.pinned = some cfg.publicKeyHex := by
    refine htrusts.imp_right ?_
    intro hkey
    simp [WorkerAgent.pinned, hkey, hcfg.key]
  unfold checkSignature
  rcases hpinned with hp | hp
  · rw [hp]
    simp [hverifies none (.inl rfl)]
  · rw [hp]
    simp only
    rw [if_neg (show (signManifest cfg manifest).signature ≠ "" from hcfg.signature _),
      hverifies _ (.inr rfl)]
    rfl

/-- What the orchestrator signs for a sealed job is accepted at any time. -/
theorem verifyAssignment_sealed {cfg : Config} (hcfg : SignerCorrect cfg) {agent : WorkerAgent}
    (htrusts : Trusts agent cfg) {s : Submission} (hs : Sealed s) (now : Time) :
    verifyAssignment cfg.ed25519 cfg.manifestBytes agent now
      { signedManifest := signManifest cfg s.manifest, input := s.input } = .accepted := by
  unfold verifyAssignment
  simp only
  rw [checkSignature_signed hcfg htrusts]
  simp [signManifest, hs.lasting, hs.hash]

/-- What an agent with a pinned key executes. -/
structure Genuine (manifests : String → JobManifest → Prop) (key : String) (now : Time)
    (assignment : JobAssignment) : Prop where
  signed : manifests key assignment.signedManifest.manifest
  unexpired : ∀ e, assignment.signedManifest.manifest.expiresAt = some e →
    e.le? (.utc now) = some false
  input : assignment.signedManifest.manifest.inputSha256 ≠ "" →
    sha256Hex (.obj assignment.input) = assignment.signedManifest.manifest.inputSha256

theorem pinned_verifies {ed25519 : Verify} {manifestBytes : JobManifest → List UInt8}
    {agent : WorkerAgent} {key : String} {sm : SignedManifest} (hkey : agent.pinned = some key)
    (h : checkSignature ed25519 manifestBytes agent sm = none) :
    verifyManifest ed25519 manifestBytes sm (some key) = true := by
  unfold checkSignature at h
  rw [hkey] at h
  simp only at h
  split at h
  · cases h
  · split at h
    · cases h
    next hverified => simpa using hverified

/-- Assignments are intact end to end. What a poll returned is the submission that
some call had stored, and passes the checks of an agent without a pinned key and of
one that pins the orchestrator's. And whatever an agent with a pinned key is handed,
it executes only if the manifest was signed under that key, has not expired, and
names the input by its hash. -/
theorem assignment_integrity (cfg : Config) (hcfg : SignerCorrect cfg) :
    (∀ (clock : Time) (ms : List Move) (i : Nat) w auth cert past response,
      (run cfg clock ms).threads[i]? = some ⟨.jobsNext w auth cert, past, .ret (.assignment response)⟩ →
      ∃ s, (∃ p ∈ runTrace cfg clock ms, p.cmd = .insertJob s) ∧
        response = { signedManifest := signManifest cfg s.manifest, input := s.input } ∧
        ∀ agent now, Trusts agent cfg →
          verifyAssignment cfg.ed25519 cfg.manifestBytes agent now response = .accepted) ∧
    (∀ (agent : WorkerAgent) (key : String) (manifests : String → JobManifest → Prop)
        (reload : List UInt8 → Option JobManifest) (assignment : JobAssignment) (x : Execution)
        (now : Time) (duration : PyFloat) (job : JobManifest × Dict),
      agent.verify = true → agent.pinned = some key →
      Unforged cfg.ed25519 cfg.manifestBytes manifests assignment.signedManifest.signature →
      (∀ m, m = assignment.signedManifest.manifest ∨ manifests key m →
        ReadsBack cfg.manifestBytes reload m) →
      (runJob cfg.ed25519 cfg.manifestBytes agent x now duration assignment).ran = some job →
      job = (assignment.signedManifest.manifest, assignment.input) ∧
        Genuine manifests key now assignment) := by
  constructor
  · intro clock ms i w auth cert past response hthread
    obtain ⟨⟨row, cap, job, -, hsaw, rfl⟩, hseen⟩ := run_ended hthread
    obtain ⟨q, hq, -, -, hanswered⟩ := hseen _ _ hsaw
    obtain ⟨hsealed, hinserted⟩ := run_granted hq hanswered
    exact ⟨job.submission, hinserted, rfl, fun agent now htrusts =>
      verifyAssignment_sealed hcfg htrusts hsealed now⟩
  · intro agent key manifests reload assignment x now duration job hverify hkey hunforged hreload hran
    obtain ⟨haccepted, hjob⟩ := ran_accepted hverify hran
    obtain ⟨hsig, hexpiry, hhash⟩ := verifyAssignment_accepted haccepted
    have hverified := pinned_verifies hkey hsig
    exact ⟨hjob, manifest_of_unforged hreload hunforged hverified, hexpiry, hhash⟩

/-- A signature that is its message, under a key of its own. -/
def plainSign (data : List UInt8) : String :=
  String.ofList ('0' :: data.map fun b => Char.ofNat b.toNat)

theorem plainSign_inj {x y : List UInt8} (h : plainSign x = plainSign y) : x = y := by
  have hlist := String.ofList_injective h
  obtain ⟨-, hmap⟩ := List.cons.inj hlist
  refine List.map_injective_iff.mpr ?_ hmap
  intro b c hbc
  have hbyte : ∀ n : Fin 256, (Char.ofNat n).toNat = n := by decide +kernel
  have hnat := congrArg Char.toNat hbc
  have hb : (Char.ofNat b.toNat).toNat = b.toNat := hbyte ⟨b.toNat, b.toNat_lt⟩
  have hc : (Char.ofNat c.toNat).toNat = c.toNat := hbyte ⟨c.toNat, c.toNat_lt⟩
  rw [hb, hc] at hnat
  exact UInt8.toNat_inj.mp hnat

def plainConfig : Config where
  publicKeyHex := "0a"
  sign := plainSign
  ed25519 key signature data := key == "0a" && signature == plainSign data
  manifestBytes := JobManifest.dump

/-- A worker registers, a job is submitted, and the worker polls. -/
def plainRun : List Move :=
  serve 0 4 (.register { workerId := "w" } none) ++
  serve 1 5 (.submit { kind := .dataTransform, dataClassification := .public } none) ++
  serve 2 4 (.jobsNext "w" (some ("Bearer " ++ PyText.uuidHex 0)) none)

/-- What the poll of the worker has returned. -/
def polled (s : Sys) : Option JobAssignment :=
  (s.threads[2]?).bind fun thread =>
    match thread with
    | ⟨.jobsNext _ _ _, _, .ret (.assignment response)⟩ => some response
    | _ => none

theorem polled_thread {s : Sys} {response : JobAssignment} (h : polled s = some response) :
    ∃ w auth cert past,
      s.threads[2]? = some ⟨.jobsNext w auth cert, past, .ret (.assignment response)⟩ := by
  obtain ⟨thread, hthread, h⟩ := Option.bind_eq_some_iff.mp h
  split at h
  next w auth cert past response' =>
    cases h
    exact ⟨w, auth, cert, past, hthread⟩
  next => cases h

theorem plainConfig_correct : SignerCorrect plainConfig where
  key := by decide
  signature data h := by
    have hlist := String.toList_inj.mpr h
    simp [plainConfig, plainSign] at hlist
  verifies data := by simp [plainConfig]

set_option maxRecDepth 20000 in
theorem plainRun_polled : ((polled (run plainConfig 0 plainRun)).map fun response =>
    response.signedManifest.manifest.expiresAt) = some none := by
  decide +kernel

theorem plainConfig_manifestBytes : plainConfig.manifestBytes = JobManifest.dump := by
  simp only [plainConfig]

/-- A reader that knows one manifest. -/
def readOnly (m : JobManifest) (data : List UInt8) : Option JobManifest :=
  if data = plainConfig.manifestBytes m then some m else none

theorem readOnly_back (m : JobManifest) : ReadsBack plainConfig.manifestBytes (readOnly m) m where
  manifest := by
    unfold readOnly
    rw [if_pos rfl]
  claims att := by
    unfold readOnly
    rw [plainConfig_manifestBytes, if_neg (dump_ne_claims m att).symm]

/-- The worker of the run, with the orchestrator's key pinned. -/
def pinnedAgent : WorkerAgent := { workerId := "w", trustedPublicKeyHex := some "0a" }

def idleExecution : Execution := ⟨fun _ _ _ _ _ => .ok [], fun _ _ => .ok []⟩

theorem assignment_integrity_plainRun : ∃ response, polled (run plainConfig 0 plainRun) = some response ∧
    verifyAssignment plainConfig.ed25519 plainConfig.manifestBytes pinnedAgent 0 response = .accepted ∧
    Genuine (fun _ m => m = response.signedManifest.manifest) "0a" 0 response := by
  obtain ⟨hreturned, hexecuted⟩ := assignment_integrity plainConfig plainConfig_correct
  cases hpolled : polled (run plainConfig 0 plainRun) with
  | none =>
      have hsome := plainRun_polled
      rw [hpolled] at hsome
      cases hsome
  | some response =>
      obtain ⟨w, auth, cert, past, hthread⟩ := polled_thread hpolled
      obtain ⟨s, -, hresponse, haccepted⟩ := hreturned 0 plainRun 2 w auth cert past response hthread
      have hpinned := haccepted pinnedAgent 0 (.inr rfl)
      refine ⟨response, rfl, hpinned, ?_⟩
      refine (hexecuted pinnedAgent "0a" (fun _ m => m = response.signedManifest.manifest)
        (readOnly response.signedManifest.manifest) response idleExecution 0 (.fin 0)
        (response.signedManifest.manifest, response.input) rfl (by decide) ?_ ?_ ?_).2
      · intro key data hverifies
        have hsigned : response.signedManifest.signature = plainSign data := by
          have := (Bool.and_eq_true_iff.mp hverifies).2
          simpa using this
        have hdata : data = plainConfig.manifestBytes response.signedManifest.manifest := by
          apply plainSign_inj
          rw [← hsigned, hresponse]
          rfl
        rw [hdata]
        exact .manifest _ rfl
      · rintro m (hm | hm)
        · rw [hm]
          exact readOnly_back _
        · have hm : m = response.signedManifest.manifest := hm
          rw [hm]
          exact readOnly_back _
      · unfold runJob
        rw [if_pos (show pinnedAgent.verify = true from rfl), hpinned]
        rfl

end OneCompute.Worker
