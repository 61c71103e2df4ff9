import OneCompute.Orchestrator.DeviceBinding
import OneCompute.Orchestrator.Launch
import OneCompute.Orchestrator.Provenance

/-!
The four gates over every header, store and configuration. A gate is a check of
the texts it was given, then at most one event. The check compares texts with
`compare_digest`, which raises outside ASCII before anything is recorded; on all
other texts a caller is let in with the token or refused on record.
-/

namespace OneCompute
open Interleaving (Prog Semantics Surroundings serveAlone)

/-- A gate, with what the request tells it besides the header. -/
inductive Gate where
  | worker (workerId : String) (certificate : Option String)
  | submit
  | admin
  | foundry (tenantId : String)

namespace Gate

def enter (cfg : Config) (auth : Option String) : Gate → Handler Unit
  | worker workerId certificate => do
      let _ ← requireWorkerToken cfg workerId auth certificate
      return ()
  | submit => requireSubmitToken cfg auth
  | admin => requireAdminToken cfg auth
  | foundry tenantId => do
      let _ ← authenticateFoundryTenant cfg tenantId auth
      return ()

/-- Nothing is configured for the gate to ask for. -/
def isOpen (cfg : Config) : Gate → Bool
  | submit => cfg.submitToken.getD "" = ""
  | admin => cfg.effectiveAdminToken = ""
  | _ => false

/-- The token that opens the gate. -/
def token (cfg : Config) (db : Db) : Gate → Option String
  | worker workerId _ => (db.workers.find? workerId).map (·.token)
  | submit => some (cfg.submitToken.getD "")
  | admin => some cfg.effectiveAdminToken
  | foundry tenantId =>
      (cfg.foundryTenants.find? (fun p => p.1 == tenantId)).map (·.2.token)

/-- A refusal at the gate is put on record. -/
def records (db : Db) : Gate → Bool
  | worker workerId _ => (db.workers.find? workerId).isSome
  | _ => true

end Gate

/-- The header is the scheme, followed by the token up to surrounding whitespace. -/
def Bears (auth : Option String) (token : String) : Prop :=
  ∃ rest, auth = some ("Bearer " ++ rest) ∧ PyText.strip rest = token

/-- Callers that do nothing but enter a gate. -/
def gateMachine (cfg : Config) :
    Semantics Cmd Ret Failure Unit World Nat (Gate × Option String) Time where
  exec := exec
  start call := call.1.enter cfg call.2
  disturb clock w := { w with clock := clock }

/-- How a gate ends: the caller is in, or it is refused with a 401, and `records`
says whether that has to be on record. -/
def EndsClosed (admits : Prop) (records : Bool) (db : Db) (served : World × Except Failure Unit) :
    Prop :=
  (served.2 = .ok () ∧ admits) ∨
  (∃ detail, served.2 = .error (.http 401 detail)) ∧
    (records = true → ∃ event : EventRow, event.type = .text "auth_failed" ∧
      served.1.db.events.rows = db.events.rows ++ [event])

/-- The gate lets the caller in with the token, or refuses it with a 401 on record. -/
def FailsClosed (cfg : Config) (gate : Gate) (auth : Option String) (env : Surroundings Nat Time)
    (w : World) : Prop :=
  EndsClosed (gate.isOpen cfg = true ∨ ∃ token, gate.token cfg w.db = some token ∧ Bears auth token)
    (gate.records w.db) w.db
    (serveAlone (gateMachine cfg) ((gateMachine cfg).start (gate, auth)) env w)

/-! ## Headers -/

/-- The token a header presents; none when it is missing, empty or of another
scheme. -/
def presentedToken (auth : Option String) : Option String :=
  auth.bind fun header =>
    if PyText.startsWith header "Bearer " && bearerToken header ≠ "" then some (bearerToken header)
    else none

theorem bears_of_bearerToken {header token : String}
    (hscheme : PyText.startsWith header "Bearer " = true) (htoken : bearerToken header = token) :
    Bears (some header) token := by
  unfold PyText.startsWith at hscheme
  obtain ⟨rest, hrest⟩ := List.isPrefixOf_iff_prefix.mp hscheme
  refine ⟨String.ofList rest, ?_, ?_⟩
  · rw [← String.ofList_toList (s := header), ← hrest, String.ofList_append, String.ofList_toList]
  · rw [← htoken, bearerToken, PyText.removePrefix, PyText.startsWith, if_pos hscheme, ← hrest,
      List.drop_left]

/-! ## Comparisons -/

/-- What the gate compares a presented token with; a worker that does not exist
is compared all the same. -/
def Gate.comparedWith (cfg : Config) (db : Db) : Gate → Option String
  | .worker workerId _ =>
      some ((db.workers.find? workerId).elim (String.ofList (List.replicate 32 '0')) (·.token))
  | gate => if gate.isOpen cfg then none else gate.token cfg db

/-- The fingerprint that a certificate is compared with. -/
def boundFingerprint (bind : Bool) (row : WorkerRow) (cert : Option String) : Option String :=
  if bind && (verifiedClientFingerprint cert).isSome then row.certFingerprint else none

/-- What the certificate is compared with once the token has been accepted. -/
def Gate.comparedFingerprint (cfg : Config) (db : Db) (auth : Option String) :
    Gate → Option String
  | .worker workerId certificate =>
      (db.workers.find? workerId).bind fun row =>
        if presentedToken auth = some row.token then
          boundFingerprint cfg.bindDeviceIdentity row certificate
        else none
  | _ => none

/-- Every text that reaches a comparison at the gate is ASCII. -/
def ComparesAscii (cfg : Config) (gate : Gate) (auth : Option String) (db : Db) : Prop :=
  (∀ token ∈ presentedToken auth, ∀ expected ∈ gate.comparedWith cfg db,
    PyText.isAscii token = true ∧ PyText.isAscii expected = true) ∧
  ∀ fingerprint ∈ gate.comparedFingerprint cfg db auth, PyText.isAscii fingerprint = true

theorem compareDigest_none {a b : String} : PyText.compareDigest a b = none ↔
    ¬ (PyText.isAscii a = true ∧ PyText.isAscii b = true) := by
  simp [PyText.compareDigest]

theorem compareDigest_some {a b : String} {same : Bool} (h : PyText.compareDigest a b = some same) :
    PyText.isAscii a = true ∧ PyText.isAscii b = true := by
  unfold PyText.compareDigest at h
  split at h
  next hascii => exact (Bool.and_eq_true _ _).mp hascii
  next => cases h

/-! ## Checks -/

/-- A check passes on the grounds `admits`, or refuses with a 401 that is put on
record when the caller is known. -/
def CheckCloses {A : Type} (admits : Prop) (known : Bool) : Except Refusal A → Prop
  | .ok _ => admits
  | .error r => (∃ detail, r.failure = .http 401 detail) ∧ (known = true → r.audit.isSome = true)

theorem not_checkCloses_uncaught {A : Type} (admits : Prop) (known : Bool) (exception : String) :
    ¬ CheckCloses admits known (.error ⟨.uncaught exception, none⟩ : Except Refusal A) := by
  rintro ⟨⟨detail, hdetail⟩, -⟩
  cases hdetail

section Checks
variable {label expected invalid : String} {auth : Option String} {admits : Prop} {known : Bool}

theorem checkBearer_closes (hadmits : Bears auth expected → admits) :
    CheckCloses admits known (checkBearer label expected invalid auth) ↔
      ∀ token ∈ presentedToken auth,
        PyText.isAscii token = true ∧ PyText.isAscii expected = true := by
  cases auth with
  | none => simp [presentedToken, checkBearer, CheckCloses]
  | some header =>
      by_cases hheader : header = ""
      · have hscheme : PyText.startsWith "" "Bearer " = false := by decide
        simp [presentedToken, checkBearer, CheckCloses, hheader, hscheme]
      · cases hscheme : PyText.startsWith header "Bearer " with
        | false => simp [presentedToken, checkBearer, CheckCloses, hheader, hscheme]
        | true =>
            by_cases hempty : bearerToken header = ""
            · simp [presentedToken, checkBearer, CheckCloses, hheader, hscheme, hempty]
            · simp only [checkBearer, Option.getD_some, if_neg hheader, hscheme, if_true,
                presentedToken, Option.bind_some, Bool.true_and, hempty, ne_eq,
                not_false_eq_true, decide_true, Option.mem_some_iff, forall_eq']
              cases hcompare : PyText.compareDigest (bearerToken header) expected with
              | none =>
                  simpa [not_checkCloses_uncaught] using compareDigest_none.mp hcompare
              | some same =>
                  have hascii := compareDigest_some hcompare
                  cases same with
                  | false => simp [CheckCloses, hascii]
                  | true =>
                      have hbears : Bears (some header) expected :=
                        bears_of_bearerToken hscheme (PyText.eq_of_compareDigest hcompare)
                      simp [CheckCloses, hascii, hadmits hbears]

/-! The digits of a certificate's fingerprint are ASCII. -/

theorem verified_ascii {cert : Option String} {f : String}
    (h : verifiedClientFingerprint cert = some f) : PyText.isAscii f = true := by
  unfold verifiedClientFingerprint at h
  split at h
  next => cases h
  next value =>
    dsimp only at h
    split at h
    next hhex =>
      obtain ⟨-, hdigits⟩ := (Bool.and_eq_true _ _).mp hhex
      rw [Option.some.inj h] at hdigits
      have hall : ("0123456789abcdef".toList.all fun c => decide (c.toNat < 128)) = true := by
        decide +kernel
      refine List.all_eq_true.mpr fun c hc => ?_
      exact List.all_eq_true.mp hall c
        (List.contains_iff_mem.mp (List.all_eq_true.mp hdigits c hc))
    next => cases h

theorem checkDevice_closes {bind : Bool} {row : WorkerRow} {cert : Option String}
    (hadmits : admits) :
    CheckCloses admits known (checkDevice bind row (verifiedClientFingerprint cert)) ↔
      ∀ fingerprint ∈ boundFingerprint bind row cert, PyText.isAscii fingerprint = true := by
  unfold checkDevice boundFingerprint
  cases bind with
  | false => simp [CheckCloses, hadmits]
  | true =>
      cases hcert : verifiedClientFingerprint cert with
      | none =>
          by_cases hstored : row.certFingerprint.getD "" = ""
          · simp [CheckCloses, hadmits, hstored]
          · have hgiven : PyText.lower (PyText.strip "") = "" := by decide
            simp [CheckCloses, hstored, hgiven]
      | some given =>
          cases hrow : row.certFingerprint with
          | none => simp [CheckCloses, hadmits]
          | some stored =>
              by_cases hstored : stored = ""
              · simp [CheckCloses, hadmits, hstored, PyText.isAscii]
              · obtain ⟨hne, hlower⟩ := verified_fingerprint hcert
                simp only [Option.getD_some, ne_eq, hstored, not_false_eq_true, decide_true,
                  Bool.and_self, if_true, hlower, if_neg hne, Option.isSome_some,
                  Option.mem_some_iff, forall_eq']
                cases hcompare : PyText.compareDigest given stored with
                | none =>
                    simpa [not_checkCloses_uncaught, verified_ascii hcert] using
                      compareDigest_none.mp hcompare
                | some same =>
                    have hascii := compareDigest_some hcompare
                    cases same <;> simp [CheckCloses, hascii, hadmits]

end Checks

/-- The worker gate: the token is compared with that of the row, and then the
certificate with the fingerprint of the row. -/
theorem checkWorkerToken_closes {bind : Bool} {worker : Option WorkerRow} {auth cert : Option String} :
    CheckCloses (∃ row, worker = some row ∧ Bears auth row.token) worker.isSome
        (checkWorkerToken bind worker auth (verifiedClientFingerprint cert)) ↔
      (∀ token ∈ presentedToken auth, PyText.isAscii token = true ∧
        PyText.isAscii (worker.elim (String.ofList (List.replicate 32 '0')) (·.token)) = true) ∧
      ∀ row ∈ worker, presentedToken auth = some row.token →
        ∀ fingerprint ∈ boundFingerprint bind row cert, PyText.isAscii fingerprint = true := by
  cases auth with
  | none => cases worker <;> simp [presentedToken, checkWorkerToken, CheckCloses]
  | some header =>
      cases hscheme : PyText.startsWith header "Bearer " with
      | false =>
          cases worker <;> simp [presentedToken, checkWorkerToken, CheckCloses, hscheme]
      | true =>
          by_cases hempty : bearerToken header = ""
          · cases worker <;>
              simp [presentedToken, checkWorkerToken, CheckCloses, hscheme, hempty]
          · have hpresented : presentedToken (some header) = some (bearerToken header) := by
              simp [presentedToken, hscheme, hempty]
            simp only [checkWorkerToken, hscheme, if_true, if_neg hempty, hpresented,
              Option.mem_some_iff, forall_eq', Option.some.injEq]
            cases worker with
            | none =>
                -- a token is compared with zeros, and refused whatever it is
                simp only [Option.elim_none]
                generalize String.ofList (List.replicate 32 '0') = stored
                cases hcompare : PyText.compareDigest (bearerToken header) stored with
                | none =>
                    simpa [not_checkCloses_uncaught] using compareDigest_none.mp hcompare
                | some same =>
                    have hascii := compareDigest_some hcompare
                    cases same <;> simp [CheckCloses, hascii]
            | some row =>
                simp only [Option.elim_some, Option.mem_some_iff, forall_eq']
                cases hcompare : PyText.compareDigest (bearerToken header) row.token with
                | none =>
                    have hraises := compareDigest_none.mp hcompare
                    simp [not_checkCloses_uncaught, hraises]
                | some same =>
                    have hascii := compareDigest_some hcompare
                    cases same with
                    | false =>
                        have hother : bearerToken header ≠ row.token := by
                          rintro heq
                          simp [PyText.compareDigest, heq, hascii.2] at hcompare
                        simp [CheckCloses, hascii, hother]
                    | true =>
                        have hsame := PyText.eq_of_compareDigest hcompare
                        have hbears : Bears (some header) row.token :=
                          bears_of_bearerToken hscheme hsame
                        simp only [hascii, hsame, and_self, true_and, forall_const]
                        exact checkDevice_closes ⟨row, rfl, hbears⟩

/-! ## How a gate ends -/

/-- What a gate does with the outcome of its check. -/
def settleCheck {A : Type} (who : Option String) : Except Refusal A → Handler Unit
  | .ok _ => pure ()
  | .error r => refuse who r

section Ends
variable {cfg : Config} {admits : Prop} {records : Bool}

theorem gateMachine_disturbAll (ts : List Time) (w : World) :
    ((gateMachine cfg).disturbAll ts w).db = w.db := by
  induction ts generalizing w with
  | nil => rfl
  | cons t ts ih => exact ih _

theorem ends_admitted (env : Surroundings Nat Time) (w : World) : EndsClosed admits records w.db
    (serveAlone (gateMachine cfg) (.ret ()) env w) ↔ admits := by
  simp [EndsClosed, serveAlone]

theorem ends_refused (who : Option String) (r : Refusal) (env : Surroundings Nat Time) (w : World) :
    EndsClosed admits records w.db (serveAlone (gateMachine cfg) (refuse who r) env w) ↔
      (∃ detail, r.failure = .http 401 detail) ∧ (records = true → r.audit.isSome = true) := by
  unfold EndsClosed refuse
  cases haudit : r.audit with
  | none => simp [serveAlone]
  | some detail =>
      have hrows : ∃ event : EventRow, event.type = .text "auth_failed" ∧
          (serveAlone (gateMachine cfg) (emitEvent "auth_failed" who none (some detail) >>=
            fun _ => (.raise r.failure : Handler Unit)) env w).1.db.events.rows =
            w.db.events.rows ++ [event] := by
        have hdb := @gateMachine_disturbAll cfg (env 0).1 w
        generalize hfound : (gateMachine cfg).disturbAll (env 0).1 w = found at hdb
        refine ⟨EventRow.make (tailHash found.db.events.rows) found.clock
          ⟨"auth_failed", who, none, some detail⟩ (found.db.events.seq + 1), rfl, ?_⟩
        rw [← hdb, ← emit_rows, ← hfound]
        rfl
      have hend : (serveAlone (gateMachine cfg) (emitEvent "auth_failed" who none (some detail) >>=
          fun _ => (.raise r.failure : Handler Unit)) env w).2 = .error r.failure := rfl
      simp [hrows, hend]

/-- A gate ends closed when its check does. -/
theorem ends_settleCheck {A : Type} (who : Option String) (check : Except Refusal A)
    (env : Surroundings Nat Time) (w : World) :
    EndsClosed admits records w.db (serveAlone (gateMachine cfg) (settleCheck who check) env w) ↔
      CheckCloses admits records check := by
  cases check with
  | ok a => exact ends_admitted env w
  | error r => exact ends_refused who r env w

theorem requireBearer_settles (label expected invalid : String) (auth : Option String) :
    requireBearer label expected invalid auth =
      settleCheck none (checkBearer label expected invalid auth) := by
  unfold requireBearer
  cases checkBearer label expected invalid auth <;> rfl

/-- A gate with a configured token fails closed on texts that compare. -/
theorem ends_requireBearer {label expected invalid : String} {auth : Option String}
    (hadmits : Bears auth expected → admits) (env : Surroundings Nat Time) (w : World) :
    EndsClosed admits records w.db
        (serveAlone (gateMachine cfg) (requireBearer label expected invalid auth) env w) ↔
      ∀ token ∈ presentedToken auth,
        PyText.isAscii token = true ∧ PyText.isAscii expected = true := by
  rw [requireBearer_settles, ends_settleCheck]
  exact checkBearer_closes hadmits

theorem refuse_bind {A B : Type} (who : Option String) (r : Refusal) (f : A → Handler B) :
    refuse who r >>= f = refuse who r := by
  unfold refuse
  cases r.audit <;> rfl

/-- The worker gate reads the row and settles its check. -/
theorem enter_worker (workerId : String) (auth cert : Option String) :
    (Gate.worker workerId cert).enter cfg auth = .call (.workerRow workerId) fun worker =>
      settleCheck (some workerId) (checkWorkerToken cfg.bindDeviceIdentity worker auth
        (verifiedClientFingerprint cert)) := by
  refine congrArg (Prog.call _) (funext fun (worker : Option WorkerRow) => ?_)
  dsimp only [Prog.bind]
  cases checkWorkerToken cfg.bindDeviceIdentity worker auth (verifiedClientFingerprint cert) with
  | ok row => rfl
  | error r => exact refuse_bind (some workerId) r _

theorem ends_worker (workerId : String) (auth cert : Option String)
    (env : Surroundings Nat Time) (w : World) :
    EndsClosed admits records w.db
        (serveAlone (gateMachine cfg) ((Gate.worker workerId cert).enter cfg auth) env w) ↔
      CheckCloses admits records (checkWorkerToken cfg.bindDeviceIdentity
        (w.db.workers.find? workerId) auth (verifiedClientFingerprint cert)) := by
  rw [enter_worker, ← @gateMachine_disturbAll cfg (env 0).1 w]
  exact ends_settleCheck _ _ _ _

/-- The tenant gate refuses unknown tenants, and asks the others for their token. -/
theorem enter_foundry (tenantId : String) (auth : Option String) :
    (∃ detail audit, (Gate.foundry tenantId).enter cfg auth =
        refuse none ⟨.http 401 detail, some audit⟩ ∧
      (cfg.foundryTenants.find? (fun p => p.1 == tenantId)).map (·.2) = none) ∨
    ∃ tenant, (Gate.foundry tenantId).enter cfg auth =
        requireBearer "foundry" tenant.token "invalid tenant token" auth ∧
      (cfg.foundryTenants.find? (fun p => p.1 == tenantId)).map (·.2) = some tenant := by
  simp only [Gate.enter]
  unfold authenticateFoundryTenant
  split
  next hempty =>
    have hnone : cfg.foundryTenants = [] := List.isEmpty_iff.mp hempty
    exact .inl ⟨_, _, refuse_bind none _ _, by rw [hnone]; rfl⟩
  next =>
    cases (cfg.foundryTenants.find? (fun p => p.1 == tenantId)).map (·.2) with
    | none => exact .inl ⟨_, _, refuse_bind none _ _, rfl⟩
    | some tenant =>
        refine .inr ⟨tenant, ?_, rfl⟩
        exact (Prog.bind_bind _ _ _).trans (Prog.bind_ret _)

end Ends

/-- The gates of operators ask for one configured token, if there is one. -/
theorem operator_failsClosed {cfg : Config} {gate : Gate} {label expected invalid : String}
    {auth : Option String} {w : World}
    (henter : gate.enter cfg auth =
      if expected = "" then pure () else requireBearer label expected invalid auth)
    (hopen : gate.isOpen cfg = decide (expected = ""))
    (htoken : gate.token cfg w.db = some expected)
    (hcompared : gate.comparedWith cfg w.db = if expected = "" then none else some expected)
    (hdevice : gate.comparedFingerprint cfg w.db auth = none) (env : Surroundings Nat Time) :
    FailsClosed cfg gate auth env w ↔ ComparesAscii cfg gate auth w.db := by
  unfold FailsClosed ComparesAscii
  dsimp only [gateMachine]
  rw [henter, hopen, hcompared, hdevice]
  by_cases hempty : expected = ""
  · rw [if_pos hempty, if_pos hempty]
    refine (ends_admitted env w).trans ?_
    simp [hempty]
  · rw [if_neg hempty, if_neg hempty]
    refine (ends_requireBearer (fun hbears => .inr ⟨expected, htoken, hbears⟩) env w).trans ?_
    simp

/-- A gate lets a caller in with the token of the gate or refuses it with a 401 on
record, exactly when what it compares is ASCII. -/
theorem gate_failsClosed_iff (cfg : Config) (gate : Gate) (auth : Option String)
    (env : Surroundings Nat Time) (w : World) :
    FailsClosed cfg gate auth env w ↔ ComparesAscii cfg gate auth w.db := by
  cases gate with
  | worker workerId cert =>
      have hadmits : ((Gate.worker workerId cert).isOpen cfg = true ∨
          ∃ token, (Gate.worker workerId cert).token cfg w.db = some token ∧ Bears auth token) ↔
            ∃ row, w.db.workers.find? workerId = some row ∧ Bears auth row.token := by
        simp [Gate.isOpen, Gate.token]
      unfold FailsClosed ComparesAscii
      dsimp only [gateMachine]
      rw [hadmits]
      refine (ends_worker workerId auth cert env w).trans (checkWorkerToken_closes.trans ?_)
      refine and_congr (by simp [Gate.comparedWith]) ?_
      simp only [Gate.comparedFingerprint]
      cases w.db.workers.find? workerId with
      | none => simp
      | some row =>
          simp only [Option.mem_some_iff, forall_eq', Option.bind_some]
          split
          next hsame => simp [hsame]
          next hother => simp [hother]
  | submit =>
      exact operator_failsClosed rfl rfl rfl (by simp [Gate.comparedWith, Gate.isOpen, Gate.token])
        rfl env
  | admin =>
      exact operator_failsClosed rfl rfl rfl (by simp [Gate.comparedWith, Gate.isOpen, Gate.token])
        rfl env
  | foundry tenantId =>
      unfold FailsClosed ComparesAscii
      dsimp only [gateMachine]
      obtain ⟨detail, audit, henter, hunknown⟩ | ⟨tenant, henter, hknown⟩ :=
        @enter_foundry cfg tenantId auth
      · have htoken : (Gate.foundry tenantId).comparedWith cfg w.db = none := by
          simpa [Gate.comparedWith, Gate.isOpen, Gate.token] using hunknown
        rw [henter, htoken]
        refine (ends_refused none _ env w).trans ?_
        simp [Gate.comparedFingerprint]
      · have htoken : (Gate.foundry tenantId).token cfg w.db = some tenant.token := by
          simpa [Gate.token, Function.comp_def] using congrArg (Option.map (·.token)) hknown
        have hcompared : (Gate.foundry tenantId).comparedWith cfg w.db = some tenant.token := htoken
        rw [henter, hcompared]
        refine (ends_requireBearer (fun hbears => .inr ⟨tenant.token, htoken, hbears⟩) env w).trans ?_
        simp [Gate.comparedFingerprint]

/-! ## A header that raises -/

/-- A header of Latin-1 characters, as any HTTP client can send it. -/
def accentedHeader : String := "Bearer é"

/-- The comparison raises before the refusal is recorded. -/
theorem accentedHeader_raises :
    ¬ FailsClosed { submitToken := some "s" } .submit (some accentedHeader) (fun _ => ([], 0))
      (World.fresh 0) := by
  have hcheck : checkBearer "submit" "s" "invalid submit token" (some accentedHeader) =
      .error ⟨.uncaught "TypeError", none⟩ := by
    rfl
  unfold FailsClosed
  dsimp only [gateMachine, Gate.enter, requireSubmitToken, Option.getD_some]
  rw [if_neg (by decide), requireBearer_settles, hcheck]
  rintro (⟨hin, -⟩ | ⟨⟨detail, hrefused⟩, -⟩)
  · cases hin
  · cases hrefused

end OneCompute
