import OneCompute.Contracts.Hashing
import OneCompute.Contracts.Models

/-!
Device trust tiers derived from a signed posture claim. Signature verification
itself is a parameter: public key, signature and message.
-/

namespace OneCompute

abbrev Verify := String → String → List UInt8 → Bool

def verifySignature (ed25519 : Verify) (signatureHex : String) (data : List UInt8)
    (publicKeyHex : String) : Bool :=
  if signatureHex = "" || publicKeyHex = "" then false
  else ed25519 publicKeyHex signatureHex data

def claims (att : DeviceAttestation) : Json :=
  .obj [("worker_id", .str att.workerId), ("compliant", .bool att.compliant),
    ("managed", .bool att.managed), ("sanctioned", .bool att.sanctioned), ("tee", .bool att.tee),
    ("issued_at", .str att.issuedAt.text),
    ("expires_at", match att.expiresAt with | some e => .str e.text | none => .null)]

def canonicalClaimsBytes (att : DeviceAttestation) : List UInt8 := canonicalBytes (claims att)

/-- Whether the attestation has expired; a naive expiry cannot be compared with
the clock, which refuses the attestation like an expiry does. -/
def expired (att : DeviceAttestation) (now : Time) : Bool :=
  match att.expiresAt with
  | none => false
  | some e => (e.le? (.utc now)).getD true

def verifyAttestation (ed25519 : Verify) (att : DeviceAttestation)
    (trustedAuthorityPubkey : Option String) (workerId : String) (now : Time) : Bool :=
  match trustedAuthorityPubkey with
  | none => false
  | some key =>
      if key = "" then false
      else if att.signature = "" then false
      else if att.workerId ≠ workerId then false
      else if expired att now then false
      else verifySignature ed25519 att.signature (canonicalClaimsBytes att) key

def tierUntrusted := "untrusted"
def tierManaged := "managed"
def tierSanctioned := "sanctioned"
def tierConfidentialCompute := "confidential_compute"

def deriveTier (att : DeviceAttestation) : String :=
  if att.tee then tierConfidentialCompute
  else if att.managed && att.compliant && att.sanctioned then tierSanctioned
  else if att.managed && att.compliant then tierManaged
  else tierUntrusted

/-- A verified attestation names the worker, is unexpired, and is signed by the
configured authority. -/
theorem verifyAttestation_sound {ed25519 : Verify} {att : DeviceAttestation} {key : Option String}
    {w : String} {now : Time} (h : verifyAttestation ed25519 att key w now = true) :
    ∃ k, key = some k ∧ k ≠ "" ∧ att.workerId = w ∧ expired att now = false ∧
      ed25519 k att.signature (canonicalClaimsBytes att) = true := by
  unfold verifyAttestation at h
  cases key with
  | none => cases h
  | some k =>
      simp only [ne_eq, ite_not, Bool.if_false_left, Bool.if_false_right, Bool.and_eq_true,
        Bool.not_eq_true', decide_eq_true_eq, decide_eq_false_iff_not] at h
      obtain ⟨hk, hs, hw, he, hv⟩ := h
      refine ⟨k, rfl, hk, hw, by simpa using he, ?_⟩
      simpa [verifySignature, hs, hk] using hv

end OneCompute
