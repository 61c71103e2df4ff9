import OneCompute.Trust.Attestation

/-!
Signed manifests: the text that is signed, and what a worker checks. The key that
signs manifests may sign the claims of attestations too.
-/

namespace OneCompute

/-! ## The text of a manifest -/

/-- A date in UTC; its offset is written `Z`. -/
def jsonDate (t : Time) : Json :=
  let text := (PyTime.isoformat t).toList
  .str (String.ofList (text.take (text.length - 6) ++ ['Z']))

def jsonOption {α : Type} (json : α → Json) : Option α → Json
  | some x => json x
  | none => .null

def Requires.json (r : Requires) : Json :=
  .obj [("needs_gpu", .bool r.needsGpu), ("min_vram_gb", jsonOption .float r.minVramGb),
    ("min_ram_gb", jsonOption .float r.minRamGb), ("accel", .arr (r.accel.map .str)),
    ("min_cpus", .int r.minCpus)]

def Limits.json (l : Limits) : Json :=
  .obj [("cpu_pct", .int l.cpuPct), ("mem_gb", .float l.memGb), ("timeout_s", .int l.timeoutS),
    ("network", .str (match l.network with | .none => "none" | .host => "host"))]

def SandboxPolicy.json (s : SandboxPolicy) : Json :=
  .obj [("type", .str (match s.type with
      | .docker => "docker"
      | .windowsSandbox => "windows_sandbox"
      | .jobObject => "job_object")),
    ("vgpu", .bool s.vgpu), ("mapped_ro", .arr (s.mappedRo.map .str))]

def RoutingProvenance.json (p : RoutingProvenance) : Json :=
  .obj [("tenant_id", .str p.tenantId), ("region", .str p.region)]

def JobManifest.json (m : JobManifest) : Json :=
  .obj [("job_id", .str m.jobId), ("kind", .str m.kind.text), ("code_ref", .str m.codeRef),
    ("code_sha256", .str m.codeSha256), ("input_sha256", .str m.inputSha256),
    ("requires", m.requires.json), ("limits", m.limits.json), ("sandbox", m.sandbox.json),
    ("data_classification", .str m.dataClassification.text),
    ("provenance", jsonOption RoutingProvenance.json m.provenance),
    ("issued_at", jsonDate m.issuedAt),
    ("expires_at", jsonOption (fun e => .str e.text) m.expiresAt)]

/-- `manifest.model_dump_json().encode("utf-8")` of a manifest with finite numbers. -/
def JobManifest.dump (m : JobManifest) : List UInt8 :=
  (Json.dumps { ensureAscii := false } m.json).toUTF8.data.toList

/-- An object's text begins with its first field. -/
private theorem object_head {key : String} (hkey : 1 < (Json.quote false key).length)
    (v y : List Char) (rest : List (List Char)) :
    ('{' :: (Json.commaSep ((Json.quote false key ++ ':' :: v) :: y :: rest) ++ ['}']))[2]? =
      (Json.quote false key)[1]? := by
  have hcons : Json.commaSep ((Json.quote false key ++ ':' :: v) :: y :: rest) =
      (Json.quote false key ++ ':' :: v) ++ ',' :: Json.commaSep (y :: rest) := rfl
  rw [List.getElem?_cons_succ, hcons, List.append_assoc, List.append_assoc,
    List.getElem?_append_left hkey]

private theorem claims_head (a b c d e f g : Json) :
    (Json.chars canonicalStyle (.obj [("worker_id", a), ("compliant", b), ("managed", c),
      ("sanctioned", d), ("tee", e), ("issued_at", f), ("expires_at", g)]))[2]? =
      (Json.quote false "compliant")[1]? := by
  have hkey : 1 < (Json.quote false "compliant").length := by decide +kernel
  have harrange (a b c d e f g : List Char) :
      Json.arrange canonicalStyle [("worker_id", a), ("compliant", b), ("managed", c),
        ("sanctioned", d), ("tee", e), ("issued_at", f), ("expires_at", g)] =
      [("compliant", b), ("expires_at", g), ("issued_at", f), ("managed", c), ("sanctioned", d),
        ("tee", e), ("worker_id", a)] := by
    simp [Json.arrange, canonicalStyle, List.insertionSort, List.orderedInsert]
  simp only [Json.chars, Json.fieldChars, harrange, List.map_cons]
  exact object_head hkey _ _ _

private theorem manifest_head (m : JobManifest) :
    (Json.chars { ensureAscii := false } m.json)[2]? = (Json.quote false "job_id")[1]? := by
  have hkey : 1 < (Json.quote false "job_id").length := by decide +kernel
  simp only [JobManifest.json, Json.chars, Json.fieldChars, Json.arrange]
  exact object_head hkey _ _ _

/-- The text of a manifest begins with another field than the claims of an attestation. -/
theorem dump_ne_claims (m : JobManifest) (att : DeviceAttestation) :
    m.dump ≠ canonicalClaimsBytes att := by
  intro h
  have htext : Json.dumps { ensureAscii := false } m.json = Json.dumps canonicalStyle (claims att) :=
    utf8_inj h
  have hchars : Json.chars { ensureAscii := false } m.json = Json.chars canonicalStyle (claims att) :=
    String.ofList_injective htext
  have hhead := manifest_head m
  rw [hchars, claims, claims_head] at hhead
  exact absurd hhead (by decide +kernel)

/-! ## Verification -/

section Verification
variable (ed25519 : Verify) (manifestBytes : JobManifest → List UInt8)

/-- An exception, as of a key that is no hexadecimal text, is a failure. -/
def verifyManifest (sm : SignedManifest) (trustedPublicKeyHex : Option String) : Bool :=
  if sm.signature = "" then false
  else
    match trustedPublicKeyHex with
    | none => ed25519 sm.publicKey sm.signature (manifestBytes sm.manifest)
    | some trusted =>
        if sm.publicKey = "" ∨
            PyText.lower (PyText.strip sm.publicKey) ≠ PyText.lower (PyText.strip trusted) then false
        else ed25519 trusted sm.signature (manifestBytes sm.manifest)

/-- What the holder of `key` signs: some manifests, and the claims of attestations. -/
inductive SignedUnder (manifests : String → JobManifest → Prop) (key : String) :
    List UInt8 → Prop
  | manifest (m : JobManifest) : manifests key m → SignedUnder manifests key (manifestBytes m)
  | claims (att : DeviceAttestation) : SignedUnder manifests key (canonicalClaimsBytes att)

/-- A signature nobody could forge: what it verifies was signed by the holder of
the key. -/
def Unforged (manifests : String → JobManifest → Prop) (signature : String) : Prop :=
  ∀ key data, ed25519 key signature data = true → SignedUnder manifestBytes manifests key data

/-- What is read back from the text that a manifest is signed as. Reading back is
the inverse of writing, and the claims of an attestation do not read as a manifest. -/
structure ReadsBack (reload : List UInt8 → Option JobManifest) (m : JobManifest) : Prop where
  manifest : reload (manifestBytes m) = some m
  claims : ∀ att, reload (canonicalClaimsBytes att) = none

variable {ed25519 manifestBytes}

theorem verifyManifest_pinned {sm : SignedManifest} {key : String}
    (h : verifyManifest ed25519 manifestBytes sm (some key) = true) :
    ed25519 key sm.signature (manifestBytes sm.manifest) = true := by
  unfold verifyManifest at h
  split at h
  · cases h
  · simp only at h
    split at h
    · cases h
    · exact h

/-- A manifest that verifies under a pinned key is one of those signed under it. -/
theorem manifest_of_unforged {manifests : String → JobManifest → Prop} {sm : SignedManifest}
    {key : String} {reload : List UInt8 → Option JobManifest}
    (hreload : ∀ m, m = sm.manifest ∨ manifests key m → ReadsBack manifestBytes reload m)
    (hunforged : Unforged ed25519 manifestBytes manifests sm.signature)
    (h : verifyManifest ed25519 manifestBytes sm (some key) = true) : manifests key sm.manifest := by
  have hread := hreload sm.manifest (.inl rfl)
  have hsigned := hunforged key _ (verifyManifest_pinned h)
  generalize hdata : manifestBytes sm.manifest = data at hsigned
  cases hsigned with
  | manifest m hm =>
      have hback := hreload m (.inr hm)
      have heq : some sm.manifest = some m := by
        rw [← hread.manifest, hdata, hback.manifest]
      rw [Option.some.inj heq]
      exact hm
  | claims att =>
      have hnone := hread.claims att
      rw [← hdata, hread.manifest] at hnone
      cases hnone

end Verification
end OneCompute
