/-
  Object ids, body hashes and the messages that actors sign.

  Both messages are the compact text of a canonical JSON object. The three fields
  of either can be read back from it, and the two objects have different keys:

  * `signingMessage_inj`, `signedRefExpectationMessage_inj`: one message, one
    triple of fields (for an object, up to the canonical form of the body);
  * `signingMessage_ne_signedRefExpectationMessage`: no message of one use is a
    message of the other;
  * `canonicalObjectId_eq`: an object id is the hash of the signing message.

  `signatures_are_bound` puts these together and says what they mean for a
  signature, `Binds` being what is asked of the key: it accepts a signature for
  one message only. Third-party code is a `Crates`; the hash and the signature
  scheme are used through it and nothing is assumed about them beyond their types.
-/
import RickydataGit.Core.Value
import RickydataGit.Lib.Sha256

namespace RickydataGit.Core

open RickydataGit.Lib

/-! ## Third-party code -/

/-- What the code calls outside its own sources. -/
structure Crates where
  /-- How serde_json writes a double. -/
  floatText : FloatText
  /-- The value `serde_json::from_slice` finds in the bytes. -/
  readJson : Bytes → Option Value
  /-- The text of serde_json's error on bytes it refuses. -/
  jsonError : Bytes → String
  /-- `Sha256::digest`. -/
  sha256 : Bytes → Bytes
  sha256_length : ∀ m, (sha256 m).length = 32
  /-- `hex::decode`, with the text of its error. -/
  hexDecode : String → Except String Bytes
  /-- `VerifyingKey::from_bytes`, with the text of its error. -/
  verifyingKey : Bytes → Except String Unit
  /-- `Verifier::verify`, of a key, a message and a signature. -/
  verify : Bytes → Bytes → Bytes → Bool
  /-- `SigningKey::verifying_key`. -/
  verifyingKeyOf : Bytes → Bytes
  /-- `Signer::sign`, of a signing key and a message. -/
  sign : Bytes → Bytes → Bytes
  /-- The object id git gives a blob. -/
  blobId : Bytes → String

/-- `hex::encode`. -/
def hexEncode (bytes : Bytes) : String :=
  .ofList (bytes.flatMap fun b => [(b.toNat / 16).digitChar, (b.toNat % 16).digitChar])

theorem digitChar_inj : ∀ a < 16, ∀ b < 16, a.digitChar = b.digitChar → a = b := by
  decide

theorem hexEncode_inj {a b : Bytes} (h : hexEncode a = hexEncode b) : a = b := by
  replace h := ofList_inj h
  induction a generalizing b with
  | nil =>
    cases b with
    | nil => rfl
    | cons y b => simp at h
  | cons x a ih =>
    cases b with
    | nil => simp at h
    | cons y b =>
      simp only [List.flatMap_cons, List.cons_append, List.nil_append, List.cons.injEq] at h
      obtain ⟨h1, h2, h3⟩ := h
      have hx := x.toNat_lt
      have hy := y.toNat_lt
      have hq := digitChar_inj _ (by omega) _ (by omega) h1
      have hr := digitChar_inj _ (by omega) _ (by omega) h2
      rw [ih h3, UInt8.toNat_inj.mp (by omega : x.toNat = y.toNat)]

theorem hexEncode_toList (bytes : Bytes) :
    (hexEncode bytes).toList =
      bytes.flatMap fun b => [(b.toNat / 16).digitChar, (b.toNat % 16).digitChar] :=
  String.toList_ofList

theorem mem_hexEncode {bytes : Bytes} {c : Char} (h : c ∈ (hexEncode bytes).toList) :
    ∃ d < 16, c = d.digitChar := by
  rw [hexEncode_toList, List.mem_flatMap] at h
  obtain ⟨b, _, hc⟩ := h
  have hb := b.toNat_lt
  simp only [List.mem_cons, List.not_mem_nil, or_false] at hc
  rcases hc with rfl | rfl
  · exact ⟨_, by omega, rfl⟩
  · exact ⟨_, by omega, rfl⟩

theorem length_hexEncode (bytes : Bytes) : (hexEncode bytes).toList.length = 2 * bytes.length := by
  rw [hexEncode_toList]
  induction bytes with
  | nil => rfl
  | cons b bytes ih =>
    simp only [List.flatMap_cons, List.length_append, ih, List.length_cons, List.length_nil]
    omega

theorem length_hexEncode_sha256 (X : Crates) (m : Bytes) :
    (hexEncode (X.sha256 m)).toList.length = 64 := by
  rw [length_hexEncode, X.sha256_length]

/-! ## Hashes -/

section Hashes

variable (X : Crates)

/-- The `sha256:` text of the digest of some bytes. -/
def hashText (bytes : Bytes) : String := "sha256:" ++ hexEncode (X.sha256 bytes)

/-- SHA-256 does not collide on these two messages. -/
def NoCollision (m m' : Bytes) : Prop := X.sha256 m = X.sha256 m' → m = m'

instance (m m' : Bytes) : Decidable (NoCollision X m m') :=
  inferInstanceAs (Decidable (X.sha256 m = X.sha256 m' → m = m'))

variable {X} in
theorem hashText_inj {m m' : Bytes} (hc : NoCollision X m m')
    (h : hashText X m = hashText X m') : m = m' :=
  hc (hexEncode_inj (String.append_right_inj _ |>.mp h))

/-- `strip_prefix("sha256:")`. -/
def stripSha256 (objectId : String) : Option (List Char) :=
  if "sha256:".toList.isPrefixOf objectId.toList then some (objectId.toList.drop 7) else none

theorem eq_of_stripSha256 {objectId : String} {hex : List Char}
    (h : stripSha256 objectId = some hex) : objectId = "sha256:" ++ .ofList hex := by
  have hl : "sha256:".toList.length = 7 := by decide
  unfold stripSha256 at h
  split at h
  · next hp =>
      obtain ⟨t, ht⟩ := List.isPrefixOf_iff_prefix.mp hp
      rw [← ht, ← hl, List.drop_left] at h
      rw [← Option.some.inj h]
      apply String.toList_inj.mp
      simpa using ht.symm
  · cases h

theorem stripSha256_hashText (m : Bytes) :
    stripSha256 (hashText X m) = some (hexEncode (X.sha256 m)).toList := by
  have hl : "sha256:".toList.length = 7 := by decide
  rw [stripSha256, hashText, String.toList_append, if_pos (by simp), ← hl, List.drop_left]

/-- The bytes `stable_json_hash` hashes. -/
def canonicalBytes (value : Value) : Bytes := toVec X.floatText (canonicalJson value)

variable {X} in
theorem canonicalBytes_eq_iff {a b : Value} :
    canonicalBytes X a = canonicalBytes X b ↔ canonicalJson a = canonicalJson b :=
  ⟨toVec_inj, fun h => congrArg (toVec X.floatText) h⟩

/-- `stable_json_hash`. Writing a `Value` does not fail, so neither does this. -/
def stableJsonHash (value : Value) : String := hashText X (canonicalBytes X value)

def canonicalObjectId (kind schemaVersion : String) (body : Value) : String :=
  stableJsonHash X
    (.obj [("kind", .str kind), ("schema_version", .str schemaVersion), ("body", body)] (by simp))

def signingMessage (kind schemaVersion : String) (body : Value) : Bytes :=
  canonicalBytes X
    (.obj [("body", body), ("kind", .str kind), ("schema_version", .str schemaVersion)] (by simp))

/-- `null` or the string, as `json!` writes an `Option<&str>`. -/
def optionStr : Option String → Value
  | none => .null
  | some s => .str s

def signedRefExpectationMessage (refName : String) (expectedPreviousOid : Option String)
    (newOid : String) : Bytes :=
  canonicalBytes X
    (.obj [("expected_previous_oid", optionStr expectedPreviousOid), ("new_oid", .str newOid),
      ("ref_name", .str refName)] (by simp))

end Hashes

section Messages

variable {X : Crates}

theorem optionStr_inj {o p : Option String} (h : optionStr o = optionStr p) : o = p := by
  have ht := congrArg Value.tree h
  cases o with
  | none =>
    cases p with
    | none => rfl
    | some t => simp [optionStr, Value.null, Value.str] at ht
  | some s =>
    cases p with
    | none => simp [optionStr, Value.null, Value.str] at ht
    | some t => rw [Value.str_inj h]

theorem canonicalJson_optionStr (o : Option String) :
    canonicalJson (optionStr o) = optionStr o := by
  cases o <;> rfl

theorem canonicalJson_signed (kind schemaVersion : String) (body : Value) :
    canonicalJson (.obj [("body", body), ("kind", .str kind),
        ("schema_version", .str schemaVersion)] (by simp)) =
      .obj [("body", canonicalJson body), ("kind", .str kind),
        ("schema_version", .str schemaVersion)] (by simp) := by
  refine (canonicalJson_obj_of_sorted _ ?_).trans rfl
  exact (by decide : ["body", "kind", "schema_version"].Pairwise (· ≤ ·))

theorem canonicalJson_refExpectation (refName : String) (expectedPreviousOid : Option String)
    (newOid : String) :
    canonicalJson (.obj [("expected_previous_oid", optionStr expectedPreviousOid),
        ("new_oid", .str newOid), ("ref_name", .str refName)] (by simp)) =
      .obj [("expected_previous_oid", optionStr expectedPreviousOid), ("new_oid", .str newOid),
        ("ref_name", .str refName)] (by simp) := by
  refine (canonicalJson_obj_of_sorted _ ?_).trans ?_
  · exact (by decide : ["expected_previous_oid", "new_oid", "ref_name"].Pairwise (· ≤ ·))
  · apply Value.ext_tree
    simp [Value.obj_tree, canonicalJson_optionStr]

/-- An object id hashes what its signatures sign. -/
theorem canonicalObjectId_eq (kind schemaVersion : String) (body : Value) :
    canonicalObjectId X kind schemaVersion body =
      hashText X (signingMessage X kind schemaVersion body) := by
  unfold canonicalObjectId stableJsonHash signingMessage canonicalBytes
  rw [canonicalJson_obj_perm]
  exact @List.perm_append_comm _ [_, _] [("body", body)]

theorem signingMessage_eq_iff {k₁ k₂ v₁ v₂ : String} {b₁ b₂ : Value} :
    signingMessage X k₁ v₁ b₁ = signingMessage X k₂ v₂ b₂ ↔
      k₁ = k₂ ∧ v₁ = v₂ ∧ canonicalJson b₁ = canonicalJson b₂ := by
  unfold signingMessage
  rw [canonicalBytes_eq_iff, canonicalJson_signed, canonicalJson_signed]
  constructor
  · intro h
    have ht := congrArg Value.tree h
    simp only [Value.obj_tree, List.map_cons, List.map_nil, Json.obj.injEq, List.cons.injEq,
      Prod.mk.injEq, true_and, and_true] at ht
    obtain ⟨hb, hk, hv⟩ := ht
    exact ⟨Value.str_inj (Value.ext_tree hk), Value.str_inj (Value.ext_tree hv),
      Value.ext_tree hb⟩
  · rintro ⟨rfl, rfl, hb⟩
    apply Value.ext_tree
    rw [Value.obj_tree, Value.obj_tree]
    simp only [List.map_cons, List.map_nil, hb]

theorem signedRefExpectationMessage_inj {r₁ r₂ n₁ n₂ : String} {p₁ p₂ : Option String}
    (h : signedRefExpectationMessage X r₁ p₁ n₁ = signedRefExpectationMessage X r₂ p₂ n₂) :
    r₁ = r₂ ∧ p₁ = p₂ ∧ n₁ = n₂ := by
  unfold signedRefExpectationMessage at h
  rw [canonicalBytes_eq_iff, canonicalJson_refExpectation, canonicalJson_refExpectation] at h
  have ht := congrArg Value.tree h
  simp only [Value.obj_tree, List.map_cons, List.map_nil, Json.obj.injEq, List.cons.injEq,
    Prod.mk.injEq, true_and, and_true] at ht
  obtain ⟨hp, hn, hr⟩ := ht
  exact ⟨Value.str_inj (Value.ext_tree hr), optionStr_inj (Value.ext_tree hp),
    Value.str_inj (Value.ext_tree hn)⟩

/-- The first key of the two objects tells them apart. -/
theorem signingMessage_ne_signedRefExpectationMessage (k v : String) (b : Value) (r : String)
    (p : Option String) (n : String) :
    signingMessage X k v b ≠ signedRefExpectationMessage X r p n := by
  unfold signingMessage signedRefExpectationMessage
  rw [Ne, canonicalBytes_eq_iff, canonicalJson_signed, canonicalJson_refExpectation]
  intro h
  have ht := congrArg Value.tree h
  simp [Value.obj_tree] at ht

end Messages

/-! ## Signatures -/

def defaultSchemaVersion : String := "rickydata.git.v1"

def signatureAlgorithmEd25519 : String := "ed25519"

def publicKeyLength : Nat := 32

def signatureLength : Nat := 64

/-- `CoreError`, the variant that signatures raise. -/
inductive CoreError where
  | signing (message : String)
  deriving DecidableEq

/-- Its `Display`. -/
def CoreError.text : CoreError → String
  | .signing message => s!"signing error: {message}"

structure ActorSignature where
  algorithm : String
  publicKey : String
  signature : String
  signedAtMs : Option UInt64
  signerLabel : Option String
  deriving DecidableEq

structure SignedRefExpectation where
  refName : String
  expectedPreviousOid : Option String
  newOid : String
  signature : ActorSignature
  deriving DecidableEq

section Signatures

variable (X : Crates)

/-- The decoding that both verifications go through, then the check of the message. -/
def verifyMessage (signature : ActorSignature) (message : Bytes) : Except CoreError Bool := do
  if signature.algorithm ≠ signatureAlgorithmEd25519 then
    throw (.signing s!"unsupported signature algorithm: {signature.algorithm}")
  let publicKeyBytes ← (X.hexDecode signature.publicKey).mapError fun err =>
    .signing s!"public_key hex decode failed: {err}"
  if publicKeyBytes.length ≠ publicKeyLength then
    throw (.signing s!"public_key must be {publicKeyLength} bytes")
  (X.verifyingKey publicKeyBytes).mapError fun err => .signing s!"invalid verifying key: {err}"
  let signatureBytes ← (X.hexDecode signature.signature).mapError fun err =>
    .signing s!"signature hex decode failed: {err}"
  if signatureBytes.length ≠ signatureLength then
    throw (.signing s!"signature must be {signatureLength} bytes")
  return X.verify publicKeyBytes message signatureBytes

def verifySignature (kind schemaVersion : String) (body : Value) (signature : ActorSignature) :
    Except CoreError Bool :=
  verifyMessage X signature (signingMessage X kind schemaVersion body)

def verifyRefExpectationSignature (expectation : SignedRefExpectation) : Except CoreError Bool :=
  verifyMessage X expectation.signature
    (signedRefExpectationMessage X expectation.refName expectation.expectedPreviousOid
      expectation.newOid)

/-- What is asked of a key: it does not accept the signature for both messages when
    they differ. -/
def Binds (signature : ActorSignature) (m m' : Bytes) : Prop :=
  verifyMessage X signature m = .ok true → verifyMessage X signature m' = .ok true → m = m'

end Signatures

/-- A verification looks at the body through its canonical form only. -/
theorem verifySignature_congr (X : Crates) (kind schemaVersion : String) {b b' : Value}
    (h : canonicalJson b = canonicalJson b') (signature : ActorSignature) :
    verifySignature X kind schemaVersion b signature =
      verifySignature X kind schemaVersion b' signature := by
  unfold verifySignature
  rw [signingMessage_eq_iff.mpr ⟨rfl, rfl, h⟩]

theorem verifySignature_canonicalJson (X : Crates) (kind schemaVersion : String) (body : Value)
    (signature : ActorSignature) :
    verifySignature X kind schemaVersion (canonicalJson body) signature =
      verifySignature X kind schemaVersion body signature :=
  verifySignature_congr X kind schemaVersion (canonicalJson_idem body) signature

theorem stableJsonHash_canonicalJson (X : Crates) (body : Value) :
    stableJsonHash X (canonicalJson body) = stableJsonHash X body := by
  unfold stableJsonHash canonicalBytes
  rw [canonicalJson_idem]

theorem canonicalObjectId_canonicalJson (X : Crates) (kind schemaVersion : String)
    (body : Value) :
    canonicalObjectId X kind schemaVersion (canonicalJson body) =
      canonicalObjectId X kind schemaVersion body := by
  rw [canonicalObjectId_eq, canonicalObjectId_eq,
    signingMessage_eq_iff.mpr ⟨rfl, rfl, canonicalJson_idem body⟩]

/-- Signed messages are binding and domain-separated, and so is every signature
    whose key binds it. -/
theorem signatures_are_bound (X : Crates) :
    (∀ k₁ v₁ b₁ k₂ v₂ b₂, signingMessage X k₁ v₁ b₁ = signingMessage X k₂ v₂ b₂ →
      k₁ = k₂ ∧ v₁ = v₂ ∧ canonicalJson b₁ = canonicalJson b₂) ∧
    (∀ r₁ p₁ n₁ r₂ p₂ n₂,
      signedRefExpectationMessage X r₁ p₁ n₁ = signedRefExpectationMessage X r₂ p₂ n₂ →
      r₁ = r₂ ∧ p₁ = p₂ ∧ n₁ = n₂) ∧
    (∀ k v b r p n, signingMessage X k v b ≠ signedRefExpectationMessage X r p n) ∧
    (∀ k v b, canonicalObjectId X k v b =
      "sha256:" ++ hexEncode (X.sha256 (signingMessage X k v b))) ∧
    (∀ s k₁ v₁ b₁ k₂ v₂ b₂,
      Binds X s (signingMessage X k₁ v₁ b₁) (signingMessage X k₂ v₂ b₂) →
      verifySignature X k₁ v₁ b₁ s = .ok true → verifySignature X k₂ v₂ b₂ s = .ok true →
      k₁ = k₂ ∧ v₁ = v₂ ∧ canonicalJson b₁ = canonicalJson b₂) ∧
    (∀ s r₁ p₁ n₁ r₂ p₂ n₂,
      Binds X s (signedRefExpectationMessage X r₁ p₁ n₁)
        (signedRefExpectationMessage X r₂ p₂ n₂) →
      verifyRefExpectationSignature X ⟨r₁, p₁, n₁, s⟩ = .ok true →
      verifyRefExpectationSignature X ⟨r₂, p₂, n₂, s⟩ = .ok true →
      r₁ = r₂ ∧ p₁ = p₂ ∧ n₁ = n₂) ∧
    (∀ s k v b r p n,
      Binds X s (signingMessage X k v b) (signedRefExpectationMessage X r p n) →
      ¬ (verifySignature X k v b s = .ok true ∧
        verifyRefExpectationSignature X ⟨r, p, n, s⟩ = .ok true)) := by
  refine ⟨fun _ _ _ _ _ _ h => signingMessage_eq_iff.mp h,
    fun _ _ _ _ _ _ h => signedRefExpectationMessage_inj h,
    signingMessage_ne_signedRefExpectationMessage, canonicalObjectId_eq, ?_, ?_, ?_⟩
  · intro s k₁ v₁ b₁ k₂ v₂ b₂ hs h₁ h₂
    exact signingMessage_eq_iff.mp (hs h₁ h₂)
  · intro s r₁ p₁ n₁ r₂ p₂ n₂ hs h₁ h₂
    exact signedRefExpectationMessage_inj (hs h₁ h₂)
  · rintro s k v b r p n hs ⟨h₁, h₂⟩
    exact signingMessage_ne_signedRefExpectationMessage k v b r p n (hs h₁ h₂)

/-! ## A reference instance -/

/-- `hex::decode` of an even number of digits of either case. -/
def decodeHexPairs : List Char → Option Bytes
  | [] => some []
  | a :: b :: r => do
      let n := (← hexDigitValue a) * 16 + (← hexDigitValue b)
      some (.ofNat n :: (← decodeHexPairs r))
  | [_] => none

/-- The crates as far as this development needs to run them: the real hash, the
    exact decimal text of doubles, the blob ids of a `sha256` repository, and a key
    that never accepts anything. -/
def Crates.reference : Crates where
  floatText := .exact
  readJson := readText .exact
  jsonError _ := "invalid JSON"
  sha256 := Sha256.digest
  sha256_length := Sha256.length_digest
  hexDecode s := (decodeHexPairs s.toList).elim (.error "invalid hex") .ok
  verifyingKey _ := .error "signature error"
  verify _ _ _ := false
  verifyingKeyOf _ := []
  sign _ _ := []
  blobId b := hexEncode (Sha256.digest (utf8 s!"blob {b.length}" ++ 0 :: b))

end RickydataGit.Core
