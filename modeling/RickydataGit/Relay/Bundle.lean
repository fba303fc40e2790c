/-
  Bundles as the relay receives them: requests, reports, and the validation every
  push goes through before a store is touched.

  The signature policy (the enforcement flag and the repositories still allowed to
  push unsigned objects) is read from the environment; here it is a `Policy`.
  `Accepted` says what validation promises of an object, `validateStoredObject_iff`
  that it is exactly what is checked, and `Accepted.canonical` that it survives the
  canonicalisation an object goes through when it is stored.

  The report of a push is written to the store as its idempotency record.
  `reportFromSlice_recordBytes` reads it back, and `objectFromSlice_recordBytes`
  says that it is never taken for an object.
-/
import RickydataGit.Core.Object

namespace RickydataGit.Relay

open RickydataGit.Lib RickydataGit.Core

/-! ## Errors, requests and reports -/

/-- `RelayError`, as far as the stores raise it. -/
inductive RelayError where
  | invalidObject (objectId message : String)
  | objectConflict (objectId : String)
  | io (message : String)
  | json (message : String)
  deriving DecidableEq

/-- Its `Display`. -/
def RelayError.text : RelayError → String
  | .invalidObject objectId message => s!"invalid object `{objectId}`: {message}"
  | .objectConflict objectId => s!"object `{objectId}` already exists with different bytes"
  | .io message => s!"failed to read or write relay store: {message}"
  | .json message => s!"failed to parse relay JSON: {message}"

structure BundlePushRequest where
  repoId : String
  idempotencyKey : String
  objects : List CanonicalObject

structure BundlePushReport where
  status : String
  repoId : String
  idempotencyKey : String
  acceptedObjectCount : UInt64
  duplicateObjectCount : UInt64
  objectIds : List String
  bundleHash : String
  deriving DecidableEq

structure BundlePullRequest where
  repoId : String
  knownObjectIds : List String
  limit : Option UInt64

structure BundlePullReport where
  status : String
  repoId : String
  objectCount : UInt64
  remainingObjectCount : UInt64
  objects : List CanonicalObject

structure BundleValidationReport where
  status : String
  repoId : String
  objectCount : UInt64
  objectIds : List String
  bundleHash : String
  deriving DecidableEq

structure RepoRelayStatusReport where
  status : String
  repoId : String
  objectCount : UInt64
  objectIdsHash : String
  deriving DecidableEq

/-- `signature_enforcement_enabled` and `legacy_unsigned_repo_ids`, read once. -/
structure Policy where
  enforceSignatures : Bool
  legacyUnsignedRepos : List String

section Validation

variable (X : Crates)

def keyHash (key : String) : String := hexEncode (X.sha256 (utf8 key))

def bundleHash (objectIds : List String) : String :=
  stableJsonHash X (.obj [("object_ids", .arr (objectIds.map .str))] (by simp))

/-! ## Validation -/

/-- One round of the loop over the signatures. -/
def checkSignature (object : CanonicalObject) (signature : ActorSignature) :
    Except RelayError Unit :=
  match verifySignature X object.kind object.schemaVersion object.body signature with
  | .error err =>
    .error (.invalidObject object.objectId s!"signature verification error: {err.text}")
  | .ok false =>
    .error (.invalidObject object.objectId
      s!"invalid signature for public_key {signature.publicKey}")
  | .ok true => .ok ()

def validateObjectWithSignaturePolicy (object : CanonicalObject)
    (requireSignatures verifyPresentSignatures : Bool) : Except RelayError Unit :=
  let computedBodyHash := stableJsonHash X object.body
  let computedObjectId := canonicalObjectId X object.kind object.schemaVersion object.body
  if object.bodyHash ≠ computedBodyHash then
    .error (.invalidObject object.objectId
      s!"body_hash mismatch: found {object.bodyHash}, computed {computedBodyHash}")
  else if object.objectId ≠ computedObjectId then
    .error (.invalidObject object.objectId
      s!"object_id mismatch: found {object.objectId}, computed {computedObjectId}")
  else if requireSignatures ∧ object.signatures = [] then
    .error (.invalidObject object.objectId
      "signature enforcement enabled but object carries no signatures")
  else if verifyPresentSignatures ∧ object.signatures ≠ [] then
    object.signatures.forM (checkSignature X object)
  else .ok ()

variable (policy : Policy)

/-- `validate_stored_object`. -/
def validateStoredObject (repoId : String) (object : CanonicalObject) : Except RelayError Unit :=
  let isLegacyUnsignedRepo := policy.legacyUnsignedRepos.contains repoId
  validateObjectWithSignaturePolicy X object
    (policy.enforceSignatures && !isLegacyUnsignedRepo) policy.enforceSignatures

/-- The loop of `validated_object_ids`, with the ids seen so far. -/
def validatedObjectIdsFrom (repoId : String) :
    List String → List CanonicalObject → Except RelayError (List String)
  | _, [] => return []
  | seen, object :: rest => do
    validateStoredObject X policy repoId object
    if object.objectId ∈ seen then validatedObjectIdsFrom repoId seen rest
    else
      let objectIds ← validatedObjectIdsFrom repoId (object.objectId :: seen) rest
      return object.objectId :: objectIds

def validatedObjectIds (repoId : String) (objects : List CanonicalObject) :
    Except RelayError (List String) :=
  validatedObjectIdsFrom X policy repoId [] objects

def bundleValidationReport (request : BundlePushRequest) :
    Except RelayError BundleValidationReport := do
  let objectIds ← validatedObjectIds X policy request.repoId request.objects
  return {
    status := "ok", repoId := request.repoId, objectCount := .ofNat request.objects.length
    objectIds, bundleHash := bundleHash X objectIds }

/-- What the relay promises of an object it holds for a repository. -/
structure Accepted (repoId : String) (object : CanonicalObject) : Prop where
  valid : object.Valid X
  signed : policy.enforceSignatures = true → repoId ∉ policy.legacyUnsignedRepos →
    object.signatures ≠ []
  verified : policy.enforceSignatures = true → ∀ signature ∈ object.signatures,
    verifySignature X object.kind object.schemaVersion object.body signature = .ok true

variable {X policy} {repoId : String} {object : CanonicalObject}

theorem checkSignature_iff (signature : ActorSignature) :
    checkSignature X object signature = .ok () ↔
      verifySignature X object.kind object.schemaVersion object.body signature = .ok true := by
  unfold checkSignature
  split <;> simp_all

theorem forM_ok_iff {α : Type} {f : α → Except RelayError Unit} (l : List α) :
    l.forM f = .ok () ↔ ∀ a ∈ l, f a = .ok () := by
  induction l with
  | nil => simp [List.forM, pure, Except.pure]
  | cons a l ih =>
    rw [List.forall_mem_cons, ← ih]
    show (f a >>= fun _ => l.forM f) = .ok () ↔ _
    rcases f a with e | u
    · simp [bind, Except.bind]
    · simp [bind, Except.bind]

/-- A check lets the rest through when it finds nothing. -/
theorem check_ok_iff {c : Prop} [Decidable c] {e : RelayError} {rest : Except RelayError Unit} :
    (if c then .error e else rest) = .ok () ↔ ¬ c ∧ rest = .ok () := by
  by_cases hc : c
  · simp [hc]
  · simp [hc]

theorem validateObjectWithSignaturePolicy_iff (requireSignatures verifyPresentSignatures : Bool) :
    validateObjectWithSignaturePolicy X object requireSignatures verifyPresentSignatures = .ok () ↔
      object.Valid X ∧ (requireSignatures = true → object.signatures ≠ []) ∧
      (verifyPresentSignatures = true → ∀ signature ∈ object.signatures,
        verifySignature X object.kind object.schemaVersion object.body signature = .ok true) := by
  unfold validateObjectWithSignaturePolicy
  simp only [check_ok_iff]
  have hloop : (if verifyPresentSignatures = true ∧ object.signatures ≠ [] then
        object.signatures.forM (checkSignature X object) else .ok ()) = .ok () ↔
      (verifyPresentSignatures = true → ∀ signature ∈ object.signatures,
        verifySignature X object.kind object.schemaVersion object.body signature = .ok true) := by
    by_cases hv : verifyPresentSignatures = true ∧ object.signatures ≠ []
    · rw [if_pos hv, forM_ok_iff]
      simp only [checkSignature_iff, hv.1, forall_const]
    · rw [if_neg hv]
      refine ⟨fun _ hp signature hs => ?_, fun _ => rfl⟩
      exact absurd ⟨hp, List.ne_nil_of_mem hs⟩ hv
  rw [hloop]
  constructor
  · intro ⟨hb, hi, hr, hv⟩
    exact ⟨⟨not_not.mp hi, not_not.mp hb⟩, fun hp he => hr ⟨hp, he⟩, hv⟩
  · intro ⟨hvalid, hr, hv⟩
    exact ⟨not_not.mpr hvalid.bodyHash, not_not.mpr hvalid.objectId, fun ⟨hp, he⟩ => hr hp he, hv⟩

theorem validateStoredObject_iff :
    validateStoredObject X policy repoId object = .ok () ↔ Accepted X policy repoId object := by
  unfold validateStoredObject
  rw [validateObjectWithSignaturePolicy_iff]
  constructor
  · intro ⟨hvalid, hs, hv⟩
    exact ⟨hvalid, fun hp hr => hs (by simp [hp, hr]), hv⟩
  · intro h
    exact ⟨h.valid, fun hp => by
      simp only [Bool.and_eq_true, Bool.not_eq_true', List.contains_eq_mem,
        decide_eq_false_iff_not] at hp
      exact h.signed hp.1 hp.2, h.verified⟩

/-- Storing an object canonicalises its body, and changes nothing that was checked. -/
theorem Accepted.canonical (h : Accepted X policy repoId object) :
    Accepted X policy repoId object.canonical where
  valid := CanonicalObject.valid_canonical h.valid
  signed := h.signed
  verified hp signature hs := by
    show verifySignature X object.kind object.schemaVersion (canonicalJson object.body)
      signature = .ok true
    rw [verifySignature_canonicalJson]
    exact h.verified hp signature hs

/-! ## What validation finds -/

theorem validatedObjectIdsFrom_ok {objects : List CanonicalObject} {seen ids : List String}
    (h : validatedObjectIdsFrom X policy repoId seen objects = .ok ids) :
    (∀ object ∈ objects, Accepted X policy repoId object) ∧
      ∀ id, id ∈ ids ↔ id ∉ seen ∧ ∃ object ∈ objects, object.objectId = id := by
  induction objects generalizing seen ids with
  | nil =>
    cases h
    simp
  | cons object rest ih =>
    unfold validatedObjectIdsFrom at h
    cases hv : validateStoredObject X policy repoId object with
    | error e => rw [hv] at h; cases h
    | ok u =>
      rw [hv] at h
      have ha := validateStoredObject_iff.mp hv
      by_cases hs : object.objectId ∈ seen
      · simp only [bind, Except.bind, if_pos hs] at h
        obtain ⟨hrest, hids⟩ := ih h
        refine ⟨List.forall_mem_cons.mpr ⟨ha, hrest⟩, fun id => ?_⟩
        rw [hids, List.exists_mem_cons_iff]
        constructor
        · intro ⟨hn, he⟩
          exact ⟨hn, .inr he⟩
        · intro ⟨hn, he⟩
          exact ⟨hn, he.resolve_left fun hid => hn (hid ▸ hs)⟩
      · simp only [bind, Except.bind, if_neg hs] at h
        cases hr : validatedObjectIdsFrom X policy repoId (object.objectId :: seen) rest with
        | error e => rw [hr] at h; cases h
        | ok ids' =>
          rw [hr] at h
          cases h
          obtain ⟨hrest, hids⟩ := ih hr
          refine ⟨List.forall_mem_cons.mpr ⟨ha, hrest⟩, fun id => ?_⟩
          rw [List.mem_cons, hids, List.mem_cons, List.exists_mem_cons_iff]
          by_cases hid : id = object.objectId
          · simp [hid, hs]
          · simp [hid, Ne.symm hid]

theorem bundleValidationReport_ok {request : BundlePushRequest} {report : BundleValidationReport}
    (h : bundleValidationReport X policy request = .ok report) :
    (∀ object ∈ request.objects, Accepted X policy request.repoId object) ∧
      ∀ id, id ∈ report.objectIds ↔ ∃ object ∈ request.objects, object.objectId = id := by
  unfold bundleValidationReport validatedObjectIds at h
  cases hv : validatedObjectIdsFrom X policy request.repoId [] request.objects with
  | error e => rw [hv] at h; cases h
  | ok ids =>
    rw [hv] at h
    cases h
    obtain ⟨ha, hids⟩ := validatedObjectIdsFrom_ok hv
    exact ⟨ha, fun id => by simpa using hids id⟩

theorem validatedObjectIdsFrom_of_accepted {objects : List CanonicalObject}
    (h : ∀ object ∈ objects, Accepted X policy repoId object) (seen : List String) :
    ∃ ids, validatedObjectIdsFrom X policy repoId seen objects = .ok ids := by
  induction objects generalizing seen with
  | nil => exact ⟨[], rfl⟩
  | cons object rest ih =>
    obtain ⟨ha, hrest⟩ := List.forall_mem_cons.mp h
    unfold validatedObjectIdsFrom
    rw [validateStoredObject_iff.mpr ha]
    by_cases hs : object.objectId ∈ seen
    · obtain ⟨ids, hids⟩ := ih hrest seen
      exact ⟨ids, by simp only [bind, Except.bind, if_pos hs, hids]⟩
    · obtain ⟨ids, hids⟩ := ih hrest (object.objectId :: seen)
      exact ⟨object.objectId :: ids, by simp only [bind, Except.bind, if_neg hs, hids]; rfl⟩

/-- Nothing but an object that is not accepted makes validation fail. -/
theorem bundleValidationReport_of_accepted {request : BundlePushRequest}
    (h : ∀ object ∈ request.objects, Accepted X policy request.repoId object) :
    ∃ report, bundleValidationReport X policy request = .ok report := by
  obtain ⟨ids, hids⟩ := validatedObjectIdsFrom_of_accepted h []
  unfold bundleValidationReport validatedObjectIds
  rw [hids]
  exact ⟨_, rfl⟩

end Validation

/-! ## Records -/

def BundlePushReport.toValue (r : BundlePushReport) : Value :=
  .obj [("status", .str r.status), ("repo_id", .str r.repoId),
    ("idempotency_key", .str r.idempotencyKey),
    ("accepted_object_count", .ofU64 r.acceptedObjectCount),
    ("duplicate_object_count", .ofU64 r.duplicateObjectCount),
    ("object_ids", .arr (r.objectIds.map .str)), ("bundle_hash", .str r.bundleHash)] (by simp)

def BundlePushReport.ofValue (v : Value) : Option BundlePushReport := do
  let field ← asStruct ["status", "repo_id", "idempotency_key", "accepted_object_count",
    "duplicate_object_count", "object_ids", "bundle_hash"] v
  let status ← (field "status").bind readStr
  let repoId ← (field "repo_id").bind readStr
  let idempotencyKey ← (field "idempotency_key").bind readStr
  let acceptedObjectCount ← (field "accepted_object_count").bind readU64
  let duplicateObjectCount ← (field "duplicate_object_count").bind readU64
  let objectIds ← ((field "object_ids").bind Value.elems).bind fun vs => vs.mapM readStr
  let bundleHash ← (field "bundle_hash").bind readStr
  return {
    status, repoId, idempotencyKey, acceptedObjectCount, duplicateObjectCount, objectIds
    bundleHash }

theorem mapM_readStr (ids : List String) : ids.mapM (readStr ∘ Value.str) = some ids := by
  induction ids with
  | nil => rfl
  | cons id ids ih => simp [ih]

theorem BundlePushReport.ofValue_toValue (r : BundlePushReport) : ofValue r.toValue = some r := by
  unfold toValue ofValue
  simp [asStruct_obj, Value.get_obj, Value.elems_arr, mapM_readStr]

/-- A record has no `schema_version`. -/
theorem BundlePushReport.not_object (r : BundlePushReport) :
    CanonicalObject.ofValue r.toValue = none := by
  unfold toValue CanonicalObject.ofValue
  simp [asStruct_obj, Value.get_obj]

section Records

variable (X : Crates)

/-- What `write_json` and `put_json_if_absent` write. -/
def recordBytes (report : BundlePushReport) : Bytes := toVecPretty X.floatText report.toValue

/-- `serde_json::from_slice::<BundlePushReport>`. -/
def reportFromSlice (bytes : Bytes) : Except RelayError BundlePushReport :=
  match (X.readJson bytes).bind BundlePushReport.ofValue with
  | some report => .ok report
  | none => .error (.json (X.jsonError bytes))

/-- An object of the store, its parse error a `RelayError`. -/
def storedObjectFromSlice (bytes : Bytes) : Except RelayError CanonicalObject :=
  (objectFromSlice X bytes).mapError .json

variable {X} (hX : ReadsBack X)
include hX

theorem reportFromSlice_recordBytes (report : BundlePushReport) :
    reportFromSlice X (recordBytes X report) = .ok report := by
  unfold reportFromSlice recordBytes
  rw [hX.pretty, Option.bind_some, report.ofValue_toValue]

theorem recordBytes_inj {r r' : BundlePushReport} (h : recordBytes X r = recordBytes X r') :
    r = r' := by
  have hr := reportFromSlice_recordBytes hX r
  rw [h, reportFromSlice_recordBytes hX r'] at hr
  exact (Except.ok.inj hr).symm

theorem storedObjectFromSlice_canonicalObjectBytes (o : CanonicalObject) :
    storedObjectFromSlice X (canonicalObjectBytes X o) = .ok o.canonical := by
  rw [storedObjectFromSlice, objectFromSlice_canonicalObjectBytes hX]
  rfl

theorem storedObjectFromSlice_recordBytes (r : BundlePushReport) :
    storedObjectFromSlice X (recordBytes X r) = .error (.json (X.jsonError (recordBytes X r))) := by
  unfold storedObjectFromSlice objectFromSlice
  have hv : (X.readJson (recordBytes X r)).bind CanonicalObject.ofValue = none := by
    rw [recordBytes, hX.pretty, Option.bind_some, r.not_object]
  rw [hv]
  rfl

end Records

end RickydataGit.Relay
