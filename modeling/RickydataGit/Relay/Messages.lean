/-
  The JSON of what a client and a relay send each other.

  A `Format` is a type with what serde writes for it and how it reads it, and carries the
  proof that what is written is read back. `ofBytes_bytes` lifts that to the bytes of a
  body. The fields stand in the order of the source.
-/
import RickydataGit.Relay.Store

namespace RickydataGit.Relay

open RickydataGit.Lib RickydataGit.Core

structure Format (α : Type) where
  toValue : α → Value
  ofValue : Value → Option α
  reads : ∀ a, ofValue (toValue a) = some a

namespace Format

variable {α : Type} (format : Format α) (X : Crates)

/-- `serde_json::to_vec`. -/
def bytes (a : α) : Bytes := toVec X.floatText (format.toValue a)

/-- `serde_json::from_slice`. -/
def ofBytes (bytes : Bytes) : Option α := (X.readJson bytes).bind format.ofValue

variable {X}

theorem ofBytes_bytes (hX : ReadsBack X) (a : α) :
    format.ofBytes X (format.bytes X a) = some a := by
  rw [ofBytes, bytes, hX.compact, Option.bind_some, format.reads]

theorem bytes_inj (hX : ReadsBack X) {a b : α} (h : format.bytes X a = format.bytes X b) :
    a = b := by
  have ha := format.ofBytes_bytes hX a
  rw [h, format.ofBytes_bytes hX] at ha
  exact (Option.some.inj ha).symm

end Format

/-! ## Parts -/

def readStrings (v : Value) : Option (List String) := v.elems.bind fun vs => vs.mapM readStr

theorem readStrings_arr (ids : List String) :
    readStrings (.arr (ids.map .str)) = some ids := by
  rw [readStrings, Value.elems_arr, Option.bind_some, List.mapM_map]
  exact mapM_readStr ids

def objectsOfValue (v : Value) : Option (List CanonicalObject) :=
  v.elems.bind fun vs => vs.mapM CanonicalObject.ofValue

theorem objectsOfValue_arr (objects : List CanonicalObject) :
    objectsOfValue (.arr (objects.map CanonicalObject.toValue)) = some objects := by
  rw [objectsOfValue, Value.elems_arr, Option.bind_some]
  induction objects with
  | nil => rfl
  | cons object objects ih => simp [CanonicalObject.ofValue_toValue, ih]

/-- An `Option<usize>`. -/
def optionU64 : Option UInt64 → Value
  | none => .null
  | some n => .ofU64 n

theorem readOption_optionU64 (o : Option UInt64) :
    readOption readU64 (some (optionU64 o)) = some o := by
  cases o with
  | none => rfl
  | some n => rfl

/-! ## Requests -/

def pushRequestFormat : Format BundlePushRequest where
  toValue r := .obj [("repo_id", .str r.repoId), ("idempotency_key", .str r.idempotencyKey),
    ("objects", .arr (r.objects.map CanonicalObject.toValue))] (by simp)
  ofValue v := do
    let field ← asStruct ["repo_id", "idempotency_key", "objects"] v
    return {
      repoId := ← (field "repo_id").bind readStr
      idempotencyKey := ← (field "idempotency_key").bind readStr
      objects := ← (field "objects").bind objectsOfValue }
  reads r := by
    simp [asStruct_obj, Value.get_obj, objectsOfValue_arr]

/-- The known ids may be left out. -/
def pullRequestFormat : Format BundlePullRequest where
  toValue r := .obj [("repo_id", .str r.repoId),
    ("known_object_ids", .arr (r.knownObjectIds.map .str)), ("limit", optionU64 r.limit)] (by simp)
  ofValue v := do
    let field ← asStruct ["repo_id", "known_object_ids", "limit"] v
    return {
      repoId := ← (field "repo_id").bind readStr
      knownObjectIds := ← (field "known_object_ids").elim (some []) readStrings
      limit := ← readOption readU64 (field "limit") }
  reads r := by
    simp [asStruct_obj, Value.get_obj, readStrings_arr, readOption_optionU64]

/-! ## Reports -/

def pushReportFormat : Format BundlePushReport where
  toValue := BundlePushReport.toValue
  ofValue := BundlePushReport.ofValue
  reads := BundlePushReport.ofValue_toValue

def pullReportFormat : Format BundlePullReport where
  toValue r := .obj [("status", .str r.status), ("repo_id", .str r.repoId),
    ("object_count", .ofU64 r.objectCount),
    ("remaining_object_count", .ofU64 r.remainingObjectCount),
    ("objects", .arr (r.objects.map CanonicalObject.toValue))] (by simp)
  ofValue v := do
    let field ← asStruct ["status", "repo_id", "object_count", "remaining_object_count",
      "objects"] v
    return {
      status := ← (field "status").bind readStr
      repoId := ← (field "repo_id").bind readStr
      objectCount := ← (field "object_count").bind readU64
      remainingObjectCount := ← (field "remaining_object_count").bind readU64
      objects := ← (field "objects").bind objectsOfValue }
  reads r := by
    simp [asStruct_obj, Value.get_obj, objectsOfValue_arr]

def validationReportFormat : Format BundleValidationReport where
  toValue r := .obj [("status", .str r.status), ("repo_id", .str r.repoId),
    ("object_count", .ofU64 r.objectCount), ("object_ids", .arr (r.objectIds.map .str)),
    ("bundle_hash", .str r.bundleHash)] (by simp)
  ofValue v := do
    let field ← asStruct ["status", "repo_id", "object_count", "object_ids", "bundle_hash"] v
    return {
      status := ← (field "status").bind readStr
      repoId := ← (field "repo_id").bind readStr
      objectCount := ← (field "object_count").bind readU64
      objectIds := ← (field "object_ids").bind readStrings
      bundleHash := ← (field "bundle_hash").bind readStr }
  reads r := by
    simp [asStruct_obj, Value.get_obj, readStrings_arr]

def statusReportFormat : Format RepoRelayStatusReport where
  toValue r := .obj [("status", .str r.status), ("repo_id", .str r.repoId),
    ("object_count", .ofU64 r.objectCount), ("object_ids_hash", .str r.objectIdsHash)] (by simp)
  ofValue v := do
    let field ← asStruct ["status", "repo_id", "object_count", "object_ids_hash"] v
    return {
      status := ← (field "status").bind readStr
      repoId := ← (field "repo_id").bind readStr
      objectCount := ← (field "object_count").bind readU64
      objectIdsHash := ← (field "object_ids_hash").bind readStr }
  reads r := by
    simp [asStruct_obj, Value.get_obj]

def objectFormat : Format CanonicalObject where
  toValue := CanonicalObject.toValue
  ofValue := CanonicalObject.ofValue
  reads := CanonicalObject.ofValue_toValue

structure HealthReport where
  status : String
  service : String

def healthReportFormat : Format HealthReport where
  toValue r := .obj [("status", .str r.status), ("service", .str r.service)] (by simp)
  ofValue v := do
    let field ← asStruct ["status", "service"] v
    return {
      status := ← (field "status").bind readStr
      service := ← (field "service").bind readStr }
  reads r := by
    simp [asStruct_obj, Value.get_obj]

structure RelayErrorReport where
  status : String
  message : String

def errorReportFormat : Format RelayErrorReport where
  toValue r := .obj [("status", .str r.status), ("message", .str r.message)] (by simp)
  ofValue v := do
    let field ← asStruct ["status", "message"] v
    return {
      status := ← (field "status").bind readStr
      message := ← (field "message").bind readStr }
  reads r := by
    simp [asStruct_obj, Value.get_obj]

/-- The body of a reply. -/
def RelayReply.bytes (X : Crates) : RelayReply → Bytes
  | .validated report => validationReportFormat.bytes X report
  | .pushed report => pushReportFormat.bytes X report
  | .pulled report => pullReportFormat.bytes X report
  | .object o => objectFormat.bytes X o
  | .ids objectIds => toVec X.floatText (.arr (objectIds.map .str))
  | .status report => statusReportFormat.bytes X report

end RickydataGit.Relay
