/-
  Canonical objects and their JSON.

  An object is written with its fields under their own names, empty options and an
  empty signature list left out, and read back field by field; an array in field
  order is read too. `ofValue_toValue` and `ofValue_canonicalJson_toValue` are the
  round trips without and with canonicalisation in between: the second returns the
  same object with its body in canonical form.

  `Valid` is what makes an object canonical: its id and its body hash are those of
  its fields. `ReadsBack` is what is asked of serde_json, that it reads a text it
  printed as the value that was printed.
-/
import RickydataGit.Core.Signing

namespace RickydataGit.Core

open RickydataGit.Lib

/-- `CanonicalObject<Value>`. -/
structure CanonicalObject where
  schemaVersion : String
  kind : String
  objectId : String
  createdAtMs : UInt64
  body : Value
  bodyHash : String
  signatures : List ActorSignature

/-- `CanonicalObject::new`. -/
def CanonicalObject.new (X : Crates) (kind schemaVersion : String) (createdAtMs : UInt64)
    (body : Value) : CanonicalObject where
  schemaVersion := schemaVersion
  kind := kind
  objectId := canonicalObjectId X kind schemaVersion body
  createdAtMs := createdAtMs
  body := body
  bodyHash := stableJsonHash X body
  signatures := []

def signObject (X : Crates) (object : CanonicalObject) (signingKey : Bytes)
    (signerLabel : Option String) : ActorSignature :=
  let message := signingMessage X object.kind object.schemaVersion object.body
  { algorithm := signatureAlgorithmEd25519
    publicKey := hexEncode (X.verifyingKeyOf signingKey)
    signature := hexEncode (X.sign signingKey message)
    signedAtMs := none
    signerLabel := signerLabel }

/-! ## Writing -/

/-- A member left out when there is nothing to write. -/
def optionalMember (key : String) : Option Value → List (String × Value)
  | none => []
  | some v => [(key, v)]

def ActorSignature.toValue (s : ActorSignature) : Value :=
  .obj ([("algorithm", .str s.algorithm), ("public_key", .str s.publicKey),
      ("signature", .str s.signature)] ++
    optionalMember "signed_at_ms" (s.signedAtMs.map .ofU64) ++
    optionalMember "signer_label" (s.signerLabel.map .str)) (by
      cases s.signedAtMs <;> cases s.signerLabel <;> simp [optionalMember])

/-- The `signatures` member, left out when there are none. -/
def signaturesValue (signatures : List ActorSignature) : Option Value :=
  if signatures.isEmpty then none else some (.arr (signatures.map ActorSignature.toValue))

def CanonicalObject.toValue (o : CanonicalObject) : Value :=
  .obj ([("schema_version", .str o.schemaVersion), ("kind", .str o.kind),
      ("object_id", .str o.objectId), ("created_at_ms", .ofU64 o.createdAtMs), ("body", o.body),
      ("body_hash", .str o.bodyHash)] ++
    optionalMember "signatures" (signaturesValue o.signatures)) (by
      cases signaturesValue o.signatures <;> simp [optionalMember])

/-! ## Reading -/

/-- The fields of a structure: by name from an object, by place from an array. -/
def asStruct (names : List String) (v : Value) : Option (String → Option Value) :=
  match v.elems with
  | some vs => if vs.length ≤ names.length then some fun name => vs[names.idxOf name]? else none
  | none =>
    match v.tree with
    | .obj _ => some v.get
    | _ => none

def readStr (v : Value) : Option String :=
  match v.tree with
  | .str s => some s
  | _ => none

def readU64 (v : Value) : Option UInt64 :=
  match v.tree with
  | .num (.posInt n) => some n
  | _ => none

/-- An `Option` field: absent and `null` are both `None`. -/
def readOption {α : Type} (read : Value → Option α) : Option Value → Option (Option α)
  | none => some none
  | some v =>
    match v.tree with
    | .null => some none
    | _ => (read v).map some

def readSignatures (read : Value → Option ActorSignature) :
    Option Value → Option (List ActorSignature)
  | none => some []
  | some v => v.elems.bind fun vs => vs.mapM read

def ActorSignature.ofValue (v : Value) : Option ActorSignature := do
  let field ← asStruct ["algorithm", "public_key", "signature", "signed_at_ms", "signer_label"] v
  let algorithm ← (field "algorithm").bind readStr
  let publicKey ← (field "public_key").bind readStr
  let signature ← (field "signature").bind readStr
  let signedAtMs ← readOption readU64 (field "signed_at_ms")
  let signerLabel ← readOption readStr (field "signer_label")
  return { algorithm, publicKey, signature, signedAtMs, signerLabel }

def CanonicalObject.ofValue (v : Value) : Option CanonicalObject := do
  let field ← asStruct ["schema_version", "kind", "object_id", "created_at_ms", "body",
    "body_hash", "signatures"] v
  let schemaVersion ← (field "schema_version").bind readStr
  let kind ← (field "kind").bind readStr
  let objectId ← (field "object_id").bind readStr
  let createdAtMs ← (field "created_at_ms").bind readU64
  let body ← field "body"
  let bodyHash ← (field "body_hash").bind readStr
  let signatures ← readSignatures ActorSignature.ofValue (field "signatures")
  return { schemaVersion, kind, objectId, createdAtMs, body, bodyHash, signatures }

theorem asStruct_obj (names : List String) (ms : List (String × Value))
    (h : (ms.map Prod.fst).Nodup) : asStruct names (.obj ms h) = some (Value.obj ms h).get :=
  rfl

theorem asStruct_canonicalJson_obj (names : List String) (ms : List (String × Value))
    (h : (ms.map Prod.fst).Nodup) :
    asStruct names (canonicalJson (.obj ms h)) =
      some fun name => ((Value.obj ms h).get name).map canonicalJson := by
  have hg : (canonicalJson (.obj ms h)).get =
      fun name => ((Value.obj ms h).get name).map canonicalJson :=
    funext fun name => get_canonicalJson _ name
  rw [← hg]
  simp [asStruct, canonicalJson, Value.obj_tree, Value.elems]

@[simp] theorem readStr_str (s : String) : readStr (.str s) = some s := rfl
@[simp] theorem readU64_ofU64 (n : UInt64) : readU64 (.ofU64 n) = some n := rfl

@[simp] theorem canonicalJson_ofU64 (n : UInt64) : canonicalJson (.ofU64 n) = .ofU64 n :=
  Value.ext_tree (congrArg Json.num (canonicalNumber_posInt n))

theorem readOption_map_ofU64 (o : Option UInt64) :
    readOption readU64 (o.map .ofU64) = some o := by
  cases o <;> rfl

theorem readOption_map_str (o : Option String) :
    readOption readStr (o.map .str) = some o := by
  cases o <;> rfl

/-! ## Round trips -/

section Signature

variable (s : ActorSignature)

theorem ActorSignature.get_toValue :
    s.toValue.get "algorithm" = some (.str s.algorithm) ∧
    s.toValue.get "public_key" = some (.str s.publicKey) ∧
    s.toValue.get "signature" = some (.str s.signature) ∧
    s.toValue.get "signed_at_ms" = s.signedAtMs.map .ofU64 ∧
    s.toValue.get "signer_label" = s.signerLabel.map .str := by
  unfold ActorSignature.toValue
  simp only [Value.get_obj]
  cases s.signedAtMs <;> cases s.signerLabel <;> simp [optionalMember]

theorem ActorSignature.ofValue_toValue : ActorSignature.ofValue s.toValue = some s := by
  obtain ⟨h1, h2, h3, h4, h5⟩ := s.get_toValue
  unfold ActorSignature.toValue at h1 h2 h3 h4 h5 ⊢
  unfold ActorSignature.ofValue
  simp only [asStruct_obj, Option.bind_eq_bind, Option.bind_some, h1, h2, h3, h4, h5, readStr_str,
    readOption_map_ofU64, readOption_map_str]
  rfl

theorem ActorSignature.ofValue_canonicalJson :
    ActorSignature.ofValue (canonicalJson s.toValue) = some s := by
  obtain ⟨h1, h2, h3, h4, h5⟩ := s.get_toValue
  unfold ActorSignature.toValue at h1 h2 h3 h4 h5 ⊢
  unfold ActorSignature.ofValue
  have hu : (canonicalJson ∘ Value.ofU64) = Value.ofU64 := funext canonicalJson_ofU64
  have hs : (canonicalJson ∘ Value.str) = Value.str := funext canonicalJson_str
  simp only [asStruct_canonicalJson_obj, Option.bind_eq_bind, Option.bind_some, h1, h2, h3, h4, h5,
    Option.map_some, Option.map_map, canonicalJson_str, readStr_str, hu, hs,
    readOption_map_ofU64, readOption_map_str]
  rfl

end Signature

theorem mapM_ofValue {f : ActorSignature → Value}
    (hf : ∀ s, ActorSignature.ofValue (f s) = some s) (ss : List ActorSignature) :
    (ss.map f).mapM ActorSignature.ofValue = some ss := by
  induction ss with
  | nil => rfl
  | cons s ss ih => simp [hf, ih]

theorem readSignatures_signaturesValue (ss : List ActorSignature) :
    readSignatures ActorSignature.ofValue (signaturesValue ss) = some ss := by
  cases ss with
  | nil => rfl
  | cons s ss =>
    have h := mapM_ofValue ActorSignature.ofValue_toValue (s :: ss)
    simpa [readSignatures, signaturesValue, Value.elems_arr] using h

theorem readSignatures_canonicalJson (ss : List ActorSignature) :
    readSignatures ActorSignature.ofValue ((signaturesValue ss).map canonicalJson) = some ss := by
  cases ss with
  | nil => rfl
  | cons s ss =>
    have h := mapM_ofValue (f := canonicalJson ∘ ActorSignature.toValue)
      ActorSignature.ofValue_canonicalJson (s :: ss)
    simpa [readSignatures, signaturesValue, canonicalJson_arr, Value.elems_arr] using h

namespace CanonicalObject

variable (o : CanonicalObject)

theorem get_toValue :
    o.toValue.get "schema_version" = some (.str o.schemaVersion) ∧
    o.toValue.get "kind" = some (.str o.kind) ∧
    o.toValue.get "object_id" = some (.str o.objectId) ∧
    o.toValue.get "created_at_ms" = some (.ofU64 o.createdAtMs) ∧
    o.toValue.get "body" = some o.body ∧
    o.toValue.get "body_hash" = some (.str o.bodyHash) ∧
    o.toValue.get "signatures" = signaturesValue o.signatures := by
  unfold toValue
  simp only [Value.get_obj]
  cases signaturesValue o.signatures <;> simp [optionalMember]

theorem ofValue_toValue : ofValue o.toValue = some o := by
  obtain ⟨h1, h2, h3, h4, h5, h6, h7⟩ := o.get_toValue
  unfold toValue at h1 h2 h3 h4 h5 h6 h7 ⊢
  unfold ofValue
  simp only [asStruct_obj, Option.bind_eq_bind, Option.bind_some, h1, h2, h3, h4, h5, h6, h7,
    readStr_str, readU64_ofU64, readSignatures_signaturesValue]
  rfl

/-- The object as the canonical JSON of it is read. -/
def canonical : CanonicalObject := { o with body := canonicalJson o.body }

theorem ofValue_canonicalJson_toValue : ofValue (canonicalJson o.toValue) = some o.canonical := by
  obtain ⟨h1, h2, h3, h4, h5, h6, h7⟩ := o.get_toValue
  unfold toValue at h1 h2 h3 h4 h5 h6 h7 ⊢
  unfold ofValue
  simp only [asStruct_canonicalJson_obj, Option.bind_eq_bind, Option.bind_some, h1, h2, h3, h4, h5,
    h6, h7, Option.map_some, canonicalJson_str, canonicalJson_ofU64, readStr_str, readU64_ofU64,
    readSignatures_canonicalJson]
  rfl

theorem canonicalJson_toValue_canonical :
    canonicalJson o.canonical.toValue = canonicalJson o.toValue := by
  refine canonicalJson_obj_congr ?_ _ _
  simp only [canonical, List.map_append, List.map_cons, canonicalJson_idem]

theorem canonical_canonical : o.canonical.canonical = o.canonical := by
  simp [canonical, canonicalJson_idem]

/-- The id and the body hash are those of the fields. -/
structure Valid (X : Crates) (o : CanonicalObject) : Prop where
  objectId : o.objectId = canonicalObjectId X o.kind o.schemaVersion o.body
  bodyHash : o.bodyHash = stableJsonHash X o.body

theorem valid_new (X : Crates) (kind schemaVersion : String) (createdAtMs : UInt64)
    (body : Value) : (new X kind schemaVersion createdAtMs body).Valid X :=
  ⟨rfl, rfl⟩

theorem valid_canonical {X : Crates} {o : CanonicalObject} (h : o.Valid X) :
    o.canonical.Valid X where
  objectId := by
    rw [canonical, canonicalObjectId_canonicalJson]
    exact h.objectId
  bodyHash := by
    rw [canonical, stableJsonHash_canonicalJson]
    exact h.bodyHash

end CanonicalObject

/-! ## Bytes -/

/-- What is asked of serde_json: a text it printed is read as the value printed. -/
structure ReadsBack (X : Crates) : Prop where
  compact : ∀ v, X.readJson (toVec X.floatText v) = some v
  pretty : ∀ v, X.readJson (toVecPretty X.floatText v) = some v

theorem readsBack_reference : ReadsBack .reference where
  compact := readText_print .exact .compact
  pretty := readText_print .exact .pretty

section Bytes

variable (X : Crates)

/-- `serde_json::from_slice::<CanonicalObject<Value>>`. -/
def objectFromSlice (bytes : Bytes) : Except String CanonicalObject :=
  match (X.readJson bytes).bind CanonicalObject.ofValue with
  | some object => .ok object
  | none => .error (X.jsonError bytes)

/-- The compact text of the canonical JSON of the whole object. -/
def canonicalObjectBytes (object : CanonicalObject) : Bytes := canonicalBytes X object.toValue

variable {X}

/-- What was written is read as the object with its body canonical. -/
theorem objectFromSlice_canonicalObjectBytes (hX : ReadsBack X) (o : CanonicalObject) :
    objectFromSlice X (canonicalObjectBytes X o) = .ok o.canonical := by
  unfold objectFromSlice canonicalObjectBytes canonicalBytes
  rw [hX.compact, Option.bind_some, o.ofValue_canonicalJson_toValue]

theorem canonicalObjectBytes_canonical (o : CanonicalObject) :
    canonicalObjectBytes X o.canonical = canonicalObjectBytes X o :=
  canonicalBytes_eq_iff.mpr o.canonicalJson_toValue_canonical

/-- One byte string is written for one object, up to the canonical form of the body. -/
theorem canonicalObjectBytes_eq_iff {o o' : CanonicalObject} :
    canonicalObjectBytes X o = canonicalObjectBytes X o' ↔ o.canonical = o'.canonical := by
  constructor
  · intro h
    have hv := congrArg CanonicalObject.ofValue (canonicalBytes_eq_iff.mp h)
    rw [o.ofValue_canonicalJson_toValue, o'.ofValue_canonicalJson_toValue] at hv
    exact Option.some.inj hv
  · intro h
    rw [← canonicalObjectBytes_canonical o, h, canonicalObjectBytes_canonical]

end Bytes

end RickydataGit.Core
