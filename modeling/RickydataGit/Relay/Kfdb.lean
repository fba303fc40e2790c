/-
  The KFDB projection of a bundle: `kfdb_index_batch`.

  Nodes and edges are named by version 5 UUIDs of texts: the parts of a name joined
  with the unit separator. Every object adds its mirror node, its signers, its
  projection with the files it touches, and the edges of its lineage, in this order.

  `Anchored` is what makes a sequence of operations safe to deliver up to any point:
  each edge joins nodes that were created before it. `objectOperations_anchored` is
  the step for one object, `batch_anchored` the loop. The case that takes an argument
  is the source of a lineage edge: it is computed a second time, from a key field
  where the projection takes a list of fields (`sourceKey_eq`).
-/
import RickydataGit.Lib.Uuid
import RickydataGit.Relay.Bundle

namespace RickydataGit.Relay

open RickydataGit.Lib RickydataGit.Core

/-! ## Names -/

/-- `Uuid::NAMESPACE_URL`. -/
def namespaceUrl : Bytes :=
  [0x6b, 0xa7, 0xb8, 0x11, 0x9d, 0xad, 0x11, 0xd1, 0x80, 0xb4, 0x00, 0xc0, 0x4f, 0xd4, 0x30, 0xc8]

/-- The hyphenated text of a UUID. -/
def uuidText (bytes : Bytes) : String :=
  "-".intercalate [hexEncode (bytes.take 4), hexEncode ((bytes.drop 4).take 2),
    hexEncode ((bytes.drop 6).take 2), hexEncode ((bytes.drop 8).take 2), hexEncode (bytes.drop 10)]

/-- The parts of a name, joined. -/
def nameText (parts : List String) : String := "\x1f".intercalate parts

def deterministicUuid (parts : List String) : String :=
  uuidText (uuidV5 namespaceUrl (utf8 (nameText parts)))

example : deterministicUuid ["a", "b"] = "8c9a8a63-ca7c-50fc-a33e-2434bff9f36e" := by
  decide +kernel

/-! ## Operations -/

inductive PropertyValue where
  | string (value : String)
  | integer (value : Int64)
  deriving DecidableEq

/-- `properties_object` of these: none of the callers repeats a key. -/
abbrev Properties := List (String × PropertyValue)

/-- `create_node`, in merge mode, and `create_edge`. -/
inductive KfdbOperation where
  | createNode (id label : String) (properties : Properties)
  | createEdge (id source target edgeType : String) (properties : Properties)
  deriving DecidableEq

structure KfdbWriteBatch where
  operations : List KfdbOperation
  skipEmbedding : Bool

/-- `Value::as_str` of a field of the body. -/
def bodyString (object : CanonicalObject) (field : String) : Option String :=
  (object.body.get field).bind readStr

/-- The strings of an array in the body. -/
def bodyStringArray (object : CanonicalObject) (field : String) : List String :=
  (((object.body.get field).bind Value.elems).getD []).filterMap readStr

def projectionLabelAndEdge (kind : String) : Option (String × String) :=
  if kind = "agent.intent" then some ("RickydataWorkIntent", "HAS_WORK_INTENT")
  else if kind = "agent.attempt" then some ("RickydataAgentAttempt", "HAS_AGENT_ATTEMPT")
  else if kind = "agent.attempt_status" then
    some ("RickydataAttemptStatusTransition", "HAS_ATTEMPT_STATUS")
  else if kind = "agent.run" then some ("RickydataAgentRun", "HAS_AGENT_RUN")
  else if kind = "agent.run_trace" then some ("RickydataAgentRunTrace", "HAS_AGENT_RUN_TRACE")
  else if kind = "agent.change" then some ("RickydataChangeEvidence", "HAS_CHANGE_EVIDENCE")
  else if kind = "agent.patch" then some ("RickydataPreparedPatch", "HAS_PREPARED_PATCH")
  else if kind = "agent.patch_retirement" then some ("RickydataPatchRetirement", "SUPERSEDES_PATCH")
  else none

/-- The fields a projection key is looked for in. -/
def projectionKeyFields (kind : String) : List String :=
  if kind = "agent.intent" then ["objective"]
  else if kind = "agent.attempt" ∨ kind = "agent.attempt_status" then ["attempt_id"]
  else if kind = "agent.run" then ["run_id"]
  else if kind = "agent.run_trace" then ["trace_id", "run_id", "attempt_id"]
  else if kind = "agent.change" then ["change_id"]
  else if kind = "agent.patch" ∨ kind = "agent.patch_retirement" then ["patch_id"]
  else ["trace_id", "attempt_id", "run_id", "change_id", "patch_id", "objective"]

def projectionKey (object : CanonicalObject) : String :=
  ((projectionKeyFields object.kind).findSome? (bodyString object)).getD object.objectId

def schemaProperty : String × PropertyValue := ("schema_version", .string "rickydata.git.kfdb.v1")

def sourceProperty : String × PropertyValue := ("source", .string "rickydata-git-relay")

section

variable (X : Crates) (repoId : String)

/-- The compact text of a value, `to_string`. -/
def valueText (value : Value) : String :=
  .ofList (Json.print (numberText X.floatText) .compact 0 value.tree)

/-! ## Node ids -/

def repoNodeId : String := deterministicUuid ["RickydataRepository", repoId]

def bundleNodeId (bundleHashValue : String) : String :=
  deterministicUuid ["RickydataBundle", repoId, bundleHashValue]

def objectNodeId (objectId : String) : String :=
  deterministicUuid ["RickydataObjectMirror", repoId, objectId]

def actorNodeId (publicKey : String) : String := deterministicUuid ["RickydataActor", publicKey]

/-- The node of a projection. -/
def keyedNodeId (label key : String) : String := deterministicUuid [label, repoId, key]

def fileNodeId (filePath : String) : String := deterministicUuid ["CodeFile", repoId, filePath]

/-! ## The operations of an object -/

/-- A property that is left out when there is nothing to write. -/
def optionalProperty (key : String) (value : Option PropertyValue) : Properties :=
  (value.map fun v => (key, v)).toList

/-- What `append_agent_projection_properties` adds. -/
def agentProjectionProperties (object : CanonicalObject) : Properties :=
  (["intent_id", "attempt_id", "run_id", "change_id", "patch_id", "base_commit",
      "diff_hash"].flatMap fun field =>
    optionalProperty field ((bodyString object field).map .string)) ++
  ["run_ids", "change_ids", "file_paths", "diff_hashes", "diff_summary"].flatMap fun field =>
    optionalProperty field ((object.body.get field).map fun v => .string (valueText X v))

def signatureOperations (object : CanonicalObject) (objectNode : String) : List KfdbOperation :=
  object.signatures.flatMap fun signature =>
    let actorNode := actorNodeId signature.publicKey
    [.createNode actorNode "RickydataActor"
      ([("public_key", .string signature.publicKey), ("algorithm", .string signature.algorithm),
          schemaProperty] ++
        optionalProperty "signer_label" (signature.signerLabel.map .string)),
    .createEdge (deterministicUuid ["SIGNED_BY", objectNode, actorNode, signature.signature])
      objectNode actorNode "SIGNED_BY"
      ([("object_id", .string object.objectId), ("algorithm", .string signature.algorithm),
          ("signature", .string signature.signature)] ++
        optionalProperty "signer_label" (signature.signerLabel.map .string) ++
        optionalProperty "signed_at_ms" (signature.signedAtMs.map fun ms => .integer ms.toInt64))]

/-- The file a change or a patch touches. -/
def fileOperations (projectionNode filePath : String) : List KfdbOperation :=
  let fileNode := fileNodeId repoId filePath
  [.createNode fileNode "CodeFile"
    [("repo_id", .string repoId), ("path", .string filePath),
      ("path_hash", .string (keyHash X filePath))],
  .createEdge (deterministicUuid ["TOUCHES_FILE", projectionNode, fileNode]) projectionNode fileNode
    "TOUCHES_FILE" [sourceProperty]]

def projectionOperations (object : CanonicalObject) (objectNode : String) : List KfdbOperation :=
  match projectionLabelAndEdge object.kind with
  | none => []
  | some (label, edgeType) =>
    let key := projectionKey object
    let projectionNode := keyedNodeId repoId label key
    [.createNode projectionNode label
      ([("repo_id", .string repoId), ("object_id", .string object.objectId),
          ("kind", .string object.kind), ("body_hash", .string object.bodyHash),
          ("projection_key", .string key), schemaProperty] ++ agentProjectionProperties X object),
    .createEdge (deterministicUuid [edgeType, objectNode, projectionNode]) objectNode projectionNode
      edgeType [("object_id", .string object.objectId)]] ++
    if object.kind = "agent.change" ∨ object.kind = "agent.patch" then
      (bodyStringArray object "file_paths").flatMap (fileOperations X repoId projectionNode)
    else []

/-- `emit_lineage_edge`: the projection of the object, found again by its key field, and
    the node it descends from, which is created as a stub. -/
def lineageEdge (object : CanonicalObject) (sourceLabel sourceKeyField targetLabel targetKeyField
    edgeType targetKey : String) : List KfdbOperation :=
  let sourceKey := (bodyString object sourceKeyField).getD object.objectId
  let sourceNode := keyedNodeId repoId sourceLabel sourceKey
  let targetNode := keyedNodeId repoId targetLabel targetKey
  [.createNode targetNode targetLabel
    [("repo_id", .string repoId), (targetKeyField, .string targetKey),
      ("projection_key", .string targetKey), schemaProperty],
  .createEdge (deterministicUuid [edgeType, sourceNode, targetNode]) sourceNode targetNode edgeType
    [("source_object_id", .string object.objectId), ("source_kind", .string object.kind)]]

def provenanceOperations (object : CanonicalObject) : List KfdbOperation :=
  if object.kind = "agent.attempt" then
    (bodyString object "intent_id").toList.flatMap (lineageEdge repoId object
      "RickydataAgentAttempt" "attempt_id" "RickydataWorkIntent" "objective" "INTENT_CHAIN")
  else if object.kind = "agent.run" then
    (bodyString object "attempt_id").toList.flatMap (lineageEdge repoId object
      "RickydataAgentRun" "run_id" "RickydataAgentAttempt" "attempt_id" "ATTEMPT_LINEAGE")
  else if object.kind = "agent.change" then
    (bodyStringArray object "run_ids" ++ (bodyString object "run_id").toList).flatMap
      (lineageEdge repoId object "RickydataChangeEvidence" "change_id" "RickydataAgentRun" "run_id"
        "RUN_LINEAGE")
  else if object.kind = "agent.patch" then
    (bodyStringArray object "change_ids" ++ (bodyString object "change_id").toList).flatMap
      (lineageEdge repoId object "RickydataPreparedPatch" "patch_id" "RickydataChangeEvidence"
        "change_id" "PATCH_LINEAGE")
  else []

variable (bundleHashValue : String)

/-- The mirror of an object, its place in the repository and in the bundle. -/
def mirrorOperations (object : CanonicalObject) : List KfdbOperation :=
  let repoNode := repoNodeId repoId
  let bundleNode := bundleNodeId repoId bundleHashValue
  let objectNode := objectNodeId repoId object.objectId
  [.createNode objectNode "RickydataObjectMirror"
    [("repo_id", .string repoId), ("object_id", .string object.objectId),
      ("kind", .string object.kind), ("schema_version", .string object.schemaVersion),
      ("body_hash", .string object.bodyHash),
      ("canonical_byte_hash", .string (hashText X (canonicalObjectBytes X object))),
      ("bundle_hash", .string bundleHashValue)],
  .createEdge (deterministicUuid ["HAS_RICKYDATA_OBJECT", repoNode, objectNode]) repoNode objectNode
    "HAS_RICKYDATA_OBJECT" [("object_id", .string object.objectId)],
  .createEdge (deterministicUuid ["BUNDLE_CONTAINS_OBJECT", bundleNode, objectNode]) bundleNode
    objectNode "BUNDLE_CONTAINS_OBJECT" [("object_id", .string object.objectId)]]

/-- One round of the loop of `kfdb_index_batch`. -/
def objectOperations (object : CanonicalObject) : List KfdbOperation :=
  let objectNode := objectNodeId repoId object.objectId
  mirrorOperations X repoId bundleHashValue object ++ signatureOperations object objectNode ++
    projectionOperations X repoId object objectNode ++ provenanceOperations repoId object

/-- The loop, over objects that have to be valid. -/
def indexObjects : List CanonicalObject → Except RelayError (List KfdbOperation)
  | [] => return []
  | object :: rest => do
    validateObjectWithSignaturePolicy X object false false
    let operations ← indexObjects rest
    return objectOperations X repoId bundleHashValue object ++ operations

/-- The nodes of the repository and of the bundle. -/
def bundleOperations (objectCount : Nat) : List KfdbOperation :=
  let repoNode := repoNodeId repoId
  let bundleNode := bundleNodeId repoId bundleHashValue
  [.createNode repoNode "RickydataRepository" [("repo_id", .string repoId), schemaProperty],
  .createNode bundleNode "RickydataBundle"
    [("repo_id", .string repoId), ("bundle_hash", .string bundleHashValue),
      ("object_count", .integer (.ofNat objectCount)), schemaProperty],
  .createEdge (deterministicUuid ["HAS_RICKYDATA_BUNDLE", repoNode, bundleNode]) repoNode bundleNode
    "HAS_RICKYDATA_BUNDLE" [sourceProperty]]

def kfdbIndexBatch (objects : List CanonicalObject) : Except RelayError KfdbWriteBatch := do
  let operations ← indexObjects X repoId bundleHashValue objects
  return {
    operations := bundleOperations repoId bundleHashValue objects.length ++ operations
    skipEmbedding := true }

end

/-! ## Edges between nodes that exist -/

/-- The nodes that the operations create. -/
def createdIds : List KfdbOperation → List String
  | [] => []
  | .createNode id _ _ :: rest => id :: createdIds rest
  | .createEdge _ _ _ _ _ :: rest => createdIds rest

/-- Each edge joins nodes that were known at the start or created before it. -/
def Anchored : List String → List KfdbOperation → Prop
  | _, [] => True
  | known, .createNode id _ _ :: rest => Anchored (id :: known) rest
  | known, .createEdge _ source target _ _ :: rest =>
    source ∈ known ∧ target ∈ known ∧ Anchored known rest

section Anchored

variable {known known' : List String} {xs ys : List KfdbOperation}

theorem createdIds_append (xs ys : List KfdbOperation) :
    createdIds (xs ++ ys) = createdIds xs ++ createdIds ys := by
  induction xs with
  | nil => rfl
  | cons x xs ih => cases x <;> simp [createdIds, ih]

theorem Anchored.mono (h : known ⊆ known') (hx : Anchored known xs) : Anchored known' xs := by
  induction xs generalizing known known' with
  | nil => trivial
  | cons x xs ih =>
    cases x with
    | createNode id label ps => exact ih (List.cons_subset_cons _ h) hx
    | createEdge id source target edgeType ps => exact ⟨h hx.1, h hx.2.1, ih h hx.2.2⟩

theorem Anchored.append (hx : Anchored known xs) (hy : Anchored (createdIds xs ++ known) ys) :
    Anchored known (xs ++ ys) := by
  induction xs generalizing known with
  | nil => exact hy
  | cons x xs ih =>
    cases x with
    | createNode id label ps =>
      refine ih hx (hy.mono ?_)
      intro a ha
      simp only [createdIds, List.cons_append, List.mem_cons, List.mem_append] at ha ⊢
      tauto
    | createEdge id source target edgeType ps => exact ⟨hx.1, hx.2.1, ih hx.2.2 hy⟩

/-- What was created before does no harm. -/
theorem Anchored.append_of_known (hx : Anchored known xs) (hy : Anchored known ys) :
    Anchored known (xs ++ ys) :=
  hx.append (hy.mono (List.subset_append_right _ _))

theorem Anchored.flatMap {α : Type} {f : α → List KfdbOperation} {as : List α}
    (h : ∀ a ∈ as, Anchored known (f a)) : Anchored known (as.flatMap f) := by
  induction as with
  | nil => trivial
  | cons a as ih =>
    obtain ⟨ha, has⟩ := List.forall_mem_cons.mp h
    exact ha.append_of_known (ih has)

/-- Stopping early keeps it. -/
theorem Anchored.of_append (h : Anchored known (xs ++ ys)) : Anchored known xs := by
  induction xs generalizing known with
  | nil => trivial
  | cons x xs ih =>
    cases x with
    | createNode id label ps => exact ih h
    | createEdge id source target edgeType ps => exact ⟨h.1, h.2.1, ih h.2.2⟩

/-- An edge and what stands before it. -/
theorem Anchored.edge {before after : List KfdbOperation} {id source target edgeType : String}
    {ps : Properties}
    (h : Anchored known (before ++ .createEdge id source target edgeType ps :: after)) :
    (source ∈ createdIds before ∨ source ∈ known) ∧
      (target ∈ createdIds before ∨ target ∈ known) := by
  induction before generalizing known with
  | nil => exact ⟨.inr h.1, .inr h.2.1⟩
  | cons x before ih =>
    cases x with
    | createNode id' label ps =>
      obtain ⟨hs, ht⟩ := ih h
      simp only [createdIds, List.mem_cons] at hs ht ⊢
      tauto
    | createEdge id' source' target' edgeType' ps' => exact ih h.2.2

end Anchored

/-! ## The operations of an object are anchored -/

section Objects

variable {X : Crates} {repoId bundleHashValue : String} {object : CanonicalObject}
  {known : List String}

/-- A projection with one key field has the key that a lineage edge looks up. -/
theorem sourceKey_eq {field : String} (h : projectionKeyFields object.kind = [field]) :
    projectionKey object = (bodyString object field).getD object.objectId := by
  rw [projectionKey, h, List.findSome?_cons]
  cases bodyString object field <;> rfl

theorem signatureOperations_anchored {objectNode : String} (h : objectNode ∈ known) :
    Anchored known (signatureOperations object objectNode) := by
  refine Anchored.flatMap fun signature _ => ?_
  exact ⟨List.mem_cons_of_mem _ h, List.mem_cons_self, trivial⟩

theorem fileOperations_anchored {projectionNode : String} (h : projectionNode ∈ known)
    (filePath : String) : Anchored known (fileOperations X repoId projectionNode filePath) :=
  ⟨List.mem_cons_of_mem _ h, List.mem_cons_self, trivial⟩

theorem projectionOperations_anchored {objectNode : String} (h : objectNode ∈ known) :
    Anchored known (projectionOperations X repoId object objectNode) := by
  unfold projectionOperations
  split
  · trivial
  · next label edgeType _ =>
      refine Anchored.append ⟨List.mem_cons_of_mem _ h, List.mem_cons_self, trivial⟩ ?_
      split
      · refine Anchored.flatMap fun filePath _ => fileOperations_anchored ?_ filePath
        exact List.mem_append_left _ List.mem_cons_self
      · trivial

/-- The node of the projection is among those created. -/
theorem projectionNode_mem {label edgeType : String}
    (h : projectionLabelAndEdge object.kind = some (label, edgeType)) (objectNode : String) :
    keyedNodeId repoId label (projectionKey object) ∈
      createdIds (projectionOperations X repoId object objectNode) := by
  unfold projectionOperations
  rw [h]
  exact List.mem_cons_self

theorem lineageEdge_anchored {sourceLabel sourceKeyField : String}
    (h : keyedNodeId repoId sourceLabel ((bodyString object sourceKeyField).getD object.objectId) ∈
      known) (targetLabel targetKeyField edgeType targetKey : String) :
    Anchored known (lineageEdge repoId object sourceLabel sourceKeyField targetLabel targetKeyField
      edgeType targetKey) :=
  ⟨List.mem_cons_of_mem _ h, List.mem_cons_self, trivial⟩

/-- The kinds with lineage have a projection, and its key field is the source's. -/
theorem provenanceOperations_anchored
    (h : ∀ label edgeType, projectionLabelAndEdge object.kind = some (label, edgeType) →
      keyedNodeId repoId label (projectionKey object) ∈ known) :
    Anchored known (provenanceOperations repoId object) := by
  have hsource : ∀ label edgeType field, projectionLabelAndEdge object.kind = some (label, edgeType) →
      projectionKeyFields object.kind = [field] →
      keyedNodeId repoId label ((bodyString object field).getD object.objectId) ∈ known := by
    intro label edgeType field hl hf
    rw [← sourceKey_eq hf]
    exact h label edgeType hl
  unfold provenanceOperations
  split
  · next hk =>
      exact Anchored.flatMap fun key _ => lineageEdge_anchored
        (hsource _ "HAS_AGENT_ATTEMPT" _ (by rw [hk]; rfl) (by rw [hk]; rfl)) _ _ _ key
  split
  · next hk =>
      exact Anchored.flatMap fun key _ => lineageEdge_anchored
        (hsource _ "HAS_AGENT_RUN" _ (by rw [hk]; rfl) (by rw [hk]; rfl)) _ _ _ key
  split
  · next hk =>
      exact Anchored.flatMap fun key _ => lineageEdge_anchored
        (hsource _ "HAS_CHANGE_EVIDENCE" _ (by rw [hk]; rfl) (by rw [hk]; rfl)) _ _ _ key
  split
  · next hk =>
      exact Anchored.flatMap fun key _ => lineageEdge_anchored
        (hsource _ "HAS_PREPARED_PATCH" _ (by rw [hk]; rfl) (by rw [hk]; rfl)) _ _ _ key
  · trivial

theorem objectOperations_anchored (hrepo : repoNodeId repoId ∈ known)
    (hbundle : bundleNodeId repoId bundleHashValue ∈ known) :
    Anchored known (objectOperations X repoId bundleHashValue object) := by
  have hmirror : Anchored known (mirrorOperations X repoId bundleHashValue object) :=
    ⟨List.mem_cons_of_mem _ hrepo, List.mem_cons_self, List.mem_cons_of_mem _ hbundle,
      List.mem_cons_self, trivial⟩
  have hnode : objectNodeId repoId object.objectId ∈
      createdIds (mirrorOperations X repoId bundleHashValue object) := List.mem_cons_self
  refine ((hmirror.append ?_).append ?_).append ?_
  · exact signatureOperations_anchored (List.mem_append_left _ hnode)
  · refine projectionOperations_anchored (List.mem_append_left _ ?_)
    rw [createdIds_append]
    exact List.mem_append_left _ hnode
  · refine provenanceOperations_anchored fun label edgeType hl => List.mem_append_left _ ?_
    rw [createdIds_append]
    exact List.mem_append_right _ (projectionNode_mem hl _)

theorem indexObjects_anchored (hrepo : repoNodeId repoId ∈ known)
    (hbundle : bundleNodeId repoId bundleHashValue ∈ known) {objects : List CanonicalObject}
    {operations : List KfdbOperation}
    (h : indexObjects X repoId bundleHashValue objects = .ok operations) :
    Anchored known operations := by
  induction objects generalizing operations with
  | nil => cases h; trivial
  | cons object rest ih =>
    unfold indexObjects at h
    rcases hv : validateObjectWithSignaturePolicy X object false false with e | u
    · rw [hv] at h
      cases h
    · rcases hr : indexObjects X repoId bundleHashValue rest with e | operations'
      · rw [hv, hr] at h
        cases h
      · rw [hv, hr] at h
        cases h
        exact (objectOperations_anchored hrepo hbundle).append_of_known (ih hr)

/-- The operations of a batch, in their order. -/
theorem batch_anchored {objects : List CanonicalObject} {batch : KfdbWriteBatch}
    (h : kfdbIndexBatch X repoId bundleHashValue objects = .ok batch) :
    Anchored [] batch.operations := by
  unfold kfdbIndexBatch at h
  rcases hi : indexObjects X repoId bundleHashValue objects with e | operations
  · rw [hi] at h
    cases h
  · rw [hi] at h
    cases h
    have hnodes : Anchored [] (bundleOperations repoId bundleHashValue objects.length) :=
      ⟨List.mem_cons_of_mem _ List.mem_cons_self, List.mem_cons_self, trivial⟩
    refine hnodes.append (indexObjects_anchored ?_ ?_ hi)
    · exact List.mem_append_left _ List.mem_cons_self
    · exact List.mem_append_left _ (List.mem_cons_of_mem _ List.mem_cons_self)

end Objects

/-! ## What a batch is made of -/

/-- The label of a node or the type of an edge. -/
def KfdbOperation.type : KfdbOperation → String
  | .createNode _ label _ => label
  | .createEdge _ _ _ edgeType _ => edgeType

section Members

variable {X : Crates} {repoId bundleHashValue : String} {object : CanonicalObject}
  {op : KfdbOperation}

/-- The types that only the mirror of an object has. -/
def MirrorType (type : String) : Prop :=
  type = "RickydataObjectMirror" ∨ type = "BUNDLE_CONTAINS_OBJECT"

instance (type : String) : Decidable (MirrorType type) :=
  inferInstanceAs (Decidable (type = "RickydataObjectMirror" ∨ type = "BUNDLE_CONTAINS_OBJECT"))

theorem not_mirrorType_signature {objectNode : String}
    (h : op ∈ signatureOperations object objectNode) : ¬ MirrorType op.type := by
  obtain ⟨signature, _, hop⟩ := List.mem_flatMap.mp h
  simp only [List.mem_cons, List.not_mem_nil, or_false] at hop
  rcases hop with rfl | rfl
  · exact (by decide : ¬ MirrorType "RickydataActor")
  · exact (by decide : ¬ MirrorType "SIGNED_BY")

theorem not_mirrorType_label {kind label edgeType : String}
    (h : projectionLabelAndEdge kind = some (label, edgeType)) :
    ¬ MirrorType label ∧ ¬ MirrorType edgeType := by
  unfold projectionLabelAndEdge at h
  split_ifs at h <;> cases h <;> decide

theorem not_mirrorType_projection {objectNode : String}
    (h : op ∈ projectionOperations X repoId object objectNode) : ¬ MirrorType op.type := by
  unfold projectionOperations at h
  split at h
  · cases h
  · next label edgeType hl =>
      obtain ⟨hlabel, hedge⟩ := not_mirrorType_label hl
      rcases List.mem_append.mp h with hop | hop
      · simp only [List.mem_cons, List.not_mem_nil, or_false] at hop
        rcases hop with rfl | rfl
        · exact hlabel
        · exact hedge
      · split at hop
        · obtain ⟨filePath, _, hfile⟩ := List.mem_flatMap.mp hop
          simp only [fileOperations, List.mem_cons, List.not_mem_nil, or_false] at hfile
          rcases hfile with rfl | rfl
          · exact (by decide : ¬ MirrorType "CodeFile")
          · exact (by decide : ¬ MirrorType "TOUCHES_FILE")
        · cases hop

theorem not_mirrorType_lineageEdge {sourceLabel sourceKeyField targetLabel targetKeyField edgeType
    targetKey : String} (ht : ¬ MirrorType targetLabel) (he : ¬ MirrorType edgeType)
    (h : op ∈ lineageEdge repoId object sourceLabel sourceKeyField targetLabel targetKeyField edgeType
      targetKey) : ¬ MirrorType op.type := by
  simp only [lineageEdge, List.mem_cons, List.not_mem_nil, or_false] at h
  rcases h with rfl | rfl
  · exact ht
  · exact he

theorem not_mirrorType_provenance (h : op ∈ provenanceOperations repoId object) :
    ¬ MirrorType op.type := by
  unfold provenanceOperations at h
  split_ifs at h
  · obtain ⟨key, _, hop⟩ := List.mem_flatMap.mp h
    exact not_mirrorType_lineageEdge (by decide) (by decide) hop
  · obtain ⟨key, _, hop⟩ := List.mem_flatMap.mp h
    exact not_mirrorType_lineageEdge (by decide) (by decide) hop
  · obtain ⟨key, _, hop⟩ := List.mem_flatMap.mp h
    exact not_mirrorType_lineageEdge (by decide) (by decide) hop
  · obtain ⟨key, _, hop⟩ := List.mem_flatMap.mp h
    exact not_mirrorType_lineageEdge (by decide) (by decide) hop
  · cases h

/-- Operations of these types come from the mirror of an object. -/
theorem mem_mirrorOperations (h : op ∈ objectOperations X repoId bundleHashValue object)
    (ht : MirrorType op.type) : op ∈ mirrorOperations X repoId bundleHashValue object := by
  rcases List.mem_append.mp h with h | h
  · rcases List.mem_append.mp h with h | h
    · rcases List.mem_append.mp h with h | h
      · exact h
      · exact absurd ht (not_mirrorType_signature h)
    · exact absurd ht (not_mirrorType_projection h)
  · exact absurd ht (not_mirrorType_provenance h)

/-- The loop goes through when all objects are valid, and then gathers their operations. -/
theorem indexObjects_ok_iff {objects : List CanonicalObject} {operations : List KfdbOperation} :
    indexObjects X repoId bundleHashValue objects = .ok operations ↔
      (∀ object ∈ objects, object.Valid X) ∧
        operations = objects.flatMap (objectOperations X repoId bundleHashValue) := by
  have hiff : ∀ object : CanonicalObject,
      validateObjectWithSignaturePolicy X object false false = .ok () ↔ object.Valid X := by
    intro object
    rw [validateObjectWithSignaturePolicy_iff]
    simp
  induction objects generalizing operations with
  | nil =>
    constructor
    · intro h
      exact ⟨by simp, (Except.ok.inj h).symm⟩
    · rintro ⟨-, rfl⟩
      rfl
  | cons object rest ih =>
    unfold indexObjects
    rw [List.forall_mem_cons, List.flatMap_cons, ← hiff]
    rcases hv : validateObjectWithSignaturePolicy X object false false with e | u
    · constructor
      · intro h
        cases h
      · intro h
        cases h.1.1
    · rcases hr : indexObjects X repoId bundleHashValue rest with e | operations'
      · constructor
        · intro h
          cases h
        · rintro ⟨⟨-, hrest⟩, -⟩
          rw [ih.mpr ⟨hrest, rfl⟩] at hr
          cases hr
      · obtain ⟨hrest, rfl⟩ := ih.mp hr
        constructor
        · intro h
          exact ⟨⟨rfl, hrest⟩, (Except.ok.inj h).symm⟩
        · rintro ⟨-, rfl⟩
          rfl

theorem kfdbIndexBatch_ok_iff {objects : List CanonicalObject} {batch : KfdbWriteBatch} :
    kfdbIndexBatch X repoId bundleHashValue objects = .ok batch ↔
      (∀ object ∈ objects, object.Valid X) ∧
        batch = ⟨bundleOperations repoId bundleHashValue objects.length ++
          objects.flatMap (objectOperations X repoId bundleHashValue), true⟩ := by
  unfold kfdbIndexBatch
  rcases hi : indexObjects X repoId bundleHashValue objects with e | operations
  · constructor
    · intro h
      cases h
    · rintro ⟨hv, -⟩
      rw [indexObjects_ok_iff.mpr ⟨hv, rfl⟩] at hi
      cases hi
  · obtain ⟨hv, rfl⟩ := indexObjects_ok_iff.mp hi
    constructor
    · intro h
      exact ⟨hv, (Except.ok.inj h).symm⟩
    · rintro ⟨-, rfl⟩
      rfl

/-- The mirror operations of a batch are those of its objects. -/
theorem mem_batch_of_mirrorType {objects : List CanonicalObject} {batch : KfdbWriteBatch}
    (h : kfdbIndexBatch X repoId bundleHashValue objects = .ok batch) (hop : op ∈ batch.operations)
    (ht : MirrorType op.type) :
    ∃ object ∈ objects, op ∈ mirrorOperations X repoId bundleHashValue object := by
  obtain ⟨-, rfl⟩ := kfdbIndexBatch_ok_iff.mp h
  rcases List.mem_append.mp hop with hb | ho
  · simp only [bundleOperations, List.mem_cons, List.not_mem_nil, or_false] at hb
    rcases hb with rfl | rfl | rfl
    · exact absurd ht (by decide : ¬ MirrorType "RickydataRepository")
    · exact absurd ht (by decide : ¬ MirrorType "RickydataBundle")
    · exact absurd ht (by decide : ¬ MirrorType "HAS_RICKYDATA_BUNDLE")
  · obtain ⟨object, hobject, hmem⟩ := List.mem_flatMap.mp ho
    exact ⟨object, hobject, mem_mirrorOperations hmem ht⟩

end Members

end RickydataGit.Relay
