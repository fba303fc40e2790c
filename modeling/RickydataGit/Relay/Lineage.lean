/-
  Where the edges of the lineage end.

  An object names what it descends from by an id of that object's body, and
  `emit_lineage_edge` takes this id as the key of the node the edge ends at. The node of
  the other object has the key that `projection_key` finds in its body. For attempts, runs
  and changes the two are one field; an intent is named by its object id and keyed by its
  objective.

  `lineage_ends_iff`: exactly when the edges of a batch end at the nodes of the objects
  that are named, in the bundles that hold both.
-/
import RickydataGit.Relay.NodeNames

namespace RickydataGit.Relay

open RickydataGit.Lib RickydataGit.Core

/-! ## Edges of a type -/

/-- The end of an edge of a type. -/
def KfdbOperation.endOf (edgeType : String) : KfdbOperation → Option String
  | .createNode _ _ _ => none
  | .createEdge _ _ target type _ => if type = edgeType then some target else none

def edgeTargets (edgeType : String) (operations : List KfdbOperation) : List String :=
  operations.filterMap (KfdbOperation.endOf edgeType)

theorem endOf_edge (id source target edgeType : String) (ps : Properties) :
    (KfdbOperation.createEdge id source target edgeType ps).endOf edgeType = some target :=
  if_pos rfl

/-- The node of the projection of an object, if its kind has one. -/
def projectionNodeId (repoId : String) (object : CanonicalObject) : Option String :=
  (projectionLabelAndEdge object.kind).map fun labels =>
    keyedNodeId repoId labels.1 (projectionKey object)

/-- There is an edge of the type for each key, and it ends at the projection of every object of
    the kind that has the key. -/
def EndAtNamed (repoId : String) (objects : List CanonicalObject) (edgeType kind : String)
    (name : CanonicalObject → Option String) (keys : List String)
    (operations : List KfdbOperation) : Prop :=
  List.Forall₂ (fun key target => ∀ o ∈ objects, o.kind = kind → name o = some key →
    projectionNodeId repoId o = some target) keys (edgeTargets edgeType operations)

/-- The lineage of every object is in the batch, and its edges end at what it names. -/
structure LineageEnds (repoId : String) (objects : List CanonicalObject)
    (batch : KfdbWriteBatch) : Prop where
  emitted : ∀ o ∈ objects, (provenanceOperations repoId o).Sublist batch.operations
  intents : ∀ o ∈ objects, o.kind = "agent.attempt" →
    EndAtNamed repoId objects "INTENT_CHAIN" "agent.intent" (fun intent => some intent.objectId)
      (bodyString o "intent_id").toList (provenanceOperations repoId o)
  attempts : ∀ o ∈ objects, o.kind = "agent.run" →
    EndAtNamed repoId objects "ATTEMPT_LINEAGE" "agent.attempt" (bodyString · "attempt_id")
      (bodyString o "attempt_id").toList (provenanceOperations repoId o)
  runs : ∀ o ∈ objects, o.kind = "agent.change" →
    EndAtNamed repoId objects "RUN_LINEAGE" "agent.run" (bodyString · "run_id")
      (bodyStringArray o "run_ids" ++ (bodyString o "run_id").toList) (provenanceOperations repoId o)
  changes : ∀ o ∈ objects, o.kind = "agent.patch" →
    EndAtNamed repoId objects "PATCH_LINEAGE" "agent.change" (bodyString · "change_id")
      (bodyStringArray o "change_ids" ++ (bodyString o "change_id").toList)
      (provenanceOperations repoId o)

section Ends

variable {X : Crates} {repoId bundleHashValue : String} {objects : List CanonicalObject}
  {batch : KfdbWriteBatch}

/-- The edges of the lineage of an object, one for each key. -/
theorem edgeTargets_lineage (object : CanonicalObject) (sourceLabel sourceKeyField targetLabel
    targetKeyField edgeType : String) (keys : List String) :
    edgeTargets edgeType (keys.flatMap (lineageEdge repoId object sourceLabel sourceKeyField
      targetLabel targetKeyField edgeType)) = keys.map (keyedNodeId repoId targetLabel) := by
  induction keys with
  | nil => rfl
  | cons key keys ih =>
    have hone : edgeTargets edgeType (lineageEdge repoId object sourceLabel sourceKeyField
        targetLabel targetKeyField edgeType key) = [keyedNodeId repoId targetLabel key] := by
      rw [edgeTargets, lineageEdge, List.filterMap_cons_none rfl,
        List.filterMap_cons_some (endOf_edge ..), List.filterMap_nil]
    rw [List.flatMap_cons, edgeTargets, List.filterMap_append, ← edgeTargets, ← edgeTargets, hone,
      ih]
    rfl

/-- What the edges to nodes with a label come down to. -/
theorem endAtNamed_iff {edgeType kind label : String} {name : CanonicalObject → Option String}
    {keys : List String} {operations : List KfdbOperation}
    (htargets : edgeTargets edgeType operations = keys.map (keyedNodeId repoId label)) :
    EndAtNamed repoId objects edgeType kind name keys operations ↔
      ∀ key ∈ keys, ∀ o ∈ objects, o.kind = kind → name o = some key →
        projectionNodeId repoId o = some (keyedNodeId repoId label key) := by
  rw [EndAtNamed, htargets, List.forall₂_map_right_iff, List.forall₂_same]

/-- A kind with one key field has the node that its field names. -/
theorem projectionNodeId_of_key {o : CanonicalObject} {label edgeType field key : String}
    (hlabel : projectionLabelAndEdge o.kind = some (label, edgeType))
    (hfields : projectionKeyFields o.kind = [field]) (hkey : bodyString o field = some key) :
    projectionNodeId repoId o = some (keyedNodeId repoId label key) := by
  rw [projectionNodeId, hlabel, Option.map_some, sourceKey_eq hfields, hkey]
  rfl

theorem endAtNamed_of_key {edgeType kind label keyEdge field : String} {keys : List String}
    {operations : List KfdbOperation}
    (htargets : edgeTargets edgeType operations = keys.map (keyedNodeId repoId label))
    (hlabel : projectionLabelAndEdge kind = some (label, keyEdge))
    (hfields : projectionKeyFields kind = [field]) :
    EndAtNamed repoId objects edgeType kind (bodyString · field) keys operations := by
  rw [endAtNamed_iff htargets]
  intro key _ o _ hkind hkey
  exact projectionNodeId_of_key (by rw [hkind, hlabel]) (by rw [hkind, hfields]) hkey

theorem intent_targets {o : CanonicalObject} (hk : o.kind = "agent.attempt") :
    edgeTargets "INTENT_CHAIN" (provenanceOperations repoId o) =
      (bodyString o "intent_id").toList.map (keyedNodeId repoId "RickydataWorkIntent") := by
  rw [provenanceOperations, if_pos hk]
  exact edgeTargets_lineage ..

theorem attempt_targets {o : CanonicalObject} (hk : o.kind = "agent.run") :
    edgeTargets "ATTEMPT_LINEAGE" (provenanceOperations repoId o) =
      (bodyString o "attempt_id").toList.map (keyedNodeId repoId "RickydataAgentAttempt") := by
  rw [provenanceOperations, if_neg (by rw [hk]; decide), if_pos hk]
  exact edgeTargets_lineage ..

theorem run_targets {o : CanonicalObject} (hk : o.kind = "agent.change") :
    edgeTargets "RUN_LINEAGE" (provenanceOperations repoId o) =
      (bodyStringArray o "run_ids" ++ (bodyString o "run_id").toList).map
        (keyedNodeId repoId "RickydataAgentRun") := by
  rw [provenanceOperations, if_neg (by rw [hk]; decide), if_neg (by rw [hk]; decide), if_pos hk]
  exact edgeTargets_lineage ..

theorem change_targets {o : CanonicalObject} (hk : o.kind = "agent.patch") :
    edgeTargets "PATCH_LINEAGE" (provenanceOperations repoId o) =
      (bodyStringArray o "change_ids" ++ (bodyString o "change_id").toList).map
        (keyedNodeId repoId "RickydataChangeEvidence") := by
  rw [provenanceOperations, if_neg (by rw [hk]; decide), if_neg (by rw [hk]; decide),
    if_neg (by rw [hk]; decide), if_pos hk]
  exact edgeTargets_lineage ..

/-- The lineage of an object stands last in its operations. -/
theorem provenance_sublist (h : kfdbIndexBatch X repoId bundleHashValue objects = .ok batch)
    {o : CanonicalObject} (ho : o ∈ objects) :
    (provenanceOperations repoId o).Sublist batch.operations := by
  obtain ⟨-, rfl⟩ := kfdbIndexBatch_ok_iff.mp h
  refine List.Sublist.trans ?_ (List.sublist_append_right _ _)
  obtain ⟨before, after, rfl⟩ := List.append_of_mem ho
  rw [List.flatMap_append, List.flatMap_cons]
  refine List.Sublist.trans ?_ (List.sublist_append_right _ _)
  exact (List.sublist_append_right _ _).trans (List.sublist_append_left _ _)

/-- Nodes of one label are different where their keys are. -/
theorem key_of_nameText_eq {label key key' : String}
    (h : nameText [label, repoId, key] = nameText [label, repoId, key']) : key = key' := by
  have hlists := congrArg String.toList h
  simp only [toList_nameText_cons, nameText_singleton, List.append_cancel_left_eq,
    List.cons.injEq, true_and] at hlists
  exact String.toList_inj.mp hlists

/-- The key of an intent is its objective, if it has one. -/
theorem intent_node {o : CanonicalObject} (hk : o.kind = "agent.intent") :
    projectionNodeId repoId o = some (keyedNodeId repoId "RickydataWorkIntent"
      ((bodyString o "objective").getD o.objectId)) := by
  have hlabel : projectionLabelAndEdge o.kind = some ("RickydataWorkIntent", "HAS_WORK_INTENT") := by
    rw [hk]
    rfl
  rw [projectionNodeId, hlabel, Option.map_some, sourceKey_eq (by rw [hk]; rfl)]

end Ends

/-- The edges of a batch end at what they name exactly when every intent that an attempt of the
    bundle names has no objective, or its own object id as its objective. -/
theorem lineage_ends_iff {X : Crates} {repoId bundleHashValue : String}
    {objects : List CanonicalObject} {batch : KfdbWriteBatch}
    (h : kfdbIndexBatch X repoId bundleHashValue objects = .ok batch)
    (hapart : ∀ intent ∈ objects, ∀ objective, bodyString intent "objective" = some objective →
      UuidsApart ["RickydataWorkIntent", repoId, objective]
        ["RickydataWorkIntent", repoId, intent.objectId]) :
    LineageEnds repoId objects batch ↔
      ∀ attempt ∈ objects, attempt.kind = "agent.attempt" →
        ∀ intent ∈ objects, intent.kind = "agent.intent" →
          bodyString attempt "intent_id" = some intent.objectId →
            ∀ objective, bodyString intent "objective" = some objective →
              objective = intent.objectId := by
  constructor
  · intro hends attempt hattempt hka intent hintent hki hid objective hobjective
    have hnode := (endAtNamed_iff (intent_targets hka)).mp (hends.intents attempt hattempt hka)
      intent.objectId (by rw [hid]; exact List.mem_singleton_self _) intent hintent hki rfl
    rw [intent_node hki, hobjective] at hnode
    exact key_of_nameText_eq (hapart intent hintent objective hobjective (Option.some.inj hnode))
  · intro hintents
    refine ⟨fun o ho => provenance_sublist h ho, fun o ho hk => ?_, fun o _ hk => ?_,
      fun o _ hk => ?_, fun o _ hk => ?_⟩
    · rw [endAtNamed_iff (intent_targets hk)]
      intro key hkey intent hintent hki hname
      obtain rfl := Option.some.inj hname
      rw [intent_node hki]
      rcases hobjective : bodyString intent "objective" with _ | objective
      · rfl
      · rw [hintents o ho hk intent hintent hki (Option.mem_toList.mp hkey) objective hobjective]
        rfl
    · exact endAtNamed_of_key (attempt_targets hk) rfl rfl
    · exact endAtNamed_of_key (run_targets hk) rfl rfl
    · exact endAtNamed_of_key (change_targets hk) rfl rfl

/-- An attempt that names an intent. -/
def namingAttempt (intentId : String) : CanonicalObject :=
  .new .reference "agent.attempt" defaultSchemaVersion 0
    (.obj [("attempt_id", .str "a"), ("intent_id", .str intentId)] (by simp))

/-- An intent without an objective. -/
def plainIntent : CanonicalObject := .new .reference "agent.intent" defaultSchemaVersion 0 .null

def namedIntent : CanonicalObject :=
  .new .reference "agent.intent" defaultSchemaVersion 0 (.obj [("objective", .str "o")] (by simp))

theorem namedIntent_objectId : namedIntent.objectId =
    "sha256:2fb9b91553fc8dc5cd17ef20946784d65d21654a52f5356c16946768049f1b1f" := by
  decide +kernel

theorem pair_indexed (intent : CanonicalObject) (h : intent.Valid .reference) (intentId : String) :
    ∃ batch, kfdbIndexBatch .reference "r" "h" [intent, namingAttempt intentId] = .ok batch :=
  ⟨_, kfdbIndexBatch_ok_iff.mpr ⟨List.forall_mem_cons.mpr ⟨h, List.forall_mem_singleton.mpr
    (CanonicalObject.valid_new ..)⟩, rfl⟩⟩

theorem bodyString_namingAttempt (intentId : String) :
    bodyString (namingAttempt intentId) "intent_id" = some intentId ∧
      bodyString (namingAttempt intentId) "objective" = none := by
  constructor <;> rfl

/-- The edge ends at an intent without an objective. -/
theorem plainIntent_lineage : ∃ batch,
    kfdbIndexBatch .reference "r" "h" [plainIntent, namingAttempt plainIntent.objectId] = .ok batch ∧
      LineageEnds "r" [plainIntent, namingAttempt plainIntent.objectId] batch := by
  obtain ⟨batch, hbatch⟩ := pair_indexed plainIntent (CanonicalObject.valid_new ..)
    plainIntent.objectId
  have hnone : ∀ o ∈ [plainIntent, namingAttempt plainIntent.objectId],
      bodyString o "objective" = none := by
    rw [List.forall_mem_cons, List.forall_mem_singleton]
    exact ⟨rfl, (bodyString_namingAttempt _).2⟩
  refine ⟨batch, hbatch, (lineage_ends_iff hbatch fun o ho objective hobjective => ?_).mpr
    fun _ _ _ intent hintent _ _ objective hobjective => ?_⟩
  · rw [hnone o ho] at hobjective
    cases hobjective
  · rw [hnone intent hintent] at hobjective
    cases hobjective

/-- The edge to an intent with an objective ends elsewhere. -/
theorem namedIntent_missed : ∃ batch,
    kfdbIndexBatch .reference "r" "h" [namedIntent, namingAttempt namedIntent.objectId] = .ok batch ∧
      ¬ LineageEnds "r" [namedIntent, namingAttempt namedIntent.objectId] batch := by
  obtain ⟨batch, hbatch⟩ := pair_indexed namedIntent (CanonicalObject.valid_new ..)
    namedIntent.objectId
  refine ⟨batch, hbatch, fun hends => ?_⟩
  have hnode := (endAtNamed_iff (intent_targets rfl)).mp
    (hends.intents (namingAttempt namedIntent.objectId) (by simp) rfl) namedIntent.objectId
    (by rw [(bodyString_namingAttempt _).1]; exact List.mem_singleton_self _) namedIntent (by simp)
    rfl rfl
  rw [intent_node rfl, namedIntent_objectId] at hnode
  revert hnode
  decide +kernel

end RickydataGit.Relay
