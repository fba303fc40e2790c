/-
  The names of nodes and edges, and whether they say what they name.

  A name is the text of its parts, joined with the unit separator. Node ids hold no
  separator and labels do not, but a repository id is whatever the path of a request
  decodes to, so a part may end where another one has a separator of its own.

  `node_ids_apart_iff`: exactly when different parts have different ids. `batch_named`: the
  ids of a batch are made of such parts.
-/
import RickydataGit.Relay.Kfdb

namespace RickydataGit.Relay

open RickydataGit.Lib RickydataGit.Core

/-! ## Joined parts -/

section Separated

variable {α : Type} {sep : α} {a b r r' : List α}

/-- Two lists that are cut at a separator: at the same place, or one at a later separator. -/
theorem append_sep_eq (h : a ++ sep :: r = b ++ sep :: r') :
    (a = b ∧ r = r') ∨ (∃ x, b = a ++ sep :: x) ∨ ∃ x, a = b ++ sep :: x := by
  rcases List.append_eq_append_iff.mp h with ⟨c, hb, hc⟩ | ⟨c, ha, hc⟩
  · rcases c with _ | ⟨d, c⟩
    · rw [List.append_nil] at hb
      exact .inl ⟨hb.symm, (List.cons.inj hc).2⟩
    · obtain rfl := (List.cons.inj hc).1
      exact .inr (.inl ⟨c, hb⟩)
  · rcases c with _ | ⟨d, c⟩
    · rw [List.append_nil] at ha
      exact .inl ⟨ha, (List.cons.inj hc).2.symm⟩
    · obtain rfl := (List.cons.inj hc).1
      exact .inr (.inr ⟨c, ha⟩)

/-- Without a separator in what comes first, there is one place. -/
theorem append_sep_inj (ha : sep ∉ a) (hb : sep ∉ b) (h : a ++ sep :: r = b ++ sep :: r') :
    a = b ∧ r = r' := by
  rcases append_sep_eq h with h | ⟨x, rfl⟩ | ⟨x, rfl⟩
  · exact h
  · exact absurd (List.mem_append_right _ List.mem_cons_self) hb
  · exact absurd (List.mem_append_right _ List.mem_cons_self) ha

end Separated

/-- The separator of the parts. -/
def unitSeparator : Char := '\x1f'

def Unseparated (part : String) : Prop := unitSeparator ∉ part.toList

instance (part : String) : Decidable (Unseparated part) :=
  inferInstanceAs (Decidable (¬ _))

theorem toList_nameText_cons (part next : String) (rest : List String) :
    (nameText (part :: next :: rest)).toList =
      part.toList ++ unitSeparator :: (nameText (next :: rest)).toList := by
  rw [nameText, String.intercalate_cons_cons, String.toList_append, String.toList_append,
    List.append_assoc]
  rfl

theorem nameText_singleton (part : String) : nameText [part] = part := String.intercalate_singleton

/-- A part without a separator is read back from the name. -/
theorem nameText_cons_inj {part part' next next' : String} {rest rest' : List String}
    (hp : Unseparated part) (hp' : Unseparated part')
    (h : nameText (part :: next :: rest) = nameText (part' :: next' :: rest')) :
    part = part' ∧ nameText (next :: rest) = nameText (next' :: rest') := by
  have hlists := congrArg String.toList h
  rw [toList_nameText_cons, toList_nameText_cons] at hlists
  obtain ⟨hpart, hrest⟩ := append_sep_inj hp hp' hlists
  exact ⟨String.toList_inj.mp hpart, String.toList_inj.mp hrest⟩

/-! ## The parts in use -/

def repoLabels : List String :=
  ["RickydataBundle", "RickydataObjectMirror", "CodeFile", "RickydataWorkIntent",
    "RickydataAgentAttempt", "RickydataAttemptStatusTransition", "RickydataAgentRun",
    "RickydataAgentRunTrace", "RickydataChangeEvidence", "RickydataPreparedPatch",
    "RickydataPatchRetirement"]

def edgeTypes : List String :=
  ["HAS_RICKYDATA_BUNDLE", "HAS_RICKYDATA_OBJECT", "BUNDLE_CONTAINS_OBJECT", "TOUCHES_FILE",
    "HAS_WORK_INTENT", "HAS_AGENT_ATTEMPT", "HAS_ATTEMPT_STATUS", "HAS_AGENT_RUN",
    "HAS_AGENT_RUN_TRACE", "HAS_CHANGE_EVIDENCE", "HAS_PREPARED_PATCH", "SUPERSEDES_PATCH",
    "INTENT_CHAIN", "ATTEMPT_LINEAGE", "RUN_LINEAGE", "PATCH_LINEAGE"]

/-- The id of some node. -/
def IsNodeId (id : String) : Prop := ∃ parts, id = deterministicUuid parts

/-- The parts that an id is made of, where the repositories are those of `R`. -/
inductive NameParts (R : String → Prop) : List String → Prop where
  | repository {repoId : String} (h : R repoId) : NameParts R ["RickydataRepository", repoId]
  | actor (publicKey : String) : NameParts R ["RickydataActor", publicKey]
  | inRepo {label repoId : String} (hl : label ∈ repoLabels) (h : R repoId) (key : String) :
    NameParts R [label, repoId, key]
  | edge {edgeType source target : String} (ht : edgeType ∈ edgeTypes) (hs : IsNodeId source)
    (h : IsNodeId target) : NameParts R [edgeType, source, target]
  | signedBy {object actor : String} (ho : IsNodeId object) (ha : IsNodeId actor)
    (signature : String) : NameParts R ["SIGNED_BY", object, actor, signature]

/-- The id that an operation writes. -/
def KfdbOperation.id : KfdbOperation → String
  | .createNode id _ _ => id
  | .createEdge id _ _ _ _ => id

/-- Every operation has an id of such parts. -/
def Named (R : String → Prop) (operations : List KfdbOperation) : Prop :=
  ∀ o ∈ operations, ∃ parts, NameParts R parts ∧ o.id = deterministicUuid parts

section Named

variable {R : String → Prop} {X : Crates} {repoId bundleHashValue : String}
  {object : CanonicalObject} {os os' : List KfdbOperation}

theorem named_append (h : Named R os) (h' : Named R os') : Named R (os ++ os') := fun o ho =>
  (List.mem_append.mp ho).elim (h o) (h' o)

theorem named_flatMap {α : Type} {f : α → List KfdbOperation} {as : List α}
    (h : ∀ a ∈ as, Named R (f a)) : Named R (as.flatMap f) := fun o ho => by
  obtain ⟨a, ha, ho⟩ := List.mem_flatMap.mp ho
  exact h a ha o ho

theorem named_nil : Named R [] := fun _ ho => absurd ho List.not_mem_nil

theorem named_node {parts : List String} (h : NameParts R parts) (label : String) (ps : Properties)
    (hos : Named R os) : Named R (.createNode (deterministicUuid parts) label ps :: os) :=
  List.forall_mem_cons.mpr ⟨⟨parts, h, rfl⟩, hos⟩

theorem named_edge {parts : List String} (h : NameParts R parts) (source target edgeType : String)
    (ps : Properties) (hos : Named R os) :
    Named R (.createEdge (deterministicUuid parts) source target edgeType ps :: os) :=
  List.forall_mem_cons.mpr ⟨⟨parts, h, rfl⟩, hos⟩

theorem isNodeId (parts : List String) : IsNodeId (deterministicUuid parts) := ⟨parts, rfl⟩

theorem projectionLabels {kind label edgeType : String}
    (h : projectionLabelAndEdge kind = some (label, edgeType)) :
    label ∈ repoLabels ∧ edgeType ∈ edgeTypes := by
  unfold projectionLabelAndEdge at h
  repeat' split at h
  all_goals first
    | cases h
      decide
    | cases h

theorem signatureOperations_named {objectNode : String} (h : IsNodeId objectNode) :
    Named R (signatureOperations object objectNode) := by
  refine named_flatMap fun signature _ => ?_
  exact named_node (.actor signature.publicKey) _ _
    (named_edge (.signedBy h (isNodeId _) signature.signature) _ _ _ _ named_nil)

theorem fileOperations_named {projectionNode : String} (hR : R repoId)
    (h : IsNodeId projectionNode) (filePath : String) :
    Named R (fileOperations X repoId projectionNode filePath) :=
  named_node (.inRepo (by decide) hR filePath) _ _
    (named_edge (.edge (by decide) h (isNodeId _)) _ _ _ _ named_nil)

theorem projectionOperations_named {objectNode : String} (hR : R repoId)
    (h : IsNodeId objectNode) : Named R (projectionOperations X repoId object objectNode) := by
  unfold projectionOperations
  split
  · exact named_nil
  · next label edgeType hlabel =>
      obtain ⟨hl, he⟩ := projectionLabels hlabel
      refine named_append (named_node (.inRepo hl hR _) _ _
        (named_edge (.edge he h (isNodeId _)) _ _ _ _ named_nil)) ?_
      split
      · exact named_flatMap fun filePath _ => fileOperations_named hR (isNodeId _) filePath
      · exact named_nil

theorem lineageEdge_named {sourceLabel targetLabel edgeType : String} (hR : R repoId)
    (hl : targetLabel ∈ repoLabels) (he : edgeType ∈ edgeTypes)
    (sourceKeyField targetKeyField targetKey : String) :
    Named R (lineageEdge repoId object sourceLabel sourceKeyField targetLabel targetKeyField edgeType
      targetKey) :=
  named_node (.inRepo hl hR targetKey) _ _
    (named_edge (.edge he (isNodeId _) (isNodeId _)) _ _ _ _ named_nil)

theorem provenanceOperations_named (hR : R repoId) :
    Named R (provenanceOperations repoId object) := by
  unfold provenanceOperations
  split
  · exact named_flatMap fun key _ => lineageEdge_named hR (by decide) (by decide) _ _ key
  split
  · exact named_flatMap fun key _ => lineageEdge_named hR (by decide) (by decide) _ _ key
  split
  · exact named_flatMap fun key _ => lineageEdge_named hR (by decide) (by decide) _ _ key
  split
  · exact named_flatMap fun key _ => lineageEdge_named hR (by decide) (by decide) _ _ key
  · exact named_nil

theorem mirrorOperations_named (hR : R repoId) :
    Named R (mirrorOperations X repoId bundleHashValue object) :=
  named_node (.inRepo (by decide) hR object.objectId) _ _
    (named_edge (.edge (by decide) (isNodeId _) (isNodeId _)) _ _ _ _
      (named_edge (.edge (by decide) (isNodeId _) (isNodeId _)) _ _ _ _ named_nil))

theorem objectOperations_named (hR : R repoId) :
    Named R (objectOperations X repoId bundleHashValue object) :=
  named_append (named_append (named_append (mirrorOperations_named hR)
    (signatureOperations_named (isNodeId _))) (projectionOperations_named hR (isNodeId _)))
    (provenanceOperations_named hR)

theorem bundleOperations_named (hR : R repoId) (objectCount : Nat) :
    Named R (bundleOperations repoId bundleHashValue objectCount) :=
  named_node (.repository hR) _ _ (named_node (.inRepo (by decide) hR bundleHashValue) _ _
    (named_edge (.edge (by decide) (isNodeId _) (isNodeId _)) _ _ _ _ named_nil))

/-- The ids of a batch are made of such parts. -/
theorem batch_named (hR : R repoId) {objects : List CanonicalObject} {batch : KfdbWriteBatch}
    (h : kfdbIndexBatch X repoId bundleHashValue objects = .ok batch) :
    Named R batch.operations := by
  obtain ⟨-, rfl⟩ := kfdbIndexBatch_ok_iff.mp h
  exact named_append (bundleOperations_named hR _)
    (named_flatMap fun object _ => objectOperations_named hR)

end Named

/-! ## Different parts -/

theorem mem_uuidText {bytes : Bytes} {c : Char} (h : c ∈ (uuidText bytes).toList) :
    c = '-' ∨ ∃ d < 16, c = d.digitChar := by
  simp only [uuidText, String.intercalate_cons_cons, String.intercalate_singleton,
    String.toList_append, List.mem_append] at h
  have hdash : c ∈ "-".toList → c = '-' := fun hc => List.mem_singleton.mp hc
  rcases h with (h | h) | (h | h) | (h | h) | (h | h) | h
  · exact .inr (mem_hexEncode h)
  · exact .inl (hdash h)
  · exact .inr (mem_hexEncode h)
  · exact .inl (hdash h)
  · exact .inr (mem_hexEncode h)
  · exact .inl (hdash h)
  · exact .inr (mem_hexEncode h)
  · exact .inl (hdash h)
  · exact .inr (mem_hexEncode h)

/-- No character of a node id is a separator. -/
theorem IsNodeId.unseparated {id : String} (h : IsNodeId id) : Unseparated id := by
  obtain ⟨parts, rfl⟩ := h
  intro hmem
  have hdigits : ∀ d < 16, d.digitChar ≠ unitSeparator := by decide
  rcases mem_uuidText hmem with hdash | ⟨d, hd, hdigit⟩
  · exact absurd hdash (by decide)
  · exact hdigits d hd hdigit.symm

theorem unseparated_repoLabel {label : String} (h : label ∈ repoLabels) : Unseparated label := by
  have hall : ∀ label ∈ repoLabels, Unseparated label := by decide
  exact hall label h

theorem unseparated_edgeType {edgeType : String} (h : edgeType ∈ edgeTypes) :
    Unseparated edgeType := by
  have hall : ∀ edgeType ∈ edgeTypes, Unseparated edgeType := by decide
  exact hall edgeType h

theorem not_mem_edgeTypes {label : String} (h : label ∈ repoLabels) : label ∉ edgeTypes := by
  have hall : ∀ label ∈ repoLabels, label ∉ edgeTypes := by decide
  exact hall label h

section Parts

variable {R : String → Prop} {parts parts' rest : List String} {label : String}

/-- What stands first holds no separator, and something follows. -/
theorem NameParts.exists_label (h : NameParts R parts) :
    ∃ label next rest, parts = label :: next :: rest ∧ Unseparated label := by
  cases h with
  | repository _ => exact ⟨_, _, _, rfl, by decide⟩
  | actor _ => exact ⟨_, _, _, rfl, by decide⟩
  | inRepo hl _ _ => exact ⟨_, _, _, rfl, unseparated_repoLabel hl⟩
  | edge ht _ _ => exact ⟨_, _, _, rfl, unseparated_edgeType ht⟩
  | signedBy _ _ _ => exact ⟨_, _, _, rfl, by decide⟩

theorem NameParts.of_repository (hl : label = "RickydataRepository")
    (h : NameParts R (label :: rest)) : ∃ repoId, rest = [repoId] := by
  cases h with
  | repository _ => exact ⟨_, rfl⟩
  | actor _ => exact absurd hl (by decide)
  | inRepo hmem _ _ => exact absurd (hl ▸ hmem) (by decide)
  | edge hmem _ _ => exact absurd (hl ▸ hmem) (by decide)
  | signedBy _ _ _ => exact absurd hl (by decide)

theorem NameParts.of_actor (hl : label = "RickydataActor") (h : NameParts R (label :: rest)) :
    ∃ publicKey, rest = [publicKey] := by
  cases h with
  | repository _ => exact absurd hl (by decide)
  | actor publicKey => exact ⟨publicKey, rfl⟩
  | inRepo hmem _ _ => exact absurd (hl ▸ hmem) (by decide)
  | edge hmem _ _ => exact absurd (hl ▸ hmem) (by decide)
  | signedBy _ _ _ => exact absurd hl (by decide)

theorem NameParts.of_inRepo (hl : label ∈ repoLabels) (h : NameParts R (label :: rest)) :
    ∃ repoId key, rest = [repoId, key] ∧ R repoId := by
  cases h with
  | repository _ => exact absurd hl (by decide)
  | actor _ => exact absurd hl (by decide)
  | inRepo _ hR key => exact ⟨_, key, rfl, hR⟩
  | edge ht _ _ => exact absurd ht (not_mem_edgeTypes hl)
  | signedBy _ _ _ => exact absurd hl (by decide)

theorem NameParts.of_edge (ht : label ∈ edgeTypes) (h : NameParts R (label :: rest)) :
    ∃ source target, rest = [source, target] ∧ IsNodeId source ∧ IsNodeId target := by
  cases h with
  | repository _ => exact absurd ht (by decide)
  | actor _ => exact absurd ht (by decide)
  | inRepo hl _ _ => exact absurd ht (not_mem_edgeTypes hl)
  | edge _ hs htarget => exact ⟨_, _, rfl, hs, htarget⟩
  | signedBy _ _ _ => exact absurd ht (by decide)

theorem NameParts.of_signedBy (hl : label = "SIGNED_BY") (h : NameParts R (label :: rest)) :
    ∃ object actor signature, rest = [object, actor, signature] ∧ IsNodeId object ∧
      IsNodeId actor := by
  cases h with
  | repository _ => exact absurd hl (by decide)
  | actor _ => exact absurd hl (by decide)
  | inRepo hmem _ _ => exact absurd (hl ▸ hmem) (by decide)
  | edge hmem _ _ => exact absurd (hl ▸ hmem) (by decide)
  | signedBy ho ha signature => exact ⟨_, _, _, rfl, ho, ha⟩

/-- One text is the other, a separator and more. -/
def ExtendsAt (a b : String) : Prop := ∃ more, b = a ++ "\x1f" ++ more

theorem extendsAt_of_toList {a b : String} {more : List Char}
    (h : b.toList = a.toList ++ unitSeparator :: more) : ExtendsAt a b := by
  refine ⟨.ofList more, String.toList_inj.mp ?_⟩
  rw [h, String.toList_append, String.toList_append, @String.toList_ofList more, List.append_assoc]
  rfl

/-- Equal names are of equal parts, except where one repository extends the other. -/
theorem parts_eq_of_nameText_eq (hR : ∀ r r', R r → R r' → ¬ ExtendsAt r r')
    (h : NameParts R parts) (h' : NameParts R parts') (hname : nameText parts = nameText parts') :
    parts = parts' := by
  obtain ⟨label, next, rest, rfl, hlabel⟩ := h.exists_label
  obtain ⟨label', next', rest', rfl, hlabel'⟩ := h'.exists_label
  obtain ⟨rfl, hrest⟩ := nameText_cons_inj hlabel hlabel' hname
  refine congrArg (label :: ·) ?_
  cases h with
  | repository _ =>
    obtain ⟨repoId', he⟩ := h'.of_repository rfl
    rw [he, nameText_singleton, nameText_singleton] at hrest
    rw [he, hrest]
  | actor _ =>
    obtain ⟨publicKey', he⟩ := h'.of_actor rfl
    rw [he, nameText_singleton, nameText_singleton] at hrest
    rw [he, hrest]
  | inRepo hl hr key =>
    obtain ⟨repoId', key', he, hr'⟩ := h'.of_inRepo hl
    rw [he] at hrest ⊢
    have hlists := congrArg String.toList hrest
    rw [toList_nameText_cons, toList_nameText_cons, nameText_singleton, nameText_singleton] at hlists
    rcases append_sep_eq hlists with ⟨hrepo, hkey⟩ | ⟨more, hrepo⟩ | ⟨more, hrepo⟩
    · rw [String.toList_inj.mp hrepo, String.toList_inj.mp hkey]
    · exact absurd (extendsAt_of_toList hrepo) (hR _ _ hr hr')
    · exact absurd (extendsAt_of_toList hrepo) (hR _ _ hr' hr)
  | edge ht hs _ =>
    obtain ⟨source', target', he, hs', -⟩ := h'.of_edge ht
    rw [he] at hrest ⊢
    obtain ⟨hsource, htarget⟩ := nameText_cons_inj hs.unseparated hs'.unseparated hrest
    rw [nameText_singleton, nameText_singleton] at htarget
    rw [hsource, htarget]
  | signedBy ho ha signature =>
    obtain ⟨object', actor', signature', he, ho', ha'⟩ := h'.of_signedBy rfl
    rw [he] at hrest ⊢
    obtain ⟨hobject, hrest⟩ := nameText_cons_inj ho.unseparated ho'.unseparated hrest
    obtain ⟨hactor, hsignature⟩ := nameText_cons_inj ha.unseparated ha'.unseparated hrest
    rw [nameText_singleton, nameText_singleton] at hsignature
    rw [hobject, hactor, hsignature]

end Parts

/-- The ids of two names do not collide. -/
def UuidsApart (parts parts' : List String) : Prop :=
  deterministicUuid parts = deterministicUuid parts' → nameText parts = nameText parts'

/-- Where no ids of different names collide, different parts have different ids, exactly when no
    repository id is another one with a separator and more behind it. -/
theorem node_ids_apart_iff (R : String → Prop) :
    (∀ parts parts', NameParts R parts → NameParts R parts' → UuidsApart parts parts' →
      parts ≠ parts' → deterministicUuid parts ≠ deterministicUuid parts') ↔
      ∀ r r', R r → R r' → ¬ ExtendsAt r r' := by
  constructor
  · rintro h r _ hr hr' ⟨more, rfl⟩
    have hname : nameText ["CodeFile", r, more ++ "\x1f"] =
        nameText ["CodeFile", r ++ "\x1f" ++ more, ""] := by
      simp only [nameText, String.intercalate_cons_cons, String.intercalate_singleton,
        String.append_assoc, String.append_empty]
    have hne : ["CodeFile", r, more ++ "\x1f"] ≠ ["CodeFile", r ++ "\x1f" ++ more, ""] := by
      intro he
      have hlast := (List.cons.inj (List.cons.inj (List.cons.inj he).2).2).1
      have hlength := congrArg String.length hlast
      simp at hlength
    exact h _ _ (.inRepo (by decide) hr _) (.inRepo (by decide) hr' _) (fun _ => hname) hne
      (by rw [deterministicUuid, deterministicUuid, hname])
  · intro hR parts parts' h h' hapart hne he
    exact hne (parts_eq_of_nameText_eq hR h h' (hapart he))

/-- A file of one repository and another file of another one. -/
theorem twoRepos_collide :
    NameParts (fun _ => True) ["CodeFile", "a", "b\x1fc"] ∧
      NameParts (fun _ => True) ["CodeFile", "a\x1fb", "c"] ∧
      UuidsApart ["CodeFile", "a", "b\x1fc"] ["CodeFile", "a\x1fb", "c"] ∧
      ["CodeFile", "a", "b\x1fc"] ≠ ["CodeFile", "a\x1fb", "c"] ∧
      deterministicUuid ["CodeFile", "a", "b\x1fc"] =
        deterministicUuid ["CodeFile", "a\x1fb", "c"] := by
  have hname : nameText ["CodeFile", "a", "b\x1fc"] = nameText ["CodeFile", "a\x1fb", "c"] := by
    decide +kernel
  refine ⟨.inRepo (by decide) trivial _, .inRepo (by decide) trivial _, fun _ => hname, by decide, ?_⟩
  rw [deterministicUuid, deterministicUuid, hname]

end RickydataGit.Relay
