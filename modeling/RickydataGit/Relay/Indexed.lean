/-
  `IndexedRelayStore`: a relay store that hands the projection of every push to KFDB.

  The sink is a second family of operations beside those of the inner store. It is
  handed batches of at most `kfdbIndexBatchOperationLimit` operations and may refuse
  any of them; the first refusal ends the delivery (`runs_deliver`). What was handed
  over is kept in a log.

  * `delivered_edges_join_created_nodes`: over any inner store, every edge delivered in
    a push joins nodes that the push delivered before.
  * `index_names_held_objects`: over the file store, the index names only objects the
    relay holds and only bundles they are in, as long as no push reuses a key for an
    object that is not in the bundle of that key. `reused_key_indexes_missing_object`
    is such a push: it is answered with the earlier report and indexed as its own.
-/
import RickydataGit.Lib.Chunks
import RickydataGit.Relay.Reading
import RickydataGit.Relay.Kfdb

namespace RickydataGit.Relay

open RickydataGit.Lib RickydataGit.Core

/-! ## The store -/

def kfdbIndexBatchOperationLimit : Nat := 100

/-- `write_batch`, with the text of its error. -/
@[reducible] def sinkOps : Ops where
  Op := KfdbWriteBatch
  Ans _ := Except String Unit

/-- The sink takes note of what it is handed, however it answers. -/
def SinkStep (log : List KfdbWriteBatch) (batch : sinkOps.Op) (_ : sinkOps.Ans batch)
    (log' : List KfdbWriteBatch) : Prop :=
  log' = log ++ [batch]

/-- A sink that never fails. -/
def sinkExec (batch : sinkOps.Op) (log : List KfdbWriteBatch) :
    sinkOps.Ans batch × List KfdbWriteBatch :=
  (.ok (), log ++ [batch])

theorem sinkStep_exec (log : List KfdbWriteBatch) (batch : sinkOps.Op) :
    SinkStep log batch (sinkExec batch log).1 (sinkExec batch log).2 := rfl

namespace IndexedRelayStore

variable {O : Ops}

/-- The loop over the pieces of a batch; a failure ends it, and is only printed. -/
def deliver (skipEmbedding : Bool) :
    List (List KfdbOperation) → Prog (O.plus sinkOps) RelayError Unit
  | [] => return ()
  | operations :: rest => .op (.inr ⟨operations, skipEmbedding⟩) fun
    | .ok _ => deliver skipEmbedding rest
    | .error _ => return ()

variable (X : Crates) (inner : RelayStore O)

def pushBundle (request : BundlePushRequest) : Prog (O.plus sinkOps) RelayError BundlePushReport := do
  let report ← (inner.pushBundle request).liftLeft sinkOps
  let batch ← kfdbIndexBatch X request.repoId report.bundleHash request.objects
  deliver batch.skipEmbedding (chunks kfdbIndexBatchOperationLimit batch.operations)
  return report

end IndexedRelayStore

def indexedRelayStore {O : Ops} (X : Crates) (inner : RelayStore O) :
    RelayStore (O.plus sinkOps) where
  validateBundle request := (inner.validateBundle request).liftLeft sinkOps
  pushBundle := IndexedRelayStore.pushBundle X inner
  pullBundle request := (inner.pullBundle request).liftLeft sinkOps
  readObject repoId objectId := (inner.readObject repoId objectId).liftLeft sinkOps
  listObjectIds repoId := (inner.listObjectIds repoId).liftLeft sinkOps
  repoStatus repoId := (inner.repoStatus repoId).liftLeft sinkOps

/-- Everything in the batches, in order. -/
def operationsOf (batches : List KfdbWriteBatch) : List KfdbOperation :=
  batches.flatMap KfdbWriteBatch.operations

namespace IndexedRelayStore

section Delivery

variable {O : Ops} {σ : Type} {step : σ → (o : O.Op) → O.Ans o → σ → Prop}

/-- What is handed over is the beginning of what there was to hand over. -/
theorem runs_deliver {skipEmbedding : Bool} {pieces : List (List KfdbOperation)}
    {s s' : σ × List KfdbWriteBatch} {r : Except RelayError Unit}
    (h : (deliver skipEmbedding pieces).Runs (Prog.stepPlus step SinkStep) s r s') :
    r = .ok () ∧ s'.1 = s.1 ∧
      ∃ handed, s'.2 = s.2 ++ handed ∧ operationsOf handed <+: pieces.flatten := by
  induction pieces generalizing s with
  | nil =>
    obtain ⟨hr, rfl⟩ := h
    exact ⟨hr, rfl, [], by simp, by simp [operationsOf]⟩
  | cons operations rest ih =>
    obtain ⟨a, s₁, ⟨hlog, hs⟩, hk⟩ := h
    replace hlog : s₁.2 = s.2 ++ [⟨operations, skipEmbedding⟩] := hlog
    rcases a with m | u
    · obtain ⟨hr, rfl⟩ := hk
      exact ⟨hr, hs, _, hlog, by simp [operationsOf]⟩
    · obtain ⟨hr, hs', handed, hlog', hpre⟩ := ih hk
      refine ⟨hr, hs'.trans hs, ⟨operations, skipEmbedding⟩ :: handed, by rw [hlog', hlog]; simp, ?_⟩
      rw [List.flatten_cons, operationsOf, List.flatMap_cons]
      exact (List.prefix_append_right_inj _).mpr hpre

/-- The ways a push can go: it fails or is not indexed, or it succeeds and the beginning
    of its batch is handed over. -/
theorem runs_push {X : Crates} {inner : RelayStore O} {request : BundlePushRequest}
    {s s' : σ × List KfdbWriteBatch} {r : Except RelayError BundlePushReport}
    (h : (pushBundle X inner request).Runs (Prog.stepPlus step SinkStep) s r s') :
    ∃ r', (inner.pushBundle request).Runs step s.1 r' s'.1 ∧
      (s'.2 = s.2 ∨ ∃ report batch handed, r' = .ok report ∧ r = .ok report ∧
        kfdbIndexBatch X request.repoId report.bundleHash request.objects = .ok batch ∧
        s'.2 = s.2 ++ handed ∧ operationsOf handed <+: batch.operations) := by
  rcases Prog.runs_bind_cases h with ⟨e, hpush, rfl⟩ | ⟨report, s₁, hpush, hindex⟩
  · obtain ⟨hrun, hlog⟩ := Prog.runs_liftLeft hpush
    exact ⟨_, hrun, .inl hlog⟩
  obtain ⟨hrun, hlog⟩ := Prog.runs_liftLeft hpush
  rcases Prog.runs_bind_cases hindex with ⟨e, hbatch, rfl⟩ | ⟨batch, s₂, hbatch, hrest⟩
  · obtain ⟨-, rfl⟩ := Prog.runs_ofExcept hbatch
    exact ⟨_, hrun, .inl hlog⟩
  obtain ⟨hb, hs₂⟩ := Prog.runs_ofExcept hbatch
  rcases Prog.runs_bind_cases hrest with ⟨e, hdeliver, rfl⟩ | ⟨u, s₃, hdeliver, hret⟩
  · cases (runs_deliver hdeliver).1
  obtain ⟨-, hs, handed, hhanded, hpre⟩ := runs_deliver hdeliver
  obtain ⟨hr, rfl⟩ := hret
  rw [flatten_chunks (by decide)] at hpre
  refine ⟨_, by rw [hs, hs₂]; exact hrun, .inr ⟨report, batch, handed, rfl, hr, hb, ?_, hpre⟩⟩
  rw [hhanded, hs₂, hlog]

end Delivery

end IndexedRelayStore

/-! ## No dangling edge -/

/-- Whatever the inner store is and wherever the sink starts to fail, every edge that a
    push delivers joins nodes delivered before it in that push. -/
theorem delivered_edges_join_created_nodes {O : Ops} {σ : Type} (X : Crates) (inner : RelayStore O)
    (step : σ → (o : O.Op) → O.Ans o → σ → Prop) (request : BundlePushRequest) (s s' : σ)
    (log log' : List KfdbWriteBatch) (r : Except RelayError BundlePushReport)
    (h : ((indexedRelayStore X inner).pushBundle request).Runs (Prog.stepPlus step SinkStep)
      (s, log) r (s', log')) :
    ∃ delivered, log' = log ++ delivered ∧
      ∀ before id source target edgeType properties after, operationsOf delivered =
          before ++ .createEdge id source target edgeType properties :: after →
        source ∈ createdIds before ∧ target ∈ createdIds before := by
  obtain ⟨r', -, heffect⟩ := IndexedRelayStore.runs_push h
  rcases heffect with hlog | ⟨report, batch, handed, -, -, hbatch, hlog, hpre⟩
  · exact ⟨[], by simpa using hlog, by simp [operationsOf]⟩
  · refine ⟨handed, hlog, fun before id source target edgeType properties after hops => ?_⟩
    obtain ⟨rest, hrest⟩ := hpre
    have hanchored := batch_anchored hbatch
    rw [← hrest] at hanchored
    have hedge := hanchored.of_append
    rw [hops] at hedge
    simpa using hedge.edge

/-- A push of one object to the file store, its edges delivered. -/
theorem nullPush_edges_join_created_nodes :
    ∃ s' log' r, ((indexedRelayStore .reference (fileRelayStore .reference ⟨false, []⟩)).pushBundle
        nullPush).Runs (Prog.stepPlus FileStep SinkStep) (∅, []) r (s', log') ∧
      ∃ delivered, log' = [] ++ delivered ∧
        ∀ before id source target edgeType properties after, operationsOf delivered =
            before ++ .createEdge id source target edgeType properties :: after →
          source ∈ createdIds before ∧ target ∈ createdIds before := by
  generalize nullPush = request
  obtain ⟨r, s', log', hrun⟩ := Prog.exists_runs_plus fileStep_exec sinkStep_exec
    ((indexedRelayStore .reference (fileRelayStore .reference ⟨false, []⟩)).pushBundle request) ∅ []
  exact ⟨s', log', r, hrun, delivered_edges_join_created_nodes _ _ _ _ _ _ _ _ _ hrun⟩

/-! ## The index and the store -/

/-- These are the ids of a bundle among the requests. -/
def IsBundle (X : Crates) (policy : Policy) (requests : List BundlePushRequest)
    (objectIds : List String) : Prop :=
  ∃ request ∈ requests, validatedObjectIds X policy request.repoId request.objects = .ok objectIds

/-- A mirror node names an object that is held, an edge from a bundle an object of it. -/
def Faithful (X : Crates) (policy : Policy) (requests : List BundlePushRequest)
    (held : String → String → Prop) : KfdbOperation → Prop
  | .createNode id label properties => label = "RickydataObjectMirror" →
    ∃ repoId objectId, properties.lookup "repo_id" = some (.string repoId) ∧
      properties.lookup "object_id" = some (.string objectId) ∧ id = objectNodeId repoId objectId ∧
      held repoId objectId
  | .createEdge _ source target edgeType _ => edgeType = "BUNDLE_CONTAINS_OBJECT" →
    ∃ repoId objectId objectIds, source = bundleNodeId repoId (bundleHash X objectIds) ∧
      target = objectNodeId repoId objectId ∧ objectId ∈ objectIds ∧
      IsBundle X policy requests objectIds

/-- `read_object` returns the object of this id. -/
def Held (X : Crates) (s : Files) (repoId objectId : String) : Prop :=
  ∃ object, (FileRelayStore.readObject X repoId objectId).run Files.exec s = (.ok object, s) ∧
    object.objectId = objectId

/-- The push is not answered with the report of a bundle that lacks one of its objects. -/
def KeyFits (X : Crates) (policy : Policy) (s : Files × List KfdbWriteBatch)
    (request : BundlePushRequest) : Prop :=
  ∀ validation bytes report, bundleValidationReport X policy request = .ok validation →
    s.1[idempotencyPath X request.repoId request.idempotencyKey]? = some bytes →
    reportFromSlice X bytes = .ok report →
    ∀ object ∈ request.objects, object.objectId ∈ report.objectIds

/-- The bundle of each record was pushed, and all of it is there. -/
def RecordsHold (X : Crates) (policy : Policy) (requests : List BundlePushRequest) (s : Files) :
    Prop :=
  ∀ repoId key bytes report, s[idempotencyPath X repoId key]? = some bytes →
    reportFromSlice X bytes = .ok report →
    report.bundleHash = bundleHash X report.objectIds ∧ IsBundle X policy requests report.objectIds ∧
      ∀ objectId ∈ report.objectIds, FileRelayStore.Present X repoId s objectId

section Index

variable {X : Crates} {policy : Policy} {requests : List BundlePushRequest}
  {request : BundlePushRequest} {s s' : Files}

open FileRelayStore

theorem IsBundle.mono {objectIds : List String} (h : IsBundle X policy requests objectIds) :
    IsBundle X policy (requests ++ [request]) objectIds := by
  obtain ⟨r, hr, hids⟩ := h
  exact ⟨r, List.mem_append_left _ hr, hids⟩

theorem Faithful.imp {held held' : String → String → Prop}
    (h : ∀ repoId objectId, held repoId objectId → held' repoId objectId) {op : KfdbOperation}
    (hop : Faithful X policy requests held op) : Faithful X policy requests held' op := by
  cases op with
  | createNode id label properties =>
    intro hl
    obtain ⟨repoId, objectId, hr, ho, hid, hheld⟩ := hop hl
    exact ⟨repoId, objectId, hr, ho, hid, h _ _ hheld⟩
  | createEdge id source target edgeType properties => exact hop

theorem Faithful.mono {held : String → String → Prop} {op : KfdbOperation}
    (hop : Faithful X policy requests held op) :
    Faithful X policy (requests ++ [request]) held op := by
  cases op with
  | createNode id label properties => exact hop
  | createEdge id source target edgeType properties =>
    intro ht
    obtain ⟨repoId, objectId, objectIds, hsource, htarget, hmem, hbundle⟩ := hop ht
    exact ⟨repoId, objectId, objectIds, hsource, htarget, hmem, hbundle.mono⟩

/-- A validation report is about the bundle of its request. -/
theorem validation_bundle {validation : BundleValidationReport}
    (h : bundleValidationReport X policy request = .ok validation) :
    validatedObjectIds X policy request.repoId request.objects = .ok validation.objectIds ∧
      validation.bundleHash = bundleHash X validation.objectIds := by
  unfold bundleValidationReport at h
  rcases hv : validatedObjectIds X policy request.repoId request.objects with e | ids
  · rw [hv] at h
    cases h
  · rw [hv] at h
    cases h
    exact ⟨rfl, rfl⟩

theorem records_push (hX : ReadsBack X) {r : Except RelayError BundlePushReport}
    (h : PushEffect X policy request s r s') (hs : RecordsHold X policy requests s) :
    RecordsHold X policy (requests ++ [request]) s' := by
  intro repoId key bytes report hb hp
  -- a record from before the push is as good as it was
  have hold : s[idempotencyPath X repoId key]? = some bytes →
      report.bundleHash = bundleHash X report.objectIds ∧
        IsBundle X policy (requests ++ [request]) report.objectIds ∧
        ∀ objectId ∈ report.objectIds, Present X repoId s' objectId := by
    intro hb
    obtain ⟨hhash, hbundle, hall⟩ := hs repoId key bytes report hb hp
    exact ⟨hhash, hbundle.mono, fun id hid => (hall id hid).push h⟩
  cases h with
  | refused | replayed => exact hold hb
  | failed _ _ _ _ _ hadds => exact hold (hadds.record repoId key ▸ hb)
  | stored validation accepted duplicate s₁ _ hv _ _ hadds hpresent _ =>
    rw [getElem?_insert_eq] at hb
    split at hb
    · next he =>
        cases hb
        rw [reportFromSlice_recordBytes hX] at hp
        cases hp
        obtain ⟨hids, hhash⟩ := validation_bundle hv
        refine ⟨hhash, ⟨request, by simp, hids⟩, fun id hid => present_insert ?_⟩
        obtain ⟨object, ho, rfl⟩ := ((bundleValidationReport_ok hv).2 id).mp hid
        obtain ⟨path, bytes, hpath, hbytes⟩ := hpresent object ho
        exact ⟨path, bytes, objectPath_congr (idempotencyPath_inj he).1 _ ▸ hpath, hbytes⟩
    · exact hold (hadds.record repoId key ▸ hb)

/-- What a push is answered with is the report of a bundle of its objects that is there. -/
theorem report_push {validation : BundleValidationReport} {report : BundlePushReport}
    (h : PushEffect X policy request s (.ok report) s')
    (hv : bundleValidationReport X policy request = .ok validation)
    (hs : RecordsHold X policy requests s) (log : List KfdbWriteBatch)
    (hfits : KeyFits X policy (s, log) request) :
    ∃ objectIds, report.bundleHash = bundleHash X objectIds ∧
      IsBundle X policy (requests ++ [request]) objectIds ∧
      ∀ object ∈ request.objects, object.objectId ∈ objectIds ∧
        Present X request.repoId s' object.objectId := by
  cases h with
  | replayed _ bytes _ _ hb hp =>
    obtain ⟨hhash, hbundle, hall⟩ := hs _ _ bytes report hb (hp report rfl)
    have hmem := hfits validation bytes report hv hb (hp report rfl)
    exact ⟨_, hhash, hbundle.mono, fun object ho => ⟨hmem object ho, hall _ (hmem object ho)⟩⟩
  | stored validation' accepted duplicate s₁ _ hv' _ _ hadds hpresent hr =>
    obtain rfl := hr report rfl
    obtain ⟨hids, hhash⟩ := validation_bundle hv'
    refine ⟨_, hhash, ⟨request, by simp, hids⟩, fun object ho => ⟨?_, ?_⟩⟩
    · exact ((bundleValidationReport_ok hv').2 _).mpr ⟨object, ho, rfl⟩
    · exact present_insert (hpresent object ho)

/-- The mirror operations of an object of a bundle that is there. -/
theorem faithful_mirror {held : String → String → Prop} {repoId : String} {object : CanonicalObject}
    {objectIds : List String} (hbundle : IsBundle X policy requests objectIds)
    (hmem : object.objectId ∈ objectIds) (hheld : held repoId object.objectId) {op : KfdbOperation}
    (hop : op ∈ mirrorOperations X repoId (bundleHash X objectIds) object) :
    Faithful X policy requests held op := by
  simp only [mirrorOperations, List.mem_cons, List.not_mem_nil, or_false] at hop
  rcases hop with rfl | rfl | rfl
  · exact fun _ => ⟨repoId, object.objectId, rfl, rfl, rfl, hheld⟩
  · exact fun ht => absurd ht (by decide)
  · exact fun _ => ⟨repoId, object.objectId, objectIds, rfl, rfl, hmem, hbundle⟩

/-- Operations of other types say nothing about the relay. -/
theorem faithful_of_not_mirrorType {held : String → String → Prop} {op : KfdbOperation}
    (h : ¬ MirrorType op.type) : Faithful X policy requests held op := by
  cases op with
  | createNode id label properties => exact fun hl => absurd (.inl hl) h
  | createEdge id source target edgeType properties => exact fun ht => absurd (.inr ht) h

theorem operationsOf_append (xs ys : List KfdbWriteBatch) :
    operationsOf (xs ++ ys) = operationsOf xs ++ operationsOf ys := List.flatMap_append

/-- What the pushes keep: every record is complete, the index names what is there. -/
theorem pushed_faithful (hX : ReadsBack X) {s : Files × List KfdbWriteBatch}
    (h : (indexedRelayStore X (fileRelayStore X policy)).PushedIf (Prog.stepPlus FileStep SinkStep)
      (KeyFits X policy) (∅, []) requests s) :
    (fileRelayStore X policy).Pushed FileStep ∅ requests s.1 ∧
      RecordsHold X policy requests s.1 ∧
      ∀ op ∈ operationsOf s.2,
        Faithful X policy requests (fun repoId => Present X repoId s.1) op := by
  induction h with
  | none =>
    refine ⟨.none, fun repoId key bytes report hb => ?_, by simp [operationsOf]⟩
    simp at hb
  | @push requests s s' request result _ hfits hrun ih =>
    obtain ⟨hpushed, hrecords, hlog⟩ := ih
    obtain ⟨r, hinner, heffect⟩ := IndexedRelayStore.runs_push hrun
    have hpush := push_effect hinner
    refine ⟨.push request r hpushed hinner, records_push hX hpush hrecords, ?_⟩
    have hold : ∀ op ∈ operationsOf s.2,
        Faithful X policy (requests ++ [request]) (fun repoId => Present X repoId s'.1) op :=
      fun op hop => ((hlog op hop).imp fun repoId objectId hp => hp.push hpush).mono
    rcases heffect with hsame | ⟨report, batch, handed, rfl, -, hbatch, hhanded, hpre⟩
    · rw [hsame]
      exact hold
    · intro op hop
      rw [hhanded, operationsOf_append, List.mem_append] at hop
      rcases hop with hop | hop
      · exact hold op hop
      · by_cases ht : MirrorType op.type
        · obtain ⟨object, ho, hmirror⟩ := mem_batch_of_mirrorType hbatch (hpre.subset hop) ht
          obtain ⟨validation, hv⟩ := hpush.validated
          obtain ⟨objectIds, hhash, hbundle, hall⟩ := report_push hpush hv hrecords s.2 hfits
          rw [hhash] at hmirror
          exact faithful_mirror hbundle (hall object ho).1 (hall object ho).2 hmirror
        · exact faithful_of_not_mirrorType ht

/-- What is there can be read. -/
theorem held_of_present (hX : ReadsBack X) (hs : Entries (FileEntry X (LetIn X policy requests)) s)
    {repoId objectId : String} (h : Present X repoId s objectId) : Held X s repoId objectId := by
  obtain ⟨path, o, hpath, hid, hb, -⟩ := exists_object_of_present hs h
  exact ⟨o.canonical, run_readObject hX hpath hb, hid⟩

end Index

/-- As long as no push reuses a key for an object that is not in the bundle of that key,
    the index names objects that are held and bundles they are in. -/
theorem index_names_held_objects {X : Crates} (hX : ReadsBack X) (policy : Policy)
    {requests : List BundlePushRequest} {s : Files} {log : List KfdbWriteBatch}
    (h : (indexedRelayStore X (fileRelayStore X policy)).PushedIf (Prog.stepPlus FileStep SinkStep)
      (KeyFits X policy) (∅, []) requests (s, log)) :
    ∀ op ∈ operationsOf log, Faithful X policy requests (Held X s) op := by
  obtain ⟨hpushed, -, hlog⟩ := pushed_faithful hX h
  exact fun op hop => (hlog op hop).imp fun repoId objectId hp =>
    held_of_present hX (FileRelayStore.pushed_entries hpushed) hp

/-- `nullPush`, indexed. -/
theorem nullPush_index_names_held_objects :
    ∃ s log, (indexedRelayStore .reference (fileRelayStore .reference ⟨false, []⟩)).PushedIf
        (Prog.stepPlus FileStep SinkStep) (KeyFits .reference ⟨false, []⟩) (∅, []) [nullPush]
        (s, log) ∧
      ∀ op ∈ operationsOf log,
        Faithful .reference ⟨false, []⟩ [nullPush] (Held .reference s) op := by
  generalize nullPush = request
  obtain ⟨r, s, log, hrun⟩ := Prog.exists_runs_plus fileStep_exec sinkStep_exec
    ((indexedRelayStore .reference (fileRelayStore .reference ⟨false, []⟩)).pushBundle request) ∅ []
  have hfits : KeyFits .reference ⟨false, []⟩ (∅, []) request := by
    intro validation bytes report _ hb
    simp at hb
  have hpushed := RelayStore.PushedIf.push request r .none hfits hrun
  exact ⟨s, log, hpushed, index_names_held_objects readsBack_reference _ hpushed⟩

/-! ## A key used again -/

namespace IndexedRelayStore

section Run

variable {O : Ops} {σ : Type} (exec : (o : O.Op) → σ → O.Ans o × σ)

theorem run_deliver (skipEmbedding : Bool) (pieces : List (List KfdbOperation)) (s : σ)
    (log : List KfdbWriteBatch) :
    (deliver skipEmbedding pieces).run (Prog.execPlus exec sinkExec) (s, log) =
      (.ok (), s, log ++ pieces.map fun operations => ⟨operations, skipEmbedding⟩) := by
  induction pieces generalizing log with
  | nil => simp [deliver]
  | cons operations rest ih =>
    refine (ih (log ++ [⟨operations, skipEmbedding⟩])).trans ?_
    rw [List.map_cons, List.append_assoc, List.singleton_append]

/-- A push that the inner store takes is indexed under the report of the inner store. -/
theorem run_push {X : Crates} (inner : RelayStore O) {request : BundlePushRequest} {s s' : σ}
    (log : List KfdbWriteBatch) {report : BundlePushReport}
    (hrun : (inner.pushBundle request).run exec s = (.ok report, s'))
    (hvalid : ∀ object ∈ request.objects, object.Valid X) :
    ∃ log', (pushBundle X inner request).run (Prog.execPlus exec sinkExec) (s, log) =
        (.ok report, s', log') ∧
      ∀ object ∈ request.objects,
        objectOperations X request.repoId report.bundleHash object ⊆ operationsOf log' := by
  have hbatch : kfdbIndexBatch X request.repoId report.bundleHash request.objects = .ok _ :=
    kfdbIndexBatch_ok_iff.mpr ⟨hvalid, rfl⟩
  have hlift := Prog.run_liftLeft exec sinkExec (inner.pushBundle request) (s, log)
  rw [hrun] at hlift
  unfold pushBundle
  rw [Prog.run_bind_ok _ hlift, hbatch, Prog.liftM_ok, Prog.ret_bind,
    Prog.run_bind_ok _ (run_deliver exec _ _ s' log)]
  refine ⟨_, rfl, fun object ho op hop => ?_⟩
  rw [operationsOf, List.flatMap_append, List.mem_append, List.flatMap_map]
  refine .inr ?_
  rw [List.flatMap_id', flatten_chunks (by decide)]
  exact List.mem_append_right _ (List.mem_flatMap.mpr ⟨object, ho, hop⟩)

end Run

end IndexedRelayStore

section Reuse

variable {X : Crates} {policy : Policy} {first second : BundlePushRequest}

open FileRelayStore

/-- After a push to an empty store, the object of another id cannot be read. -/
theorem not_held_of_adds {s : Files} {repoId r key objectId : String} {bytes : Bytes}
    {objects : List CanonicalObject} (hadds : Adds X repoId objects ∅ s)
    (hid : ∀ object ∈ objects, object.objectId ≠ objectId) :
    ¬ Held X (s.insert (idempotencyPath X repoId key) bytes) r objectId := by
  rintro ⟨object, hread, -⟩
  have hruns := Prog.runs_run fileStep_exec (readObject X r objectId)
    (s.insert (idempotencyPath X repoId key) bytes)
  rw [hread] at hruns
  obtain ⟨-, hex, b, hd, hb, -⟩ := runs_readObject hruns
  rw [getElem?_insert_eq, if_neg (objectFile_ne_idempotencyPath _ _ _ _).symm] at hb
  rcases hadds (objectFile X r hex) with he | ⟨-, o, ho, hpath, -⟩
  · rw [he] at hb
    simp at hb
  · obtain ⟨hex', hd', hfile⟩ := objectPath_ok hpath
    obtain ⟨-, rfl⟩ := objectFile_inj hfile
    exact hid o ho (objectDigits_inj hd' hd)

/-- A push with the key of an earlier one is indexed with its own objects, and none of
    them is stored. -/
theorem reused_key_not_faithful (hX : ReadsBack X)
    (hfirst : ∀ object ∈ first.objects, Accepted X policy first.repoId object)
    (hsecond : ∀ object ∈ second.objects, Accepted X policy second.repoId object)
    (hrepo : second.repoId = first.repoId) (hkey : second.idempotencyKey = first.idempotencyKey)
    {object : CanonicalObject} (ho : object ∈ second.objects)
    (hid : ∀ o ∈ first.objects, o.objectId ≠ object.objectId) :
    ∃ s log, (indexedRelayStore X (fileRelayStore X policy)).Pushed (Prog.stepPlus FileStep SinkStep)
        (∅, []) [first, second] (s, log) ∧
      ¬ ∀ op ∈ operationsOf log, Faithful X policy [first, second] (Held X s) op := by
  obtain ⟨validation, hv⟩ := bundleValidationReport_of_accepted hfirst
  obtain ⟨validation', hv'⟩ := bundleValidationReport_of_accepted hsecond
  obtain ⟨report, s, -, hadds, hrun⟩ := run_push_stored (s := ∅) hv (by simp) fun o hmem => by
    obtain ⟨hex, hd⟩ := objectDigits_of_valid (hfirst o hmem).valid
    exact ⟨_, objectPath_eq hd, fun bytes hb => by simp at hb⟩
  -- the second push finds the record of the first
  have hrun' := run_push_replayed (s := s.insert (idempotencyPath X first.repoId
    first.idempotencyKey) (recordBytes X report)) hv' (by
      rw [hrepo, hkey, getElem?_insert_eq, if_pos rfl])
  rw [reportFromSlice_recordBytes hX] at hrun'
  obtain ⟨log, hindexed, -⟩ := IndexedRelayStore.run_push Files.exec (fileRelayStore X policy) []
    hrun fun o hmem => (hfirst o hmem).valid
  obtain ⟨log', hindexed', hops⟩ := IndexedRelayStore.run_push Files.exec (fileRelayStore X policy)
    log hrun' fun o hmem => (hsecond o hmem).valid
  have hstep := Prog.stepPlus_execPlus fileStep_exec sinkStep_exec
  have hempty : (indexedRelayStore X (fileRelayStore X policy)).Pushed
    (Prog.stepPlus FileStep SinkStep) (∅, []) [] (∅, []) := .none
  have hpushed := (hempty.run hstep first).run hstep second
  rw [show (indexedRelayStore X (fileRelayStore X policy)).pushBundle =
    IndexedRelayStore.pushBundle X (fileRelayStore X policy) from rfl, hindexed, hindexed'] at hpushed
  refine ⟨_, log', hpushed, fun hall => ?_⟩
  have hmirror : mirrorOperations X second.repoId report.bundleHash object ⊆ operationsOf log' :=
    fun op hop => hops object ho (List.mem_append_left _ (List.mem_append_left _
      (List.mem_append_left _ hop)))
  obtain ⟨repoId, objectId, -, hlookup, -, hheld⟩ := hall _ (hmirror List.mem_cons_self) rfl
  obtain rfl : object.objectId = objectId :=
    PropertyValue.string.inj (Option.some.inj hlookup)
  exact not_held_of_adds hadds hid hheld

end Reuse

/-- A push with the key of `nullPush`, of another object. -/
def nullRunPush : BundlePushRequest where
  repoId := "r"
  idempotencyKey := "k"
  objects := [.new .reference "agent.run" defaultSchemaVersion 0 .null]

/-- The index then names an object that the relay does not hold. -/
theorem reused_key_indexes_missing_object :
    ∃ s log, (indexedRelayStore .reference (fileRelayStore .reference ⟨false, []⟩)).Pushed
        (Prog.stepPlus FileStep SinkStep) (∅, []) [nullPush, nullRunPush] (s, log) ∧
      ¬ ∀ op ∈ operationsOf log,
        Faithful .reference ⟨false, []⟩ [nullPush, nullRunPush] (Held .reference s) op := by
  have hids : canonicalObjectId .reference "agent.intent" defaultSchemaVersion .null ≠
      canonicalObjectId .reference "agent.run" defaultSchemaVersion .null := by decide +kernel
  refine reused_key_not_faithful readsBack_reference ?_ ?_ rfl rfl List.mem_cons_self ?_
  · exact List.forall_mem_singleton.mpr (accepted_unsigned _ _ _ _)
  · exact List.forall_mem_singleton.mpr (accepted_unsigned _ _ _ _)
  · exact List.forall_mem_singleton.mpr hids

end RickydataGit.Relay
