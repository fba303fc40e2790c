/-
  What a push to a bucket without faults does.

  It is answered from the record of its key (`run_push_replayed`), or it puts its
  objects under the names that are free and leaves a record (`run_push_stored`).
-/
import RickydataGit.Relay.Ingress

namespace RickydataGit.Relay.GcsRelayStore

open RickydataGit.Lib RickydataGit.Core

/-- One of these objects, under its name in the repository. -/
def ObjectOf (X : Crates) (repoId : String) (objects : List CanonicalObject) (name : String)
    (bytes : Bytes) : Prop :=
  ∃ object ∈ objects, name = objectName X repoId object.objectId ∧
    bytes = canonicalObjectBytes X object

section Run

variable {X : Crates} {policy : Policy} {request : BundlePushRequest} {repoId : String} {s : Bucket}

theorem ObjectOf.mono {objects objects' : List CanonicalObject} (h : objects ⊆ objects')
    {name : String} {bytes : Bytes} (ho : ObjectOf X repoId objects name bytes) :
    ObjectOf X repoId objects' name bytes := by
  obtain ⟨object, hmem, hrest⟩ := ho
  exact ⟨object, h hmem, hrest⟩

theorem ne_none_of_extends {s s' : Bucket} (h : Extends s s') {name : String}
    (hn : s[name]? ≠ none) : s'[name]? ≠ none := by
  obtain ⟨bytes, hb⟩ := Option.ne_none_iff_exists'.mp hn
  rw [h name bytes hb]
  exact Option.some_ne_none bytes

/-- The loop takes the free names; after it every object has something under its name. -/
theorem run_putObjects (X : Crates) (objects : List CanonicalObject) {existingNames : List String}
    (hexisting : ∀ name ∈ existingNames, s[name]? ≠ none) (accepted duplicate : UInt64) :
    ∃ counts s₁, (putObjects X repoId existingNames accepted duplicate objects).run Bucket.exec s =
        (.ok counts, s₁) ∧ Grows (ObjectOf X repoId objects) s s₁ ∧
      ∀ object ∈ objects, s₁[objectName X repoId object.objectId]? ≠ none := by
  induction objects generalizing s accepted duplicate with
  | nil => exact ⟨_, s, rfl, Grows.refl _ s, by simp⟩
  | cons object rest ih =>
    have hsub : rest ⊆ object :: rest := List.subset_cons_self _ _
    -- the rest of the loop, from a store that has the first object
    have hstep : ∀ accepted duplicate s₁, Grows (ObjectOf X repoId (object :: rest)) s s₁ →
        s₁[objectName X repoId object.objectId]? ≠ none →
        ∃ counts s₂, (putObjects X repoId existingNames accepted duplicate rest).run Bucket.exec s₁ =
            (.ok counts, s₂) ∧ Grows (ObjectOf X repoId (object :: rest)) s s₂ ∧
          ∀ o ∈ object :: rest, s₂[objectName X repoId o.objectId]? ≠ none := by
      intro accepted duplicate s₁ hgrows hhead
      obtain ⟨counts, s₂, hrun, hrest, hall⟩ := ih (s := s₁)
        (fun name hn => ne_none_of_extends hgrows.toExtends (hexisting name hn)) accepted duplicate
      refine ⟨counts, s₂, hrun, hgrows.trans (hrest.mono fun _ _ => ObjectOf.mono hsub), ?_⟩
      exact List.forall_mem_cons.mpr ⟨ne_none_of_extends hrest.toExtends hhead, hall⟩
    unfold putObjects
    dsimp only
    by_cases hlisted : existingNames.contains (objectName X repoId object.objectId) = true
    · rw [if_pos hlisted]
      exact hstep _ _ s (Grows.refl _ s) (hexisting _ (List.contains_iff_mem.mp hlisted))
    · rw [if_neg hlisted]
      rcases hn : s[objectName X repoId object.objectId]? with _ | b
      · rw [Prog.run_bind_ok _ (run_putBytesIfAbsent_none hn _)]
        refine hstep _ _ _ (Grows.insert hn ⟨object, List.mem_cons_self, rfl, rfl⟩) ?_
        rw [getElem?_insert_eq, if_pos rfl]
        exact Option.some_ne_none _
      · rw [Prog.run_bind_ok _ (run_putBytesIfAbsent_some hn _)]
        exact hstep _ _ s (Grows.refl _ s) (by rw [hn]; exact Option.some_ne_none b)

theorem mem_namesUnder {listPrefix name : String} :
    name ∈ s.namesUnder listPrefix ↔ s[name]? ≠ none ∧ listPrefix.toList <+: name.toList := by
  rw [Bucket.namesUnder, List.mem_filter, mem_keys_iff, List.isPrefixOf_iff_prefix]

theorem run_readReport (name : String) :
    (readReport X name).run Bucket.exec s = (downloaded name s[name]? >>= reportFromSlice X, s) := by
  unfold readReport
  rw [Prog.run_bind, run_getBytes]
  rcases downloaded name s[name]? with e | bytes
  · rfl
  · exact Prog.run_ofExcept _ _ _

theorem run_push {validation : BundleValidationReport}
    (hv : bundleValidationReport X policy request = .ok validation) :
    (pushBundle X policy request).run Bucket.exec s = (pushValidated X request).run Bucket.exec s := by
  unfold pushBundle
  rw [hv]
  rfl

/-- A push is answered from the record of its key. -/
theorem run_push_replayed (hX : ReadsBack X) {validation : BundleValidationReport}
    (hv : bundleValidationReport X policy request = .ok validation) {report : BundlePushReport}
    (hrec : s[idempotencyName X request.repoId request.idempotencyKey]? =
      some (recordBytes X report)) :
    (pushBundle X policy request).run Bucket.exec s = (.ok report, s) := by
  have hread : (readReport X (idempotencyName X request.repoId request.idempotencyKey)).run
      Bucket.exec s = (.ok report, s) := by
    rw [run_readReport, hrec]
    exact congrArg (·, s) (reportFromSlice_recordBytes hX report)
  rw [run_push hv]
  unfold pushValidated
  rw [Prog.run_bind_ok _ (Prog.run_attempt Bucket.exec _ s), hread]
  rfl

/-- What is done once no record was found, on a store where there is none. -/
theorem run_pushObjects
    (hrec : s[idempotencyName X request.repoId request.idempotencyKey]? = none) :
    ∃ report s₁, report.objectIds = request.objects.map CanonicalObject.objectId ∧
      Grows (ObjectOf X request.repoId request.objects) s s₁ ∧
      (∀ object ∈ request.objects, s₁[objectName X request.repoId object.objectId]? ≠ none) ∧
      (pushObjects X request).run Bucket.exec s = (.ok report,
        s₁.insert (idempotencyName X request.repoId request.idempotencyKey)
          (recordBytes X report)) := by
  have hlisted : ∀ name ∈ s.namesUnder (objectsPrefix request.repoId), s[name]? ≠ none :=
    fun name hn => (mem_namesUnder.mp hn).1
  obtain ⟨⟨accepted, duplicate⟩, s₁, hput, hgrows, hall⟩ :=
    run_putObjects X request.objects hlisted 0 0
  have hfree : s₁[idempotencyName X request.repoId request.idempotencyKey]? = none := by
    rw [hgrows.other, hrec]
    rintro bytes ⟨object, -, hname, -⟩
    exact objectName_ne_idempotencyName hname.symm
  unfold pushObjects
  rw [Prog.run_bind_ok _ (run_listNames _ s)]
  dsimp only
  rw [Prog.run_bind_ok _ hput]
  dsimp only
  rw [Prog.run_bind_ok _ (run_putBytesIfAbsent_none hfree _)]
  exact ⟨_, s₁, rfl, hgrows, hall, rfl⟩

/-- A push that finds no record succeeds, and leaves one. -/
theorem run_push_stored {validation : BundleValidationReport}
    (hv : bundleValidationReport X policy request = .ok validation)
    (hrec : s[idempotencyName X request.repoId request.idempotencyKey]? = none) :
    ∃ report s₁, report.objectIds = request.objects.map CanonicalObject.objectId ∧
      Grows (ObjectOf X request.repoId request.objects) s s₁ ∧
      (∀ object ∈ request.objects, s₁[objectName X request.repoId object.objectId]? ≠ none) ∧
      (pushBundle X policy request).run Bucket.exec s = (.ok report,
        s₁.insert (idempotencyName X request.repoId request.idempotencyKey)
          (recordBytes X report)) := by
  have hread : ∃ e, (readReport X (idempotencyName X request.repoId request.idempotencyKey)).run
      Bucket.exec s = (.error e, s) := by
    rw [run_readReport, hrec]
    exact ⟨_, rfl⟩
  obtain ⟨e, hread⟩ := hread
  rw [run_push hv]
  unfold pushValidated
  rw [Prog.run_bind_ok _ (Prog.run_attempt Bucket.exec _ s), hread]
  exact run_pushObjects hrec

end Run

end RickydataGit.Relay.GcsRelayStore
