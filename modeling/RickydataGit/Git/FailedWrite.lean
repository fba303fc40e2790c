/-
  What a write that fails leaves behind.

  `failed_write_unchanged_iff`: a failed write leaves every cache file and every
  reference as it was, unless it is `Stranded`: the object is valid and not cached, and
  its reference points to another blob. Such a write stores its bytes in the cache
  before it looks at the reference. `emptyIntent_replaces_fetchedIntent` is one, after a
  fetch of the same object with another time.
-/
import RickydataGit.Git.RoundTrip

namespace RickydataGit.Git

open RickydataGit.Lib RickydataGit.Core

/-- Every cache file and reference is as it was, and so is what is read and verified. -/
structure Unchanged (X : Crates) (s s' : ObjectStore) : Prop where
  cache : ∀ path : String, s'.cache[path]? = s.cache[path]?
  refs : ∀ name : String, s'.refs[name]? = s.refs[name]?
  read : ∀ objectId, ((readCachedObject X objectId).run exec s').1 =
    ((readCachedObject X objectId).run exec s).1
  verify : ∀ objectId, ((verifyCachedObject X objectId).run exec s').1 =
    ((verifyCachedObject X objectId).run exec s).1

theorem Unchanged.refl (X : Crates) (s : ObjectStore) : Unchanged X s s where
  cache _ := rfl
  refs _ := rfl
  read _ := rfl
  verify _ := rfl

/-- A write of a valid object that is not cached, while its reference points to another
    blob. -/
structure Stranded (X : Crates) (s : ObjectStore) (w : WriteCall) : Prop where
  valid : (w.object X).Valid X
  uncached : s.cacheFile (w.object X).objectId = none
  other : ∃ b, s.refBytes (w.object X).objectId = some b ∧ X.blobId b ≠ X.blobId (w.bytes X)

section

variable {X : Crates} {w : WriteCall} {s : ObjectStore}

/-- A write that is not stranded changes nothing when it fails. -/
theorem run_of_not_stranded (h : ¬ Stranded X s w) {e : GitInspectError}
    (he : ((w.prog X).run exec s).1 = .error e) : ((w.prog X).run exec s).2 = s := by
  by_cases hv : (w.object X).Valid X
  · obtain ⟨m, -, hhex⟩ := objectHex_of_valid hv
    rw [WriteCall.run_of_valid hv] at he ⊢
    have heffect := (storeObject_effect (X := X) s hhex (w.bytes X)).1
    rw [he] at heffect
    generalize ((storeObject X (w.object X) (w.bytes X)).run exec s).2 = s' at heffect ⊢
    generalize hok : (Except.error e : Except GitInspectError ObjectWriteReport).isOk = ok at heffect
    cases heffect with
    | conflict => rfl
    | refused hs hr hne =>
      rcases hs with ⟨-, rfl⟩ | ⟨hc, -⟩
      · rfl
      · exact absurd ⟨hv, by rw [s.cacheFile_eq hhex, hc], _, by rw [s.refBytes_eq hhex, hr], hne⟩ h
    | present => cases hok
    | created => cases hok
  · obtain ⟨e', he'⟩ := WriteCall.run_of_not_valid hv s
    rw [he']

/-- A stranded write fails, and its bytes are in the cache. -/
theorem Stranded.run (h : Stranded X s w) {hex : List Char}
    (hhex : objectHex (w.object X).objectId = .ok hex) :
    (∃ e, ((w.prog X).run exec s).1 = .error e) ∧
      ((w.prog X).run exec s).2 = s.writeCache (cachePathOf hex) (w.bytes X) := by
  obtain ⟨b, hb, hne⟩ := h.other
  have hc := h.uncached
  rw [s.cacheFile_eq hhex] at hc
  rw [s.refBytes_eq hhex] at hb
  rw [WriteCall.run_of_valid h.valid, storeObject_run s hhex, writeObjectCacheBytes_run, hc]
  simp only [writeGitObjectRef_run, ObjectStore.refs_writeCache, hb, hne, ne_eq, not_false_eq_true,
    if_true]
  exact ⟨⟨_, rfl⟩, trivial⟩

/-- What is read of the id is the other object before, and the refused one after. -/
theorem Stranded.replaces (hX : ReadsBack X) (h : Stranded X s w) {o : CanonicalObject}
    (ho : Stored X o s) (hid : o.objectId = (w.object X).objectId) :
    ∃ e s', (w.prog X).run exec s = (.error e, s') ∧ ∃ before after,
      ((readCachedObject X (w.object X).objectId).run exec s).1 = .ok before ∧
      before.object = o.canonical ∧
      ((readCachedObject X (w.object X).objectId).run exec s').1 = .ok after ∧
      after.object = (w.object X).canonical := by
  obtain ⟨m, -, hhex⟩ := objectHex_of_valid h.valid
  obtain ⟨⟨e, he⟩, hs⟩ := h.run hhex
  obtain ⟨before, hbefore, -, hobject⟩ := (ho.agrees hX).read
  rw [hid] at hbefore
  refine ⟨e, _, Prod.ext he hs, before, _, hbefore, hobject, read_cached_bytes hX hhex ?_, rfl⟩
  exact (s.cache_writeCache ..).trans (if_pos rfl)

end

/-- A write that fails leaves the store as it was, exactly when it is not stranded. -/
theorem failed_write_unchanged_iff (X : Crates) (w : WriteCall) (s : ObjectStore) :
    (∀ e, ((w.prog X).run exec s).1 = .error e → Unchanged X s ((w.prog X).run exec s).2) ↔
      ¬ Stranded X s w := by
  constructor
  · intro hsame hstranded
    obtain ⟨m, -, hhex⟩ := objectHex_of_valid hstranded.valid
    obtain ⟨⟨e, he⟩, hs⟩ := hstranded.run hhex
    have hcache := (hsame e he).cache (cachePathOf (hexEncode (X.sha256 m)).toList)
    have hnone := hstranded.uncached
    rw [s.cacheFile_eq hhex] at hnone
    rw [hs, ObjectStore.cache_writeCache, if_pos rfl, hnone] at hcache
    cases hcache
  · intro h e he
    rw [run_of_not_stranded h he]
    exact .refl X s

/-! ## A stranded write -/

/-- The later intent as a fetch brings it: its reference only. -/
def fetchedIntent : ObjectStore :=
  ObjectStore.empty.writeRef
    (refNameOf (hexEncode (Crates.reference.sha256 (signingMessage .reference "agent.intent"
      defaultSchemaVersion (canonicalJson .null)))).toList)
    (laterIntent.bytes .reference)

/-- A store with one reference stores its object. -/
theorem stored_writeRef_empty {X : Crates} {o : CanonicalObject} (hv : o.Valid X) {hex : List Char}
    (hhex : objectHex o.objectId = .ok hex) :
    Stored X o (ObjectStore.empty.writeRef (refNameOf hex) (canonicalObjectBytes X o)) where
  valid := hv
  kept hex' hhex' := by
    obtain rfl := Except.ok.inj (hhex.symm.trans hhex')
    exact ⟨by simp, fun b hb => by simp [ObjectStore.empty] at hb⟩

theorem fetchedIntent_stores :
    Stored .reference (laterIntent.object .reference) fetchedIntent ∧
      Stranded .reference fetchedIntent emptyIntent := by
  have hhex : objectHex (emptyIntent.object .reference).objectId =
      .ok (hexEncode (Crates.reference.sha256 (signingMessage .reference "agent.intent"
        defaultSchemaVersion (canonicalJson .null)))).toList :=
    (congrArg objectHex (canonicalObjectId_eq ..)).trans (objectHex_hashText ..)
  have hv : (emptyIntent.object .reference).Valid .reference := valid_cachedObject ..
  have hstored := stored_writeRef_empty (o := laterIntent.object .reference)
    ⟨hv.objectId, hv.bodyHash⟩ hhex
  refine ⟨hstored, hv, ?_, laterIntent.bytes .reference, ?_, blobId_intents_ne.symm⟩
  · rw [ObjectStore.cacheFile_eq _ hhex]
    simp [fetchedIntent, ObjectStore.empty]
  · rw [ObjectStore.refBytes_eq _ hhex]
    exact (hstored.kept _ hhex).ref

/-- The intent without a body is refused by the reference, and is read from then on. -/
theorem emptyIntent_replaces_fetchedIntent :
    ∃ e s', (emptyIntent.prog .reference).run exec fetchedIntent = (.error e, s') ∧
      ¬ Unchanged .reference fetchedIntent s' := by
  obtain ⟨hstored, hstranded⟩ := fetchedIntent_stores
  obtain ⟨e, s', hrun, before, after, hbefore, hfirst, hafter, hsecond⟩ :=
    hstranded.replaces readsBack_reference hstored rfl
  refine ⟨e, s', hrun, fun hsame => ?_⟩
  have heq := hsame.read (emptyIntent.object .reference).objectId
  rw [hbefore, hafter] at heq
  rw [Except.ok.inj heq, hfirst] at hsecond
  exact absurd (congrArg CanonicalObject.createdAtMs hsecond) (by decide)

end RickydataGit.Git
