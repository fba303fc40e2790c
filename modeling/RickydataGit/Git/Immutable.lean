/-
  What a successful write fixes, over any sequence of calls.

  `Kept` is the invariant of an object that was written: its reference points to
  its bytes and its cache file, if there is one, holds them. A successful write
  establishes it, and every call keeps it but one: a write of other bytes under the
  same id made while the cache file is missing (`Disturbs`). Such a write puts its
  bytes into the cache before the reference is compared, and then fails.

  `written_object_stays_iff`: after a successful write, every read that succeeds
  returns the object that was written, at any later time, exactly when no later
  call disturbs it.
-/
import RickydataGit.Core.PrintBytes
import RickydataGit.Git.ObjectStore

namespace RickydataGit.Git

open RickydataGit.Lib RickydataGit.Core

/-! ## Calls -/

inductive WriteCall where
  | cached (kind : String) (body : Value)
  | canonical (object : CanonicalObject)

/-- The calls of the store, and the removal of a cache file from outside. -/
inductive StoreCall where
  | write (w : WriteCall)
  | read (objectId : String)
  | verify (objectId : String)
  | deleteCache (path : String)

section

variable (X : Crates)

namespace WriteCall

def object : WriteCall → CanonicalObject
  | cached kind body => cachedObject X kind body
  | canonical object => object

/-- The bytes the call stores. -/
def bytes (w : WriteCall) : Bytes := canonicalObjectBytes X (w.object X)

def prog : WriteCall → Store ObjectWriteReport
  | cached kind body => writeCachedObject X kind body
  | canonical object => writeCanonicalObject X object

end WriteCall

/-- The store behind a call, whatever the call returns. -/
def StoreCall.after (s : ObjectStore) : StoreCall → ObjectStore
  | .write w => ((w.prog X).run exec s).2
  | .read objectId => ((readCachedObject X objectId).run exec s).2
  | .verify objectId => ((verifyCachedObject X objectId).run exec s).2
  | .deleteCache path => s.deleteCache path

def runCalls (s : ObjectStore) (calls : List StoreCall) : ObjectStore :=
  calls.foldl (StoreCall.after X) s

end

section

variable {X : Crates}

theorem runCalls_append (s : ObjectStore) (calls calls' : List StoreCall) :
    runCalls X s (calls ++ calls') = runCalls X (runCalls X s calls) calls' :=
  List.foldl_append

theorem runCalls_concat (s : ObjectStore) (calls : List StoreCall) (c : StoreCall) :
    runCalls X s (calls ++ [c]) = c.after X (runCalls X s calls) := by
  rw [runCalls_append]
  rfl

theorem runCalls_cons (s : ObjectStore) (c : StoreCall) (calls : List StoreCall) :
    runCalls X s (c :: calls) = runCalls X (c.after X s) calls := rfl

theorem runCalls_nil (s : ObjectStore) : runCalls X s [] = s := rfl

theorem after_write (s : ObjectStore) (w : WriteCall) :
    (StoreCall.write w).after X s = ((w.prog X).run exec s).2 := rfl

theorem after_deleteCache (s : ObjectStore) (path : String) :
    (StoreCall.deleteCache path).after X s = s.deleteCache path := rfl

/-! ## Valid objects -/

/-- An object passes the field checks under an id exactly when it is valid and the
    id is its own. -/
theorem objectFieldDiagnostics_eq_nil_iff {objectId : String} {o : CanonicalObject} :
    (objectFieldDiagnostics X objectId o).1 = [] ↔ o.objectId = objectId ∧ o.Valid X := by
  simp only [objectFieldDiagnostics, List.append_eq_nil_iff, ite_eq_right_iff, ne_eq, reduceCtorEq,
    imp_false, not_not]
  exact ⟨fun ⟨⟨h1, h2⟩, h3⟩ => ⟨h1, ⟨h2, h3⟩⟩, fun ⟨h1, h2⟩ => ⟨⟨h1, h2.objectId⟩, h2.bodyHash⟩⟩

theorem valid_cachedObject (kind : String) (body : Value) : (cachedObject X kind body).Valid X :=
  CanonicalObject.valid_new X ..

/-- The id of an object, computed from the bytes of its body. -/
theorem objectId_cachedObject (X : Crates) (kind : String) (body : Value) :
    (cachedObject X kind body).objectId =
      hashText X (printBytes (numberText X.floatText) (canonicalJson (.obj [("kind", .str kind),
        ("schema_version", .str defaultSchemaVersion), ("body", body)] (by simp))).tree) := by
  have hid : (cachedObject X kind body).objectId =
      canonicalObjectId X kind defaultSchemaVersion (canonicalJson body) := rfl
  rw [hid, canonicalObjectId_canonicalJson, canonicalObjectId, stableJsonHash_eq]

/-- A write of an invalid object is refused before the store is touched. -/
theorem WriteCall.run_of_not_valid {w : WriteCall} (h : ¬ (w.object X).Valid X) (s : ObjectStore) :
    ∃ e, (w.prog X).run exec s = (.error e, s) := by
  cases w with
  | cached kind body => exact absurd (valid_cachedObject kind body) h
  | canonical o =>
    have hd : (objectFieldDiagnostics X o.objectId o).1 ≠ [] := fun hd =>
      h (objectFieldDiagnostics_eq_nil_iff.mp hd).2
    simp only [WriteCall.prog, writeCanonicalObject, ne_eq, hd, not_false_eq_true, if_true]
    exact ⟨_, rfl⟩

theorem WriteCall.run_of_valid {w : WriteCall} (h : (w.object X).Valid X) (s : ObjectStore) :
    (w.prog X).run exec s = (storeObject X (w.object X) (w.bytes X)).run exec s := by
  cases w with
  | cached kind body => rfl
  | canonical o =>
    have hd : (objectFieldDiagnostics X o.objectId o).1 = [] :=
      objectFieldDiagnostics_eq_nil_iff.mpr ⟨rfl, h⟩
    simp only [WriteCall.prog, writeCanonicalObject, hd, ne_eq, not_true_eq_false, if_false]
    rfl

/-- The id a successful write reports is that of its object. -/
theorem WriteCall.objectId_of_ok {w : WriteCall} {s s' : ObjectStore} {report : ObjectWriteReport}
    (hrun : (w.prog X).run exec s = (.ok report, s')) :
    report.objectId = (w.object X).objectId := by
  by_cases hv : (w.object X).Valid X
  · rw [WriteCall.run_of_valid hv] at hrun
    obtain ⟨m, -, hhex⟩ := objectHex_of_valid hv
    exact ((storeObject_effect s hhex (w.bytes X)).2 report (by rw [hrun])).1
  · obtain ⟨e, he⟩ := WriteCall.run_of_not_valid hv s
    rw [he] at hrun
    cases hrun

/-! ## The invariant -/

/-- The reference has the bytes, and the cache file, if there is one, has them too. -/
structure Kept (hex : List Char) (bytes : Bytes) (s : ObjectStore) : Prop where
  ref : s.refs[refNameOf hex]? = some bytes
  cache : ∀ b, s.cache[cachePathOf hex]? = some b → b = bytes

variable {hex hex' : List Char} {bytes b : Bytes} {s s' : ObjectStore}

theorem kept_of_success (h : StoreEffect X hex bytes s true s')
    (hblob : ∀ b, s.refs[refNameOf hex]? = some b → X.blobId b = X.blobId bytes → b = bytes) :
    Kept hex bytes s' := by
  generalize hok : true = ok at h
  cases h with
  | conflict => cases hok
  | refused => cases hok
  | present hs hr hb =>
    have he := hblob _ hr hb
    subst he
    refine ⟨by rw [hs.refs, hr], fun b' hb' => ?_⟩
    rw [hs.cache] at hb'
    exact (Option.some.inj hb').symm
  | created hs hr =>
    refine ⟨by simp, fun b' hb' => ?_⟩
    rw [ObjectStore.cache_writeRef, hs.cache] at hb'
    exact (Option.some.inj hb').symm

theorem CacheStep.kept (hk : Kept hex bytes s) (hs : CacheStep (cachePathOf hex') b s s')
    (hl : hex'.length = hex.length)
    (hsame : hex' = hex → s.cache[cachePathOf hex]? = none → b = bytes) : Kept hex bytes s' := by
  refine ⟨by rw [hs.refs, hk.ref], fun c hc => ?_⟩
  by_cases hp : cachePathOf hex' = cachePathOf hex
  · have he := cachePathOf_inj hl hp
    rcases hs with ⟨_, rfl⟩ | ⟨hnone, rfl⟩
    · exact hk.cache c hc
    · rw [ObjectStore.cache_writeCache, if_pos hp] at hc
      rw [← Option.some.inj hc]
      exact hsame he (he ▸ hnone)
  · rw [hs.cache_ne hp] at hc
    exact hk.cache c hc

/-- A write keeps the invariant unless it writes other bytes while the cache file is
    missing. -/
theorem StoreEffect.kept {ok : Bool} (hk : Kept hex bytes s) (h : StoreEffect X hex' b s ok s')
    (hl : hex'.length = hex.length)
    (hsame : hex' = hex → s.cache[cachePathOf hex]? = none → b = bytes) : Kept hex bytes s' := by
  cases h with
  | conflict => exact hk
  | refused hs => exact hs.kept hk hl hsame
  | present hs => exact hs.kept hk hl hsame
  | created hs hr =>
    have hk₁ := hs.kept hk hl hsame
    -- the name is a new one, so it is not the name of this object
    have hn : refNameOf hex' ≠ refNameOf hex := by
      intro he
      rw [he, hk.ref] at hr
      cases hr
    exact ⟨by rw [ObjectStore.refs_writeRef, if_neg hn, hk₁.ref], hk₁.cache⟩

theorem ReadEffect.kept (hk : Kept hex bytes s) (h : ReadEffect hex' s s')
    (hl : hex'.length = hex.length) : Kept hex bytes s' := by
  rcases h with rfl | ⟨b, hc, hr, rfl⟩
  · exact hk
  · refine CacheStep.kept hk (.inr ⟨hc, rfl⟩) hl ?_
    rintro rfl _
    rw [hk.ref] at hr
    exact (Option.some.inj hr).symm

/-! ## Reading what is kept -/

theorem objectHex_cases (objectId : String) :
    (∃ hex, objectHex objectId = .ok hex) ∨ ∃ e, objectHex objectId = .error e := by
  cases objectHex objectId with
  | ok hex => exact .inl ⟨hex, rfl⟩
  | error e => exact .inr ⟨e, rfl⟩

theorem readObjectBytes_ok {o : CanonicalObject} (h : readObjectBytes X bytes = .ok o) :
    objectFromSlice X bytes = .ok o := by
  unfold readObjectBytes at h
  cases hs : objectFromSlice X bytes with
  | ok o' => rw [hs] at h; cases h; rfl
  | error e => rw [hs] at h; cases h

/-- A read that succeeds parsed the cache file or the referenced blob. -/
theorem read_ok {objectId : String} (h : objectHex objectId = .ok hex) {found : ObjectReadReport}
    (hr : ((readCachedObject X objectId).run exec s).1 = .ok found) :
    ∃ b, (s.cache[cachePathOf hex]? = some b ∨
        (s.cache[cachePathOf hex]? = none ∧ s.refs[refNameOf hex]? = some b)) ∧
      objectFromSlice X b = .ok found.object := by
  rw [readCachedObject_run s h] at hr
  cases hc : s.cache[cachePathOf hex]? with
  | some b =>
    rw [read_run_of_cache s hc] at hr
    cases ho : readObjectBytes X b with
    | error e => rw [ho] at hr; cases hr
    | ok o =>
      rw [ho] at hr
      cases hr
      exact ⟨b, .inl rfl, readObjectBytes_ok ho⟩
  | none =>
    cases href : s.refs[refNameOf hex]? with
    | none => rw [read_run_of_missing s h hc href] at hr; cases hr
    | some b =>
      rw [read_run_of_ref s h hc href] at hr
      cases ho : readObjectBytes X b with
      | error e => rw [ho] at hr; cases hr
      | ok o =>
        by_cases hd : (objectFieldDiagnostics X objectId o).1 = []
        · simp only [ho, hd, if_true] at hr
          cases hr
          exact ⟨b, .inr ⟨rfl, rfl⟩, readObjectBytes_ok ho⟩
        · simp only [ho, hd, if_false] at hr
          cases hr

theorem Kept.read {objectId : String} (hk : Kept hex bytes s) (h : objectHex objectId = .ok hex)
    {found : ObjectReadReport}
    (hr : ((readCachedObject X objectId).run exec s).1 = .ok found) :
    objectFromSlice X bytes = .ok found.object := by
  obtain ⟨b, hb | ⟨_, hb⟩, ho⟩ := read_ok h hr
  · rw [← hk.cache b hb]
    exact ho
  · rw [hk.ref] at hb
    rw [Option.some.inj hb]
    exact ho

/-- A cache file with the bytes of an object is read as that object. -/
theorem read_cached_bytes (hX : ReadsBack X) {objectId : String} (h : objectHex objectId = .ok hex)
    {o : CanonicalObject} (hc : s.cache[cachePathOf hex]? = some (canonicalObjectBytes X o)) :
    ((readCachedObject X objectId).run exec s).1 =
      .ok { objectId, cachePath := cachePathOf hex, source := .cache, object := o.canonical } := by
  have hb : readObjectBytes X (canonicalObjectBytes X o) = .ok o.canonical := by
    rw [readObjectBytes, objectFromSlice_canonicalObjectBytes hX]
    rfl
  rw [readCachedObject_run s h, read_run_of_cache s hc, hb]
  rfl

/-! ## Calls that disturb -/

namespace ObjectStore

/-- The cache file of an id. -/
def cacheFile (s : ObjectStore) (objectId : String) : Option Bytes :=
  match objectHex objectId with
  | .ok hex => s.cache[cachePathOf hex]?
  | .error _ => none

/-- The bytes the reference of an id points to. -/
def refBytes (s : ObjectStore) (objectId : String) : Option Bytes :=
  match objectHex objectId with
  | .ok hex => s.refs[refNameOf hex]?
  | .error _ => none

theorem cacheFile_eq {objectId : String} (s : ObjectStore) (h : objectHex objectId = .ok hex) :
    s.cacheFile objectId = s.cache[cachePathOf hex]? := by
  simp only [cacheFile, h]

theorem refBytes_eq {objectId : String} (s : ObjectStore) (h : objectHex objectId = .ok hex) :
    s.refBytes objectId = s.refs[refNameOf hex]? := by
  simp only [refBytes, h]

theorem refs_of_refBytes {objectId : String} {s : ObjectStore} (h : s.refBytes objectId = some b) :
    s.refs[refNameOf ((objectHex objectId).toOption.getD [])]? = some b := by
  unfold refBytes at h
  cases ho : objectHex objectId with
  | ok hex => rw [ho] at h; exact h
  | error e => rw [ho] at h; cases h

end ObjectStore

/-- A write of other bytes under the id, while the cache file is missing and the
    reference is there. -/
structure Disturbs (X : Crates) (objectId : String) (s : ObjectStore) (w : WriteCall) : Prop where
  same : (w.object X).objectId = objectId
  valid : (w.object X).Valid X
  missing : s.cacheFile objectId = none
  other : ∃ b, s.refBytes objectId = some b ∧ b ≠ w.bytes X

theorem WriteCall.kept {w : WriteCall} {objectId : String} (hk : Kept hex bytes s)
    (hid : objectHex objectId = .ok hex)
    (hinj : (w.object X).Valid X → objectHex (w.object X).objectId = .ok hex →
      (w.object X).objectId = objectId)
    (hd : ¬ Disturbs X objectId s w) : Kept hex bytes ((w.prog X).run exec s).2 := by
  by_cases hv : (w.object X).Valid X
  · rw [WriteCall.run_of_valid hv]
    rcases objectHex_cases (w.object X).objectId with ⟨hex', hhex'⟩ | ⟨e, he⟩
    · have hl : hex'.length = hex.length := by
        rw [objectHex_length hhex', objectHex_length hid]
      refine (storeObject_effect s hhex' (w.bytes X)).1.kept hk hl ?_
      rintro rfl hmiss
      by_contra hne
      exact hd ⟨hinj hv hhex', hv, by rw [s.cacheFile_eq hid, hmiss],
        bytes, by rw [s.refBytes_eq hid, hk.ref], fun he => hne he.symm⟩
    · rw [storeObject_run_error s he]
      exact hk
  · obtain ⟨e, he⟩ := WriteCall.run_of_not_valid hv s
    rw [he]
    exact hk

/-- One step of any call. -/
theorem StoreCall.kept {c : StoreCall} {objectId : String} (hk : Kept hex bytes s)
    (hid : objectHex objectId = .ok hex)
    (hinj : ∀ w, (WriteCall.object X w).Valid X →
      objectHex (WriteCall.object X w).objectId = .ok hex →
      (WriteCall.object X w).objectId = objectId)
    (hd : ∀ w, c = .write w → ¬ Disturbs X objectId s w) : Kept hex bytes (c.after X s) := by
  cases c with
  | write w => exact WriteCall.kept hk hid (hinj w) (hd w rfl)
  | read id =>
    rcases objectHex_cases id with ⟨hex', hhex'⟩ | ⟨e, he⟩
    · exact (readCachedObject_effect s hhex').kept hk
        (by rw [objectHex_length hhex', objectHex_length hid])
    · simp only [StoreCall.after, readCachedObject_run_error s he]
      exact hk
  | verify id =>
    rcases objectHex_cases id with ⟨hex', hhex'⟩ | ⟨e, he⟩
    · exact (verifyCachedObject_effect s hhex').kept hk
        (by rw [objectHex_length hhex', objectHex_length hid])
    · simp only [StoreCall.after, verifyCachedObject_run_error s he]
      exact hk
  | deleteCache path =>
    refine ⟨hk.ref, fun b hb => ?_⟩
    simp only [StoreCall.after, ObjectStore.cache_deleteCache] at hb
    split at hb
    · cases hb
    · exact hk.cache b hb

/-- What a disturbing write leaves in the cache: its own bytes. -/
theorem Disturbs.after {w : WriteCall} {objectId : String} (h : Disturbs X objectId s w)
    (hid : objectHex objectId = .ok hex) :
    ((StoreCall.write w).after X s).cache[cachePathOf hex]? = some (w.bytes X) := by
  obtain ⟨b, hb, -⟩ := h.other
  have hmiss := h.missing
  rw [s.cacheFile_eq hid] at hmiss
  rw [s.refBytes_eq hid] at hb
  rw [StoreCall.after, WriteCall.run_of_valid h.valid]
  have hid' : objectHex (w.object X).objectId = .ok hex := by rw [h.same]; exact hid
  have heff := (storeObject_effect (X := X) s hid' (w.bytes X)).1
  generalize ((storeObject X (w.object X) (w.bytes X)).run exec s) = r at heff ⊢
  generalize r.1.isOk = ok, r.2 = s' at heff ⊢
  cases heff with
  | conflict hc => rw [hmiss] at hc; cases hc
  | refused hs => exact hs.cache
  | present hs => exact hs.cache
  | created hs hr => rw [hb] at hr; cases hr

/-- It reports an error all the same. -/
theorem Disturbs.fails {w : WriteCall} {objectId : String} (h : Disturbs X objectId s w)
    (hid : objectHex objectId = .ok hex)
    (hblob : ∀ b, s.refBytes objectId = some b → X.blobId b ≠ X.blobId (w.bytes X)) :
    ((w.prog X).run exec s).1.isOk = false := by
  obtain ⟨b, hb, -⟩ := h.other
  have hne := hblob b hb
  rw [s.refBytes_eq hid] at hb
  rw [WriteCall.run_of_valid h.valid]
  have hid' : objectHex (w.object X).objectId = .ok hex := by rw [h.same]; exact hid
  have heff := (storeObject_effect (X := X) s hid' (w.bytes X)).1
  generalize ((storeObject X (w.object X) (w.bytes X)).run exec s) = r at heff ⊢
  generalize r.1.isOk = ok, r.2 = s' at heff ⊢
  cases heff with
  | conflict => rfl
  | refused => rfl
  | present _ hr he => rw [hb] at hr; exact absurd (Option.some.inj hr ▸ he) hne
  | created _ hr => rw [hb] at hr; cases hr

/-! ## Where the bytes of references come from -/

/-- Every reference points to the bytes of a write that was called. -/
def RefsWritten (X : Crates) (calls : List StoreCall) (s : ObjectStore) : Prop :=
  ∀ (name : String) (b : Bytes), s.refs[name]? = some b → ∃ w, .write w ∈ calls ∧ b = w.bytes X

theorem StoreCall.refsWritten {calls : List StoreCall} {c : StoreCall}
    (h : RefsWritten X calls s) : RefsWritten X (calls ++ [c]) (c.after X s) := by
  have hold : RefsWritten X (calls ++ [c]) s := fun name b hb => by
    obtain ⟨w, hw, he⟩ := h name b hb
    exact ⟨w, List.mem_append_left _ hw, he⟩
  have hread : ∀ {hex s'}, ReadEffect hex s s' → RefsWritten X (calls ++ [c]) s' := by
    rintro _ _ (rfl | ⟨b, _, _, rfl⟩)
    · exact hold
    · exact hold
  cases c with
  | write w =>
    by_cases hv : (w.object X).Valid X
    · rw [StoreCall.after, WriteCall.run_of_valid hv]
      rcases objectHex_cases (w.object X).objectId with ⟨hex, hhex⟩ | ⟨e, he⟩
      · have heff := (storeObject_effect (X := X) s hhex (w.bytes X)).1
        generalize ((storeObject X (w.object X) (w.bytes X)).run exec s) = r at heff ⊢
        generalize r.1.isOk = ok, r.2 = s' at heff ⊢
        cases heff with
        | conflict => exact hold
        | refused hs => intro name b hb; rw [hs.refs] at hb; exact hold name b hb
        | present hs => intro name b hb; rw [hs.refs] at hb; exact hold name b hb
        | created hs =>
          intro name b hb
          rw [ObjectStore.refs_writeRef, hs.refs] at hb
          split at hb
          · exact ⟨w, by simp, (Option.some.inj hb).symm⟩
          · exact hold name b hb
      · rw [storeObject_run_error s he]
        exact hold
    · obtain ⟨e, he⟩ := WriteCall.run_of_not_valid hv s
      rw [StoreCall.after, he]
      exact hold
  | read id =>
    rcases objectHex_cases id with ⟨hex', hhex'⟩ | ⟨e, he⟩
    · exact hread (readCachedObject_effect s hhex')
    · simp only [StoreCall.after, readCachedObject_run_error s he]
      exact hold
  | verify id =>
    rcases objectHex_cases id with ⟨hex', hhex'⟩ | ⟨e, he⟩
    · exact hread (verifyCachedObject_effect s hhex')
    · simp only [StoreCall.after, verifyCachedObject_run_error s he]
      exact hold
  | deleteCache path => exact hold

theorem runCalls_refsWritten (calls : List StoreCall) :
    RefsWritten X calls (runCalls X .empty calls) := by
  induction calls using List.reverseRecOn with
  | nil => intro name b hb; simp [runCalls, ObjectStore.empty] at hb
  | append_singleton calls c ih =>
    rw [runCalls_concat]
    exact StoreCall.refsWritten ih

/-! ## Immutability -/

/-- A write that succeeds was one of a valid object, and fixes its bytes. -/
theorem WriteCall.kept_of_ok {w : WriteCall} {report : ObjectWriteReport}
    (hok : ((w.prog X).run exec s).1 = .ok report)
    (hblob : ∀ b, s.refBytes (w.object X).objectId = some b →
      X.blobId b = X.blobId (w.bytes X) → b = w.bytes X) :
    report.objectId = (w.object X).objectId ∧ (w.object X).Valid X ∧
      ∃ hex, objectHex report.objectId = .ok hex ∧ report.cachePath = cachePathOf hex ∧
        Kept hex (w.bytes X) ((w.prog X).run exec s).2 := by
  have hv : (w.object X).Valid X := by
    by_contra hv
    obtain ⟨e, he⟩ := WriteCall.run_of_not_valid hv s
    rw [he] at hok
    cases hok
  rw [WriteCall.run_of_valid hv] at hok ⊢
  obtain ⟨m, _, hhex⟩ := objectHex_of_valid hv
  obtain ⟨heff, hid⟩ := storeObject_effect (X := X) s hhex (w.bytes X)
  obtain ⟨hr, hpath⟩ := hid report hok
  rw [hok] at heff
  exact ⟨hr, hv, _, by rw [hr]; exact hhex, hpath,
    kept_of_success heff fun b hb => hblob b (by rw [s.refBytes_eq hhex, hb])⟩

/-- A valid object whose id is not in the store yet is written. -/
theorem WriteCall.ok_of_fresh {w : WriteCall} (hv : (w.object X).Valid X)
    (hc : s.cacheFile (w.object X).objectId = none)
    (hr : s.refBytes (w.object X).objectId = none) :
    ∃ report s', (w.prog X).run exec s = (.ok report, s') := by
  obtain ⟨m, -, hhex⟩ := objectHex_of_valid hv
  rw [s.cacheFile_eq hhex] at hc
  rw [s.refBytes_eq hhex] at hr
  rw [WriteCall.run_of_valid hv, storeObject_run s hhex, writeObjectCacheBytes_run, hc]
  simp only [writeGitObjectRef_run, ObjectStore.refs_writeCache, hr]
  exact ⟨_, _, rfl⟩

theorem cacheFile_empty (objectId : String) : ObjectStore.empty.cacheFile objectId = none := by
  unfold ObjectStore.cacheFile
  split <;> simp [ObjectStore.empty]

theorem refBytes_empty (objectId : String) : ObjectStore.empty.refBytes objectId = none := by
  unfold ObjectStore.refBytes
  split <;> simp [ObjectStore.empty]

/-- After a successful write, whatever is called next, the reads of its id return
    the object written, exactly when no call disturbs it. -/
theorem written_object_stays_iff (hX : ReadsBack X) (before : List StoreCall) (w : WriteCall)
    (report : ObjectWriteReport) (after : List StoreCall)
    (hblob : ∀ v, .write v ∈ before → X.blobId (v.bytes X) = X.blobId (w.bytes X) →
      v.bytes X = w.bytes X)
    (hok : ((w.prog X).run exec (runCalls X .empty before)).1 = .ok report) :
    (∀ calls, calls <+: after → ∀ found,
      ((readCachedObject X report.objectId).run exec
        (runCalls X .empty (before ++ .write w :: calls))).1 = .ok found →
      objectFromSlice X (w.bytes X) = .ok found.object) ↔
    ∀ calls v, calls ++ [.write v] <+: after →
      ¬ Disturbs X report.objectId (runCalls X .empty (before ++ .write w :: calls)) v := by
  obtain ⟨hreport, hv, hex, hhex, -, hkept⟩ := WriteCall.kept_of_ok hok fun b hb he => by
    obtain ⟨v, hvmem, rfl⟩ := runCalls_refsWritten before _ b (ObjectStore.refs_of_refBytes hb)
    exact hblob v hvmem he
  have hinj : ∀ u, (WriteCall.object X u).Valid X →
      objectHex (WriteCall.object X u).objectId = .ok hex →
      (WriteCall.object X u).objectId = report.objectId := fun u hu hh => by
    rw [hreport]
    exact objectId_inj hu hv hh (by rw [← hreport]; exact hhex)
  have hstart : ∀ calls, runCalls X .empty (before ++ .write w :: calls) =
      runCalls X ((w.prog X).run exec (runCalls X .empty before)).2 calls := fun calls => by
    rw [runCalls_append]
    rfl
  have hstep : ∀ calls c, runCalls X .empty (before ++ .write w :: (calls ++ [c])) =
      c.after X (runCalls X .empty (before ++ .write w :: calls)) := fun calls c => by
    rw [hstart, hstart, runCalls_concat]
  -- if no call of `calls` disturbs, the invariant still holds behind them
  have hkeep : ∀ calls, calls <+: after →
      (∀ pre v, pre ++ [.write v] <+: calls →
        ¬ Disturbs X report.objectId (runCalls X .empty (before ++ .write w :: pre)) v) →
      Kept hex (w.bytes X) (runCalls X .empty (before ++ .write w :: calls)) := by
    intro calls
    induction calls using List.reverseRecOn with
    | nil =>
      intro _ _
      rw [hstart]
      exact hkept
    | append_singleton calls c ih =>
      intro hpre hd
      rw [hstep]
      refine StoreCall.kept (ih ((List.prefix_append _ _).trans hpre) fun pre v hp =>
        hd pre v (hp.trans (List.prefix_append _ _))) hhex hinj ?_
      rintro v rfl
      exact hd calls v (List.prefix_refl _)
  constructor
  · intro hread calls
    -- the first disturbing call comes where the invariant still holds
    induction hn : calls.length using Nat.strong_induction_on generalizing calls with
    | _ n ih =>
      intro v hpre hd
      have hk := hkeep calls ((List.prefix_append _ _).trans hpre) fun pre u hp =>
        ih pre.length (by have := hp.length_le; simp at this; omega) pre rfl u
          (hp.trans ((List.prefix_append _ _).trans hpre))
      have hc := hd.after hhex
      rw [← hstep] at hc
      have hfound := hread (calls ++ [.write v]) hpre _ (read_cached_bytes hX hhex hc)
      rw [WriteCall.bytes, objectFromSlice_canonicalObjectBytes hX] at hfound
      obtain ⟨b, hb, hne⟩ := hd.other
      rw [ObjectStore.refBytes_eq _ hhex, hk.ref] at hb
      apply hne
      rw [← Option.some.inj hb]
      exact canonicalObjectBytes_eq_iff.mpr (Except.ok.inj hfound)
  · intro hd calls hpre found hfound
    exact (hkeep calls hpre fun pre v hp => hd pre v (hp.trans hpre)).read hhex hfound

end

/-! ## A run that is disturbed and one that is not -/

/-- An intent without a body, and the same object made a millisecond later. -/
def emptyIntent : WriteCall := .cached "agent.intent" .null

def laterIntent : WriteCall :=
  .canonical { cachedObject .reference "agent.intent" .null with createdAtMs := 1 }

/-- Where the cache file of both lies. -/
def emptyIntentPath : String :=
  cachePathOf (hexEncode (Crates.reference.sha256 (signingMessage .reference "agent.intent"
    defaultSchemaVersion (canonicalJson .null)))).toList

theorem emptyIntent_ok :
    ∃ report s', (emptyIntent.prog .reference).run exec .empty = (.ok report, s') :=
  WriteCall.ok_of_fresh (valid_cachedObject ..) (cacheFile_empty _) (refBytes_empty _)

/-- Their blobs are different. -/
theorem blobId_intents_ne : Crates.reference.blobId (emptyIntent.bytes .reference) ≠
    Crates.reference.blobId (laterIntent.bytes .reference) := by
  rw [WriteCall.bytes, WriteCall.bytes, canonicalObjectBytes, canonicalObjectBytes, canonicalBytes,
    canonicalBytes, toVec_eq, toVec_eq]
  decide +kernel

/-- The removal of its cache file does not change what is read. -/
theorem emptyIntent_stays :
    ∃ report, ((emptyIntent.prog .reference).run exec .empty).1 = .ok report ∧
      ∀ found, ((readCachedObject .reference report.objectId).run exec
          (runCalls .reference .empty [.write emptyIntent, .deleteCache emptyIntentPath])).1 =
          .ok found →
        objectFromSlice .reference (emptyIntent.bytes .reference) = .ok found.object := by
  obtain ⟨report, s', hrun⟩ := emptyIntent_ok
  have hr : ((emptyIntent.prog .reference).run exec .empty).1 = .ok report := by rw [hrun]
  refine ⟨report, hr, fun found hfound => ?_⟩
  refine (written_object_stays_iff readsBack_reference [] emptyIntent report
    [.deleteCache emptyIntentPath] (by simp) hr).mpr ?_ _ (List.prefix_refl _) found hfound
  intro calls v hpre
  have hmem := hpre.subset (List.mem_append_right calls (List.mem_singleton.mpr rfl))
  simp at hmem

/-- Once the cache file is gone, the later object disturbs the first one. -/
theorem laterIntent_disturbs :
    Disturbs .reference (emptyIntent.object .reference).objectId
      (runCalls .reference .empty [.write emptyIntent, .deleteCache emptyIntentPath]) laterIntent ∧
    (runCalls .reference .empty [.write emptyIntent, .deleteCache emptyIntentPath]).refBytes
      (emptyIntent.object .reference).objectId = some (emptyIntent.bytes .reference) := by
  obtain ⟨report, s', hrun⟩ := emptyIntent_ok
  have hr : ((emptyIntent.prog .reference).run exec .empty).1 = .ok report := by rw [hrun]
  obtain ⟨hreport, hv, hex, hhex, -, hkept⟩ := WriteCall.kept_of_ok hr fun b hb => by
    rw [refBytes_empty] at hb
    cases hb
  rw [hreport] at hhex
  have hid : (emptyIntent.object .reference).objectId = hashText .reference
      (signingMessage .reference "agent.intent" defaultSchemaVersion (canonicalJson .null)) :=
    canonicalObjectId_eq ..
  have hpath : cachePathOf hex = emptyIntentPath := by
    rw [hid, objectHex_hashText] at hhex
    rw [← Except.ok.inj hhex]
    rfl
  have href := hkept.ref
  have hs : runCalls .reference .empty [.write emptyIntent, .deleteCache emptyIntentPath] =
      ((emptyIntent.prog .reference).run exec .empty).2.deleteCache emptyIntentPath := by
    rw [runCalls_cons, runCalls_cons, runCalls_nil, after_write, after_deleteCache]
  rw [hs]
  have hb : (((emptyIntent.prog .reference).run exec .empty).2.deleteCache
      emptyIntentPath).refBytes (emptyIntent.object .reference).objectId =
      some (emptyIntent.bytes .reference) := by
    rw [ObjectStore.refBytes_eq _ hhex, ObjectStore.refs_deleteCache, href]
  refine ⟨⟨rfl, ⟨hv.objectId, hv.bodyHash⟩, ?_, _, hb, ?_⟩, hb⟩
  · rw [ObjectStore.cacheFile_eq _ hhex, ObjectStore.cache_deleteCache, if_pos hpath.symm]
  · intro he
    have hcreated := congrArg CanonicalObject.createdAtMs (canonicalObjectBytes_eq_iff.mp he)
    exact absurd hcreated (by decide)

/-- With the cache file gone, the later object is refused by the reference and yet
    read from then on. -/
theorem laterIntent_replaces_emptyIntent :
    ((emptyIntent.prog .reference).run exec .empty).1.isOk = true ∧
      ((laterIntent.prog .reference).run exec (runCalls .reference .empty
        [.write emptyIntent, .deleteCache emptyIntentPath])).1.isOk = false ∧
      ∃ found, ((readCachedObject .reference (emptyIntent.object .reference).objectId).run exec
          (runCalls .reference .empty
            [.write emptyIntent, .deleteCache emptyIntentPath, .write laterIntent])).1 =
          .ok found ∧
        objectFromSlice .reference (emptyIntent.bytes .reference) ≠ .ok found.object := by
  obtain ⟨hd, hb⟩ := laterIntent_disturbs
  have hhex : objectHex (emptyIntent.object .reference).objectId = .ok _ :=
    (congrArg objectHex (canonicalObjectId_eq ..)).trans (objectHex_hashText ..)
  have hc := hd.after hhex
  rw [← runCalls_concat, List.cons_append, List.cons_append, List.nil_append] at hc
  obtain ⟨report, s', hrun⟩ := emptyIntent_ok
  refine ⟨by rw [hrun]; rfl, hd.fails hhex fun b he => ?_, _,
    read_cached_bytes readsBack_reference hhex hc, ?_⟩
  · rw [hb] at he
    rw [← Option.some.inj he]
    exact blobId_intents_ne
  · rw [WriteCall.bytes, objectFromSlice_canonicalObjectBytes readsBack_reference]
    intro he
    have hcreated := congrArg CanonicalObject.createdAtMs (Except.ok.inj he)
    exact absurd hcreated (by decide)

end RickydataGit.Git
