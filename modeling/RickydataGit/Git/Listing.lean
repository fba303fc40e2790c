/-
  `list_ref_backed_objects`: the objects that the references point to.

  Every blob under the object references is parsed, whatever the name of its
  reference; one that does not parse makes the listing fail. The entry carries the
  id that stands in the object.

  `RefsOf X os s` is the usual case: the references are those of the valid objects `os`
  and the cache files agree with them. There the listing is that of `os`
  (`RefsOf.list`), reads keep it (`RefsOf.read`) and writes of new objects extend it
  (`RefsOf.create`).
-/
import RickydataGit.Git.RoundTrip

namespace RickydataGit.Git

open RickydataGit.Lib RickydataGit.Core

structure ObjectListEntry where
  objectId : String
  kind : String
  bodyHash : String
  refName : String
  gitObjectId : String
  deriving DecidableEq

def objectRefPrefix : String := "refs/rickydata/objects/sha256/"

def listReferences (namePrefix : String) : Store (List (String × Bytes)) :=
  .op (.listReferences namePrefix) .ret

section

variable (X : Crates)

/-- The loop over the references, with the objects of other kinds left out. -/
def listEntries (kind : Option String) :
    List (String × Bytes) → Except GitInspectError (List ObjectListEntry)
  | [] => return []
  | (refName, bytes) :: rest => do
    let object ← readObjectBytes X bytes
    let entries ← listEntries kind rest
    if kind.any fun expected => decide (object.kind ≠ expected) then return entries
    else
      let entry : ObjectListEntry := {
        objectId := object.objectId, kind := object.kind, bodyHash := object.bodyHash, refName
        gitObjectId := X.blobId bytes }
      return entry :: entries

def listRefBackedObjects (kind : Option String) : Store (List ObjectListEntry) := do
  let references ← listReferences objectRefPrefix
  let entries ← listEntries X kind references
  return entries.mergeSort fun left right => decide (left.objectId ≤ right.objectId)

end

/-- The references that are listed. -/
def objectRefs (s : ObjectStore) : List (String × Bytes) :=
  s.refs.toList.filter fun r => objectRefPrefix.toList.isPrefixOf r.1.toList

/-- A listing changes nothing. -/
theorem listRefBackedObjects_run (X : Crates) (kind : Option String) (s : ObjectStore) :
    (listRefBackedObjects X kind).run exec s =
      ((listEntries X kind (objectRefs s)).map fun entries =>
        entries.mergeSort fun left right => decide (left.objectId ≤ right.objectId), s) := by
  have hr : (listReferences objectRefPrefix).run exec s = (.ok (objectRefs s), s) := rfl
  rw [listRefBackedObjects, Prog.run_bind_ok exec hr]
  rcases listEntries X kind (objectRefs s) with e | entries
  · rfl
  · rfl

theorem mem_objectRefs {s : ObjectStore} {r : String × Bytes} :
    r ∈ objectRefs s ↔ s.refs[r.1]? = some r.2 ∧ objectRefPrefix.toList <+: r.1.toList := by
  rw [objectRefs, List.mem_filter, List.isPrefixOf_iff_prefix,
    Std.ExtTreeMap.mem_toList_iff_getElem?_eq_some]

/-- The entry of an object under a reference. -/
def objectEntry (X : Crates) (r : String × Bytes) (object : CanonicalObject) : ObjectListEntry where
  objectId := object.objectId
  kind := object.kind
  bodyHash := object.bodyHash
  refName := r.1
  gitObjectId := X.blobId r.2

/-- Every listing is a part of the listing of all kinds, and names references. -/
theorem listEntries_mem {X : Crates} {kind : Option String} {refs : List (String × Bytes)}
    {entries : List ObjectListEntry} (h : listEntries X kind refs = .ok entries) :
    ∃ all, listEntries X none refs = .ok all ∧ entries ⊆ all ∧
      ∀ entry ∈ all, ∃ r ∈ refs, entry.refName = r.1 := by
  induction refs generalizing entries with
  | nil => exact ⟨[], rfl, by rw [← Except.ok.inj h]; simp, by simp⟩
  | cons r rest ih =>
    unfold listEntries at h ⊢
    rcases hobject : readObjectBytes X r.2 with e | object
    · rw [hobject] at h
      cases h
    rcases hrest : listEntries X kind rest with e | restEntries
    · rw [hobject, hrest] at h
      cases h
    obtain ⟨all, hall, hsub, hrefs⟩ := ih hrest
    rw [hobject, hrest] at h
    rw [hall]
    refine ⟨objectEntry X r object :: all, rfl, ?_, List.forall_mem_cons.mpr
      ⟨⟨r, List.mem_cons_self, rfl⟩, fun entry he => ?_⟩⟩
    · simp only [bind, Except.bind] at h
      split at h
      · obtain rfl := Except.ok.inj h
        exact List.subset_cons_of_subset _ hsub
      · obtain rfl := Except.ok.inj h
        exact List.cons_subset_cons _ hsub
    · obtain ⟨r', hr', hname⟩ := hrefs entry he
      exact ⟨r', List.mem_cons_of_mem _ hr', hname⟩

/-- What is listed of a kind is listed of all kinds. -/
theorem listRefBackedObjects_subset {X : Crates} {kind : Option String} {s : ObjectStore}
    {entries : List ObjectListEntry}
    (h : ((listRefBackedObjects X kind).run exec s).1 = .ok entries) :
    ∃ all, ((listRefBackedObjects X none).run exec s).1 = .ok all ∧ entries ⊆ all := by
  rw [listRefBackedObjects_run] at h
  rcases hl : listEntries X kind (objectRefs s) with e | found
  · rw [hl] at h
    cases h
  · rw [hl] at h
    obtain rfl := Except.ok.inj h
    obtain ⟨all, hall, hsub, -⟩ := listEntries_mem hl
    refine ⟨_, by rw [listRefBackedObjects_run, hall]; rfl, fun entry he => ?_⟩
    exact List.mem_mergeSort.mpr (hsub (List.mem_mergeSort.mp he))

/-- An entry is that of a reference. -/
theorem refs_of_listed {X : Crates} {kind : Option String} {s : ObjectStore}
    {entries : List ObjectListEntry}
    (h : ((listRefBackedObjects X kind).run exec s).1 = .ok entries) {entry : ObjectListEntry}
    (he : entry ∈ entries) : (s.refs[entry.refName]?).isSome := by
  rw [listRefBackedObjects_run] at h
  rcases hl : listEntries X kind (objectRefs s) with e | found
  · rw [hl] at h
    cases h
  · rw [hl] at h
    obtain rfl := Except.ok.inj h
    obtain ⟨all, -, hsub, hrefs⟩ := listEntries_mem hl
    obtain ⟨r, hr, hname⟩ := hrefs entry (hsub (List.mem_mergeSort.mp he))
    rw [hname, (mem_objectRefs.mp hr).1]
    rfl

/-! ## Stores of valid objects -/

section RefsOf

variable {X : Crates} {os : List CanonicalObject} {s s' : ObjectStore}

/-- Under the object references are these objects, and nothing else. -/
structure RefsOf (X : Crates) (os : List CanonicalObject) (s : ObjectStore) : Prop where
  stored : ∀ o ∈ os, Stored X o s
  listed : ∀ r ∈ objectRefs s, ∃ o ∈ os, ∃ hex, objectHex o.objectId = .ok hex ∧
    r.1 = refNameOf hex ∧ r.2 = canonicalObjectBytes X o

theorem toList_refNameOf (hex : List Char) :
    (refNameOf hex).toList = objectRefPrefix.toList ++ (sharded hex).toList := by
  unfold refNameOf
  exact String.toList_append

theorem mem_objectRefs_refNameOf {hex : List Char} {bytes : Bytes} :
    (refNameOf hex, bytes) ∈ objectRefs s ↔ s.refs[refNameOf hex]? = some bytes := by
  rw [mem_objectRefs, toList_refNameOf]
  exact and_iff_left (List.prefix_append _ _)

theorem refsOf_nil (h : s.refs = ∅) : RefsOf X [] s where
  stored := by simp
  listed r hr := by
    have hnone : s.refs[r.1]? = none := by simp [h]
    have hsome := (mem_objectRefs.mp hr).1
    rw [hnone] at hsome
    cases hsome

/-- Reads put cache files back, and leave everything as it is otherwise. -/
theorem RefsOf.of_readEffect {hex : List Char} (h : RefsOf X os s) (he : ReadEffect hex s s')
    (hl : hex.length = 64) : RefsOf X os s' where
  stored o ho := by
    refine ⟨(h.stored o ho).valid, fun hex' hhex' => ?_⟩
    exact ReadEffect.kept ((h.stored o ho).kept hex' hhex') he (hl.trans (objectHex_length hhex').symm)
  listed := by
    have hrefs : objectRefs s' = objectRefs s := by
      rcases he with rfl | ⟨b, -, -, rfl⟩
      · rfl
      · rfl
    rw [hrefs]
    exact h.listed

/-- Each of the objects is read back, whether it is cached or not. -/
theorem RefsOf.read (hX : ReadsBack X) (h : RefsOf X os s) {o : CanonicalObject} (ho : o ∈ os) :
    ∃ found s', (readCachedObject X o.objectId).run exec s = (.ok found, s') ∧
      found.object = o.canonical ∧ RefsOf X os s' := by
  obtain ⟨found, hread, -, hfound⟩ := ((h.stored o ho).agrees hX).read
  obtain ⟨m, -, hhex⟩ := objectHex_of_valid (h.stored o ho).valid
  have heffect := readCachedObject_effect (X := X) s hhex
  exact ⟨found, _, Prod.ext hread rfl, hfound, h.of_readEffect heffect (objectHex_length hhex)⟩

/-- The kind is the one asked for, if one is. -/
def KindFits (kind : Option String) (object : CanonicalObject) : Prop :=
  ∀ expected, kind = some expected → object.kind = expected

/-- An entry has nothing of the body. -/
theorem objectEntry_canonical (r : String × Bytes) (o : CanonicalObject) :
    objectEntry X r o.canonical = objectEntry X r o := by
  simp only [objectEntry, CanonicalObject.canonical]

/-- References that all parse are listed, those of the kind. -/
theorem listEntries_ok (kind : Option String) {refs : List (String × Bytes)}
    (h : ∀ r ∈ refs, ∃ object, readObjectBytes X r.2 = .ok object) :
    ∃ entries, listEntries X kind refs = .ok entries ∧ ∀ entry, entry ∈ entries ↔
      ∃ r ∈ refs, ∃ object, readObjectBytes X r.2 = .ok object ∧ KindFits kind object ∧
        entry = objectEntry X r object := by
  induction refs with
  | nil => exact ⟨[], rfl, by simp⟩
  | cons r rest ih =>
    obtain ⟨⟨object, hobject⟩, hrest⟩ := List.forall_mem_cons.mp h
    obtain ⟨entries, hentries, hmem⟩ := ih hrest
    have hfits : (kind.any fun expected => decide (object.kind ≠ expected)) = false ↔
        KindFits kind object := by
      rcases kind with _ | expected
      · simp [KindFits]
      · simp [KindFits]
    have hunique : ∀ object', readObjectBytes X r.2 = .ok object' ↔ object' = object := by
      intro object'
      rw [hobject, Except.ok.injEq, eq_comm]
    unfold listEntries
    rw [hobject, hentries]
    by_cases hk : KindFits kind object
    · refine ⟨objectEntry X r object :: entries, ?_, fun entry => ?_⟩
      · simp only [bind, Except.bind, hfits.mpr hk]
        rfl
      · rw [List.mem_cons, hmem, List.exists_mem_cons_iff]
        simp only [hunique, exists_eq_left, hk, true_and]
    · refine ⟨entries, ?_, fun entry => ?_⟩
      · simp only [bind, Except.bind, (Bool.not_eq_false _).mp (mt hfits.mp hk)]
        rfl
      · rw [hmem, List.exists_mem_cons_iff]
        simp only [hunique, exists_eq_left, hk, false_and, false_or]

/-- The listing of such a store: its objects of the kind. -/
theorem RefsOf.list (hX : ReadsBack X) (h : RefsOf X os s) (kind : Option String) :
    ∃ entries, (listRefBackedObjects X kind).run exec s = (.ok entries, s) ∧
      ∀ entry, entry ∈ entries ↔ ∃ o ∈ os, ∃ hex, objectHex o.objectId = .ok hex ∧
        KindFits kind o ∧ entry = objectEntry X (refNameOf hex, canonicalObjectBytes X o) o := by
  have hparse := readObjectBytes_canonicalObjectBytes hX
  obtain ⟨entries, hentries, hmem⟩ := listEntries_ok (X := X) kind fun r hr => by
    obtain ⟨o, -, hex, -, -, hbytes⟩ := h.listed r hr
    exact ⟨o.canonical, by rw [hbytes, hparse]⟩
  refine ⟨_, by rw [listRefBackedObjects_run, hentries]; rfl, fun entry => ?_⟩
  rw [List.mem_mergeSort, hmem]
  constructor
  · rintro ⟨r, hr, object, hobject, hk, rfl⟩
    obtain ⟨o, ho, hex, hhex, hname, hbytes⟩ := h.listed r hr
    rw [hbytes, hparse, Except.ok.injEq] at hobject
    subst hobject
    refine ⟨o, ho, hex, hhex, hk, ?_⟩
    rw [← hname, ← hbytes, objectEntry_canonical]
  · rintro ⟨o, ho, hex, hhex, hk, rfl⟩
    have href := ((h.stored o ho).kept hex hhex).ref
    have hmemr : (refNameOf hex, canonicalObjectBytes X o) ∈ objectRefs s :=
      mem_objectRefs_refNameOf.mpr href
    refine ⟨_, hmemr, o.canonical, ?_, ?_, (objectEntry_canonical _ o).symm⟩
    · dsimp only
      exact hparse o
    · exact hk

/-- A new object that is written is among them. -/
theorem RefsOf.create (h : RefsOf X os s) {o : CanonicalObject} (hv : o.Valid X) {hex : List Char}
    (hhex : objectHex o.objectId = .ok hex) (hc : s.cache[cachePathOf hex]? = none)
    (hr : s.refs[refNameOf hex]? = none) :
    ∃ report s', (storeObject X o (canonicalObjectBytes X o)).run exec s = (.ok report, s') ∧
      s'.refs = s.refs.insert (refNameOf hex) (canonicalObjectBytes X o) ∧
      s'.cache = s.cache.insert (cachePathOf hex) (canonicalObjectBytes X o) ∧
      RefsOf X (o :: os) s' := by
  have hrun : ∃ report, (storeObject X o (canonicalObjectBytes X o)).run exec s = (.ok report,
      (s.writeCache (cachePathOf hex) (canonicalObjectBytes X o)).writeRef (refNameOf hex)
        (canonicalObjectBytes X o)) := by
    rw [storeObject_run s hhex, writeObjectCacheBytes_run, hc]
    simp only [writeGitObjectRef_run, ObjectStore.refs_writeCache, hr]
    exact ⟨_, rfl⟩
  obtain ⟨report, hrun⟩ := hrun
  refine ⟨report, _, hrun, rfl, rfl, ⟨List.forall_mem_cons.mpr ⟨⟨hv, ?_⟩, fun o' ho' => ?_⟩, ?_⟩⟩
  · intro hex' hhex'
    obtain rfl := Except.ok.inj (hhex.symm.trans hhex')
    exact ⟨by simp, fun b hb => by simpa using hb.symm⟩
  · refine ⟨(h.stored o' ho').valid, fun hex' hhex' => ?_⟩
    have hk := (h.stored o' ho').kept hex' hhex'
    have hne : hex ≠ hex' := by
      rintro rfl
      rw [hk.ref] at hr
      cases hr
    have hl : hex.length = hex'.length := (objectHex_length hhex).trans (objectHex_length hhex').symm
    refine ⟨?_, fun b hb => hk.cache b ?_⟩
    · rw [ObjectStore.refs_writeRef, if_neg fun he => hne (refNameOf_inj hl he)]
      exact hk.ref
    · rw [ObjectStore.cache_writeRef, ObjectStore.cache_writeCache,
        if_neg fun he => hne (cachePathOf_inj hl he)] at hb
      exact hb
  · intro r hr'
    obtain ⟨hsome, hpre⟩ := mem_objectRefs.mp hr'
    rw [ObjectStore.refs_writeRef] at hsome
    split at hsome
    · next he =>
        exact ⟨o, List.mem_cons_self, hex, hhex, he.symm, (Option.some.inj hsome).symm⟩
    · obtain ⟨o', ho', hrest⟩ := h.listed r (mem_objectRefs.mpr ⟨hsome, hpre⟩)
      exact ⟨o', List.mem_cons_of_mem _ ho', hrest⟩

/-- The store after a write of a new object. -/
theorem RefsOf.after_write (h : RefsOf X os s) {w : WriteCall} (hv : (w.object X).Valid X)
    {hex : List Char} (hhex : objectHex (w.object X).objectId = .ok hex)
    (hc : s.cache[cachePathOf hex]? = none) (hr : s.refs[refNameOf hex]? = none) :
    RefsOf X (w.object X :: os) ((StoreCall.write w).after X s) ∧
      ((StoreCall.write w).after X s).refs = s.refs.insert (refNameOf hex) (w.bytes X) ∧
      ((StoreCall.write w).after X s).cache = s.cache.insert (cachePathOf hex) (w.bytes X) := by
  obtain ⟨report, s', hrun, hrefs, hcache, h'⟩ := h.create hv hhex hc hr
  have hafter : (StoreCall.write w).after X s = s' := by
    rw [Git.after_write, WriteCall.run_of_valid hv]
    exact congrArg Prod.snd hrun
  rw [hafter]
  exact ⟨h', hrefs, hcache⟩

end RefsOf

end RickydataGit.Git
