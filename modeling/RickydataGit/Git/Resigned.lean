/-
  Stores that differ in the signatures of their objects.

  `Resigned X s t`: the same names and paths, and under each of them blobs that parse to
  objects with different signature lists at most, or that are refused alike. Where the
  one store has the canonical text of an object under its reference, so has the other.

  Reading, listing and verifying do the same on both, but for signature warnings and
  what is said about signatures (`read_relates`, `list_relates`, `verify_relates`).
-/
import RickydataGit.Lib.Keyed
import RickydataGit.Git.Restored

namespace RickydataGit.Git

open RickydataGit.Lib RickydataGit.Core

/-! ## The relation -/

def SameButSignatures (o o' : CanonicalObject) : Prop :=
  o' = { o with signatures := o'.signatures }

def ResignedBlob (X : Crates) (b b' : Bytes) : Prop :=
  Alike SameButSignatures (readObjectBytes X b) (readObjectBytes X b')

/-- The reference of these digits, if there is one, has the canonical text of the object
    that is read. -/
def RefCanonical (X : Crates) (s : ObjectStore) (hex : List Char) : Prop :=
  ∀ blob bytes o, s.refs[refNameOf hex]? = some blob → content s hex = some bytes →
    readObjectBytes X bytes = .ok o → blob = canonicalObjectBytes X o

structure Resigned (X : Crates) (s t : ObjectStore) : Prop where
  refs : ∀ name : String, Option.Rel (ResignedBlob X) s.refs[name]? t.refs[name]?
  cache : ∀ path : String, Option.Rel (ResignedBlob X) s.cache[path]? t.cache[path]?
  canonical : ∀ hex, hex.length = 64 → (RefCanonical X s hex ↔ RefCanonical X t hex)

variable {X : Crates} {s s' t t' : ObjectStore} {hex : List Char} {objectId : String}
  {o o' : CanonicalObject}

theorem RefCanonical.same (h : RefCanonical X s hex) (hs : SameContent s s')
    (hl : hex.length = 64) : RefCanonical X s' hex := by
  intro blob bytes o href hcontent hparsed
  rw [hs.refs] at href
  rw [hs.held hex hl] at hcontent
  exact h blob bytes o href hcontent hparsed

theorem refCanonical_same_iff (hs : SameContent s s') (hl : hex.length = 64) :
    RefCanonical X s' hex ↔ RefCanonical X s hex :=
  ⟨fun h => h.same hs.symm hl, fun h => h.same hs hl⟩

/-- Both stores get the cache file back. -/
theorem Resigned.fill (h : Resigned X s t) {b b' : Bytes} (hl : hex.length = 64)
    (hs : s.cache[cachePathOf hex]? = none) (ht : t.cache[cachePathOf hex]? = none)
    (hsr : s.refs[refNameOf hex]? = some b) (htr : t.refs[refNameOf hex]? = some b')
    (hb : ResignedBlob X b b') :
    Resigned X (s.writeCache (cachePathOf hex) b) (t.writeCache (cachePathOf hex) b') where
  refs := h.refs
  cache path := by
    rw [ObjectStore.cache_writeCache, ObjectStore.cache_writeCache]
    split
    · exact .some hb
    · exact h.cache path
  canonical hex' hl' := by
    rw [refCanonical_same_iff (.of_readEffect (.inr ⟨b, hs, hsr, rfl⟩) hl) hl',
      refCanonical_same_iff (.of_readEffect (.inr ⟨b', ht, htr, rfl⟩) hl) hl']
    exact h.canonical hex' hl'

/-- The fields are checked without the signatures. -/
theorem SameButSignatures.fields (h : SameButSignatures o o') (objectId : String) :
    objectFieldDiagnostics X objectId o' = objectFieldDiagnostics X objectId o := by
  rw [h]
  rfl

/-! ## Reading -/

theorem readFromCacheOrRef_relates (hhex : objectHex objectId = .ok hex) :
    Prog.Relates exec (Resigned X)
      (fun r r' => r'.1 = r.1 ∧ SameButSignatures r.2 r'.2)
      (readObjectFromCacheOrRef X (cachePathOf hex) objectId)
      (readObjectFromCacheOrRef X (cachePathOf hex) objectId) := by
  intro s t h
  rcases optionRel_cases (h.cache (cachePathOf hex)) with ⟨hs, ht⟩ | ⟨b, b', hs, ht, hb⟩
  · rcases optionRel_cases (h.refs (refNameOf hex)) with ⟨hsr, htr⟩ | ⟨b, b', hsr, htr, hb⟩
    · rw [read_run_of_missing s hhex hs hsr, read_run_of_missing t hhex ht htr]
      exact ⟨.error _, h⟩
    · rw [read_run_of_ref s hhex hs hsr, read_run_of_ref t hhex ht htr]
      have hfill := h.fill (objectHex_length hhex) hs ht hsr htr hb
      unfold ResignedBlob at hb
      generalize readObjectBytes X b = x at hb ⊢
      generalize readObjectBytes X b' = x' at hb ⊢
      cases hb with
      | error e => exact ⟨.error e, h⟩
      | ok ho =>
        simp only [ho.fields]
        split
        · exact ⟨.ok ⟨rfl, ho⟩, hfill⟩
        · exact ⟨.error _, h⟩
  · rw [read_run_of_cache s hs, read_run_of_cache t ht]
    unfold ResignedBlob at hb
    generalize readObjectBytes X b = x at hb ⊢
    generalize readObjectBytes X b' = x' at hb ⊢
    cases hb with
    | error e => exact ⟨.error e, h⟩
    | ok ho => exact ⟨.ok ⟨rfl, ho⟩, h⟩

theorem read_relates (X : Crates) (objectId : String) :
    Prog.Relates exec (Resigned X) (fun r r' => SameButSignatures r.object r'.object)
      (readCachedObject X objectId) (readCachedObject X objectId) := by
  intro s t h
  rcases hhex : objectHex objectId with e | hex
  · rw [readCachedObject_run_error s hhex, readCachedObject_run_error t hhex]
    exact ⟨.error e, h⟩
  · have hread := readFromCacheOrRef_relates (X := X) hhex s t h
    rw [readCachedObject_run s hhex, readCachedObject_run t hhex]
    generalize (readObjectFromCacheOrRef X (cachePathOf hex) objectId).run exec s = r at hread ⊢
    generalize (readObjectFromCacheOrRef X (cachePathOf hex) objectId).run exec t = r' at hread ⊢
    obtain ⟨r, s'⟩ := r
    obtain ⟨r', t'⟩ := r'
    obtain ⟨hr, hst⟩ := hread
    cases hr with
    | error e => exact ⟨.error e, hst⟩
    | ok ho => exact ⟨.ok ho.2, hst⟩

/-! ## Verifying -/

/-- The findings without the signature warnings. -/
def hardFindings (diagnostics : List ObjectDiagnostic) : List ObjectDiagnostic :=
  diagnostics.filter fun d => !isSignatureWarning d.code

/-- Reports that differ in what they say about signatures only. -/
structure SameHard (r r' : ObjectVerifyReport) : Prop where
  source : r'.source = r.source
  valid : r'.valid = r.valid
  hard : hardFindings r'.diagnostics = hardFindings r.diagnostics

theorem hardFindings_verifyObjectFields (path : String) (source : ObjectReadSource)
    (ds : List ObjectDiagnostic) :
    hardFindings (verifyObjectFields X objectId path source o ds).diagnostics =
      hardFindings (ds ++ (objectFieldDiagnostics X objectId o).1) := by
  obtain ⟨ws, hws, he⟩ := verifyObjectFields_diagnostics (X := X) objectId path source o ds
  have hnone : hardFindings ws = [] := List.filter_eq_nil_iff.mpr fun d hd => by simp [hws d hd]
  rw [he, hardFindings, List.filter_append]
  unfold hardFindings at hnone
  rw [hnone, List.append_nil]
  rfl

theorem SameButSignatures.verifyObjectFields (h : SameButSignatures o o') (path : String)
    (source : ObjectReadSource) (ds : List ObjectDiagnostic) :
    SameHard (verifyObjectFields X objectId path source o ds)
      (verifyObjectFields X objectId path source o' ds) where
  source := rfl
  valid := by
    rw [Bool.eq_iff_iff, valid_verifyObjectFields_iff, valid_verifyObjectFields_iff, h.fields]
  hard := by
    rw [hardFindings_verifyObjectFields, hardFindings_verifyObjectFields, h.fields]

/-- The comparison of the reference beside a cache file. -/
theorem refConsistency_relates (h : Resigned X s t) (hhex : objectHex objectId = .ok hex)
    {b b' : Bytes} (hs : s.cache[cachePathOf hex]? = some b) (ht : t.cache[cachePathOf hex]? = some b')
    (ho : readObjectBytes X b = .ok o) (ho' : readObjectBytes X b' = .ok o') :
    ((refConsistencyDiagnostics X objectId o').run exec t).1 =
      ((refConsistencyDiagnostics X objectId o).run exec s).1 := by
  have hcontent : ∀ {u : ObjectStore} {c : Bytes}, u.cache[cachePathOf hex]? = some c →
      content u hex = some c := fun hu => by rw [content, hu, Option.some_or]
  -- what is read and the reference decide it
  have hiff : ∀ {u : ObjectStore} {c blob : Bytes} {p : CanonicalObject},
      u.cache[cachePathOf hex]? = some c → readObjectBytes X c = .ok p →
      u.refs[refNameOf hex]? = some blob →
      (RefCanonical X u hex ↔ blob = canonicalObjectBytes X p) := by
    intro u c blob p hu hp hblob
    constructor
    · exact fun hc => hc blob c p hblob (hcontent hu) hp
    · rintro hc blob' bytes p' hblob' hbytes hp'
      obtain rfl := Option.some.inj (hblob.symm.trans hblob')
      obtain rfl := Option.some.inj ((hcontent hu).symm.trans hbytes)
      rw [← Except.ok.inj (hp.symm.trans hp')]
      exact hc
  rw [refConsistencyDiagnostics_run s hhex, refConsistencyDiagnostics_run t hhex]
  rcases optionRel_cases (h.refs (refNameOf hex)) with ⟨hsr, htr⟩ | ⟨blob, blob', hsr, htr, -⟩
  · rw [hsr, htr]
  · rw [hsr, htr]
    have hcanonical := h.canonical hex (objectHex_length hhex)
    rw [hiff hs ho hsr, hiff ht ho' htr] at hcanonical
    simp only [ne_eq, hcanonical]

theorem verify_relates (X : Crates) (objectId : String) :
    Prog.Relates exec (Resigned X) SameHard (verifyCachedObject X objectId)
      (verifyCachedObject X objectId) := by
  have hrefl : ∀ r, SameHard r r := fun r => ⟨rfl, rfl, rfl⟩
  intro s t h
  rcases hhex : objectHex objectId with e | hex
  · rw [verifyCachedObject_run_error s hhex, verifyCachedObject_run_error t hhex]
    exact ⟨.error e, h⟩
  rcases optionRel_cases (h.cache (cachePathOf hex)) with ⟨hs, ht⟩ | ⟨b, b', hs, ht, hb⟩
  · have hread := readFromCacheOrRef_relates (X := X) hhex s t h
    rw [verify_run_of_no_cache s hhex hs, verify_run_of_no_cache t hhex ht]
    generalize (readObjectFromCacheOrRef X (cachePathOf hex) objectId).run exec s = r at hread ⊢
    generalize (readObjectFromCacheOrRef X (cachePathOf hex) objectId).run exec t = r' at hread ⊢
    obtain ⟨r, s'⟩ := r
    obtain ⟨r', t'⟩ := r'
    obtain ⟨hr, hst⟩ := hread
    cases hr with
    | error e => cases e <;> exact ⟨.ok (hrefl _), hst⟩
    | @ok a a' ho =>
      obtain ⟨source, object⟩ := a
      obtain ⟨source', object'⟩ := a'
      obtain ⟨rfl, ho⟩ := ho
      exact ⟨.ok (ho.verifyObjectFields ..), hst⟩
  · rw [verify_run_of_cache s hhex hs, verify_run_of_cache t hhex ht]
    unfold ResignedBlob at hb
    rcases hread : readObjectBytes X b with e | object
    · rw [hread] at hb
      rcases hread' : readObjectBytes X b' with e' | object'
      · rw [hread'] at hb
        cases hb
        exact ⟨.ok (hrefl _), h⟩
      · rw [hread'] at hb
        cases hb
    · rw [hread] at hb
      rcases hread' : readObjectBytes X b' with e' | object'
      · rw [hread'] at hb
        cases hb
      · rw [hread'] at hb
        cases hb with
        | ok ho =>
          have hrefs := refConsistency_relates h hhex hs ht hread hread'
          simp only [refConsistencyDiagnostics_run s hhex,
            refConsistencyDiagnostics_run t hhex] at hrefs ⊢
          rw [Except.ok.inj hrefs]
          exact ⟨.ok (ho.verifyObjectFields ..), h⟩

/-! ## Objects that pass -/

theorem SameButSignatures.symm (h : SameButSignatures o o') : SameButSignatures o' o := by
  rw [SameButSignatures, h]

theorem Resigned.symm (h : Resigned X s t) : Resigned X t s where
  refs name := by
    rcases optionRel_cases (h.refs name) with ⟨hs, ht⟩ | ⟨b, b', hs, ht, hb⟩
    · rw [hs, ht]
      exact .none
    · rw [hs, ht]
      exact .some (hb.flip fun _ _ => SameButSignatures.symm)
  cache path := by
    rcases optionRel_cases (h.cache path) with ⟨hs, ht⟩ | ⟨b, b', hs, ht, hb⟩
    · rw [hs, ht]
      exact .none
    · rw [hs, ht]
      exact .some (hb.flip fun _ _ => SameButSignatures.symm)
  canonical hex hl := (h.canonical hex hl).symm

theorem Resigned.content (h : Resigned X s t) (hex : List Char) :
    Option.Rel (ResignedBlob X) (content s hex) (content t hex) := by
  rw [Git.content, Git.content]
  rcases optionRel_cases (h.cache (cachePathOf hex)) with ⟨hs, ht⟩ | ⟨b, b', hs, ht, hb⟩
  · rw [hs, ht, Option.none_or, Option.none_or]
    exact h.refs _
  · rw [hs, ht, Option.some_or, Option.some_or]
    exact .some hb

/-- An object passes on both stores, if it does on one. -/
theorem Resigned.passing (h : Resigned X s t) {bytes : Bytes}
    (hp : Passing X s objectId hex bytes o) :
    ∃ bytes' o', Passing X t objectId hex bytes' o' ∧ SameButSignatures o o' := by
  rcases optionRel_cases (h.content hex) with ⟨hs, -⟩ | ⟨b, bytes', hs, ht, hb⟩
  · cases hs.symm.trans hp.found
  obtain rfl := Option.some.inj (hs.symm.trans hp.found)
  have hparsed := hp.parsed
  unfold ResignedBlob at hb
  rw [hparsed] at hb
  rcases ho' : readObjectBytes X bytes' with e | o'
  · rw [ho'] at hb
    cases hb
  rw [ho'] at hb
  cases hb with
  | ok ho =>
    refine ⟨bytes', o', ⟨hp.spelled, ht, ho', by rw [ho.fields, hp.fields], ?_⟩, ho⟩
    intro blob' hcache href
    -- the other store compares its own reference with its own cache file
    have hcanonical : RefCanonical X s hex := by
      intro blob bytes₁ o₁ hblob hbytes₁ ho₁
      obtain rfl := Option.some.inj (hs.symm.trans hbytes₁)
      obtain rfl := Except.ok.inj (hparsed.symm.trans ho₁)
      refine hp.compared blob ?_ hblob
      rcases optionRel_cases (h.cache (cachePathOf hex)) with ⟨-, hnone⟩ | ⟨c, c', hc, -, -⟩
      · rw [hnone] at hcache
        cases hcache
      · rw [hc]
        rfl
    exact (h.canonical hex (objectHex_length hp.spelled)).mp hcanonical blob' bytes' o' href ht ho'

/-! ## Listing -/

/-- An entry without the id of its blob. -/
def ObjectListEntry.withoutBlob (entry : ObjectListEntry) : ObjectListEntry :=
  { entry with gitObjectId := "" }

/-- The references of both stores, in one order. -/
theorem Resigned.objectRefs (h : Resigned X s t) :
    List.Forall₂ (fun r r' => r'.1 = r.1 ∧ ResignedBlob X r.2 r'.2) (objectRefs s)
      (objectRefs t) := by
  have hall := forall₂_toList h.refs
  refine List.rel_filter ?_ hall
  rintro r r' ⟨hname, -⟩
  simp only [hname]

theorem listEntries_alike {refs refs' : List (String × Bytes)} (kind : Option String)
    (h : List.Forall₂ (fun r r' => r'.1 = r.1 ∧ ResignedBlob X r.2 r'.2) refs refs') :
    Alike (fun es es' => es'.map ObjectListEntry.withoutBlob = es.map ObjectListEntry.withoutBlob)
      (listEntries X kind refs) (listEntries X kind refs') := by
  induction h with
  | nil => exact .ok rfl
  | @cons r r' rest rest' hr _ ih =>
    obtain ⟨refName, bytes⟩ := r
    obtain ⟨refName', bytes'⟩ := r'
    obtain ⟨rfl, hb⟩ := hr
    unfold ResignedBlob at hb
    unfold listEntries
    generalize readObjectBytes X bytes = x at hb ⊢
    generalize readObjectBytes X bytes' = x' at hb ⊢
    generalize listEntries X kind rest = es at ih ⊢
    generalize listEntries X kind rest' = es' at ih ⊢
    cases hb with
    | error e => exact .error e
    | @ok o o' ho =>
      cases ih with
      | error e => exact .error e
      | ok hes =>
        have hkind : o'.kind = o.kind := by rw [ho]
        have hid : o'.objectId = o.objectId := by rw [ho]
        have hhash : o'.bodyHash = o.bodyHash := by rw [ho]
        simp only [bind, Except.bind, hkind, hid, hhash]
        split
        · exact .ok hes
        · exact .ok (by simp [ObjectListEntry.withoutBlob, hes])

theorem list_relates (X : Crates) (kind : Option String) :
    Prog.Relates exec (Resigned X)
      (fun es es' => es'.map ObjectListEntry.withoutBlob = es.map ObjectListEntry.withoutBlob)
      (listRefBackedObjects X kind) (listRefBackedObjects X kind) := by
  intro s t h
  have hentries := listEntries_alike kind h.objectRefs
  rw [listRefBackedObjects_run, listRefBackedObjects_run]
  generalize listEntries X kind (Git.objectRefs s) = es at hentries ⊢
  generalize listEntries X kind (Git.objectRefs t) = es' at hentries ⊢
  cases hentries with
  | error e => exact ⟨.error e, h⟩
  | ok hes =>
    refine ⟨.ok ?_, h⟩
    have hsort : ∀ es : List ObjectListEntry,
        (es.mergeSort fun left right => decide (left.objectId ≤ right.objectId)).map
            ObjectListEntry.withoutBlob =
          (es.map ObjectListEntry.withoutBlob).mergeSort
            fun left right => decide (left.objectId ≤ right.objectId) := fun es =>
      List.map_mergeSort fun _ _ _ _ => rfl
    rw [hsort, hsort, hes]

end RickydataGit.Git
