/-
  What a store has of an object, cached or not.

  The `content` of an id is its cache file or, without one, the referenced blob.
  Reading and verifying may put cache files back and so never change the content of
  anything (`SameContent`, `Keeps`).

  * `Sound`: the content is an object that passes the field checks under the id.
    Every read returns this object (`Sound.read`), whatever was read before.
  * `sound_of_verify`: a report without findings, signature warnings aside, is about a
    sound object, and a reference to it, if there is one, holds the same object.
  * `Sound.withoutCache`: with a reference the object survives the loss of the
    whole cache, up to the canonical form of its body.
-/
import RickydataGit.Git.Listing

namespace RickydataGit.Git

open RickydataGit.Lib RickydataGit.Core

variable {X : Crates} {s s' t : ObjectStore} {objectId : String} {o : CanonicalObject}

/-! ## Content -/

/-- The bytes a read of these digits starts from. -/
def content (s : ObjectStore) (hex : List Char) : Option Bytes :=
  s.cache[cachePathOf hex]?.or s.refs[refNameOf hex]?

/-- The stores differ in what is cached of the references, if at all. -/
structure SameContent (s s' : ObjectStore) : Prop where
  refs : s'.refs = s.refs
  held : ∀ hex, hex.length = 64 → content s' hex = content s hex

theorem SameContent.refl (s : ObjectStore) : SameContent s s := ⟨rfl, fun _ _ => rfl⟩

theorem SameContent.trans (h : SameContent s s') (h' : SameContent s' t) : SameContent s t :=
  ⟨h'.refs.trans h.refs, fun hex hl => (h'.held hex hl).trans (h.held hex hl)⟩

theorem SameContent.symm (h : SameContent s s') : SameContent s' s :=
  ⟨h.refs.symm, fun hex hl => (h.held hex hl).symm⟩

theorem SameContent.of_readEffect {hex : List Char} (h : ReadEffect hex s s')
    (hl : hex.length = 64) : SameContent s s' := by
  rcases h with rfl | ⟨bytes, hc, hr, rfl⟩
  · exact .refl _
  · refine ⟨rfl, fun hex' hl' => ?_⟩
    rw [content, content, ObjectStore.cache_writeCache, ObjectStore.refs_writeCache]
    split
    · next he =>
        obtain rfl := cachePathOf_inj (hl.trans hl'.symm) he
        rw [hc, hr]
        rfl
    · rfl

/-- The program changes no content. -/
def Keeps {ε α : Type} (p : Prog storeOps ε α) : Prop :=
  ∀ s, SameContent s (p.run exec s).2

section Keeps

variable {ε α β : Type}

theorem Keeps.of_run {p : Prog storeOps ε α} (h : Keeps p) {r : Except ε α}
    (hrun : p.run exec s = (r, s')) : SameContent s s' := by
  have hs := h s
  rwa [hrun] at hs

theorem keeps_ret (a : α) : Keeps (.ret a : Prog storeOps ε α) := fun s => .refl s

theorem keeps_fail (e : ε) : Keeps (.fail e : Prog storeOps ε α) := fun s => .refl s

theorem keeps_ofExcept (x : Except ε α) : Keeps (liftM x : Prog storeOps ε α) := fun s => by
  rw [Prog.run_ofExcept]
  exact .refl s

theorem Keeps.bind {p : Prog storeOps ε α} {f : α → Prog storeOps ε β} (hp : Keeps p)
    (hf : ∀ a, Keeps (f a)) : Keeps (p >>= f) := fun s => by
  have hs := hp s
  rw [Prog.run_bind]
  generalize p.run exec s = r at hs ⊢
  obtain ⟨e | a, s₁⟩ := r
  · exact hs
  · exact hs.trans (hf a s₁)

theorem Keeps.mapFail {ε' : Type} {p : Prog storeOps ε α} (hp : Keeps p) (f : ε → ε') :
    Keeps (p.mapFail f) := fun s => by
  rw [Prog.run_mapFail]
  exact hp s

theorem Keeps.attempt {ε' : Type} {p : Prog storeOps ε α} (hp : Keeps p) :
    Keeps (p.attempt : Prog storeOps ε' (Except ε α)) := fun s => by
  rw [Prog.run_attempt]
  exact hp s

end Keeps

theorem readCachedObject_keeps (X : Crates) (objectId : String) :
    Keeps (readCachedObject X objectId) := fun s => by
  rcases hhex : objectHex objectId with e | hex
  · rw [readCachedObject_run_error s hhex]
    exact .refl s
  · exact .of_readEffect (readCachedObject_effect s hhex) (objectHex_length hhex)

theorem verifyCachedObject_keeps (X : Crates) (objectId : String) :
    Keeps (verifyCachedObject X objectId) := fun s => by
  rcases hhex : objectHex objectId with e | hex
  · rw [verifyCachedObject_run_error s hhex]
    exact .refl s
  · exact .of_readEffect (verifyCachedObject_effect s hhex) (objectHex_length hhex)

theorem listRefBackedObjects_keeps (X : Crates) (kind : Option String) :
    Keeps (listRefBackedObjects X kind) := fun s => by
  rw [listRefBackedObjects_run]
  exact .refl s

theorem listRefBackedObjects_same (kind : Option String) (h : SameContent s s') :
    ((listRefBackedObjects X kind).run exec s').1 = ((listRefBackedObjects X kind).run exec s).1 := by
  rw [listRefBackedObjects_run, listRefBackedObjects_run, objectRefs, objectRefs, h.refs]

/-! ## Sound objects -/

/-- The store has this object under the id. -/
structure Sound (X : Crates) (objectId : String) (o : CanonicalObject) (s : ObjectStore) :
    Prop where
  fields : (objectFieldDiagnostics X objectId o).1 = []
  found : ∃ hex bytes, objectHex objectId = .ok hex ∧ content s hex = some bytes ∧
    readObjectBytes X bytes = .ok o

theorem Sound.same (h : Sound X objectId o s) (hs : SameContent s s') : Sound X objectId o s' := by
  obtain ⟨hex, bytes, hhex, hc, hb⟩ := h.found
  exact ⟨h.fields, hex, bytes, hhex, (hs.held hex (objectHex_length hhex)).trans hc, hb⟩

/-- A sound object is the one that is read. -/
theorem Sound.read (h : Sound X objectId o s) :
    ∃ report s', (readCachedObject X objectId).run exec s = (.ok report, s') ∧
      report.object = o ∧ report.objectId = objectId ∧ SameContent s s' := by
  obtain ⟨hex, bytes, hhex, hc, hb⟩ := h.found
  have hsame := readCachedObject_keeps X objectId s
  rw [readCachedObject_run s hhex] at hsame ⊢
  rw [content] at hc
  rcases hcache : s.cache[cachePathOf hex]? with _ | cached
  · rw [hcache, Option.none_or] at hc
    rw [read_run_of_ref s hhex hcache hc, hb] at hsame ⊢
    simp only [h.fields, if_true] at hsame ⊢
    exact ⟨_, _, rfl, rfl, rfl, hsame⟩
  · rw [hcache, Option.some_or] at hc
    obtain rfl := Option.some.inj hc
    rw [read_run_of_cache s hcache, hb] at hsame ⊢
    exact ⟨_, _, rfl, rfl, rfl, hsame⟩

/-- An id without content cannot be read. -/
theorem read_of_no_content {hex : List Char} (hhex : objectHex objectId = .ok hex)
    (hc : content s hex = none) :
    (readCachedObject X objectId).run exec s = (.error (.objectNotFound (cachePathOf hex)), s) := by
  rw [content, Option.or_eq_none_iff] at hc
  rw [readCachedObject_run s hhex, read_run_of_missing s hhex hc.1 hc.2]

/-- References of valid objects stay what they are. -/
theorem RefsOf.same {os : List CanonicalObject} (h : RefsOf X os s) (hs : SameContent s s') :
    RefsOf X os s' where
  stored o ho := by
    refine ⟨(h.stored o ho).valid, fun hex hhex => ?_⟩
    have hk := (h.stored o ho).kept hex hhex
    have href : s'.refs[refNameOf hex]? = some (canonicalObjectBytes X o) := by rw [hs.refs, hk.ref]
    refine ⟨href, fun b hb => ?_⟩
    have hc := hs.held hex (objectHex_length hhex)
    rw [content, content, hb, hk.ref, Option.some_or] at hc
    rcases hold : s.cache[cachePathOf hex]? with _ | b'
    · rw [hold, Option.none_or] at hc
      exact Option.some.inj hc
    · rw [hold, Option.some_or] at hc
      rw [Option.some.inj hc]
      exact hk.cache b' hold
  listed := by
    rw [objectRefs, hs.refs]
    exact h.listed

/-! ## What a verification says -/

/-- The findings are those of the caller, those of the fields, and signature warnings. -/
theorem verifyObjectFields_diagnostics (objectId cachePath : String) (source : ObjectReadSource)
    (o : CanonicalObject) (diagnostics : List ObjectDiagnostic) :
    ∃ ws, (∀ d ∈ ws, isSignatureWarning d.code = true) ∧
      (verifyObjectFields X objectId cachePath source o diagnostics).diagnostics =
        diagnostics ++ (objectFieldDiagnostics X objectId o).1 ++ ws := by
  obtain ⟨ws, hws, he⟩ := signatureLoop_eq (X := X) (o := o) o.signatures 0
    (.ofNat o.signatures.length) 0 (diagnostics ++ (objectFieldDiagnostics X objectId o).1)
  refine ⟨ws, hws, ?_⟩
  simp only [verifyObjectFields, appendSignatureDiagnostics, he]

/-- A finding about a field is no signature warning. -/
theorem not_warning_of_mem_fields {d : ObjectDiagnostic}
    (h : d ∈ (objectFieldDiagnostics X objectId o).1) : isSignatureWarning d.code = false := by
  simp only [objectFieldDiagnostics, List.mem_append] at h
  rcases h with (h | h) | h
  all_goals
    split at h
    · rw [List.mem_singleton.mp h]
      decide
    · cases h

/-- The references agree with the object: there is none, or it holds the object as it
    is or in canonical form. -/
def RefAgrees (X : Crates) (objectId : String) (o : CanonicalObject) (s : ObjectStore) : Prop :=
  ∀ hex bytes, objectHex objectId = .ok hex → s.refs[refNameOf hex]? = some bytes →
    readObjectBytes X bytes = .ok o ∨ bytes = canonicalObjectBytes X o

theorem RefAgrees.same (h : RefAgrees X objectId o s) (hs : SameContent s s') :
    RefAgrees X objectId o s' := by
  intro hex bytes hhex href
  rw [hs.refs] at href
  exact h hex bytes hhex href

/-- Nothing but signature warnings: the store has a sound object. -/
theorem sound_of_verify {report : ObjectVerifyReport}
    (h : (verifyCachedObject X objectId).run exec s = (.ok report, s'))
    (hw : ∀ d ∈ report.diagnostics, isSignatureWarning d.code = true) :
    ∃ o, Sound X objectId o s ∧ RefAgrees X objectId o s := by
  rcases hhex : objectHex objectId with e | hex
  · rw [verifyCachedObject_run_error s hhex] at h
    cases congrArg Prod.fst h
  -- the findings of the fields and of the caller are all warnings, so there are none
  have hfields : ∀ path source o diagnostics,
      report = verifyObjectFields X objectId path source o diagnostics →
      (objectFieldDiagnostics X objectId o).1 = [] ∧
        ∀ d ∈ diagnostics, isSignatureWarning d.code = true := by
    rintro path source o diagnostics rfl
    obtain ⟨ws, -, he⟩ := verifyObjectFields_diagnostics (X := X) objectId path source o diagnostics
    rw [he] at hw
    refine ⟨List.eq_nil_iff_forall_not_mem.mpr fun d hd => ?_, fun d hd => hw d (by simp [hd])⟩
    have hwarn := hw d (by simp [hd])
    rw [not_warning_of_mem_fields hd] at hwarn
    cases hwarn
  have hreadable : ∀ path source code text,
      report = unreadable objectId path source ⟨code, text⟩ → isSignatureWarning code = true := by
    rintro path source code text rfl
    exact hw _ (List.mem_singleton_self _)
  rcases hcache : s.cache[cachePathOf hex]? with _ | cached
  · rw [verify_run_of_no_cache s hhex hcache] at h
    rcases href : s.refs[refNameOf hex]? with _ | bytes
    · rw [read_run_of_missing s hhex hcache href] at h
      exact absurd (hreadable _ _ _ _ (Except.ok.inj (congrArg Prod.fst h)).symm) (by decide)
    · rw [read_run_of_ref s hhex hcache href] at h
      rcases hb : readObjectBytes X bytes with e | object
      · rw [hb] at h
        cases e <;>
          exact absurd (hreadable _ _ _ _ (Except.ok.inj (congrArg Prod.fst h)).symm) (by decide)
      · rw [hb] at h
        by_cases hf : (objectFieldDiagnostics X objectId object).1 = []
        · refine ⟨object, ⟨hf, hex, bytes, hhex, by rw [content, hcache, href]; rfl, hb⟩,
            fun hex' bytes' hhex' href' => .inl ?_⟩
          obtain rfl := Except.ok.inj (hhex.symm.trans hhex')
          obtain rfl := Option.some.inj (href.symm.trans href')
          exact hb
        · simp only [hf, if_false] at h
          exact absurd (hreadable _ _ _ _ (Except.ok.inj (congrArg Prod.fst h)).symm) (by decide)
  · rw [verify_run_of_cache s hhex hcache] at h
    rcases hb : readObjectBytes X cached with e | object
    · rw [hb] at h
      exact absurd (hreadable _ _ _ _ (Except.ok.inj (congrArg Prod.fst h)).symm) (by decide)
    · rw [hb] at h
      simp only [refConsistencyDiagnostics_run s hhex] at h
      obtain ⟨hf, hds⟩ := hfields _ _ _ _ (Except.ok.inj (congrArg Prod.fst h)).symm
      refine ⟨object, ⟨hf, hex, cached, hhex, by rw [content, hcache, Option.some_or], hb⟩,
        fun hex' bytes hhex' href => ?_⟩
      obtain rfl := Except.ok.inj (hhex.symm.trans hhex')
      rw [href] at hds
      by_cases hbytes : bytes = canonicalObjectBytes X object
      · exact .inr hbytes
      · simp only [hbytes, ne_eq, not_false_eq_true, if_true] at hds
        exact absurd (hds _ (List.mem_singleton_self _)) (by decide)

/-- An unsigned object that is cached in canonical form, and not referenced. -/
structure CachedOnly (X : Crates) (o : CanonicalObject) (s : ObjectStore) : Prop where
  valid : o.Valid X
  unsigned : o.signatures = []
  cached : ∀ hex, objectHex o.objectId = .ok hex → s.refs[refNameOf hex]? = none ∧
    content s hex = some (canonicalObjectBytes X o)

/-- It passes, as nothing asks for a reference. -/
theorem CachedOnly.passes (hX : ReadsBack X) (h : CachedOnly X o s) :
    Sound X o.objectId o.canonical s ∧
      ∃ report, ((verifyCachedObject X o.objectId).run exec s).1 = .ok report ∧
        report.diagnostics = [] := by
  obtain ⟨m, -, hhex⟩ := objectHex_of_valid h.valid
  obtain ⟨href, hc⟩ := h.cached _ hhex
  have hb := readObjectBytes_canonicalObjectBytes hX o
  have hf : (objectFieldDiagnostics X o.objectId o.canonical).1 = [] :=
    objectFieldDiagnostics_eq_nil_iff.mpr ⟨rfl, CanonicalObject.valid_canonical h.valid⟩
  refine ⟨⟨hf, _, _, hhex, hc, hb⟩, ?_⟩
  rw [content, href, Option.or_none] at hc
  rw [verify_run_of_cache s hhex hc, hb]
  simp only [refConsistencyDiagnostics_run s hhex, href]
  refine ⟨_, rfl, ?_⟩
  have hsigs : o.canonical.signatures = [] := h.unsigned
  simp only [verifyObjectFields, hf, appendSignatureDiagnostics, hsigs, signatureLoop,
    List.append_nil]

theorem CachedOnly.same (h : CachedOnly X o s) (hs : SameContent s s') : CachedOnly X o s' := by
  refine ⟨h.valid, h.unsigned, fun hex hhex => ?_⟩
  obtain ⟨href, hc⟩ := h.cached hex hhex
  exact ⟨by rw [hs.refs, href], (hs.held hex (objectHex_length hhex)).trans hc⟩

/-! ## Deletion of the cache -/

/-- The whole object cache is removed from outside. -/
def ObjectStore.withoutCache (s : ObjectStore) : ObjectStore := { s with cache := ∅ }

theorem content_withoutCache (s : ObjectStore) (hex : List Char) :
    content s.withoutCache hex = s.refs[refNameOf hex]? := by
  simp [content, ObjectStore.withoutCache]

/-- A reference points to the object of this id. -/
def RefBacked (s : ObjectStore) (objectId : String) : Prop :=
  ∃ hex, objectHex objectId = .ok hex ∧ (s.refs[refNameOf hex]?).isSome

/-- A referenced object survives, up to the canonical form of its body. -/
theorem Sound.withoutCache (hX : ReadsBack X) (h : Sound X objectId o s)
    (ha : RefAgrees X objectId o s) (hr : RefBacked s objectId) :
    ∃ o', (o' = o ∨ o' = o.canonical) ∧ Sound X objectId o' s.withoutCache := by
  obtain ⟨hex, hhex, href⟩ := hr
  obtain ⟨bytes, hbytes⟩ := Option.isSome_iff_exists.mp href
  rcases ha hex bytes hhex hbytes with hb | rfl
  · exact ⟨o, .inl rfl, h.fields, hex, bytes, hhex, by rw [content_withoutCache, hbytes], hb⟩
  · refine ⟨o.canonical, .inr rfl, ?_, hex, _, hhex, by rw [content_withoutCache, hbytes],
      readObjectBytes_canonicalObjectBytes hX o⟩
    obtain ⟨hid, hv⟩ := objectFieldDiagnostics_eq_nil_iff.mp h.fields
    exact objectFieldDiagnostics_eq_nil_iff.mpr ⟨hid, CanonicalObject.valid_canonical hv⟩

/-- Without a reference nothing is left to read. -/
theorem read_withoutCache_of_not_refBacked (hr : ¬ RefBacked s objectId) :
    ∃ e, ((readCachedObject X objectId).run exec s.withoutCache).1 = .error e := by
  rcases hhex : objectHex objectId with e | hex
  · exact ⟨e, by rw [readCachedObject_run_error _ hhex]⟩
  · have hc : content s.withoutCache hex = none := by
      rw [content_withoutCache]
      by_contra hne
      exact hr ⟨hex, hhex, Option.isSome_iff_ne_none.mpr hne⟩
    exact ⟨_, by rw [read_of_no_content hhex hc]⟩

end RickydataGit.Git
