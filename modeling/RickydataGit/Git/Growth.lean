/-
  Stores that programs only add to.

  `Adds X os s t` : the references of `t` are those of `s` and some of the objects
  `os`, and what is cached in `t` was cached in `s`, is referenced, or is one of `os`.
  Reading adds nothing (`Adds.of_same`) and a write adds at most its object, whether it
  succeeds or not (`adds_write`).

  A `Ledger` is a store of valid objects in canonical form, each with a reference.
  `Holds` is what its references say, and whoever reads it is told just that
  (`Ledger.read`). Additions keep a ledger (`Ledger.adds`) and everything it holds
  (`Holds.adds`).
-/
import RickydataGit.Lib.Keyed
import RickydataGit.Git.Copies

namespace RickydataGit.Git

open RickydataGit.Lib RickydataGit.Core

variable {X : Crates} {s t u : ObjectStore} {o : CanonicalObject} {os os' : List CanonicalObject}

/-! ## Additions -/

/-- The canonical bytes of one of the objects, in their place. -/
def BytesOf (X : Crates) (place : List Char → String) (os : List CanonicalObject) (name : String)
    (b : Bytes) : Prop :=
  ∃ o ∈ os, ∃ hex, objectHex o.objectId = .ok hex ∧ name = place hex ∧ b = canonicalObjectBytes X o

structure Adds (X : Crates) (os : List CanonicalObject) (s t : ObjectStore) : Prop where
  refs : Grows (BytesOf X refNameOf os) s.refs t.refs
  cache : ∀ hex b, hex.length = 64 → t.cache[cachePathOf hex]? = some b →
    s.cache[cachePathOf hex]? = some b ∨ t.refs[refNameOf hex]? = some b ∨
      (∃ o ∈ os, objectHex o.objectId = .ok hex ∧ b = canonicalObjectBytes X o) ∧
        (t.refs[refNameOf hex]?).isSome

theorem BytesOf.mono {place : List Char → String} {name : String} {b : Bytes} (hsub : os ⊆ os')
    (h : BytesOf X place os name b) : BytesOf X place os' name b := by
  obtain ⟨o, ho, hrest⟩ := h
  exact ⟨o, hsub ho, hrest⟩

theorem Adds.refl (X : Crates) (s : ObjectStore) : Adds X [] s s where
  refs := .refl _ _
  cache _ _ _ hb := .inl hb

theorem Adds.mono (hsub : os ⊆ os') (h : Adds X os s t) : Adds X os' s t where
  refs := h.refs.mono fun _ _ hb => hb.mono hsub
  cache hex b hl hb := by
    rcases h.cache hex b hl hb with hc | hr | ⟨⟨o, ho, hrest⟩, hs⟩
    · exact .inl hc
    · exact .inr (.inl hr)
    · exact .inr (.inr ⟨⟨o, hsub ho, hrest⟩, hs⟩)

theorem Adds.trans (h : Adds X os s t) (h' : Adds X os t u) : Adds X os s u where
  refs := h.refs.trans h'.refs
  cache hex b hl hb := by
    rcases h'.cache hex b hl hb with hc | hnew
    · rcases h.cache hex b hl hc with hc | hr | ⟨hnew, hs⟩
      · exact .inl hc
      · exact .inr (.inl (h'.refs.toExtends _ _ hr))
      · obtain ⟨b', hb'⟩ := Option.isSome_iff_exists.mp hs
        exact .inr (.inr ⟨hnew, Option.isSome_iff_exists.mpr ⟨b', h'.refs.toExtends _ _ hb'⟩⟩)
    · exact .inr hnew

/-- Reading adds nothing. -/
theorem Adds.of_same (X : Crates) (os : List CanonicalObject) (h : SameContent s t) :
    Adds X os s t where
  refs := h.refs ▸ .refl _ _
  cache hex b hl hb := by
    have hc := h.held hex hl
    rw [content, content, hb, Option.some_or] at hc
    rw [h.refs]
    cases hold : s.cache[cachePathOf hex]? with
    | some b' =>
      rw [hold, Option.some_or] at hc
      exact .inl hc.symm
    | none =>
      rw [hold, Option.none_or] at hc
      exact .inr (.inl hc.symm)

/-- What was put into the cache is referenced in the end. -/
theorem CacheStep.adds {hex : List Char} (hhex : objectHex o.objectId = .ok hex)
    (h : CacheStep (cachePathOf hex) (canonicalObjectBytes X o) s t) (hcache : u.cache = t.cache)
    (hrefs : Grows (BytesOf X refNameOf [o]) s.refs u.refs)
    (hs : (u.refs[refNameOf hex]?).isSome) : Adds X [o] s u where
  refs := hrefs
  cache hex' b hl hb := by
    rw [hcache] at hb
    rcases h with ⟨-, rfl⟩ | ⟨-, rfl⟩
    · exact .inl hb
    · rw [ObjectStore.cache_writeCache] at hb
      split at hb
      · next he =>
          obtain rfl := cachePathOf_inj ((objectHex_length hhex).trans hl.symm) he
          exact .inr (.inr ⟨⟨o, List.mem_singleton_self _, hhex, (Option.some.inj hb).symm⟩, hs⟩)
      · exact .inl hb

/-- A write adds its object, or nothing. -/
theorem adds_write (X : Crates) (w : WriteCall) (s : ObjectStore) :
    Adds X [w.object X] s ((w.prog X).run exec s).2 := by
  by_cases hv : (w.object X).Valid X
  · obtain ⟨m, -, hhex⟩ := objectHex_of_valid hv
    rw [WriteCall.run_of_valid hv]
    have heffect := (storeObject_effect (X := X) s hhex (w.bytes X)).1
    generalize ((storeObject X (w.object X) (w.bytes X)).run exec s) = r at heffect ⊢
    generalize r.1.isOk = ok, r.2 = t at heffect ⊢
    cases heffect with
    | conflict => exact (Adds.refl X s).mono (List.nil_subset _)
    | refused hs hr =>
      exact hs.adds hhex rfl (hs.refs ▸ .refl _ _) (by rw [hs.refs, hr, Option.isSome_some])
    | present hs hr =>
      exact hs.adds hhex rfl (hs.refs ▸ .refl _ _) (by rw [hs.refs, hr, Option.isSome_some])
    | @created s₁ hs hr =>
      refine hs.adds hhex rfl ?_ (by simp)
      have hgrows : Grows (BytesOf X refNameOf [w.object X]) s₁.refs
          (s₁.writeRef (refNameOf (hexEncode (X.sha256 m)).toList) (w.bytes X)).refs :=
        .insert (hs.refs.symm ▸ hr) ⟨_, List.mem_singleton_self _, _, hhex, rfl, rfl⟩
      rwa [hs.refs] at hgrows
  · obtain ⟨e, he⟩ := WriteCall.run_of_not_valid hv s
    rw [he]
    exact (Adds.refl X s).mono (List.nil_subset _)

theorem Adds.mem_objectRefs {r : String × Bytes} (h : Adds X os s t) (hr : r ∈ objectRefs t) :
    r ∈ objectRefs s ∨ BytesOf X refNameOf os r.1 r.2 := by
  obtain ⟨hsome, hprefix⟩ := Git.mem_objectRefs.mp hr
  rcases h.refs r.1 with he | ⟨-, b, hb, hs⟩
  · exact .inl (Git.mem_objectRefs.mpr ⟨he ▸ hsome, hprefix⟩)
  · rw [hsome] at hs
    rw [Option.some.inj hs]
    exact .inr hb

theorem Adds.objectRefs_subset {r : String × Bytes} (h : Adds X os s t) (hr : r ∈ objectRefs s) :
    r ∈ objectRefs t := by
  obtain ⟨hsome, hprefix⟩ := Git.mem_objectRefs.mp hr
  exact Git.mem_objectRefs.mpr ⟨h.refs.toExtends _ _ hsome, hprefix⟩

/-- The copies are the old ones and those of the objects added. -/
theorem Adds.hasCopy (hX : ReadsBack X) (h : Adds X os s t) (ho : HasCopy X t o) :
    HasCopy X s o ∨ ∃ o' ∈ os, o = o'.canonical := by
  have hparse := readObjectBytes_canonicalObjectBytes hX
  have hnew : ∀ {b o'}, o' ∈ os → b = canonicalObjectBytes X o' → readObjectBytes X b = .ok o →
      HasCopy X s o ∨ ∃ o' ∈ os, o = o'.canonical := by
    rintro b o' ho' rfl hb
    rw [hparse, Except.ok.injEq] at hb
    exact .inr ⟨o', ho', hb.symm⟩
  have href : ∀ {r}, r ∈ objectRefs t → readObjectBytes X r.2 = .ok o →
      HasCopy X s o ∨ ∃ o' ∈ os, o = o'.canonical := by
    intro r hr hb
    rcases h.mem_objectRefs hr with hold | ⟨o', ho', -, -, -, hbytes⟩
    · exact .inl (.ref hold hb)
    · exact hnew ho' hbytes hb
  cases ho with
  | ref hr hb => exact href hr hb
  | cached hl hc hb =>
    rcases h.cache _ _ hl hc with hold | hr | ⟨⟨o', ho', -, hbytes⟩, -⟩
    · exact .inl (.cached hl hold hb)
    · exact href (mem_objectRefs_refNameOf.mpr hr) hb
    · exact hnew ho' hbytes hb

/-! ## What is held -/

/-- A reference holds an object of this kind, id and body. -/
def Holds (X : Crates) (s : ObjectStore) (kind objectId : String) (body : Value) : Prop :=
  ∃ r ∈ objectRefs s, ∃ o, readObjectBytes X r.2 = .ok o ∧ o.kind = kind ∧
    o.objectId = objectId ∧ o.body = body

theorem Holds.refBackedOf {kind objectId : String} {body : Value}
    (h : Holds X s kind objectId body) : RefBackedOf X s kind objectId := by
  obtain ⟨r, hr, o, hparse, hk, hid, -⟩ := h
  exact ⟨r, hr, o, hparse, hk, hid⟩

theorem RefBackedOf.holds {kind objectId : String} (h : RefBackedOf X s kind objectId) :
    ∃ body, Holds X s kind objectId body := by
  obtain ⟨r, hr, o, hparse, hk, hid⟩ := h
  exact ⟨o.body, r, hr, o, hparse, hk, hid, rfl⟩

theorem Holds.adds {kind objectId : String} {body : Value} (h : Holds X s kind objectId body)
    (ha : Adds X os s t) : Holds X t kind objectId body := by
  obtain ⟨r, hr, hrest⟩ := h
  exact ⟨r, ha.objectRefs_subset hr, hrest⟩

theorem RefBackedOf.adds {kind objectId : String} (h : RefBackedOf X s kind objectId)
    (ha : Adds X os s t) : RefBackedOf X t kind objectId := by
  obtain ⟨r, hr, hrest⟩ := h
  exact ⟨r, ha.objectRefs_subset hr, hrest⟩

theorem Holds.same {kind objectId : String} {body : Value} (hs : SameContent s t) :
    Holds X t kind objectId body ↔ Holds X s kind objectId body := by
  rw [Holds, Holds, objectRefs, objectRefs, hs.refs]

/-- What is held afterwards was held before, or is one of the objects added. -/
theorem Adds.holds (hX : ReadsBack X) {kind objectId : String} {body : Value}
    (ha : Adds X os s t) (h : Holds X t kind objectId body) :
    Holds X s kind objectId body ∨ ∃ o ∈ os, o.kind = kind ∧ o.objectId = objectId ∧
      canonicalJson o.body = body := by
  obtain ⟨r, hr, o, hparse, hk, hid, hbody⟩ := h
  rcases ha.mem_objectRefs hr with hold | ⟨o', ho', -, -, -, hbytes⟩
  · exact .inl ⟨r, hold, o, hparse, hk, hid, hbody⟩
  · rw [hbytes, readObjectBytes_canonicalObjectBytes hX, Except.ok.injEq] at hparse
    subst hparse
    exact .inr ⟨o', ho', hk, hid, hbody⟩

/-! ## Ledgers -/

/-- A store of valid objects in canonical form, each of them under a reference, whose
    hashes do not collide. -/
structure Ledger (X : Crates) (s : ObjectStore) : Prop where
  valid : AllValid X s
  canonical : ∀ o, HasCopy X s o → canonicalJson o.body = o.body
  backed : ∀ hex b, hex.length = 64 → s.cache[cachePathOf hex]? = some b →
    (s.refs[refNameOf hex]?).isSome
  sha : NoCollisions X s s

theorem ledger_empty (X : Crates) : Ledger X .empty where
  valid := allValid_empty X
  canonical _ ho := absurd ho not_hasCopy_empty
  backed _ _ _ hb := by simp [ObjectStore.empty] at hb
  sha _ _ ho := (ho.elim not_hasCopy_empty not_hasCopy_empty).elim

/-- Copies of one id have one kind and one body. -/
theorem Ledger.same (h : Ledger X s) {o o' : CanonicalObject} (ho : HasCopy X s o)
    (ho' : HasCopy X s o') (hid : o.objectId = o'.objectId) : o.kind = o'.kind ∧ o.body = o'.body := by
  obtain ⟨hk, hb⟩ := h.sha.agree h.valid h.valid (.inl ho) (.inl ho') hid
  rw [h.canonical o ho, h.canonical o' ho'] at hb
  exact ⟨hk, hb⟩

theorem Ledger.holds_inj (h : Ledger X s) {kind kind' objectId : String} {body body' : Value}
    (hh : Holds X s kind objectId body) (hh' : Holds X s kind' objectId body') :
    kind = kind' ∧ body = body' := by
  obtain ⟨r, hr, o, hparse, rfl, rfl, rfl⟩ := hh
  obtain ⟨r', hr', o', hparse', rfl, hid, rfl⟩ := hh'
  exact h.same (.ref hr hparse) (.ref hr' hparse') hid.symm

/-- A copy is held under its id. -/
theorem Ledger.holds_copy (h : Ledger X s) (ho : HasCopy X s o) :
    Holds X s o.kind o.objectId o.body := by
  obtain ⟨r, hr, o', hparse, hid⟩ : ∃ r ∈ objectRefs s, ∃ o', readObjectBytes X r.2 = .ok o' ∧
      o'.objectId = o.objectId := by
    cases ho with
    | ref hr hparse => exact ⟨_, hr, o, hparse, rfl⟩
    | @cached hex b hl hc hparse =>
      obtain ⟨o₁, ho₁, hv₁, hhex₁⟩ := h.valid.cache hex b hl hc
      rw [readObjectBytes_of_ok ho₁, Except.ok.injEq] at hparse
      subst hparse
      obtain ⟨b', hb'⟩ := Option.isSome_iff_exists.mp (h.backed hex b hl hc)
      have hr := mem_objectRefs_refNameOf.mpr hb'
      obtain ⟨o', hex', hparse', hv', hhex', hname⟩ := h.valid.refs _ hr
      obtain rfl := refNameOf_inj (hl.trans (objectHex_length hhex').symm) hname
      exact ⟨_, hr, o', hparse', objectId_inj hv' hv₁ hhex' hhex₁⟩
  obtain ⟨hk, hb⟩ := h.same (.ref hr hparse) ho hid
  exact ⟨r, hr, o', hparse, hk, hid, hb⟩

/-- Whatever is read of a ledger is a copy it has, of the id that was asked for. -/
theorem Ledger.read (h : Ledger X s) {objectId : String} {report : ObjectReadReport}
    (hr : ((readCachedObject X objectId).run exec s).1 = .ok report) :
    ∃ hex, objectHex objectId = .ok hex ∧ objectHex report.object.objectId = .ok hex ∧
      HasCopy X s report.object := by
  rcases objectHex_cases objectId with ⟨hex, hhex⟩ | ⟨e, he⟩
  · obtain ⟨b, hb, hparse⟩ := read_ok hhex hr
    have hl := objectHex_length hhex
    rcases hb with hc | ⟨-, href⟩
    · obtain ⟨o, ho, -, hhex'⟩ := h.valid.cache hex b hl hc
      rw [hparse, Except.ok.injEq] at ho
      exact ⟨hex, hhex, ho ▸ hhex', .cached hl hc (readObjectBytes_of_ok hparse)⟩
    · have hmem := mem_objectRefs_refNameOf.mpr href
      obtain ⟨o, hex', ho, -, hhex', hname⟩ := h.valid.refs _ hmem
      obtain rfl := refNameOf_inj (hl.trans (objectHex_length hhex').symm) hname
      rw [readObjectBytes_of_ok hparse, Except.ok.injEq] at ho
      exact ⟨hex, hhex, ho ▸ hhex', .ref hmem (readObjectBytes_of_ok hparse)⟩
  · rw [readCachedObject_run_error s he] at hr
    cases hr

/-- Additions of valid objects make a ledger of a ledger. -/
theorem Ledger.adds (hX : ReadsBack X) (h : Ledger X s) (ha : Adds X os s t)
    (hv : ∀ o ∈ os, o.Valid X) (hsha : NoCollisions X t t) : Ledger X t where
  valid := by
    have hparse := readObjectBytes_canonicalObjectBytes hX
    have href : ∀ r ∈ objectRefs t, ∃ o hex, readObjectBytes X r.2 = .ok o ∧ o.Valid X ∧
        objectHex o.objectId = .ok hex ∧ r.1 = refNameOf hex := by
      intro r hr
      rcases ha.mem_objectRefs hr with hold | ⟨o, ho, hex, hhex, hname, hbytes⟩
      · exact h.valid.refs r hold
      · exact ⟨o.canonical, hex, by rw [hbytes, hparse], CanonicalObject.valid_canonical (hv o ho),
          hhex, hname⟩
    refine ⟨href, fun hex b hl hb => ?_⟩
    rcases ha.cache hex b hl hb with hold | hr | ⟨⟨o, ho, hhex, hbytes⟩, -⟩
    · exact h.valid.cache hex b hl hold
    · obtain ⟨o, hex', hb', hv', hhex', hname⟩ := href _ (mem_objectRefs_refNameOf.mpr hr)
      obtain rfl := refNameOf_inj (hl.trans (objectHex_length hhex').symm) hname
      exact ⟨o, readObjectBytes_ok hb', hv', hhex'⟩
    · exact ⟨o.canonical, by rw [hbytes, objectFromSlice_canonicalObjectBytes hX],
        CanonicalObject.valid_canonical (hv o ho), hhex⟩
  canonical o ho := by
    rcases ha.hasCopy hX ho with hold | ⟨o', -, rfl⟩
    · exact h.canonical o hold
    · exact canonicalJson_idem o'.body
  backed hex b hl hb := by
    rcases ha.cache hex b hl hb with hold | hr | ⟨-, hs⟩
    · obtain ⟨b', hb'⟩ := Option.isSome_iff_exists.mp (h.backed hex b hl hold)
      exact Option.isSome_iff_exists.mpr ⟨b', ha.refs.toExtends _ _ hb'⟩
    · rw [hr, Option.isSome_some]
    · exact hs
  sha := hsha

theorem Ledger.of_same (hX : ReadsBack X) (h : Ledger X s) (hs : SameContent s t) :
    Ledger X t := by
  have ha : Adds X [] s t := .of_same X [] hs
  have hcopy : ∀ o, HasCopy X t o ∨ HasCopy X t o → HasCopy X s o := by
    intro o ho
    rcases ha.hasCopy hX (ho.elim id id) with hold | ⟨o', ho', -⟩
    · exact hold
    · cases ho'
  refine h.adds hX ha (fun o ho => nomatch ho) fun o o' ho ho' => ?_
  exact h.sha o o' (.inl (hcopy o ho)) (.inl (hcopy o' ho'))

theorem Ledger.write (hX : ReadsBack X) (h : Ledger X s) (w : WriteCall)
    (hsha : NoCollisions X ((w.prog X).run exec s).2 ((w.prog X).run exec s).2) :
    Ledger X ((w.prog X).run exec s).2 := by
  by_cases hv : (w.object X).Valid X
  · refine h.adds hX (adds_write X w s) (fun o ho => ?_) hsha
    rw [List.mem_singleton.mp ho]
    exact hv
  · obtain ⟨e, he⟩ := WriteCall.run_of_not_valid hv s
    rw [he]
    exact h

/-- What was written successfully is held. -/
theorem Ledger.holds_of_ok (hX : ReadsBack X) {w : WriteCall} {report : ObjectWriteReport}
    (h : Ledger X t) (hrun : (w.prog X).run exec s = (.ok report, t)) :
    Holds X t (w.object X).kind report.objectId (canonicalJson (w.object X).body) := by
  rw [WriteCall.objectId_of_ok hrun]
  by_cases hv : (w.object X).Valid X
  · obtain ⟨m, -, hhex⟩ := objectHex_of_valid hv
    have hcache := WriteCall.cache_of_ok (X := X) (w := w) (s := s) (by rw [hrun]; rfl) hhex
    rw [hrun] at hcache
    exact h.holds_copy (.cached (objectHex_length hhex) hcache
      (readObjectBytes_canonicalObjectBytes hX (w.object X)))
  · obtain ⟨e, he⟩ := WriteCall.run_of_not_valid hv s
    rw [hrun] at he
    cases he

end RickydataGit.Git
