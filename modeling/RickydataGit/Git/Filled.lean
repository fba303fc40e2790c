/-
  Stores with known objects.

  `Filled X os s` : the references of the store are those of the objects `os`, each of
  another id, and nothing else is cached. A write of a new object succeeds and adds it
  (`Filled.write`), reads keep the store filled (`Filled.ends_of_keepsAlong`), and a filled
  store is a ledger that holds just these objects (`Filled.ledger`, `Filled.holds`).

  `Ends X p s a t` : the program succeeds, and no hashes collide in any store it passes
  through. Runs on given inputs are put together with its rules.
-/
import RickydataGit.Lib.Triple
import RickydataGit.Git.Growth

namespace RickydataGit.Git

open RickydataGit.Lib RickydataGit.Core

variable {X : Crates} {s t : ObjectStore} {o : CanonicalObject} {os : List CanonicalObject}

/-! ## The stores on the way -/

section Along

variable {ε α β : Type}

/-- On the way from this store the program changes no content. -/
def KeepsAlong (p : Prog storeOps ε α) (s : ObjectStore) : Prop :=
  ∀ u, p.Visits exec s u → SameContent s u

theorem keepsAlong_ret (a : α) (s : ObjectStore) : KeepsAlong (.ret a : Prog storeOps ε α) s := by
  rintro u rfl
  exact .refl u

theorem keepsAlong_ofExcept (x : Except ε α) (s : ObjectStore) :
    KeepsAlong (liftM x : Prog storeOps ε α) s := by
  cases x <;> exact fun u hu => hu ▸ .refl s

theorem KeepsAlong.bind {p : Prog storeOps ε α} {f : α → Prog storeOps ε β}
    (hp : KeepsAlong p s) (hf : ∀ a t, p.run exec s = (.ok a, t) → KeepsAlong (f a) t) :
    KeepsAlong (p >>= f) s := by
  intro u hu
  rcases Prog.visits_bind_cases hu with hu | ⟨a, t, hrun, hu⟩
  · exact hp u hu
  · have hs := hp _ (Prog.visits_last p s)
    rw [hrun] at hs
    exact hs.trans (hf a t hrun u hu)

theorem KeepsAlong.mapFail {ε' : Type} {p : Prog storeOps ε α} (hp : KeepsAlong p s)
    (f : ε → ε') : KeepsAlong (p.mapFail f) s :=
  fun u hu => hp u ((Prog.visits_mapFail f).mp hu)

theorem readCachedObject_keepsAlong (X : Crates) (objectId : String) (s : ObjectStore) :
    KeepsAlong (readCachedObject X objectId) s := by
  rcases hhex : objectHex objectId with e | hex
  · rw [readCachedObject, objectCachePath_error hhex]
    exact (keepsAlong_ofExcept _ s).bind fun a t hrun => by cases congrArg Prod.fst hrun
  rw [readCachedObject, objectCachePath_eq hhex, Prog.liftM_ok, Prog.ret_bind]
  refine KeepsAlong.bind ?_ fun _ _ _ => keepsAlong_ret _ _
  intro u hu
  rcases hu with rfl | hu
  · exact .refl u
  cases hc : s.cache[cachePathOf hex]? with
  | some bytes =>
    have hread : KeepsAlong (readObjectFile X (cachePathOf hex)) s := by
      refine KeepsAlong.bind ?_ fun _ _ _ => keepsAlong_ofExcept _ _
      rintro v (rfl | hv)
      · exact .refl v
      · rw [exec, hc] at hv
        exact hv ▸ .refl s
    rw [exec, hc, Option.isSome_some] at hu
    exact hread.bind (fun _ _ _ => keepsAlong_ret _ _) u hu
  | none =>
    rw [exec, hc, Option.isSome_none, objectRefName_eq hhex] at hu
    rcases hu with rfl | hu
    · exact .refl u
    cases hr : s.refs[refNameOf hex]? with
    | none =>
      rw [exec, hr] at hu
      exact hu ▸ .refl s
    | some bytes =>
      rw [exec, hr] at hu
      refine KeepsAlong.bind (keepsAlong_ofExcept _ _) (fun object t hparse => ?_) u hu
      rw [Prog.run_ofExcept] at hparse
      obtain ⟨-, rfl⟩ := Prod.mk.inj hparse
      dsimp only
      split
      · exact keepsAlong_ofExcept (.error _) _
      · refine KeepsAlong.bind (fun v hv => ?_) fun _ _ _ => keepsAlong_ret _ _
        -- the file is not there, so it is put back
        rcases hv with rfl | hv
        · exact .refl v
        rw [exec, hc] at hv
        rcases hv with rfl | rfl
        · exact .refl v
        · exact .of_readEffect (.inr ⟨bytes, hc, hr, rfl⟩) (objectHex_length hhex)

theorem listRefBackedObjects_keepsAlong (X : Crates) (kind : Option String) (s : ObjectStore) :
    KeepsAlong (listRefBackedObjects X kind) s := by
  rintro u (rfl | hu)
  · exact .refl u
  · exact (keepsAlong_ofExcept _ s).bind (fun _ _ _ => keepsAlong_ret _ _) u hu

/-- The run of a program that succeeds, without collisions on the way. -/
structure Ends (X : Crates) (p : Prog storeOps ε α) (s : ObjectStore) (a : α) (t : ObjectStore) :
    Prop where
  run : p.run exec s = (.ok a, t)
  clean : ∀ u, p.Visits exec s u → NoCollisions X u u

variable {p : Prog storeOps ε α} {f : α → Prog storeOps ε β} {u : ObjectStore} {a : α} {b : β}

theorem ends_ret (h : NoCollisions X s s) (a : α) : Ends X (.ret a : Prog storeOps ε α) s a s where
  run := rfl
  clean := by
    rintro u rfl
    exact h

theorem ends_ofExcept {x : Except ε α} (h : NoCollisions X s s) (hx : x = .ok a) :
    Ends X (liftM x : Prog storeOps ε α) s a s := by
  subst hx
  exact ends_ret h a

theorem Ends.bind (hp : Ends X p s a t) (hf : Ends X (f a) t b u) : Ends X (p >>= f) s b u where
  run := (Prog.run_bind_ok exec hp.run f).trans hf.run
  clean v hv := by
    rcases Prog.visits_bind_cases hv with hv | ⟨a', t', hrun, hv⟩
    · exact hp.clean v hv
    · obtain ⟨ha, rfl⟩ := Prod.mk.inj (hp.run.symm.trans hrun)
      obtain rfl := Except.ok.inj ha
      exact hf.clean v hv

theorem Ends.mapFail {ε' : Type} (hp : Ends X p s a t) (f : ε → ε') :
    Ends X (p.mapFail f) s a t where
  run := (Prog.run_mapFail_ok_iff exec f).mpr hp.run
  clean v hv := hp.clean v ((Prog.visits_mapFail f).mp hv)

end Along

/-! ## Known objects -/

structure Filled (X : Crates) (os : List CanonicalObject) (s : ObjectStore) : Prop where
  refs : RefsOf X os s
  nodup : (os.map CanonicalObject.objectId).Nodup
  only : ∀ hex, hex.length = 64 → (∀ o ∈ os, objectHex o.objectId ≠ .ok hex) →
    content s hex = none

theorem filled_empty (X : Crates) : Filled X [] .empty where
  refs := refsOf_nil rfl
  nodup := List.nodup_nil
  only hex _ _ := by simp [content, ObjectStore.empty]

theorem Filled.same (h : Filled X os s) (hs : SameContent s t) : Filled X os t where
  refs := h.refs.same hs
  nodup := h.nodup
  only hex hl hno := by rw [hs.held hex hl, h.only hex hl hno]

/-- The copies are the canonical forms of the objects. -/
theorem Filled.hasCopy (hX : ReadsBack X) (h : Filled X os s) (ho : HasCopy X s o) :
    ∃ o' ∈ os, o = o'.canonical := by
  have hparse := readObjectBytes_canonicalObjectBytes hX
  cases ho with
  | ref hr hb =>
    obtain ⟨o', ho', hex, -, -, hbytes⟩ := h.refs.listed _ hr
    rw [hbytes, hparse, Except.ok.injEq] at hb
    exact ⟨o', ho', hb.symm⟩
  | @cached hex b hl hc hb =>
    by_contra hno
    have hnone := h.only hex hl fun o' ho' hhex => hno ⟨o', ho', ?_⟩
    · rw [content, hc] at hnone
      cases hnone
    · rw [((h.refs.stored o' ho').kept hex hhex).cache b hc, hparse, Except.ok.injEq] at hb
      exact hb.symm

/-- Objects of different ids do not collide. -/
theorem noCollisions_of_nodup (hnodup : (os.map CanonicalObject.objectId).Nodup)
    (hvalid : ∀ o ∈ os, o.Valid X)
    (hcopies : ∀ o, HasCopy X s o → ∃ o' ∈ os, o = o'.canonical) : NoCollisions X s s := by
  intro o o' ho ho' hsha
  obtain ⟨p, hp, rfl⟩ := hcopies o (ho.elim id id)
  obtain ⟨p', hp', rfl⟩ := hcopies o' (ho'.elim id id)
  have hid : ∀ q ∈ os, q.objectId = hashText X (signingMessage X q.canonical.kind
      q.canonical.schemaVersion q.canonical.body) := by
    intro q hq
    have hv := CanonicalObject.valid_canonical (hvalid q hq)
    exact hv.objectId.trans (canonicalObjectId_eq ..)
  have heq : p = p' := List.inj_on_of_nodup_map hnodup hp hp'
    (by rw [hid p hp, hid p' hp', hashText, hashText, hsha])
  rw [heq]

theorem Filled.ledger (hX : ReadsBack X) (h : Filled X os s) : Ledger X s where
  valid := by
    have hparse := readObjectBytes_canonicalObjectBytes hX
    constructor
    · intro r hr
      obtain ⟨o, ho, hex, hhex, hname, hbytes⟩ := h.refs.listed r hr
      exact ⟨o.canonical, hex, by rw [hbytes, hparse],
        CanonicalObject.valid_canonical (h.refs.stored o ho).valid, hhex, hname⟩
    · intro hex b hl hb
      by_contra hno
      have hnone := h.only hex hl fun o ho hhex => hno ⟨o.canonical, ?_,
        CanonicalObject.valid_canonical (h.refs.stored o ho).valid, hhex⟩
      · rw [content, hb] at hnone
        cases hnone
      · rw [((h.refs.stored o ho).kept hex hhex).cache b hb,
          objectFromSlice_canonicalObjectBytes hX]
  canonical o ho := by
    obtain ⟨o', -, rfl⟩ := h.hasCopy hX ho
    exact canonicalJson_idem o'.body
  backed hex b hl hb := by
    by_contra hno
    have hnone := h.only hex hl fun o ho hhex => hno ?_
    · rw [content, hb] at hnone
      cases hnone
    · rw [((h.refs.stored o ho).kept hex hhex).ref, Option.isSome_some]
  sha := noCollisions_of_nodup h.nodup (fun o ho => (h.refs.stored o ho).valid)
    fun _ => h.hasCopy hX

theorem Filled.holds (hX : ReadsBack X) (h : Filled X os s) {kind objectId : String}
    {body : Value} : Holds X s kind objectId body ↔
      ∃ o ∈ os, o.kind = kind ∧ o.objectId = objectId ∧ canonicalJson o.body = body := by
  constructor
  · rintro ⟨r, hr, o, hparse, rfl, rfl, rfl⟩
    obtain ⟨o', ho', rfl⟩ := h.hasCopy hX (.ref hr hparse)
    exact ⟨o', ho', rfl, rfl, rfl⟩
  · rintro ⟨o, ho, rfl, rfl, rfl⟩
    have hcopy : HasCopy X s o.canonical := by
      obtain ⟨m, -, hhex⟩ := objectHex_of_valid (h.refs.stored o ho).valid
      have href := ((h.refs.stored o ho).kept _ hhex).ref
      have hparse := readObjectBytes_canonicalObjectBytes hX o
      generalize canonicalObjectBytes X o = b at href hparse
      exact .ref (mem_objectRefs_refNameOf.mpr href) hparse
    exact (h.ledger hX).holds_copy hcopy

/-- The operation stores nothing but these bytes. -/
def StoresOnly (bytes : Bytes) : StoreOp → Prop
  | .cacheWrite _ b => b = bytes
  | .createReference _ b => b = bytes
  | _ => True

theorem storeObject_storesOnly (X : Crates) (object : CanonicalObject) (bytes : Bytes) :
    (storeObject X object bytes).Every (StoresOnly bytes) := by
  refine Prog.every_bind (Prog.every_ofExcept _) fun cachePath => ?_
  refine Prog.every_bind ⟨trivial, fun found => ?_⟩ fun status => ?_
  · cases found with
    | true =>
      refine ⟨trivial, fun existing => ?_⟩
      cases existing with
      | none => trivial
      | some existing =>
        dsimp only [foundBytes, Prog.bind]
        split
        · trivial
        · trivial
    | false => exact ⟨rfl, fun _ => trivial⟩
  · refine Prog.every_bind (Prog.every_ofExcept _) fun refName => ?_
    refine Prog.every_bind ⟨trivial, fun found => ?_⟩ fun gitObjectId => trivial
    cases found with
    | none => exact ⟨rfl, fun _ => trivial⟩
    | some existing =>
      dsimp only [Prog.bind]
      split
      · trivial
      · trivial

theorem WriteCall.storesOnly (X : Crates) (w : WriteCall) :
    (w.prog X).Every (StoresOnly (w.bytes X)) := by
  cases w with
  | cached kind body => exact storeObject_storesOnly X _ _
  | canonical object =>
    rw [WriteCall.prog, writeCanonicalObject]
    dsimp only
    split
    · trivial
    · exact storeObject_storesOnly X _ _

/-- A store that a write passes through has at most the copies of its object besides. -/
theorem hasCopy_of_visits (hX : ReadsBack X) {w : WriteCall} {u : ObjectStore}
    (hu : (w.prog X).Visits exec s u) (ho : HasCopy X u o) :
    HasCopy X s o ∨ o = (w.object X).canonical := by
  have hparse := readObjectBytes_canonicalObjectBytes hX (w.object X)
  let I := fun v : ObjectStore =>
    (∀ (name : String) (b : Bytes), v.refs[name]? = some b →
      s.refs[name]? = some b ∨ b = w.bytes X) ∧
    ∀ (path : String) (b : Bytes), v.cache[path]? = some b →
      s.cache[path]? = some b ∨ b = w.bytes X
  have hI : I u := by
    have hfirst : I s := ⟨fun _ _ hb => .inl hb, fun _ _ hb => .inl hb⟩
    refine Prog.visits_frame (fun o hP v hv => ?_) (w.storesOnly X) hfirst hu
    cases o with
    | cacheWrite path bytes =>
      refine ⟨hv.1, fun path' b hb => ?_⟩
      rw [exec, ObjectStore.cache_writeCache] at hb
      split at hb
      · exact .inr ((Option.some.inj hb).symm.trans hP)
      · exact hv.2 path' b hb
    | createReference name bytes =>
      refine ⟨fun name' b hb => ?_, hv.2⟩
      rw [exec, ObjectStore.refs_writeRef] at hb
      split at hb
      · exact .inr ((Option.some.inj hb).symm.trans hP)
      · exact hv.1 name' b hb
    | _ => exact hv
  have hnew : ∀ {b}, b = w.bytes X → readObjectBytes X b = .ok o → o = (w.object X).canonical := by
    rintro b rfl hb
    exact Except.ok.inj (hb.symm.trans hparse)
  cases ho with
  | @ref r hr hb =>
    obtain ⟨hsome, hprefix⟩ := mem_objectRefs.mp hr
    rcases hI.1 _ _ hsome with hold | hbytes
    · exact .inl (.ref (mem_objectRefs.mpr ⟨hold, hprefix⟩) hb)
    · exact .inr (hnew hbytes hb)
  | cached hl hc hb =>
    rcases hI.2 _ _ hc with hold | hbytes
    · exact .inl (.cached hl hold hb)
    · exact .inr (hnew hbytes hb)

/-- No hashes collide while an object of a new id is written. -/
theorem Filled.noCollisions_of_visits (hX : ReadsBack X) (h : Filled X os s) {w : WriteCall}
    (hv : (w.object X).Valid X) (hnew : (w.object X).objectId ∉ os.map CanonicalObject.objectId)
    {u : ObjectStore} (hu : (w.prog X).Visits exec s u) : NoCollisions X u u := by
  refine @noCollisions_of_nodup _ _ (w.object X :: os) (List.nodup_cons.mpr ⟨hnew, h.nodup⟩)
    (List.forall_mem_cons.mpr ⟨hv, fun o ho => (h.refs.stored o ho).valid⟩) fun o ho => ?_
  rcases hasCopy_of_visits hX hu ho with hold | rfl
  · obtain ⟨o', ho', rfl⟩ := h.hasCopy hX hold
    exact ⟨o', List.mem_cons_of_mem _ ho', rfl⟩
  · exact ⟨w.object X, List.mem_cons_self, rfl⟩

theorem Filled.noCollisions (hX : ReadsBack X) (h : Filled X os s) : NoCollisions X s s :=
  (h.ledger hX).sha

/-- A program that only reads. -/
theorem Filled.ends_of_keepsAlong {ε α : Type} {p : Prog storeOps ε α} {a : α} (hX : ReadsBack X)
    (h : Filled X os s) (hp : KeepsAlong p s) (hrun : p.run exec s = (.ok a, t)) :
    Ends X p s a t ∧ Filled X os t := by
  refine ⟨⟨hrun, fun u hu => (h.same (hp u hu)).noCollisions hX⟩, h.same (hp t ?_)⟩
  have hlast : p.Visits exec s (p.run exec s).2 := Prog.visits_last p s
  rwa [hrun] at hlast

/-- A write of a new object succeeds. -/
theorem Filled.write (hX : ReadsBack X) (h : Filled X os s) {w : WriteCall}
    (hv : (w.object X).Valid X)
    (hnew : (w.object X).objectId ∉ os.map CanonicalObject.objectId) :
    ∃ report t, Ends X (w.prog X) s report t ∧ report.objectId = (w.object X).objectId ∧
      Filled X (w.object X :: os) t := by
  obtain ⟨m, -, hhex⟩ := objectHex_of_valid hv
  have hl := objectHex_length hhex
  have hne : ∀ o ∈ os, objectHex o.objectId ≠ .ok (hexEncode (X.sha256 m)).toList := by
    intro o ho hhex'
    refine hnew (List.mem_map.mpr ⟨o, ho, ?_⟩)
    exact objectId_inj (h.refs.stored o ho).valid hv hhex' hhex
  have hnone := h.only _ hl hne
  rw [content, Option.or_eq_none_iff] at hnone
  obtain ⟨report, t, hrun, hrefs, hcache, hfilled⟩ := h.refs.create hv hhex hnone.1 hnone.2
  have hrun' : (w.prog X).run exec s = (.ok report, t) := by
    rw [WriteCall.run_of_valid hv]
    exact hrun
  refine ⟨report, t, ⟨hrun', fun u => h.noCollisions_of_visits hX hv hnew⟩,
    WriteCall.objectId_of_ok hrun', hfilled, ?_, fun hex hl' hno => ?_⟩
  · exact List.nodup_cons.mpr ⟨hnew, h.nodup⟩
  · obtain ⟨hw, hold⟩ := List.forall_mem_cons.mp hno
    have hother : (hexEncode (X.sha256 m)).toList ≠ hex := fun he => hw (he ▸ hhex)
    have hc := h.only hex hl' hold
    rw [content] at hc ⊢
    rw [hcache, hrefs, getElem?_insert_eq, getElem?_insert_eq,
      if_neg fun he => hother (cachePathOf_inj (hl.trans hl'.symm) he),
      if_neg fun he => hother (refNameOf_inj (hl.trans hl'.symm) he), hc]

end RickydataGit.Git
