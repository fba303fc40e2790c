/-
  Reads made again in a later store.

  A read that succeeds has its object in the cache afterwards, whatever the store held.
  In a later store, one that still has these cache files (`Later`), the same read gives the
  same object and changes nothing. This needs no hypothesis on the objects: they may be
  invalid, and a read that failed may succeed later under another spelling of the id.

  `Settled K p`: `p` only fills the cache, and once it has succeeded it gives the same
  result in every later store that lists the kinds in `K` as before. There is one rule for
  each way to build a program; a read is followed by a use of its object, since the place
  it was read from is different the second time.

  `Repeats K p`: moreover, where it has failed it fails again. So the program run once more
  ends as before (`Repeats.run_twice`).
-/
import RickydataGit.Lib.Keyed
import RickydataGit.Git.Listing

namespace RickydataGit.Git

open RickydataGit.Lib RickydataGit.Core

variable {X : Crates} {K : String → Prop} {s t u : ObjectStore}

/-- Cache files are added, and nothing else happens. -/
structure Fills (s t : ObjectStore) : Prop where
  refs : t.refs = s.refs
  cache : Extends s.cache t.cache

theorem Fills.refl (s : ObjectStore) : Fills s s := ⟨rfl, .refl _⟩

theorem Fills.trans (h : Fills s t) (h' : Fills t u) : Fills s u :=
  ⟨h'.refs.trans h.refs, h.cache.trans h'.cache⟩

/-- The cache files are still there, and the objects of these kinds are listed alike. -/
structure Later (X : Crates) (K : String → Prop) (s t : ObjectStore) : Prop where
  cache : Extends s.cache t.cache
  lists : ∀ kind, K kind → listEntries X (some kind) (objectRefs t) =
    listEntries X (some kind) (objectRefs s)

theorem Later.refl (X : Crates) (K : String → Prop) (s : ObjectStore) : Later X K s s :=
  ⟨.refl _, fun _ _ => rfl⟩

theorem Later.trans (h : Later X K s t) (h' : Later X K t u) : Later X K s u :=
  ⟨h.cache.trans h'.cache, fun kind hK => (h'.lists kind hK).trans (h.lists kind hK)⟩

theorem Fills.later (h : Fills s t) : Later X K s t :=
  ⟨h.cache, fun _ _ => by rw [objectRefs, objectRefs, h.refs]⟩

/-! ## Reads -/

theorem ReadEffect.fills {hex : List Char} (h : ReadEffect hex s t) : Fills s t := by
  rcases h with rfl | ⟨bytes, hnone, -, rfl⟩
  · exact .refl _
  · exact ⟨rfl, extends_insert hnone bytes⟩

theorem readCachedObject_fills (X : Crates) (objectId : String) (s : ObjectStore) :
    Fills s ((readCachedObject X objectId).run exec s).2 := by
  rcases hhex : objectHex objectId with e | hex
  · rw [readCachedObject_run_error s hhex]
    exact .refl s
  · exact (readCachedObject_effect s hhex).fills

/-- A read that succeeded finds its object in the cache ever after. -/
theorem readCachedObject_again {objectId : String} {report : ObjectReadReport}
    (hrun : (readCachedObject X objectId).run exec s = (.ok report, t))
    (hcache : Extends t.cache u.cache) :
    (readCachedObject X objectId).run exec u = (.ok { report with source := .cache }, u) := by
  rcases hhex : objectHex objectId with e | hex
  · rw [readCachedObject_run_error s hhex] at hrun
    cases hrun
  -- wherever it was read from, the bytes are in the cache now
  have hkept : ∃ bytes object, t.cache[cachePathOf hex]? = some bytes ∧
      readObjectBytes X bytes = .ok object ∧
      report = { objectId, cachePath := cachePathOf hex, source := report.source, object } := by
    rw [readCachedObject_run s hhex] at hrun
    rcases hc : s.cache[cachePathOf hex]? with _ | bytes
    · rcases hr : s.refs[refNameOf hex]? with _ | bytes
      · rw [read_run_of_missing s hhex hc hr] at hrun
        cases hrun
      · rw [read_run_of_ref s hhex hc hr] at hrun
        rcases hb : readObjectBytes X bytes with e | object
        · rw [hb] at hrun
          cases hrun
        · rw [hb] at hrun
          by_cases hd : (objectFieldDiagnostics X objectId object).1 = []
          · simp only [hd, if_true] at hrun
            cases hrun
            exact ⟨bytes, object, by simp, hb, rfl⟩
          · simp only [hd, if_false] at hrun
            cases hrun
    · rw [read_run_of_cache s hc] at hrun
      rcases hb : readObjectBytes X bytes with e | object
      · rw [hb] at hrun
        cases hrun
      · rw [hb] at hrun
        cases hrun
        exact ⟨bytes, object, hc, hb, rfl⟩
  obtain ⟨bytes, object, hbytes, hb, hreport⟩ := hkept
  rw [readCachedObject_run u hhex, read_run_of_cache u (hcache _ _ hbytes), hb, hreport]
  rfl

/-! ## Settled programs -/

/-- The program fills the cache, whether or not it succeeds. -/
def Filling {ε α : Type} (p : Prog storeOps ε α) : Prop :=
  ∀ s, Fills s (p.run exec s).2

structure Settled {ε α : Type} (X : Crates) (K : String → Prop) (p : Prog storeOps ε α) :
    Prop where
  fills : Filling p
  again : ∀ {s t u a}, p.run exec s = (.ok a, t) → Later X K t u → p.run exec u = (.ok a, u)

section Rules

variable {ε ε' α β : Type} {p : Prog storeOps ε α} {f : α → Prog storeOps ε β}

theorem filling_ret (a : α) : Filling (.ret a : Prog storeOps ε α) := fun s => .refl s

theorem filling_fail (e : ε) : Filling (.fail e : Prog storeOps ε α) := fun s => .refl s

theorem filling_ofExcept (x : Except ε α) : Filling (liftM x : Prog storeOps ε α) := fun s => by
  rw [Prog.run_ofExcept]
  exact .refl s

theorem Filling.bind (hp : Filling p) (hf : ∀ a, Filling (f a)) : Filling (p >>= f) := fun s => by
  have h := hp s
  rw [Prog.run_bind]
  rcases hrun : p.run exec s with ⟨e | a, t⟩
  · rw [hrun] at h
    exact h
  · rw [hrun] at h
    exact h.trans (hf a t)

theorem Filling.mapFail (hp : Filling p) (g : ε → ε') : Filling (p.mapFail g) := fun s => by
  rw [Prog.run_mapFail]
  exact hp s

theorem Filling.attempt (hp : Filling p) :
    Filling (p.attempt : Prog storeOps ε' (Except ε α)) := fun s => by
  rw [Prog.run_attempt]
  exact hp s

theorem settled_ret (a : α) : Settled X K (.ret a : Prog storeOps ε α) where
  fills := filling_ret a
  again hrun _ := by
    cases hrun
    rfl

theorem settled_fail (e : ε) : Settled X K (.fail e : Prog storeOps ε α) where
  fills := filling_fail e
  again hrun _ := by cases hrun

theorem settled_ofExcept (x : Except ε α) : Settled X K (liftM x : Prog storeOps ε α) where
  fills := filling_ofExcept x
  again hrun _ := by
    rw [Prog.run_ofExcept] at hrun ⊢
    rw [(Prod.mk.inj hrun).1]

theorem Settled.bind (hp : Settled X K p) (hf : ∀ a, Settled X K (f a)) :
    Settled X K (p >>= f) where
  fills := hp.fills.bind fun a => (hf a).fills
  again hrun hlater := by
    obtain ⟨a, s₁, hp₁, hf₁⟩ := Prog.run_bind_inv exec hrun
    have hfills := (hf a).fills s₁
    rw [hf₁] at hfills
    rw [Prog.run_bind_ok exec (hp.again hp₁ (hfills.later.trans hlater))]
    exact (hf a).again hf₁ hlater

theorem Settled.mapFail (hp : Settled X K p) (g : ε → ε') : Settled X K (p.mapFail g) where
  fills := hp.fills.mapFail g
  again hrun hlater := by
    rw [Prog.run_mapFail_ok_iff] at hrun ⊢
    exact hp.again hrun hlater

/-- A read, and a use of what it read. -/
theorem settled_bind_read {objectId : String} {g : GitInspectError → ε}
    {f : ObjectReadReport → Prog storeOps ε β}
    (hsource : ∀ report, f { report with source := .cache } = f report)
    (hf : ∀ report, Settled X K (f report)) :
    Settled X K ((readCachedObject X objectId).mapFail g >>= f) where
  fills := Filling.bind (fun s => by
    rw [Prog.run_mapFail]
    exact readCachedObject_fills X objectId s) fun report => (hf report).fills
  again hrun hlater := by
    obtain ⟨report, s₁, hread, hf₁⟩ := Prog.run_bind_inv exec hrun
    have hfills := (hf report).fills s₁
    rw [hf₁] at hfills
    rw [Prog.run_mapFail_ok_iff] at hread
    have hagain := readCachedObject_again hread (hfills.cache.trans hlater.cache)
    rw [Prog.run_bind_ok exec ((Prog.run_mapFail_ok_iff exec g).mpr hagain), hsource]
    exact (hf report).again hf₁ hlater

theorem settled_list {kind : String} (hK : K kind) :
    Settled X K (listRefBackedObjects X (some kind)) where
  fills s := by
    rw [listRefBackedObjects_run]
    exact .refl s
  again hrun hlater := by
    rw [listRefBackedObjects_run] at hrun ⊢
    obtain ⟨hlist, rfl⟩ := Prod.mk.inj hrun
    rw [hlater.lists kind hK, hlist]

end Rules

/-! ## Repeated programs -/

/-- A settled program that fails again where it has failed. -/
structure Repeats {ε α : Type} (X : Crates) (K : String → Prop) (p : Prog storeOps ε α) : Prop
    extends Settled X K p where
  fails : ∀ {s t e}, p.run exec s = (.error e, t) → p.run exec t = (.error e, t)

section Repeats

variable {ε ε' α β : Type} {p : Prog storeOps ε α} {f : α → Prog storeOps ε β}

/-- Run once more, it ends as before and leaves the store alone. -/
theorem Repeats.run_twice (hp : Repeats X K p) (s : ObjectStore) :
    p.run exec (p.run exec s).2 = p.run exec s := by
  rcases hrun : p.run exec s with ⟨e | a, t⟩
  · exact hp.fails hrun
  · exact hp.again hrun (.refl X K t)

theorem repeats_ret (a : α) : Repeats X K (.ret a : Prog storeOps ε α) where
  toSettled := settled_ret a
  fails hrun := by cases hrun

theorem repeats_fail (e : ε) : Repeats X K (.fail e : Prog storeOps ε α) where
  toSettled := settled_fail e
  fails hrun := by
    cases hrun
    rfl

theorem Repeats.bind (hp : Repeats X K p) (hf : ∀ a, Repeats X K (f a)) :
    Repeats X K (p >>= f) where
  toSettled := hp.toSettled.bind fun a => (hf a).toSettled
  fails {s t e} hrun := by
    rw [Prog.run_bind] at hrun
    rcases hfirst : p.run exec s with ⟨e' | a, s₁⟩
    · rw [hfirst] at hrun
      obtain ⟨he, rfl⟩ := Prod.mk.inj hrun
      rw [Prog.run_bind_error exec (hp.fails hfirst), Except.error.inj he]
    · rw [hfirst] at hrun
      replace hrun : (f a).run exec s₁ = (.error e, t) := hrun
      have hfills := (hf a).fills s₁
      rw [hrun] at hfills
      rw [Prog.run_bind_ok exec (hp.again hfirst hfills.later)]
      exact (hf a).fails hrun

theorem Repeats.mapFail (hp : Repeats X K p) (g : ε → ε') : Repeats X K (p.mapFail g) where
  toSettled := hp.toSettled.mapFail g
  fails {s t e} hrun := by
    rw [Prog.run_mapFail] at hrun ⊢
    rcases hfirst : p.run exec s with ⟨e' | a, s₁⟩
    · rw [hfirst] at hrun
      obtain ⟨he, rfl⟩ := Prod.mk.inj hrun
      rw [hp.fails hfirst, he]
    · rw [hfirst] at hrun
      cases hrun

/-- A read that fails leaves the store alone. -/
theorem readCachedObject_failed {objectId : String} {e : GitInspectError}
    (hrun : (readCachedObject X objectId).run exec s = (.error e, t)) : t = s := by
  rcases hhex : objectHex objectId with e' | hex
  · rw [readCachedObject_run_error s hhex] at hrun
    exact (Prod.mk.inj hrun).2.symm
  rw [readCachedObject_run s hhex] at hrun
  rcases hc : s.cache[cachePathOf hex]? with _ | bytes
  · rcases hr : s.refs[refNameOf hex]? with _ | bytes
    · rw [read_run_of_missing s hhex hc hr] at hrun
      exact (Prod.mk.inj hrun).2.symm
    · rw [read_run_of_ref s hhex hc hr] at hrun
      rcases hb : readObjectBytes X bytes with e' | object
      · rw [hb] at hrun
        exact (Prod.mk.inj hrun).2.symm
      · rw [hb] at hrun
        by_cases hd : (objectFieldDiagnostics X objectId object).1 = []
        · simp only [hd, if_true] at hrun
          cases hrun
        · simp only [hd, if_false] at hrun
          exact (Prod.mk.inj hrun).2.symm
  · rw [read_run_of_cache s hc] at hrun
    rcases hb : readObjectBytes X bytes with e' | object
    · rw [hb] at hrun
      exact (Prod.mk.inj hrun).2.symm
    · rw [hb] at hrun
      cases hrun

theorem repeats_bind_read {objectId : String} {g : GitInspectError → ε}
    {f : ObjectReadReport → Prog storeOps ε β}
    (hsource : ∀ report, f { report with source := .cache } = f report)
    (hf : ∀ report, Repeats X K (f report)) :
    Repeats X K ((readCachedObject X objectId).mapFail g >>= f) where
  toSettled := settled_bind_read hsource fun report => (hf report).toSettled
  fails {s t e} hrun := by
    rw [Prog.run_bind, Prog.run_mapFail] at hrun
    rcases hread : (readCachedObject X objectId).run exec s with ⟨e' | report, s₁⟩
    · obtain rfl := readCachedObject_failed hread
      rw [hread] at hrun
      obtain ⟨he, rfl⟩ := Prod.mk.inj hrun
      rw [Prog.run_bind, Prog.run_mapFail, hread]
      exact congrArg (·, s₁) he
    · rw [hread] at hrun
      replace hrun : (f report).run exec s₁ = (.error e, t) := hrun
      have hfills := (hf report).fills s₁
      rw [hrun] at hfills
      have hagain := readCachedObject_again hread hfills.cache
      rw [Prog.run_bind_ok exec ((Prog.run_mapFail_ok_iff exec g).mpr hagain), hsource]
      exact (hf report).fails hrun

theorem repeats_list {kind : String} (hK : K kind) :
    Repeats X K (listRefBackedObjects X (some kind)) where
  toSettled := settled_list hK
  fails hrun := by
    rw [listRefBackedObjects_run] at hrun ⊢
    obtain ⟨hlist, rfl⟩ := Prod.mk.inj hrun
    rw [hlist]

end Repeats

end RickydataGit.Git
