/-
  Writing again.

  `Recorded X w s`: the bytes of the write `w` are in its cache file, and its reference
  points to a blob of the same id. A write that succeeds leaves this (`recorded_of_ok`),
  no later write takes it away (`Recorded.mono`, `WriteCall.extends`), and where it holds
  the same write succeeds and changes nothing (`Recorded.again`).

  Nothing is assumed of the hash function: another write under the same id succeeds only
  with the same bytes (`Recorded.bytes_eq`), since the cache file is compared whole.
-/
import RickydataGit.Lib.Keyed
import RickydataGit.Git.RoundTrip

namespace RickydataGit.Git

open RickydataGit.Lib RickydataGit.Core

variable {X : Crates} {w w' : WriteCall} {s s' : ObjectStore} {report : ObjectWriteReport}

/-! ## A write only adds -/

theorem CacheStep.extends {path : String} {bytes : Bytes} (h : CacheStep path bytes s s') :
    Extends s.cache s'.cache ∧ s'.refs = s.refs := by
  rcases h with ⟨-, rfl⟩ | ⟨hnone, rfl⟩
  · exact ⟨.refl _, rfl⟩
  · exact ⟨extends_insert hnone bytes, rfl⟩

theorem StoreEffect.extends {hex : List Char} {bytes : Bytes} {ok : Bool}
    (h : StoreEffect X hex bytes s ok s') : Extends s.cache s'.cache ∧ Extends s.refs s'.refs := by
  cases h with
  | conflict => exact ⟨.refl _, .refl _⟩
  | refused hcache => exact ⟨hcache.extends.1, hcache.refs ▸ .refl _⟩
  | present hcache => exact ⟨hcache.extends.1, hcache.refs ▸ .refl _⟩
  | @created s₁ hcache hnone =>
    refine ⟨hcache.extends.1, ?_⟩
    show Extends s.refs (s₁.refs.insert (refNameOf hex) bytes)
    rw [hcache.refs]
    exact extends_insert hnone bytes

theorem WriteCall.extends (w : WriteCall) (s : ObjectStore) :
    Extends s.cache ((w.prog X).run exec s).2.cache ∧
      Extends s.refs ((w.prog X).run exec s).2.refs := by
  by_cases hv : (w.object X).Valid X
  · obtain ⟨m, -, hhex⟩ := objectHex_of_valid hv
    rw [WriteCall.run_of_valid hv]
    exact (storeObject_effect (X := X) s hhex (w.bytes X)).1.extends
  · obtain ⟨e, he⟩ := WriteCall.run_of_not_valid hv s
    rw [he]
    exact ⟨.refl _, .refl _⟩

/-! ## Recorded writes -/

structure Recorded (X : Crates) (w : WriteCall) (s : ObjectStore) : Prop where
  valid : (w.object X).Valid X
  cache : ∀ hex, objectHex (w.object X).objectId = .ok hex →
    s.cache[cachePathOf hex]? = some (w.bytes X)
  ref : ∀ hex, objectHex (w.object X).objectId = .ok hex →
    ∃ b, s.refs[refNameOf hex]? = some b ∧ X.blobId b = X.blobId (w.bytes X)

theorem Recorded.mono (h : Recorded X w s) (hcache : Extends s.cache s'.cache)
    (hrefs : Extends s.refs s'.refs) : Recorded X w s' where
  valid := h.valid
  cache hex hhex := hcache _ _ (h.cache hex hhex)
  ref hex hhex := by
    obtain ⟨b, hb, hblob⟩ := h.ref hex hhex
    exact ⟨b, hrefs _ _ hb, hblob⟩

theorem recorded_of_ok (hrun : (w.prog X).run exec s = (.ok report, s')) : Recorded X w s' := by
  by_cases hv : (w.object X).Valid X
  · obtain ⟨m, -, hhex⟩ := objectHex_of_valid hv
    rw [WriteCall.run_of_valid hv] at hrun
    have heffect := (storeObject_effect (X := X) s hhex (w.bytes X)).1
    rw [hrun] at heffect
    generalize hok : (Except.ok report : Except GitInspectError ObjectWriteReport).isOk = ok
      at heffect
    refine ⟨hv, fun hex' hhex' => ?_, fun hex' hhex' => ?_⟩ <;>
      obtain rfl := Except.ok.inj (hhex.symm.trans hhex')
    · cases heffect with
      | conflict => cases hok
      | refused => cases hok
      | present hcache => exact hcache.cache
      | created hcache => exact hcache.cache
    · cases heffect with
      | conflict => cases hok
      | refused => cases hok
      | @present s₁ b hcache href hblob => exact ⟨b, by rw [hcache.refs, href], hblob⟩
      | created => exact ⟨w.bytes X, by simp, rfl⟩
  · obtain ⟨e, he⟩ := WriteCall.run_of_not_valid hv s
    rw [he] at hrun
    cases hrun

/-- The same write once more: nothing is added. -/
theorem Recorded.again (h : Recorded X w s) :
    ∃ report, (w.prog X).run exec s = (.ok report, s) ∧
      report.objectId = (w.object X).objectId := by
  obtain ⟨m, -, hhex⟩ := objectHex_of_valid h.valid
  obtain ⟨b, hb, hblob⟩ := h.ref _ hhex
  have hcache : (writeObjectCacheBytes (cachePathOf (hexEncode (X.sha256 m)).toList)
      (w.object X).objectId (w.bytes X)).run exec s = (.ok .alreadyExists, s) := by
    rw [writeObjectCacheBytes_run, h.cache _ hhex]
    exact if_neg (not_not.mpr rfl)
  rw [WriteCall.run_of_valid h.valid, storeObject_run s hhex, hcache]
  simp only [writeGitObjectRef_run, hb, hblob, ne_eq, not_true_eq_false, if_false]
  exact ⟨_, rfl, rfl⟩

/-- What succeeds under the same id has the same bytes. -/
theorem Recorded.bytes_eq (h : Recorded X w s) (hid : (w'.object X).objectId = (w.object X).objectId)
    (hrun : (w'.prog X).run exec s = (.ok report, s')) : w'.bytes X = w.bytes X := by
  have h' := recorded_of_ok hrun
  obtain ⟨m, -, hhex⟩ := objectHex_of_valid h.valid
  have hold : s'.cache[cachePathOf (hexEncode (X.sha256 m)).toList]? = some (w.bytes X) := by
    have hextends := (w'.extends (X := X) s).1
    rw [hrun] at hextends
    exact hextends _ _ (h.cache _ hhex)
  have hnew := h'.cache _ (by rw [hid]; exact hhex)
  exact Option.some.inj (hnew.symm.trans hold)

end RickydataGit.Git
