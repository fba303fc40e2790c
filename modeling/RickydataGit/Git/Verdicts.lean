/-
  Verifying an object twice.

  The verdict of a report is its `valid` flag, its diagnostic codes and its signature
  counts. A verification that reads the object from its reference leaves the blob in
  the cache (`Restores`); nothing else changes a store. The next verification finds
  the cache file and compares the reference with the canonical bytes of the object,
  which the first one did not.

  `verdict_unchanged_iff`: after the verification of one id the verdict on another is
  what it was, unless the first restored the cache file that the second reads and
  either the blob is not in canonical form or the ids are two spellings of one hash.
-/
import RickydataGit.Git.Content

namespace RickydataGit.Git

open RickydataGit.Lib RickydataGit.Core

/-! ## Verdicts -/

structure Verdict where
  valid : Bool
  codes : Finset String
  signatureCount : UInt32
  validSignatureCount : UInt32
  deriving DecidableEq

def ObjectVerifyReport.verdict (report : ObjectVerifyReport) : Verdict where
  valid := report.valid
  codes := (report.diagnostics.map ObjectDiagnostic.code).toFinset
  signatureCount := report.signatureCount
  validSignatureCount := report.validSignatureCount

variable (X : Crates)

/-- What a verification answers. -/
def verdictOf (s : ObjectStore) (objectId : String) : Except GitInspectError Verdict :=
  ((verifyCachedObject X objectId).run exec s).1.map ObjectVerifyReport.verdict

/-- The store a verification leaves. -/
def verified (objectId : String) (s : ObjectStore) : ObjectStore :=
  ((verifyCachedObject X objectId).run exec s).2

/-- Without a cache file, the referenced blob is an object of this id. -/
structure Restores (s : ObjectStore) (objectId : String) (hex : List Char) (bytes : Bytes)
    (o : CanonicalObject) : Prop where
  spelled : objectHex objectId = .ok hex
  uncached : s.cache[cachePathOf hex]? = none
  blob : s.refs[refNameOf hex]? = some bytes
  parsed : readObjectBytes X bytes = .ok o
  fields : (objectFieldDiagnostics X objectId o).1 = []

variable {X} {s s' : ObjectStore} {a b objectId : String} {hex : List Char} {bytes : Bytes}
  {o : CanonicalObject}

/-! ## What is read -/

/-- A verification looks at the cache file and the reference of its id only. -/
theorem verify_frame (hhex : objectHex objectId = .ok hex)
    (hc : s'.cache[cachePathOf hex]? = s.cache[cachePathOf hex]?)
    (hr : s'.refs[refNameOf hex]? = s.refs[refNameOf hex]?) :
    ((verifyCachedObject X objectId).run exec s').1 =
      ((verifyCachedObject X objectId).run exec s).1 := by
  rcases hcache : s.cache[cachePathOf hex]? with _ | cached
  · rw [hcache] at hc
    rw [verify_run_of_no_cache s hhex hcache, verify_run_of_no_cache s' hhex hc]
    rcases href : s.refs[refNameOf hex]? with _ | blob
    · rw [read_run_of_missing s hhex hcache href,
        read_run_of_missing s' hhex hc (hr.trans href)]
    · rw [read_run_of_ref s hhex hcache href, read_run_of_ref s' hhex hc (hr.trans href)]
      rcases readObjectBytes X blob with e | object
      · cases e <;> rfl
      · by_cases hf : (objectFieldDiagnostics X objectId object).1 = []
        · simp only [hf, if_true]
        · simp only [hf, if_false]
          rfl
  · rw [hcache] at hc
    rw [verify_run_of_cache s hhex hcache, verify_run_of_cache s' hhex hc]
    rcases readObjectBytes X cached with e | object
    · rfl
    · simp only [refConsistencyDiagnostics_run s hhex, refConsistencyDiagnostics_run s' hhex, hr]

/-- The object is verified as the reference has it, and cached. -/
theorem Restores.run (h : Restores X s objectId hex bytes o) :
    (verifyCachedObject X objectId).run exec s =
      (.ok (verifyObjectFields X objectId (cachePathOf hex) .gitRef o []),
        s.writeCache (cachePathOf hex) bytes) := by
  rw [verify_run_of_no_cache s h.spelled h.uncached, read_run_of_ref s h.spelled h.uncached h.blob,
    h.parsed]
  simp only [h.fields, if_true]

theorem Restores.content (h : Restores X s objectId hex bytes o) : content s hex = some bytes := by
  rw [Git.content, h.uncached, h.blob]
  rfl

theorem Restores.verified (h : Restores X s objectId hex bytes o) :
    verified X objectId s = s.writeCache (cachePathOf hex) bytes := by
  rw [Git.verified, h.run]

/-- A verification that restores nothing changes nothing. -/
theorem verified_of_not_restores (h : ∀ hex bytes o, ¬ Restores X s objectId hex bytes o) :
    verified X objectId s = s := by
  rw [verified]
  rcases hhex : objectHex objectId with e | hex
  · rw [verifyCachedObject_run_error s hhex]
  rcases hcache : s.cache[cachePathOf hex]? with _ | cached
  · rw [verify_run_of_no_cache s hhex hcache]
    rcases href : s.refs[refNameOf hex]? with _ | blob
    · rw [read_run_of_missing s hhex hcache href]
    · rw [read_run_of_ref s hhex hcache href]
      rcases hb : readObjectBytes X blob with e | object
      · cases e <;> rfl
      · have hf : (objectFieldDiagnostics X objectId object).1 ≠ [] := fun hf =>
          h hex blob object ⟨hhex, hcache, href, hb, hf⟩
        simp only [hf, if_false]
        rfl
  · rw [verify_run_of_cache s hhex hcache]
    rcases readObjectBytes X cached with e | object
    · rfl
    · simp only [refConsistencyDiagnostics_run s hhex]

/-! ## The first and the second verdict -/

/-- The verdict of the field checks and of the caller's findings. -/
theorem codes_verifyObjectFields (path : String) (source : ObjectReadSource)
    (ds : List ObjectDiagnostic) {code : String} (hcode : isSignatureWarning code = false) :
    code ∈ (verifyObjectFields X objectId path source o ds).verdict.codes ↔
      code ∈ (ds ++ (objectFieldDiagnostics X objectId o).1).map ObjectDiagnostic.code := by
  obtain ⟨ws, hws, he⟩ := verifyObjectFields_diagnostics (X := X) objectId path source o ds
  rw [ObjectVerifyReport.verdict, List.mem_toFinset, he, List.map_append, List.mem_append]
  constructor
  · rintro (h | h)
    · exact h
    · obtain ⟨d, hd, rfl⟩ := List.mem_map.mp h
      rw [hws d hd] at hcode
      cases hcode
  · exact .inl

theorem Restores.verdictOf (h : Restores X s objectId hex bytes o) :
    verdictOf X s objectId =
      .ok (verifyObjectFields X objectId (cachePathOf hex) .gitRef o []).verdict := by
  rw [Git.verdictOf, h.run]
  rfl

/-- Under another spelling of the hash the blob is refused. -/
theorem Restores.verdictOf_spelling (h : Restores X s a hex bytes o) (hb : objectHex b = .ok hex)
    (hne : b ≠ a) : ∃ verdict, Git.verdictOf X s b = .ok verdict ∧ verdict.codes = {"OBJECT007"} := by
  have hid := (objectFieldDiagnostics_eq_nil_iff.mp h.fields).1
  have hf : (objectFieldDiagnostics X b o).1 ≠ [] := fun hf =>
    hne ((objectFieldDiagnostics_eq_nil_iff.mp hf).1.symm.trans hid)
  rw [Git.verdictOf, verify_run_of_no_cache s hb h.uncached, read_run_of_ref s hb h.uncached h.blob,
    h.parsed]
  simp only [hf, if_false]
  exact ⟨_, rfl, rfl⟩

/-- The second report compares the reference with the canonical bytes. -/
theorem Restores.verdictOf_verified (h : Restores X s a hex bytes o) (hb : objectHex b = .ok hex) :
    Git.verdictOf X (Git.verified X a s) b =
      .ok (verifyObjectFields X b (cachePathOf hex) .cache o
        (if bytes ≠ canonicalObjectBytes X o then
          [⟨"OBJECT006", "ref-backed object bytes do not match the local cached object"⟩]
        else [])).verdict := by
  have hcached : (s.writeCache (cachePathOf hex) bytes).cache[cachePathOf hex]? = some bytes := by
    rw [ObjectStore.cache_writeCache, if_pos rfl]
  rw [h.verified, Git.verdictOf, verify_run_of_cache _ hb hcached, h.parsed]
  simp only [refConsistencyDiagnostics_run _ hb, ObjectStore.refs_writeCache, h.blob]
  rfl

/-- Where an object comes from is no part of the verdict. -/
theorem verdict_source (path : String) (source source' : ObjectReadSource)
    (ds : List ObjectDiagnostic) :
    (verifyObjectFields X objectId path source o ds).verdict =
      (verifyObjectFields X objectId path source' o ds).verdict := rfl

theorem Restores.unchanged_iff (h : Restores X s a hex bytes o)
    (hb : objectHex b = .ok hex) :
    Git.verdictOf X (Git.verified X a s) b = Git.verdictOf X s b ↔
      b = a ∧ bytes = canonicalObjectBytes X o := by
  by_cases hba : b = a
  · subst hba
    rw [h.verdictOf_verified hb, h.verdictOf]
    by_cases hbytes : bytes = canonicalObjectBytes X o
    · rw [if_neg (not_not_intro hbytes), verdict_source _ .cache .gitRef]
      exact iff_of_true rfl ⟨rfl, hbytes⟩
    · refine iff_of_false (fun he => ?_) fun hc => hbytes hc.2
      -- the finding of the second report is none of the first
      have hsecond := (@codes_verifyObjectFields X b o (cachePathOf hex) .cache
        (if bytes ≠ canonicalObjectBytes X o then
          [⟨"OBJECT006", "ref-backed object bytes do not match the local cached object"⟩]
        else []) "OBJECT006" rfl).mpr (by rw [if_pos hbytes]; simp)
      rw [Except.ok.inj he, codes_verifyObjectFields _ _ _ rfl, h.fields] at hsecond
      simp at hsecond
  · refine iff_of_false (fun he => ?_) fun hc => hba hc.1
    obtain ⟨verdict, hverdict, hcodes⟩ := h.verdictOf_spelling hb hba
    rw [h.verdictOf_verified hb, hverdict] at he
    have hid := (objectFieldDiagnostics_eq_nil_iff.mp h.fields).1
    -- the object is there now, under the other spelling
    have hsecond := (@codes_verifyObjectFields X b o (cachePathOf hex) .cache
      (if bytes ≠ canonicalObjectBytes X o then
        [⟨"OBJECT006", "ref-backed object bytes do not match the local cached object"⟩]
      else []) "OBJECT003" rfl).mpr (by
        have hne : o.objectId ≠ b := fun h' => hba (h'.symm.trans hid)
        simp [objectFieldDiagnostics, hne])
    rw [Except.ok.inj he, hcodes] at hsecond
    simp at hsecond

/-- After a verification of `a` the verdict on `b` is what it was, except where `a`
    restored the cache file of `b` from a blob that is not canonical or that has another
    spelling of `b` as its id. -/
theorem verdict_unchanged_iff (X : Crates) (s : ObjectStore) (a b : String) :
    verdictOf X (verified X a s) b = verdictOf X s b ↔
      ∀ hex bytes o, Restores X s a hex bytes o → objectHex b = .ok hex →
        b = a ∧ bytes = canonicalObjectBytes X o := by
  by_cases h : ∃ hex bytes o, Restores X s a hex bytes o
  · obtain ⟨hex, bytes, o, h⟩ := h
    -- the id determines the rest
    have hunique : ∀ hex' bytes' o', Restores X s a hex' bytes' o' →
        hex' = hex ∧ bytes' = bytes ∧ o' = o := by
      intro hex' bytes' o' h'
      obtain rfl := Except.ok.inj (h'.spelled.symm.trans h.spelled)
      obtain rfl := Option.some.inj (h'.blob.symm.trans h.blob)
      exact ⟨rfl, rfl, Except.ok.inj (h'.parsed.symm.trans h.parsed)⟩
    by_cases hb : objectHex b = .ok hex
    · rw [h.unchanged_iff hb]
      constructor
      · intro hc hex' bytes' o' h' _
        obtain ⟨-, rfl, rfl⟩ := hunique hex' bytes' o' h'
        exact hc
      · exact fun hall => hall hex bytes o h hb
    · refine iff_of_true ?_ fun hex' bytes' o' h' hb' => ?_
      · rcases hhex : objectHex b with e | hexB
        · rw [verdictOf, verdictOf, verifyCachedObject_run_error _ hhex,
            verifyCachedObject_run_error _ hhex]
        · have hne : hex ≠ hexB := fun he => hb (by rw [hhex, he])
          have hpath : cachePathOf hex ≠ cachePathOf hexB := fun he => hne
            (cachePathOf_inj ((objectHex_length h.spelled).trans (objectHex_length hhex).symm) he)
          rw [verdictOf, verdictOf, h.verified, verify_frame (s := s) hhex
            (by simp [hpath]) (by simp)]
      · obtain ⟨rfl, -, -⟩ := hunique hex' bytes' o' h'
        exact absurd hb' hb
  · have hnone : ∀ hex bytes o, ¬ Restores X s a hex bytes o := fun hex bytes o h' =>
      h ⟨hex, bytes, o, h'⟩
    rw [verified_of_not_restores hnone]
    exact iff_of_true rfl fun hex bytes o h' => absurd h' (hnone hex bytes o)

/-! ## What passes -/

/-- What a verification with `valid` set has found. -/
structure Passing (X : Crates) (s : ObjectStore) (objectId : String) (hex : List Char)
    (bytes : Bytes) (o : CanonicalObject) : Prop where
  spelled : objectHex objectId = .ok hex
  found : content s hex = some bytes
  parsed : readObjectBytes X bytes = .ok o
  fields : (objectFieldDiagnostics X objectId o).1 = []
  /-- A reference beside a cache file is compared. -/
  compared : ∀ blob, (s.cache[cachePathOf hex]?).isSome → s.refs[refNameOf hex]? = some blob →
    blob = canonicalObjectBytes X o

theorem valid_verifyObjectFields_iff (path : String) (source : ObjectReadSource)
    (ds : List ObjectDiagnostic) :
    (verifyObjectFields X objectId path source o ds).valid = true ↔
      (∀ d ∈ ds, isSignatureWarning d.code = true) ∧ (objectFieldDiagnostics X objectId o).1 = [] := by
  obtain ⟨ws, hws, he⟩ := verifyObjectFields_diagnostics (X := X) objectId path source o ds
  have hvalid : (verifyObjectFields X objectId path source o ds).valid =
      !(verifyObjectFields X objectId path source o ds).diagnostics.any
        fun d => !isSignatureWarning d.code := rfl
  rw [hvalid, he, Bool.not_eq_true', List.any_eq_false]
  constructor
  · intro h
    refine ⟨fun d hd => by simpa using h d (by simp [hd]),
      List.eq_nil_iff_forall_not_mem.mpr fun d hd => ?_⟩
    have hwarn := h d (by simp [hd])
    rw [not_warning_of_mem_fields hd] at hwarn
    simp at hwarn
  · rintro ⟨hds, hfields⟩ d hd
    rw [hfields, List.append_nil, List.mem_append] at hd
    rcases hd with hd | hd
    · simp [hds d hd]
    · simp [hws d hd]

/-- An object that passes is reported on without findings of the store. -/
theorem Passing.run (h : Passing X s objectId hex bytes o) :
    ∃ source s', (verifyCachedObject X objectId).run exec s =
      (.ok (verifyObjectFields X objectId (cachePathOf hex) source o []), s') := by
  have hfound := h.found
  rcases hcache : s.cache[cachePathOf hex]? with _ | cached
  · rw [content, hcache, Option.none_or] at hfound
    exact ⟨.gitRef, _, Restores.run ⟨h.spelled, hcache, hfound, h.parsed, h.fields⟩⟩
  · rw [content, hcache, Option.some_or] at hfound
    obtain rfl := Option.some.inj hfound
    refine ⟨.cache, s, ?_⟩
    rw [verify_run_of_cache s h.spelled hcache, h.parsed]
    simp only [refConsistencyDiagnostics_run s h.spelled]
    rcases href : s.refs[refNameOf hex]? with _ | blob
    · rfl
    · have heq := h.compared blob (by rw [hcache]; rfl) href
      simp only [heq, ne_eq, not_true_eq_false, if_false]

/-- What a report is on: nothing that could be read, or the object of the id, with the
    reference compared if there is a cache file. -/
theorem verify_report {report : ObjectVerifyReport}
    (hrun : (verifyCachedObject X objectId).run exec s = (.ok report, s')) :
    (∃ path source diagnostic, report = unreadable objectId path source diagnostic) ∨
    ∃ hex bytes o source ds, objectHex objectId = .ok hex ∧ content s hex = some bytes ∧
      readObjectBytes X bytes = .ok o ∧
      report = verifyObjectFields X objectId (cachePathOf hex) source o ds ∧
      (∀ d ∈ ds, isSignatureWarning d.code = false) ∧
      (ds = [] → ∀ blob, (s.cache[cachePathOf hex]?).isSome →
        s.refs[refNameOf hex]? = some blob → blob = canonicalObjectBytes X o) := by
  have hresult := congrArg Prod.fst hrun
  rcases hhex : objectHex objectId with e | hex
  · rw [verifyCachedObject_run_error s hhex] at hresult
    cases hresult
  rcases hcache : s.cache[cachePathOf hex]? with _ | cached
  · rw [verify_run_of_no_cache s hhex hcache] at hresult
    rcases href : s.refs[refNameOf hex]? with _ | blob
    · rw [read_run_of_missing s hhex hcache href] at hresult
      exact .inl ⟨_, _, _, (Except.ok.inj hresult).symm⟩
    · rw [read_run_of_ref s hhex hcache href] at hresult
      rcases hb : readObjectBytes X blob with e | object
      · rw [hb] at hresult
        cases e <;> exact .inl ⟨_, _, _, (Except.ok.inj hresult).symm⟩
      · rw [hb] at hresult
        by_cases hf : (objectFieldDiagnostics X objectId object).1 = []
        · simp only [hf, if_true] at hresult
          refine .inr ⟨hex, blob, object, .gitRef, [], rfl, ?_, hb,
            (Except.ok.inj hresult).symm, by simp, fun _ blob' hsome => ?_⟩
          · rw [content, hcache, Option.none_or, href]
          · rw [hcache] at hsome
            cases hsome
        · simp only [hf, if_false] at hresult
          exact .inl ⟨_, _, _, (Except.ok.inj hresult).symm⟩
  · rw [verify_run_of_cache s hhex hcache] at hresult
    rcases hb : readObjectBytes X cached with e | object
    · rw [hb] at hresult
      exact .inl ⟨_, _, _, (Except.ok.inj hresult).symm⟩
    · rw [hb] at hresult
      simp only [refConsistencyDiagnostics_run s hhex] at hresult
      refine .inr ⟨hex, cached, object, .cache, _, rfl, by rw [content, hcache, Option.some_or], hb,
        (Except.ok.inj hresult).symm, fun d hd => ?_, fun hnil blob _ href => ?_⟩
      · rcases href : s.refs[refNameOf hex]? with _ | blob
        · rw [href] at hd
          cases hd
        · rw [href] at hd
          dsimp only at hd
          split at hd
          · rw [List.mem_singleton.mp hd]
            decide
          · simp at hd
      · rw [href] at hnil
        by_contra hne
        simp [hne] at hnil

/-- A valid report is on an object that passes. -/
theorem passing_of_valid {report : ObjectVerifyReport}
    (hrun : (verifyCachedObject X objectId).run exec s = (.ok report, s'))
    (hvalid : report.valid = true) : ∃ hex bytes o, Passing X s objectId hex bytes o := by
  rcases verify_report hrun with ⟨path, source, diagnostic, rfl⟩ |
    ⟨hex, bytes, o, source, ds, hhex, hfound, hparsed, rfl, hds, hcompared⟩
  · cases hvalid
  · obtain ⟨hwarn, hfields⟩ := (valid_verifyObjectFields_iff ..).mp hvalid
    have hnil : ds = [] := List.eq_nil_iff_forall_not_mem.mpr fun d hd => by
      have hno := hds d hd
      rw [hwarn d hd] at hno
      cases hno
    exact ⟨hex, bytes, o, hhex, hfound, hparsed, hfields, hcompared hnil⟩

theorem verify_valid_iff :
    (∃ report, ((verifyCachedObject X objectId).run exec s).1 = .ok report ∧ report.valid = true) ↔
      ∃ hex bytes o, Passing X s objectId hex bytes o := by
  constructor
  · rintro ⟨report, hrun, hvalid⟩
    obtain ⟨s', hrun⟩ := Prog.exists_run_eq exec hrun
    exact passing_of_valid hrun hvalid
  · rintro ⟨hex, bytes, o, h⟩
    obtain ⟨source, s', hrun⟩ := h.run
    exact ⟨_, congrArg Prod.fst hrun,
      (valid_verifyObjectFields_iff ..).mpr ⟨by simp, h.fields⟩⟩

theorem signatureLoop_clean_iff (ss : List ActorSignature) (index : Nat)
    (summary : SignatureSummary) (ds : List ObjectDiagnostic) :
    (signatureLoop X o index ss (summary, ds)).2 = [] ↔
      ds = [] ∧ ∀ signature ∈ ss, verifying X o signature = true := by
  induction ss generalizing index summary ds with
  | nil => simp [signatureLoop]
  | cons signature ss ih =>
    rw [signatureLoop, List.forall_mem_cons]
    have hsignature := signatureDiagnostic_eq_none_iff (X := X) (o := o) index signature
    cases hd : signatureDiagnostic X o index signature with
    | none =>
      have hv : verifying X o signature = true := decide_eq_true (hsignature.mp hd)
      simp only [ih, hv, true_and]
    | some d =>
      have hv : ¬ verifying X o signature = true := fun hv => by
        rw [hsignature.mpr (of_decide_eq_true hv)] at hd
        cases hd
      simp only [ih, hv, false_and, and_false, List.append_eq_nil_iff, List.cons_ne_nil,
        Bool.false_eq_true]

/-- No findings at all: the object passes and every signature verifies. -/
theorem verify_clean_iff {report : ObjectVerifyReport}
    (hrun : (verifyCachedObject X objectId).run exec s = (.ok report, s')) :
    report.diagnostics = [] ↔ ∃ hex bytes o, Passing X s objectId hex bytes o ∧
      ∀ signature ∈ o.signatures, verifying X o signature = true := by
  have hclean : ∀ {hex bytes o}, Passing X s objectId hex bytes o →
      (report.diagnostics = [] ↔ ∀ signature ∈ o.signatures, verifying X o signature = true) := by
    intro hex bytes o h
    obtain ⟨source, s₁, hpassing⟩ := h.run
    have hreport := Except.ok.inj (congrArg Prod.fst (hrun.symm.trans hpassing))
    have hds : report.diagnostics =
        (appendSignatureDiagnostics X o ([] ++ (objectFieldDiagnostics X objectId o).1)).2 := by
      rw [hreport]
      rfl
    rw [hds, h.fields, appendSignatureDiagnostics, signatureLoop_clean_iff]
    simp
  constructor
  · intro hnil
    have hvalid : report.valid = true := by
      rcases verify_report hrun with ⟨path, source, diagnostic, rfl⟩ |
        ⟨hex, bytes, o, source, ds, hhex, hfound, hparsed, rfl, hds, hcompared⟩
      · cases hnil
      · have hflag : (verifyObjectFields X objectId (cachePathOf hex) source o ds).valid =
            !(verifyObjectFields X objectId (cachePathOf hex) source o ds).diagnostics.any
              fun d => !isSignatureWarning d.code := rfl
        rw [hflag, hnil]
        rfl
    obtain ⟨hex, bytes, o, h⟩ := passing_of_valid hrun hvalid
    exact ⟨hex, bytes, o, h, (hclean h).mp hnil⟩
  · rintro ⟨hex, bytes, o, h, hverifying⟩
    exact (hclean h).mpr hverifying

/-- The reference of an object that passes has the bytes that are read, unless the cache
    file is no canonical text. -/
theorem Passing.ref_eq_iff (h : Passing X s objectId hex bytes o) :
    (∀ blob, s.refs[refNameOf hex]? = some blob → blob = bytes) ↔
      ((s.cache[cachePathOf hex]?).isSome → (s.refs[refNameOf hex]?).isSome →
        bytes = canonicalObjectBytes X o) := by
  constructor
  · intro hall hcache href
    obtain ⟨blob, hblob⟩ := Option.isSome_iff_exists.mp href
    rw [← hall blob hblob]
    exact h.compared blob hcache hblob
  · intro hcanonical blob hblob
    have hfound := h.found
    rcases hcache : s.cache[cachePathOf hex]? with _ | cached
    · rw [content, hcache, Option.none_or, hblob] at hfound
      exact Option.some.inj hfound
    · have hsome : (s.cache[cachePathOf hex]?).isSome := by rw [hcache]; rfl
      rw [hcanonical hsome (by rw [hblob]; rfl)]
      exact h.compared blob hsome hblob

/-! ## A blob with white space -/

/-- The pretty text of an object is not its canonical one. -/
theorem toVecPretty_ne_canonicalObjectBytes (X : Crates) (o : CanonicalObject) :
    toVecPretty X.floatText o.toValue ≠ canonicalObjectBytes X o := by
  intro he
  have hchars := ofList_inj (utf8_inj he)
  have htree : ∃ k v ms, (canonicalJson o.toValue).tree = .obj ((k, v) :: ms) := by
    have hobj : ∃ ms, (canonicalJson o.toValue).tree = .obj ms := by
      refine ⟨_, Json.normalize_obj canonicalNumber _⟩
    obtain ⟨ms, hms⟩ := hobj
    rcases ms with _ | ⟨⟨k, v⟩, ms⟩
    · have hempty : canonicalJson o.toValue = .obj [] (by simp) := Value.ext_tree hms
      have hget := get_canonicalJson o.toValue "kind"
      rw [o.get_toValue.2.1, hempty, Value.get_obj] at hget
      cases hget
    · exact ⟨k, v, ms, hms⟩
  obtain ⟨k, v, ms, htree⟩ := htree
  rw [htree] at hchars
  -- a line break follows the brace in the one, a quote in the other
  have hsecond := congrArg (fun cs => cs[1]?) hchars
  simp [CanonicalObject.toValue, Value.obj, Json.print, Layout.pretty, Layout.compact, quote]
    at hsecond

/-- A store that was sent these bytes for the id, and nothing else. -/
def refStore (objectId : String) (bytes : Bytes) : ObjectStore :=
  match objectRefName objectId with
  | .ok refName => ObjectStore.empty.writeRef refName bytes
  | .error _ => .empty

theorem refStore_restores (h : o.Valid X) (hb : readObjectBytes X bytes = .ok o) :
    ∃ hex, Restores X (refStore o.objectId bytes) o.objectId hex bytes o := by
  obtain ⟨m, -, hhex⟩ := objectHex_of_valid h
  have hs : refStore o.objectId bytes =
      ObjectStore.empty.writeRef (refNameOf (hexEncode (X.sha256 m)).toList) bytes := by
    rw [refStore, objectRefName_eq hhex]
  refine ⟨_, hhex, ?_, ?_, hb, objectFieldDiagnostics_eq_nil_iff.mpr ⟨rfl, h⟩⟩
  · rw [hs]
    simp [ObjectStore.empty]
  · rw [hs]
    simp

theorem readObjectBytes_toVecPretty (hX : ReadsBack X) (o : CanonicalObject) :
    readObjectBytes X (toVecPretty X.floatText o.toValue) = .ok o := by
  rw [readObjectBytes, objectFromSlice, hX.pretty, Option.bind_some, o.ofValue_toValue]
  rfl

def indentedObject : CanonicalObject :=
  cachedObject .reference "agent.note" (.obj [("text", .str "hello")] (by simp))

def indentedBlob : Bytes := toVecPretty Crates.reference.floatText indentedObject.toValue

/-- The first verification passes, the second one does not. -/
theorem indentedBlob_verdict_changes :
    verdictOf .reference (verified .reference indentedObject.objectId
        (refStore indentedObject.objectId indentedBlob)) indentedObject.objectId ≠
      verdictOf .reference (refStore indentedObject.objectId indentedBlob)
        indentedObject.objectId := by
  have hv : indentedObject.Valid .reference := valid_cachedObject ..
  obtain ⟨hex, h⟩ := refStore_restores hv (readObjectBytes_toVecPretty readsBack_reference _)
  intro he
  exact toVecPretty_ne_canonicalObjectBytes _ _ ((h.unchanged_iff h.spelled).mp he).2

end RickydataGit.Git
