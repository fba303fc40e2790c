/-
  Writing, reading and verifying agree.

  `Stored` is the state a successful write leaves an object in, with or without its
  cache file. Whoever reads the object there gets its fields back with the body in
  canonical form (`Stored.read`), and whoever verifies it gets a valid report that
  counts the signatures over the body as it was given (`Stored.verify`). Nothing of
  this depends on which of the two places the bytes are read from.
-/
import RickydataGit.Git.Immutable

namespace RickydataGit.Git

open RickydataGit.Lib RickydataGit.Core

variable {X : Crates} {s s' : ObjectStore} {o : CanonicalObject}

/-! ## Signature diagnostics -/

/-- A signature is counted exactly when it verifies. -/
theorem signatureDiagnostic_eq_none_iff (index : Nat) (signature : ActorSignature) :
    signatureDiagnostic X o index signature = none ↔
      verifySignature X o.kind o.schemaVersion o.body signature = .ok true := by
  unfold signatureDiagnostic
  by_cases ha : signature.algorithm = signatureAlgorithmEd25519
  · rw [if_neg (not_not.mpr ha)]
    split <;> simp_all
  · rw [if_pos ha]
    have hv : ∃ e, verifySignature X o.kind o.schemaVersion o.body signature = .error e :=
      ⟨.signing s!"unsupported signature algorithm: {signature.algorithm}", by
        simp only [verifySignature, verifyMessage, ne_eq, ha, not_false_eq_true, if_true]
        rfl⟩
    obtain ⟨e, he⟩ := hv
    rw [he]
    simp

theorem isSignatureWarning_of_signatureDiagnostic {index : Nat} {signature : ActorSignature}
    {d : ObjectDiagnostic} (h : signatureDiagnostic X o index signature = some d) :
    isSignatureWarning d.code = true := by
  unfold signatureDiagnostic at h
  split at h
  · rw [← Option.some.inj h]
    rfl
  · split at h
    · cases h
    · rw [← Option.some.inj h]
      rfl
    · rw [← Option.some.inj h]
      rfl

/-- The signatures that verify over the object's body. -/
def verifying (X : Crates) (o : CanonicalObject) (signature : ActorSignature) : Bool :=
  decide (verifySignature X o.kind o.schemaVersion o.body signature = .ok true)

/-- The loop counts the verifying signatures and adds warnings for the others. -/
theorem signatureLoop_eq (ss : List ActorSignature) (index : Nat) (count valid : UInt32)
    (ds : List ObjectDiagnostic) :
    ∃ ws, (∀ d ∈ ws, isSignatureWarning d.code = true) ∧
      signatureLoop X o index ss (⟨count, valid⟩, ds) =
        (⟨count, valid + .ofNat (ss.countP (verifying X o))⟩, ds ++ ws) := by
  induction ss generalizing index valid ds with
  | nil => exact ⟨[], by simp, by simp [signatureLoop]⟩
  | cons signature ss ih =>
    cases hd : signatureDiagnostic X o index signature with
    | none =>
      have hv : verifying X o signature = true :=
        decide_eq_true ((signatureDiagnostic_eq_none_iff index signature).mp hd)
      obtain ⟨ws, hws, he⟩ := ih (index + 1) (valid + 1) ds
      refine ⟨ws, hws, ?_⟩
      simp only [signatureLoop, hd, he, List.countP_cons_of_pos hv, UInt32.ofNat_add]
      rw [UInt32.add_assoc, UInt32.add_comm 1]
      rfl
    | some d =>
      have hv : ¬ verifying X o signature = true := fun hv => by
        have hn := (signatureDiagnostic_eq_none_iff (X := X) (o := o) index signature).mpr
          (of_decide_eq_true hv)
        rw [hd] at hn
        cases hn
      obtain ⟨ws, hws, he⟩ := ih (index + 1) valid (ds ++ [d])
      refine ⟨d :: ws, ?_, ?_⟩
      · rintro e (_ | ⟨_, hmem⟩)
        · exact isSignatureWarning_of_signatureDiagnostic hd
        · exact hws e hmem
      · simp only [signatureLoop, hd, he, List.countP_cons_of_neg hv, List.append_assoc,
          List.singleton_append]

/-- A report that finds nothing wrong but signatures, and counts those of the object
    that verify over its body. -/
structure ReportsValid (X : Crates) (o : CanonicalObject) (report : ObjectVerifyReport) : Prop where
  valid : report.valid = true
  warnings : ∀ d ∈ report.diagnostics, isSignatureWarning d.code = true
  signatureCount : report.signatureCount = .ofNat o.signatures.length
  validSignatureCount : report.validSignatureCount = .ofNat (o.signatures.countP (verifying X o))

theorem verifyObjectFields_of_valid (hv : o.Valid X) (cachePath : String)
    (source : ObjectReadSource) :
    ReportsValid X o (verifyObjectFields X o.objectId cachePath source o []) := by
  have hf : (objectFieldDiagnostics X o.objectId o).1 = [] :=
    objectFieldDiagnostics_eq_nil_iff.mpr ⟨rfl, hv⟩
  obtain ⟨ws, hws, he⟩ := signatureLoop_eq (X := X) (o := o) o.signatures 0
    (.ofNat o.signatures.length) 0 []
  have hs : appendSignatureDiagnostics X o ([] ++ (objectFieldDiagnostics X o.objectId o).1) =
      (⟨.ofNat o.signatures.length, .ofNat (o.signatures.countP (verifying X o))⟩, ws) := by
    rw [hf, List.append_nil, appendSignatureDiagnostics, he]
    simp
  constructor
  · simp only [verifyObjectFields, hs]
    rw [Bool.not_eq_true', List.any_eq_false]
    intro d hd
    simp [hws d hd]
  · simp only [verifyObjectFields, hs]
    exact hws
  · simp only [verifyObjectFields, hs]
  · simp only [verifyObjectFields, hs]

theorem verifying_canonical (X : Crates) (o : CanonicalObject) :
    verifying X o.canonical = verifying X o := by
  funext signature
  simp only [verifying, CanonicalObject.canonical, verifySignature_canonicalJson]

theorem ReportsValid.of_canonical {report : ObjectVerifyReport}
    (h : ReportsValid X o.canonical report) : ReportsValid X o report where
  valid := h.valid
  warnings := h.warnings
  signatureCount := h.signatureCount
  validSignatureCount := by rw [h.validSignatureCount, verifying_canonical]; rfl

/-! ## Stored objects -/

/-- A valid object whose reference has its bytes, as its cache file has if there is one. -/
structure Stored (X : Crates) (o : CanonicalObject) (s : ObjectStore) : Prop where
  valid : o.Valid X
  kept : ∀ hex, objectHex o.objectId = .ok hex → Kept hex (canonicalObjectBytes X o) s

theorem Stored.deleteCache (h : Stored X o s) (path : String) : Stored X o (s.deleteCache path) where
  valid := h.valid
  kept hex hhex := by
    refine ⟨(h.kept hex hhex).ref, fun b hb => ?_⟩
    rw [ObjectStore.cache_deleteCache] at hb
    split at hb
    · cases hb
    · exact (h.kept hex hhex).cache b hb

theorem readObjectBytes_canonicalObjectBytes (hX : ReadsBack X) (o : CanonicalObject) :
    readObjectBytes X (canonicalObjectBytes X o) = .ok o.canonical := by
  rw [readObjectBytes, objectFromSlice_canonicalObjectBytes hX]
  rfl

/-- Either place gives the object back. -/
theorem Stored.readFromCacheOrRef (hX : ReadsBack X) (h : Stored X o s) {hex : List Char}
    (hhex : objectHex o.objectId = .ok hex) :
    ∃ source s', (readObjectFromCacheOrRef X (cachePathOf hex) o.objectId).run exec s =
      (.ok (source, o.canonical), s') := by
  have hk := h.kept hex hhex
  have hb := readObjectBytes_canonicalObjectBytes hX o
  cases hc : s.cache[cachePathOf hex]? with
  | some b =>
    refine ⟨.cache, s, ?_⟩
    rw [read_run_of_cache s hc, hk.cache b hc, hb]
    rfl
  | none =>
    have hd : (objectFieldDiagnostics X o.objectId o.canonical).1 = [] :=
      objectFieldDiagnostics_eq_nil_iff.mpr ⟨rfl, CanonicalObject.valid_canonical h.valid⟩
    refine ⟨.gitRef, s.writeCache (cachePathOf hex) (canonicalObjectBytes X o), ?_⟩
    rw [read_run_of_ref s hhex hc hk.ref, hb]
    exact if_pos hd

/-- What a reader and a verifier of the id get: the object with its body in canonical
    form, and a valid report. -/
structure Agrees (X : Crates) (o : CanonicalObject) (s : ObjectStore) : Prop where
  read : ∃ found, ((readCachedObject X o.objectId).run exec s).1 = .ok found ∧
    found.objectId = o.objectId ∧ found.object = o.canonical
  verify : ∃ report, ((verifyCachedObject X o.objectId).run exec s).1 = .ok report ∧
    ReportsValid X o report

theorem Stored.agrees (hX : ReadsBack X) (h : Stored X o s) : Agrees X o s := by
  obtain ⟨m, hm, hhex⟩ := objectHex_of_valid h.valid
  obtain ⟨source, s', hread⟩ := h.readFromCacheOrRef hX hhex
  have hk := h.kept _ hhex
  have hreport : ∀ path source, ReportsValid X o
      (verifyObjectFields X o.objectId path source o.canonical []) := fun path source =>
    (verifyObjectFields_of_valid (CanonicalObject.valid_canonical h.valid) path source).of_canonical
  refine ⟨⟨_, by rw [readCachedObject_run s hhex, hread], rfl, rfl⟩, ?_⟩
  cases hc : s.cache[cachePathOf (hexEncode (X.sha256 m)).toList]? with
  | some b =>
    have hb := readObjectBytes_canonicalObjectBytes hX o
    rw [verify_run_of_cache s hhex hc, hk.cache b hc, hb]
    simp only [refConsistencyDiagnostics_run s hhex, hk.ref, canonicalObjectBytes_canonical, ne_eq,
      not_true_eq_false, if_false]
    exact ⟨_, rfl, hreport _ .cache⟩
  | none =>
    rw [verify_run_of_no_cache s hhex hc, hread]
    exact ⟨_, rfl, hreport _ source⟩

/-- A successful write stores its object, when the reference held nothing else. -/
theorem WriteCall.stored_of_ok {w : WriteCall} {report : ObjectWriteReport}
    (hrun : (w.prog X).run exec s = (.ok report, s'))
    (hother : ∀ b, s.refBytes (w.object X).objectId = some b → b = w.bytes X) :
    report.objectId = (w.object X).objectId ∧ Stored X (w.object X) s' := by
  have hok : ((w.prog X).run exec s).1 = .ok report := by rw [hrun]
  obtain ⟨hid, hv, hex, hhex, -, hk⟩ := WriteCall.kept_of_ok hok fun b hb _ => hother b hb
  rw [hrun] at hk
  rw [hid] at hhex
  refine ⟨hid, hv, fun hex' hhex' => ?_⟩
  rw [← Except.ok.inj (hhex.symm.trans hhex')]
  exact hk

end RickydataGit.Git
