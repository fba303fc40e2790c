/-
  `receipt verify`.

  The command takes the `valid` flag of a verification for its status and reports how
  many signatures the object has. A signature that does not verify is a warning for
  the flag, so it does not show.

  `Receipted` is what the status stands for: the hashes recompute, the reference has
  the same bytes, and every signature verifies. `receipt_sound_iff`: the status says so
  exactly where the object that passes has no signature but verifying ones, and a cache
  file beside a reference is in canonical form.
-/
import RickydataGit.Git.Verdicts
import RickydataGit.Cli.Patches

namespace RickydataGit.Cli

open RickydataGit.Lib RickydataGit.Core RickydataGit.Git

structure ReceiptVerifyInput where
  objectId : String
  teeUrl : Option String

structure ReceiptVerifyReport where
  status : String
  objectId : String
  hasSignatures : Bool
  signatureCount : Nat
  teeReachable : Option Bool
  teeProductionSigning : Option Bool

/-- `teeReceiptStatus` asks the signer at a URL. -/
def runReceiptVerify (X : Crates) (teeReceiptStatus : String → Option Bool × Option Bool)
    (input : ReceiptVerifyInput) : Command ReceiptVerifyReport := do
  let verify ← (verifyCachedObject X input.objectId).mapFail .git
  let (teeReachable, teeProductionSigning) :=
    match input.teeUrl with
    | some url => teeReceiptStatus url
    | none => (none, none)
  return {
    status := if verify.valid then "ok" else "failed"
    objectId := input.objectId
    hasSignatures := 0 < verify.signatureCount
    signatureCount := verify.signatureCount.toNat
    teeReachable, teeProductionSigning }

/-! ## What the status stands for -/

/-- An ed25519 signature over the object's kind, schema version and body. -/
def Signs (X : Crates) (o : CanonicalObject) (signature : ActorSignature) : Prop :=
  signature.algorithm = signatureAlgorithmEd25519 ∧
    verifySignature X o.kind o.schemaVersion o.body signature = .ok true

/-- The store has the object under its id, hashes and signatures in order, and a
    reference with the bytes that are read. -/
def Receipted (X : Crates) (s : ObjectStore) (objectId : String) : Prop :=
  ∃ hex bytes o, objectHex objectId = .ok hex ∧ content s hex = some bytes ∧
    readObjectBytes X bytes = .ok o ∧ o.objectId = objectId ∧ o.Valid X ∧
    (∀ blob, s.refs[refNameOf hex]? = some blob → blob = bytes) ∧
    ∀ signature ∈ o.signatures, Signs X o signature

/-- An object that passes the other checks has verifying signatures only, and a cache
    file with a reference is in canonical form. -/
def NoForgery (X : Crates) (s : ObjectStore) (objectId : String) : Prop :=
  ∀ hex bytes o, Passing X s objectId hex bytes o →
    (∀ signature ∈ o.signatures, Signs X o signature) ∧
    ((s.cache[cachePathOf hex]?).isSome → (s.refs[refNameOf hex]?).isSome →
      bytes = canonicalObjectBytes X o)

variable {X : Crates} {teeReceiptStatus : String → Option Bool × Option Bool} {s s' : ObjectStore}
  {objectId : String}

/-- Status `ok` is the `valid` flag. -/
theorem receipt_ok_iff (input : ReceiptVerifyInput) :
    (∃ report, ((runReceiptVerify X teeReceiptStatus input).run exec s).1 = .ok report ∧
      report.status = "ok") ↔ ∃ hex bytes o, Passing X s input.objectId hex bytes o := by
  rw [← verify_valid_iff, runReceiptVerify, Prog.run_bind, Prog.run_mapFail]
  rcases (verifyCachedObject X input.objectId).run exec s with ⟨e | verify, s₁⟩
  · exact iff_of_false (fun ⟨_, h, _⟩ => nomatch h) fun ⟨_, h, _⟩ => nomatch h
  · constructor
    · rintro ⟨report, hrun, hstatus⟩
      refine ⟨verify, rfl, ?_⟩
      rw [← Except.ok.inj hrun] at hstatus
      by_contra hvalid
      simp [hvalid] at hstatus
    · rintro ⟨report, hrun, hvalid⟩
      obtain rfl := Except.ok.inj hrun
      exact ⟨_, rfl, by simp [hvalid]⟩

/-- A report with status `ok` is right, exactly where the object that passes carries no
    signature that fails. -/
theorem receipt_sound_iff (X : Crates) (teeReceiptStatus : String → Option Bool × Option Bool)
    (s : ObjectStore) (input : ReceiptVerifyInput) :
    (∀ report s', (runReceiptVerify X teeReceiptStatus input).run exec s = (.ok report, s') →
      report.status = "ok" → Receipted X s input.objectId) ↔ NoForgery X s input.objectId := by
  have hok := @receipt_ok_iff X teeReceiptStatus s input
  constructor
  · intro hsound hex bytes o h
    obtain ⟨report, hrun, hstatus⟩ := hok.mpr ⟨hex, bytes, o, h⟩
    obtain ⟨s', hrun⟩ := Prog.exists_run_eq exec hrun
    obtain ⟨hex', bytes', o', hhex, hfound, hparsed, hid, hv, href, hsigns⟩ :=
      hsound report s' hrun hstatus
    obtain rfl := Except.ok.inj (hhex.symm.trans h.spelled)
    obtain rfl := Option.some.inj (hfound.symm.trans h.found)
    obtain rfl := Except.ok.inj (hparsed.symm.trans h.parsed)
    exact ⟨hsigns, h.ref_eq_iff.mp href⟩
  · intro hforgery report s' hrun hstatus
    obtain ⟨hex, bytes, o, h⟩ := hok.mp ⟨report, congrArg Prod.fst hrun, hstatus⟩
    obtain ⟨hsigns, hcanonical⟩ := hforgery hex bytes o h
    obtain ⟨hid, hv⟩ := objectFieldDiagnostics_eq_nil_iff.mp h.fields
    exact ⟨hex, bytes, o, h.spelled, h.found, h.parsed, hid, hv, h.ref_eq_iff.mpr hcanonical,
      hsigns⟩

theorem not_receipted {hex : List Char} {bytes : Bytes} {o : CanonicalObject}
    {signature : ActorSignature} (h : Restores X s objectId hex bytes o)
    (hmem : signature ∈ o.signatures) (hnot : ¬ Signs X o signature) :
    ¬ Receipted X s objectId := by
  rintro ⟨hex', bytes', o', hhex, hfound, hparsed, -, -, -, hsigns⟩
  obtain rfl := Except.ok.inj (hhex.symm.trans h.spelled)
  obtain rfl := Option.some.inj (hfound.symm.trans h.content)
  obtain rfl := Except.ok.inj (hparsed.symm.trans h.parsed)
  exact hnot (hsigns signature hmem)

/-! ## A forged signature -/

/-- The signature of nobody. -/
def forgedSignature : ActorSignature :=
  ⟨signatureAlgorithmEd25519, "zz", "zz", none, none⟩

def forgedObject : CanonicalObject :=
  { cachedObject .reference "agent.note" (.obj [("text", .str "forged")] (by simp)) with
    signatures := [forgedSignature] }

/-- The store was sent the object in canonical form. -/
def forgedStore : ObjectStore :=
  refStore forgedObject.objectId (canonicalObjectBytes .reference forgedObject)

theorem forgedSignature_not_signs (o : CanonicalObject) :
    ¬ Signs .reference o forgedSignature := by
  have hdecode : Crates.reference.hexDecode forgedSignature.publicKey = .error "invalid hex" := by
    decide
  rintro ⟨-, hverify⟩
  simp only [verifySignature, verifyMessage, hdecode] at hverify
  cases hverify

/-- The only signature of the object is forged, and the report says `ok` and that it is
    signed. -/
theorem forgedObject_receipt_ok :
    (∃ report s', (runReceiptVerify .reference (fun _ => (none, none))
        ⟨forgedObject.objectId, none⟩).run exec forgedStore = (.ok report, s') ∧
      report.status = "ok" ∧ report.hasSignatures = true) ∧
    ¬ Receipted .reference forgedStore forgedObject.objectId := by
  have hv : forgedObject.canonical.Valid .reference :=
    CanonicalObject.valid_canonical ⟨rfl, rfl⟩
  obtain ⟨hex, h⟩ := refStore_restores hv
    (readObjectBytes_canonicalObjectBytes readsBack_reference forgedObject)
  have hid : forgedObject.canonical.objectId = forgedObject.objectId := rfl
  have hsigs : forgedObject.canonical.signatures = [forgedSignature] := rfl
  rw [hid] at h
  constructor
  · have hrun := (Prog.run_mapFail_ok_iff exec CliError.git).mpr h.run
    have hreports := verifyObjectFields_of_valid hv (cachePathOf hex) .gitRef
    rw [hid] at hreports
    refine ⟨_, _, Prog.run_bind_ok exec hrun _, ?_, ?_⟩
    · rw [hreports.valid]
      rfl
    · rw [hreports.signatureCount, hsigs]
      have hcount : (0 : UInt32) < .ofNat 1 := by decide
      exact decide_eq_true hcount
  · exact not_receipted h (hsigs ▸ List.mem_singleton_self _) (forgedSignature_not_signs _)

end RickydataGit.Cli
