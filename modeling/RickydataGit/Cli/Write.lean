/-
  The write path of the commands, and the agreement of all three write paths.

  A command signs the object when a key is at hand and writes it as a canonical
  object; without a key it writes the body. `writes_agree`: whichever way an object
  was written, the id reported is the id computed from the body as it was given,
  and reading and verifying that id return the object, also when its cache file is
  removed again.
-/
import RickydataGit.Git.RoundTrip

namespace RickydataGit.Cli

open RickydataGit.Lib RickydataGit.Core RickydataGit.Git

section

variable (X : Crates)

/-- The object of a kind and a body, signed. -/
def signedObject (kind : String) (body : Value) (signingKey : Bytes)
    (signerLabel : Option String) : CanonicalObject :=
  let object := CanonicalObject.new X kind defaultSchemaVersion 0 (canonicalJson body)
  { object with signatures := object.signatures ++ [signObject X object signingKey signerLabel] }

/-- `write_signed_or_cached`: the key is a signing key with an optional label. -/
def writeSignedOrCached (kind : String) (body : Value) (signing : Option (Bytes × Option String)) :
    Store ObjectWriteReport :=
  match signing with
  | none => writeCachedObject X kind body
  | some (signingKey, signerLabel) =>
    writeCanonicalObject X (signedObject X kind body signingKey signerLabel)

/-- The call of the store that a command makes. -/
def writeCall (kind : String) (body : Value) : Option (Bytes × Option String) → WriteCall
  | none => .cached kind body
  | some (signingKey, signerLabel) => .canonical (signedObject X kind body signingKey signerLabel)

end

theorem prog_writeCall (X : Crates) (kind : String) (body : Value)
    (signing : Option (Bytes × Option String)) :
    (writeCall X kind body signing).prog X = writeSignedOrCached X kind body signing := by
  cases signing <;> rfl

/-! ## Agreement -/

/-- What is found under an id, in terms of the fields and the body that were given. -/
structure Written (X : Crates) (objectId kind schemaVersion : String) (createdAtMs : UInt64)
    (signatures : List ActorSignature) (body : Value) (s : ObjectStore) : Prop where
  read : ∃ found, ((readCachedObject X objectId).run exec s).1 = .ok found ∧
    found.object.kind = kind ∧ found.object.schemaVersion = schemaVersion ∧
    found.object.createdAtMs = createdAtMs ∧ found.object.signatures = signatures ∧
    found.object.body = canonicalJson body
  verify : ∃ report, ((verifyCachedObject X objectId).run exec s).1 = .ok report ∧
    report.valid = true ∧ (∀ d ∈ report.diagnostics, isSignatureWarning d.code = true) ∧
    report.signatureCount = .ofNat signatures.length ∧
    report.validSignatureCount = .ofNat (signatures.countP fun signature =>
      decide (verifySignature X kind schemaVersion body signature = .ok true))

variable {X : Crates} {s s' : ObjectStore}

theorem written_of_stored (hX : ReadsBack X) {o : CanonicalObject} (h : Stored X o s)
    {body : Value} (hbody : canonicalJson o.body = canonicalJson body) :
    Written X o.objectId o.kind o.schemaVersion o.createdAtMs o.signatures body s := by
  obtain ⟨⟨found, hfound, -, hobject⟩, report, hreport, hvalid⟩ := h.agrees hX
  constructor
  · refine ⟨found, hfound, ?_⟩
    rw [hobject]
    exact ⟨rfl, rfl, rfl, rfl, hbody⟩
  · refine ⟨report, hreport, hvalid.valid, hvalid.warnings, hvalid.signatureCount, ?_⟩
    rw [hvalid.validSignatureCount]
    congr 2
    funext signature
    rw [verifying, verifySignature_congr X _ _ hbody]

/-- One write call: what it reports, and what is found under the reported id with and
    without the cache file. -/
theorem writeCall_written (hX : ReadsBack X) {w : WriteCall} {report : ObjectWriteReport}
    (hrun : (w.prog X).run exec s = (.ok report, s'))
    (hother : ∀ b, s.refBytes (w.object X).objectId = some b → b = w.bytes X) {body : Value}
    (hbody : canonicalJson (w.object X).body = canonicalJson body) (t : UInt64) :
    report.objectId =
        (CanonicalObject.new X (w.object X).kind (w.object X).schemaVersion t body).objectId ∧
      ∀ store ∈ [s', s'.deleteCache report.cachePath],
        Written X report.objectId (w.object X).kind (w.object X).schemaVersion
          (w.object X).createdAtMs (w.object X).signatures body store := by
  obtain ⟨hid, hstored⟩ := WriteCall.stored_of_ok hrun hother
  constructor
  · rw [hid, hstored.valid.objectId, ← canonicalObjectId_canonicalJson, hbody,
      canonicalObjectId_canonicalJson]
    rfl
  · rw [hid]
    intro store hmem
    simp only [List.mem_cons, List.not_mem_nil, or_false] at hmem
    rcases hmem with rfl | rfl
    · exact written_of_stored hX hstored hbody
    · exact written_of_stored hX (hstored.deleteCache _) hbody

/-- All three write paths: the id is the one computed from the body as it was given,
    and reading and verifying agree with it, also without the cache file. -/
theorem writes_agree (X : Crates) (hX : ReadsBack X) :
    (∀ kind body s s' report t, (writeCachedObject X kind body).run exec s = (.ok report, s') →
      (∀ b, s.refBytes report.objectId = some b →
        b = canonicalObjectBytes X (cachedObject X kind body)) →
      report.objectId = (CanonicalObject.new X kind defaultSchemaVersion t body).objectId ∧
      ∀ store ∈ [s', s'.deleteCache report.cachePath],
        Written X report.objectId kind defaultSchemaVersion 0 [] body store) ∧
    (∀ object s s' report t, (writeCanonicalObject X object).run exec s = (.ok report, s') →
      (∀ b, s.refBytes report.objectId = some b → b = canonicalObjectBytes X object) →
      report.objectId =
        (CanonicalObject.new X object.kind object.schemaVersion t object.body).objectId ∧
      ∀ store ∈ [s', s'.deleteCache report.cachePath],
        Written X report.objectId object.kind object.schemaVersion object.createdAtMs
          object.signatures object.body store) ∧
    (∀ kind body signing s s' report t,
      (writeSignedOrCached X kind body signing).run exec s = (.ok report, s') →
      (∀ b, s.refBytes report.objectId = some b →
        b = (writeCall X kind body signing).bytes X) →
      report.objectId = (CanonicalObject.new X kind defaultSchemaVersion t body).objectId ∧
      ∀ store ∈ [s', s'.deleteCache report.cachePath],
        Written X report.objectId kind defaultSchemaVersion 0
          ((writeCall X kind body signing).object X).signatures body store) := by
  refine ⟨?_, ?_, ?_⟩
  · intro kind body s s' report t hrun hother
    have hrun' : ((WriteCall.cached kind body).prog X).run exec s = (.ok report, s') := hrun
    exact writeCall_written hX hrun' (by rw [← WriteCall.objectId_of_ok hrun']; exact hother)
      (canonicalJson_idem body) t
  · intro object s s' report t hrun hother
    have hrun' : ((WriteCall.canonical object).prog X).run exec s = (.ok report, s') := hrun
    exact writeCall_written hX hrun' (by rw [← WriteCall.objectId_of_ok hrun']; exact hother) rfl t
  · intro kind body signing s s' report t hrun hother
    rw [← prog_writeCall] at hrun
    have hfresh : ∀ b, s.refBytes ((writeCall X kind body signing).object X).objectId = some b →
        b = (writeCall X kind body signing).bytes X := by
      rw [← WriteCall.objectId_of_ok hrun]
      exact hother
    cases signing with
    | none => exact writeCall_written hX hrun hfresh (canonicalJson_idem body) t
    | some key => exact writeCall_written hX hrun hfresh (canonicalJson_idem body) t

/-- An intent without a body, written without a key into a fresh store. -/
theorem unsigned_intent_written :
    ∃ report s', (writeSignedOrCached .reference "agent.intent" .null none).run exec .empty =
        (.ok report, s') ∧
      Written .reference report.objectId "agent.intent" defaultSchemaVersion 0 [] .null
        (s'.deleteCache report.cachePath) := by
  obtain ⟨report, s', hrun⟩ := emptyIntent_ok
  refine ⟨report, s', hrun, ?_⟩
  refine ((writes_agree .reference readsBack_reference).2.2 "agent.intent" .null none .empty s'
    report 0 hrun ?_).2 _ (by simp)
  intro b hb
  rw [refBytes_empty] at hb
  cases hb

end RickydataGit.Cli
