/-
  `canonical_json` is a normal form.

  A second pass changes nothing, the keys of every object increase by their bytes, and all
  that is hashed or signed goes through the normal form, so a body may be normalised before
  its envelope is built (`canonicalJson_normalForm`). `write_cached_object` does so.
-/
import RickydataGit.Lib.JsonOrder
import RickydataGit.Core.PrintBytes

namespace RickydataGit.Core

open RickydataGit.Lib

/-- Keys in the order of their bytes. -/
def BytesLess (a b : String) : Prop := utf8 a < utf8 b

theorem bytesLess_of_lt {a b : String} (h : a < b) : BytesLess a b := by
  rw [BytesLess, utf8_eq, utf8_eq]
  exact flatMap_utf8EncodeChar_lt h

theorem ordered_canonicalJson (v : Value) : (canonicalJson v).tree.Ordered BytesLess :=
  (Json.ordered_normalize v.unique).mono fun _ _ => bytesLess_of_lt

theorem signingMessage_canonicalJson (X : Crates) (kind schemaVersion : String) (body : Value) :
    signingMessage X kind schemaVersion (canonicalJson body) =
      signingMessage X kind schemaVersion body :=
  signingMessage_eq_iff.mpr ⟨rfl, rfl, canonicalJson_idem body⟩

/-- What an envelope is found and checked by: its id, the hash of its body and the message
    that is signed. -/
def CanonicalObject.identity (X : Crates) (o : CanonicalObject) : String × String × Bytes :=
  (o.objectId, o.bodyHash, signingMessage X o.kind o.schemaVersion o.body)

/-- The envelope of a body and that of its normal form are the same but for the body. -/
theorem identity_canonicalJson (X : Crates) (kind schemaVersion : String) (createdAtMs : UInt64)
    (body : Value) :
    (CanonicalObject.new X kind schemaVersion createdAtMs (canonicalJson body)).identity X =
      (CanonicalObject.new X kind schemaVersion createdAtMs body).identity X := by
  have hid := canonicalObjectId_canonicalJson X kind schemaVersion body
  have hbody := stableJsonHash_canonicalJson X body
  have hmessage := signingMessage_canonicalJson X kind schemaVersion body
  show (canonicalObjectId X kind schemaVersion (canonicalJson body),
    stableJsonHash X (canonicalJson body),
    signingMessage X kind schemaVersion (canonicalJson body)) =
    (canonicalObjectId X kind schemaVersion body, stableJsonHash X body,
      signingMessage X kind schemaVersion body)
  rw [hid, hbody, hmessage]

/-- The laws of the normal form. -/
structure NormalFormLaws (X : Crates) (v : Value) : Prop where
  idempotent : canonicalJson (canonicalJson v) = canonicalJson v
  ordered : (canonicalJson v).tree.Ordered BytesLess
  hash : stableJsonHash X (canonicalJson v) = stableJsonHash X v
  envelope : ∀ kind schemaVersion createdAtMs,
    (CanonicalObject.new X kind schemaVersion createdAtMs (canonicalJson v)).identity X =
      (CanonicalObject.new X kind schemaVersion createdAtMs v).identity X

theorem canonicalJson_normalForm (X : Crates) (v : Value) : NormalFormLaws X v where
  idempotent := canonicalJson_idem v
  ordered := ordered_canonicalJson v
  hash := stableJsonHash_canonicalJson X v
  envelope kind schemaVersion createdAtMs := identity_canonicalJson X kind schemaVersion createdAtMs v

end RickydataGit.Core
