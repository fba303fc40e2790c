/-
  Signed updates of references: `write_git_object_ref_with_expectation`.

  An update is three accesses: the store is opened, the reference is read, and a
  transaction of the reference checks the previous value again and writes. Any
  number of updates may be between their accesses at the same time.

  The transaction is the only access that writes (`refStep_committed`). What a call
  has committed is read off its program: nothing while it is in flight and nothing
  when it fails or finds the reference at its new value already, otherwise one update
  of its own reference, from the value that was signed to the one that was signed
  (`outcome_of_after`). `ref_updates_compare_and_swap` puts the calls together: the
  updates of a reference form a chain.
-/
import RickydataGit.Lib.History
import RickydataGit.Lib.Keyed
import RickydataGit.Core.Signing

namespace RickydataGit.Git

open RickydataGit.Lib RickydataGit.Core

/-! ## References -/

/-- `gix::ObjectId`, of a SHA-1 or a SHA-256 repository. -/
structure Oid where
  bytes : Bytes
  sized : bytes.length = 20 ∨ bytes.length = 32
  deriving DecidableEq

namespace Oid

/-- `to_string`. -/
def text (oid : Oid) : String := hexEncode oid.bytes

/-- `from_hex`, with the text of its error. -/
def fromHex (digits : String) : Except String Oid :=
  match decodeHexPairs digits.toList with
  | some bytes =>
    if h : bytes.length = 20 ∨ bytes.length = 32 then .ok ⟨bytes, h⟩
    else .error s!"A hash sized {(utf8 digits).length} hexadecimal characters is invalid"
  | none =>
    if (utf8 digits).length = 40 ∨ (utf8 digits).length = 64 then
      .error "Invalid character encountered"
    else .error s!"A hash sized {(utf8 digits).length} hexadecimal characters is invalid"

theorem decodeHexPairs_hexEncode (bytes : Bytes) :
    decodeHexPairs (hexEncode bytes).toList = some bytes := by
  rw [hexEncode_toList]
  induction bytes with
  | nil => rfl
  | cons b bytes ih =>
    have hb := b.toNat_lt
    rw [List.flatMap_cons, List.cons_append, List.cons_append, List.nil_append, decodeHexPairs,
      hexDigitValue_digitChar _ (by omega), hexDigitValue_digitChar _ (by omega), ih]
    simp only [Option.bind_eq_bind, Option.bind_some, Option.some.injEq, List.cons.injEq, and_true]
    rw [Nat.div_add_mod' b.toNat 16, UInt8.ofNat_toNat]

theorem fromHex_text (oid : Oid) : fromHex oid.text = .ok oid := by
  unfold fromHex text
  rw [decodeHexPairs_hexEncode]
  exact dif_pos oid.sized

end Oid

/-- What a reference points to, by name. -/
abbrev Refs := Std.ExtTreeMap String Oid compare

/-- `gix::refs::transaction::PreviousValue`. -/
inductive PreviousValue where
  | mustNotExist
  | mustExistAndMatch (oid : Oid)
  deriving DecidableEq

namespace PreviousValue

/-- The value a reference has when the check succeeds. -/
def value : PreviousValue → Option Oid
  | .mustNotExist => none
  | .mustExistAndMatch oid => some oid

end PreviousValue

inductive RefOp where
  /-- `open_initialized_store`. -/
  | openStore
  /-- `try_find_reference`. -/
  | findReference (name : String)
  /-- `reference`: the check of the previous value and the write. -/
  | transact (name : String) (newOid : Oid) (previous : PreviousValue) (logMessage : String)

@[reducible] def refOps : Ops where
  Op := RefOp
  Ans
    | .openStore => Except String Unit
    | .findReference _ => Except String (Option Oid)
    | .transact _ _ _ _ => Except String Unit

/-- Accesses may fail. A transaction that succeeds found the previous value and wrote
    the new one, one that fails wrote nothing. -/
def RefStep (s : Refs) : (o : refOps.Op) → refOps.Ans o → Refs → Prop
  | .openStore, _, s' => s' = s
  | .findReference name, a, s' => (∀ oid, a = .ok oid → oid = s[name]?) ∧ s' = s
  | .transact name newOid previous _, a, s' =>
    (a = .ok () ∧ s[name]? = previous.value ∧ s' = s.insert name newOid) ∨
    ((∃ m, a = .error m) ∧ s' = s)

/-! ## The update -/

/-- `GitInspectError`, as far as reference updates raise it. -/
inductive RefUpdateError where
  /-- The store could not be opened. -/
  | store (message : String)
  | objectGitWrite (message : String)
  | objectGitRead (message : String)
  | refExpectationMismatch (refName : String) (expected found : Option String)
  | refExpectationBadSignature (refName : String)
  | refExpectationSignatureError (refName message : String)
  deriving DecidableEq

inductive SignedRefUpdateStatus where
  | created
  | updatedFromExpected
  | alreadyAtNewOid
  deriving DecidableEq

structure SignedRefUpdateReport where
  refName : String
  newOid : String
  previousOid : Option String
  status : SignedRefUpdateStatus
  deriving DecidableEq

abbrev RefProg := Prog refOps RefUpdateError

/-- The answer of an access, its error wrapped. -/
def answered {α : Type} (wrap : String → RefUpdateError) : Except String α → RefProg α
  | .ok a => .ret a
  | .error message => .fail (wrap message)

def openInitializedStore : RefProg Unit := .op .openStore (answered .store)

def findReference (name : String) : RefProg (Option Oid) :=
  .op (.findReference name) (answered .objectGitRead)

def transact (name : String) (newOid : Oid) (previous : PreviousValue) (logMessage : String) :
    RefProg Unit :=
  .op (.transact name newOid previous logMessage) (answered .objectGitWrite)

def parseOid (digits : String) : Except RefUpdateError Oid :=
  (Oid.fromHex digits).mapError .objectGitWrite

/-- The previous value that the transaction checks. -/
def previousValue : Option String → Except RefUpdateError PreviousValue
  | none => return .mustNotExist
  | some previous => return .mustExistAndMatch (← parseOid previous)

/-- The report of an update that was made. -/
def updateReport (expectation : SignedRefExpectation) (currentOid : Option String) :
    SignedRefUpdateReport where
  refName := expectation.refName
  newOid := expectation.newOid
  previousOid := currentOid
  status := match expectation.expectedPreviousOid with
    | none => .created
    | some _ => .updatedFromExpected

/-- The update of a reference that was found at the expected value. -/
def updateReference (expectation : SignedRefExpectation) (currentOid : Option String) :
    RefProg SignedRefUpdateReport := do
  let newOid ← parseOid expectation.newOid
  let previous ← previousValue expectation.expectedPreviousOid
  transact expectation.refName newOid previous
    s!"rickygit signed ref expectation {expectation.signature.publicKey}"
  return updateReport expectation currentOid

/-- What is done about the value that was found. -/
def updateFrom (expectation : SignedRefExpectation) (currentOid : Option String) :
    RefProg SignedRefUpdateReport :=
  match expectation.expectedPreviousOid, currentOid with
  | none, none => updateReference expectation currentOid
  | some expected, some found =>
    if expected = found then
      if found = expectation.newOid then
        return {
          refName := expectation.refName, newOid := expectation.newOid, previousOid := currentOid
          status := .alreadyAtNewOid }
      else updateReference expectation currentOid
    else .fail (.refExpectationMismatch expectation.refName (some expected) (some found))
  | expected, found => .fail (.refExpectationMismatch expectation.refName expected found)

def checkExpectation (X : Crates) (expectation : SignedRefExpectation) :
    Except RefUpdateError Bool :=
  (verifyRefExpectationSignature X expectation).mapError fun error =>
    .refExpectationSignatureError expectation.refName error.text

def writeGitObjectRefWithExpectation (X : Crates) (expectation : SignedRefExpectation) :
    RefProg SignedRefUpdateReport := do
  openInitializedStore
  let valid ← checkExpectation X expectation
  if !valid then .fail (.refExpectationBadSignature expectation.refName)
  else
    let reference ← findReference expectation.refName
    updateFrom expectation (reference.map Oid.text)

/-! ## Commits -/

structure Commit where
  refName : String
  previous : PreviousValue
  newOid : Oid

/-- The update that an access made. -/
def commitOf : Prog.Event refOps → Option Commit
  | ⟨.transact name newOid previous _, .ok _⟩ => some ⟨name, previous, newOid⟩
  | _ => none

def committed (m : Move Refs refOps) : Option Commit := commitOf m.event

/-- The values of a reference before and after a commit. -/
def Commit.Moves (commit : Commit) (s s' : Refs) : Prop :=
  s[commit.refName]? = commit.previous.value ∧ s' = s.insert commit.refName commit.newOid

/-- An access that commits checks and writes, any other changes nothing. -/
theorem refStep_committed {s s' : Refs} {e : Prog.Event refOps} (h : RefStep s e.1 e.2 s') :
    (commitOf e = none ∧ s' = s) ∨ ∃ commit, commitOf e = some commit ∧ commit.Moves s s' := by
  rcases e with ⟨_ | name | ⟨name, newOid, previous, logMessage⟩, a⟩
  · exact .inl ⟨rfl, h⟩
  · exact .inl ⟨rfl, h.2⟩
  · rcases h with ⟨ha, hprevious, rfl⟩ | ⟨⟨m, ha⟩, rfl⟩
    · replace ha : a = .ok () := ha
      subst ha
      exact .inr ⟨⟨name, previous, newOid⟩, rfl, hprevious, rfl⟩
    · replace ha : a = .error m := ha
      subst ha
      exact .inl ⟨rfl, rfl⟩

/-- The commit is the update that was signed for. -/
structure Commit.Signed (X : Crates) (expectation : SignedRefExpectation) (commit : Commit) :
    Prop where
  verified : verifyRefExpectationSignature X expectation = .ok true
  refName : commit.refName = expectation.refName
  previous : commit.previous.value.map Oid.text = expectation.expectedPreviousOid
  newOid : Oid.fromHex expectation.newOid = .ok commit.newOid

/-- What a call has committed, by where it stands. -/
def Outcome (X : Crates) (expectation : SignedRefExpectation) (commits : List Commit) :
    RefProg SignedRefUpdateReport → Prop
  | .op _ _ => commits = []
  | .fail _ => commits = []
  | .ret report =>
    match report.status with
    | .alreadyAtNewOid => commits = []
    | .created | .updatedFromExpected => ∃ commit, commits = [commit] ∧ commit.Signed X expectation

section Calls

variable {X : Crates} {expectation : SignedRefExpectation} {t : List (Prog.Event refOps)}
  {q : RefProg SignedRefUpdateReport}

/-- What a call has committed was signed for, wherever it stands. -/
theorem Outcome.signed {commits : List Commit} (h : Outcome X expectation commits q) :
    ∀ commit ∈ commits, commit.Signed X expectation := by
  have hnone : commits = [] → ∀ commit ∈ commits, commit.Signed X expectation := by
    rintro rfl
    simp
  have hone : (∃ commit, commits = [commit] ∧ commit.Signed X expectation) →
      ∀ commit ∈ commits, commit.Signed X expectation := by
    rintro ⟨commit, rfl, hs⟩
    simpa using hs
  rcases q with ⟨_, _, _, status⟩ | e | ⟨o, k⟩
  · cases status with
    | created => exact hone h
    | updatedFromExpected => exact hone h
    | alreadyAtNewOid => exact hnone h
  · exact hnone h
  · exact hnone h

/-- A reference that was found at the expected value is updated from that value. -/
theorem outcome_updateReference (hv : verifyRefExpectationSignature X expectation = .ok true)
    {current : Option Oid} (hc : current.map Oid.text = expectation.expectedPreviousOid)
    (h : (updateReference expectation (current.map Oid.text)).After t q) :
    Outcome X expectation (t.filterMap commitOf) q := by
  have hprevious : ∃ previous, previousValue expectation.expectedPreviousOid = .ok previous ∧
      previous.value = current := by
    rw [← hc]
    rcases current with _ | oid
    · exact ⟨_, rfl, rfl⟩
    · refine ⟨.mustExistAndMatch oid, ?_, rfl⟩
      simp only [previousValue, parseOid, Option.map_some, Oid.fromHex_text]
      rfl
  obtain ⟨previous, hp, rfl⟩ := hprevious
  unfold updateReference parseOid at h
  rw [hp] at h
  rcases hn : Oid.fromHex expectation.newOid with m | newOid
  · rw [hn] at h
    obtain ⟨rfl, rfl⟩ := Prog.after_fail h
    rfl
  · rw [hn] at h
    rcases Prog.after_op h with ⟨rfl, rfl⟩ | ⟨a, t', rfl, hk⟩
    · rfl
    · rcases a with m | u
      · obtain ⟨rfl, rfl⟩ := Prog.after_fail hk
        rfl
      · obtain ⟨rfl, rfl⟩ := Prog.after_ret hk
        have hsigned : Commit.Signed X expectation ⟨expectation.refName, previous, newOid⟩ :=
          ⟨hv, rfl, hc, hn⟩
        unfold Outcome updateReport
        rcases expectation.expectedPreviousOid with _ | expected
        · exact ⟨_, rfl, hsigned⟩
        · exact ⟨_, rfl, hsigned⟩

/-- The value that was found decides between the update and doing nothing. -/
theorem outcome_updateFrom (hv : verifyRefExpectationSignature X expectation = .ok true)
    {current : Option Oid} (h : (updateFrom expectation (current.map Oid.text)).After t q) :
    Outcome X expectation (t.filterMap commitOf) q := by
  unfold updateFrom at h
  split at h
  · next he hc => exact outcome_updateReference hv (hc.trans he.symm) h
  · next expected found he hc =>
      split at h
      · next heq =>
          split at h
          · obtain ⟨rfl, rfl⟩ := Prog.after_ret h
            rfl
          · subst heq
            exact outcome_updateReference hv (hc.trans he.symm) h
      · obtain ⟨rfl, rfl⟩ := Prog.after_fail h
        rfl
  · obtain ⟨rfl, rfl⟩ := Prog.after_fail h
    rfl

/-- Where a call can stand, and what it has committed there. -/
theorem outcome_of_after (h : (writeGitObjectRefWithExpectation X expectation).After t q) :
    Outcome X expectation (t.filterMap commitOf) q := by
  unfold writeGitObjectRefWithExpectation checkExpectation at h
  rcases Prog.after_op h with ⟨rfl, rfl⟩ | ⟨a, t', rfl, hk⟩
  · rfl
  rcases a with m | u
  · obtain ⟨rfl, rfl⟩ := Prog.after_fail hk
    rfl
  rcases hv : verifyRefExpectationSignature X expectation with e | valid
  · rw [hv] at hk
    obtain ⟨rfl, rfl⟩ := Prog.after_fail hk
    rfl
  rw [hv] at hk
  rcases valid with _ | _
  · obtain ⟨rfl, rfl⟩ := Prog.after_fail hk
    rfl
  rcases Prog.after_op hk with ⟨rfl, rfl⟩ | ⟨a, t'', rfl, hk'⟩
  · rfl
  rcases a with m | current
  · obtain ⟨rfl, rfl⟩ := Prog.after_fail hk'
    rfl
  · have houtcome : Outcome X expectation (t''.filterMap commitOf) q := outcome_updateFrom hv hk'
    exact houtcome

end Calls

/-! ## All calls together -/

/-- The commits of a reference, one after another: each one finds the value that the one
    before it left. -/
def Chain (refName : String) : Option Oid → List Commit → Option Oid → Prop
  | oid, [], oid' => oid = oid'
  | oid, commit :: commits, oid' =>
    if commit.refName = refName then
      oid = commit.previous.value ∧ Chain refName (some commit.newOid) commits oid'
    else Chain refName oid commits oid'

/-- Every commit of a history is checked and written at one step. -/
theorem chain_of_linked {s s' : Refs} {ms : List (Move Refs refOps)} (h : Pool.Linked s ms s')
    (hstep : ∀ m ∈ ms, RefStep m.before m.event.1 m.event.2 m.after) (refName : String) :
    Chain refName s[refName]? (ms.filterMap committed) s'[refName]? := by
  induction ms generalizing s with
  | nil =>
    obtain rfl : s = s' := h
    rfl
  | cons m ms ih =>
    obtain ⟨rfl, hrest⟩ := h
    obtain ⟨hm, hms⟩ := List.forall_mem_cons.mp hstep
    have hchain := ih hrest hms
    rcases refStep_committed hm with ⟨hc, he⟩ | ⟨commit, hc, hprevious, he⟩
    · replace hc : committed m = none := hc
      rw [List.filterMap_cons_none hc, ← he]
      exact hchain
    · replace hc : committed m = some commit := hc
      rw [List.filterMap_cons_some hc]
      rw [he, getElem?_insert_eq] at hchain
      unfold Chain
      split
      · next hname =>
          rw [if_pos hname] at hchain
          subst hname
          exact ⟨hprevious, hchain⟩
      · next hname =>
          rwa [if_neg hname] at hchain

/-- What a history of updates looks like. -/
structure ComparedAndSwapped (X : Crates) (s₀ : Refs) (ms : List (Move Refs refOps))
    (c : Pool Refs refOps RefUpdateError SignedRefUpdateReport SignedRefExpectation) : Prop where
  /-- An access either commits, checked and written at that step, or changes nothing. -/
  step : ∀ m ∈ ms, match committed m with
    | none => m.after = m.before
    | some commit => commit.Moves m.before m.after
  /-- Every access belongs to a call, and commits to the reference of that call only. -/
  own : ∀ m ∈ ms, ∃ call, c.calls[m.call]? = some call ∧
    ∀ commit, committed m = some commit → commit.Signed X call.request
  /-- A call commits exactly once when it reports an update, and otherwise never. -/
  call : ∀ n call, c.calls[n]? = some call →
    Outcome X call.request ((Pool.movesOf n ms).filterMap committed) call.prog
  /-- No update of a reference is lost. -/
  chain : ∀ refName, Chain refName s₀[refName]? (ms.filterMap committed)
    c.store[refName]?

theorem outcome_of_recorded {X : Crates} {s₀ : Refs} {ms : List (Move Refs refOps)}
    {c : Pool Refs refOps RefUpdateError SignedRefUpdateReport SignedRefExpectation}
    (h : Pool.Recorded RefStep (writeGitObjectRefWithExpectation X) (fun _ _ => True) s₀ ms c)
    {n : Nat} {call : Call refOps RefUpdateError SignedRefUpdateReport SignedRefExpectation}
    (hcall : c.calls[n]? = some call) :
    Outcome X call.request ((Pool.movesOf n ms).filterMap committed) call.prog := by
  obtain ⟨hevents, hafter⟩ := Pool.recorded_call h n hcall
  have houtcome := outcome_of_after hafter
  rw [hevents, List.filterMap_map] at houtcome
  exact houtcome

/-- Any number of updates, in any interleaving of their accesses. -/
theorem ref_updates_compare_and_swap (X : Crates) {s₀ : Refs} {ms : List (Move Refs refOps)}
    {c : Pool Refs refOps RefUpdateError SignedRefUpdateReport SignedRefExpectation}
    (h : Pool.Recorded RefStep (writeGitObjectRefWithExpectation X) (fun _ _ => True) s₀ ms c) :
    ComparedAndSwapped X s₀ ms c where
  step m hm := by
    rcases refStep_committed (Pool.recorded_step h m hm) with ⟨hc, he⟩ | ⟨commit, hc, hmoves⟩
    · rw [show committed m = none from hc]
      exact he
    · rw [show committed m = some commit from hc]
      exact hmoves
  own m hm := by
    have hlt := Pool.recorded_owner h m hm
    refine ⟨_, List.getElem?_eq_getElem hlt, fun commit hc => ?_⟩
    refine (outcome_of_recorded h (List.getElem?_eq_getElem hlt)).signed commit ?_
    exact List.mem_filterMap.mpr ⟨m, List.mem_filter.mpr ⟨hm, beq_self_eq_true _⟩, hc⟩
  call n call hcall := outcome_of_recorded h hcall
  chain := chain_of_linked (Pool.recorded_linked h) (Pool.recorded_step h)

/-! ## A run -/

/-- A reference is created where there is none. -/
theorem runs_create {X : Crates} {refName newOid : String} {signature : ActorSignature} {oid : Oid}
    (hv : verifyRefExpectationSignature X ⟨refName, none, newOid, signature⟩ = .ok true)
    (hn : Oid.fromHex newOid = .ok oid) :
    (writeGitObjectRefWithExpectation X ⟨refName, none, newOid, signature⟩).Runs RefStep ∅
      (.ok (updateReport ⟨refName, none, newOid, signature⟩ none))
      ((∅ : Refs).insert refName oid) := by
  unfold writeGitObjectRefWithExpectation checkExpectation
  rw [hv]
  refine ⟨(Except.ok () : Except String Unit), ∅, rfl,
    (Except.ok none : Except String (Option Oid)), ∅, ⟨by simp, rfl⟩, ?_⟩
  show (updateReference _ none).Runs RefStep ∅ _ _
  unfold updateReference parseOid
  rw [hn]
  exact ⟨(Except.ok () : Except String Unit), _, .inl ⟨rfl, by simp; rfl, rfl⟩, rfl, rfl⟩

/-- The crates with a key that accepts everything. -/
def acceptingCrates : Crates :=
  { Crates.reference with verifyingKey := fun _ => .ok (), verify := fun _ _ _ => true }

def createExpectation : SignedRefExpectation where
  refName := "refs/rickydata/expectations/test"
  expectedPreviousOid := none
  newOid := .ofList (.replicate 40 '0')
  signature := {
    algorithm := signatureAlgorithmEd25519
    publicKey := .ofList (.replicate 64 '0')
    signature := .ofList (.replicate 128 '0')
    signedAtMs := none
    signerLabel := none }

/-- The history of one update. -/
theorem createExpectation_compared_and_swapped :
    ∃ ms c, Pool.Recorded RefStep (writeGitObjectRefWithExpectation acceptingCrates) (fun _ _ => True) ∅
        ms c ∧ c.store[createExpectation.refName]? ≠ none ∧
      ComparedAndSwapped acceptingCrates ∅ ms c := by
  have hv : verifyRefExpectationSignature acceptingCrates createExpectation = .ok true := by
    decide +kernel
  have hn : Oid.fromHex createExpectation.newOid = .ok ⟨.replicate 20 0, .inl rfl⟩ := by
    decide +kernel
  obtain ⟨ms, c, hc, hs⟩ := Pool.recorded_of_runs (fun _ _ => True) trivial (runs_create hv hn)
  refine ⟨ms, c, hc, ?_, ref_updates_compare_and_swap acceptingCrates hc⟩
  rw [hs, getElem?_insert_eq]
  exact Option.some_ne_none _

end RickydataGit.Git
