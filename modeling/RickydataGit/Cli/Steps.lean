/-
  What a command can do to a store.

  `Writes T call s₀ s kind body` : a call that began in `s₀` may write such a record in
  `s`. Each constructor is one write of the source with what the command has found in
  the store before it. `RecordStep` is such a write, successful or not, or a read that
  puts cache files back, and `TypedCommand.steps` says that every call, also one that
  fails half way, is a sequence of these steps. Invariants of the commands are proved of
  `Writes`, and no proof has to look at the commands again.
-/
import Mathlib.Logic.Relation
import RickydataGit.Lib.Triple
import RickydataGit.Git.Growth
import RickydataGit.Cli.Commands

namespace RickydataGit.Cli

open RickydataGit.Lib RickydataGit.Core RickydataGit.Git

/-! ## Stored records -/

/-- A reference holds a record of the kind. -/
def IsStored {α : Type} (X : Crates) (s : ObjectStore) (kind : String) (read : Value → Option α)
    (record : α) : Prop :=
  ∃ objectId body, Holds X s kind objectId body ∧ read body = some record

section Stored

variable (X : Crates) (s : ObjectStore)

def StoredAttempt : AgentAttempt → Prop := IsStored X s "agent.attempt" AgentAttempt.ofValue

def StoredRun : AgentRun → Prop := IsStored X s "agent.run" AgentRun.ofValue

def StoredChange : ChangeEvidence → Prop := IsStored X s "agent.change" ChangeEvidence.ofValue

def StoredPatch : PreparedPatch → Prop := IsStored X s "agent.patch" PreparedPatch.ofValue

def HasAttempt (attemptId : String) : Prop :=
  ∃ attempt, StoredAttempt X s attempt ∧ attempt.attemptId = attemptId

end Stored

/-! ## Steps -/

/-- The records a call may write. -/
inductive Writes (T : Tools) (call : TypedCommand) (s₀ s : ObjectStore) :
    String → Value → Prop where
  | intent (intent : WorkIntent) : Writes T call s₀ s "agent.intent" intent.toValue
  /-- `work start`, of the intent it has written. -/
  | workAttempt {attempt : AgentAttempt} :
      RefBackedOf T.toCrates s "agent.intent" attempt.intentId →
      Writes T call s₀ s "agent.attempt" attempt.toValue
  /-- `attempt start`, of an intent that was read under the id as it was typed. -/
  | attempt {env : Environment} {input : AttemptStartInput} {inPlace : Bool}
      {attempt : AgentAttempt} {intentId : String} {hex : List Char} :
      call = .attemptStart env input inPlace → attempt.intentId = input.intentId →
      RefBackedOf T.toCrates s "agent.intent" intentId → objectHex intentId = .ok hex →
      objectHex input.intentId = .ok hex → Writes T call s₀ s "agent.attempt" attempt.toValue
  | transition {transition : AttemptStatusTransition} :
      HasAttempt T.toCrates s transition.attemptId →
      (transition.status = .submitted →
        ∃ patch, StoredPatch T.toCrates s patch ∧ patch.attemptId = transition.attemptId) →
      Writes T call s₀ s "agent.attempt_status" transition.toValue
  | trace (trace : AgentRunTrace) : Writes T call s₀ s "agent.run_trace" trace.toValue
  | run {run : AgentRun} : HasAttempt T.toCrates s run.attemptId →
      Writes T call s₀ s "agent.run" run.toValue
  | change {attempt : AgentAttempt} {detected : WorktreeDiff} {runs : List AgentRun} :
      StoredAttempt T.toCrates s attempt →
      (∀ run ∈ runs, StoredRun T.toCrates s run ∧ run.attemptId = attempt.attemptId) →
      Writes T call s₀ s "agent.change" (changeOf T attempt detected runs).toValue
  | patchDiff (patchDiff : PatchDiff) : Writes T call s₀ s "agent.patch_diff" patchDiff.toValue
  /-- The patch of all changes of the attempt, after its diff. -/
  | patch {env : Environment} {attemptId : String} {attempt : AgentAttempt}
      {changes : List ChangeEvidence} {detected : WorktreeDiff} {diffObjectId : String} :
      call = .patchPrepare env attemptId → StoredAttempt T.toCrates s attempt →
      attempt.attemptId = attemptId →
      (∀ change, change ∈ changes ↔
        StoredChange T.toCrates s change ∧ change.attemptId = attemptId) →
      detectAttemptDiff T env attempt = .ok detected →
      detected.diffHash ∈ changes.map ChangeEvidence.diffHash →
      Holds T.toCrates s "agent.patch_diff" diffObjectId
        (canonicalJson (patchDiffOf (preparedPatchOf T attempt changes diffObjectId).patchId attempt
          detected).toValue) →
      (∀ kind objectId body, Holds T.toCrates s₀ kind objectId body →
        Holds T.toCrates s kind objectId body) →
      (∀ kind objectId body, kind ≠ "agent.patch_diff" → Holds T.toCrates s kind objectId body →
        Holds T.toCrates s₀ kind objectId body) →
      Writes T call s₀ s "agent.patch" (preparedPatchOf T attempt changes diffObjectId).toValue
  | application (application : PatchApplication) :
      Writes T call s₀ s "agent.patch_application" application.toValue
  | retirement (retirement : PatchRetirement) :
      Writes T call s₀ s "agent.patch_retirement" retirement.toValue

/-- The outcome of writing a record, with or without a signature. -/
def Wrote (X : Crates) (kind : String) (body : Value) (s t : ObjectStore) : Prop :=
  ∃ signing, t = (((writeCall X kind body signing).prog X).run exec s).2

/-- A step between ledgers. -/
inductive RecordStep (T : Tools) (call : TypedCommand) (s₀ s t : ObjectStore) : Prop where
  | read : Ledger T.toCrates s → SameContent s t → RecordStep T call s₀ s t
  | write {kind : String} {body : Value} : Ledger T.toCrates s → Writes T call s₀ s kind body →
      Wrote T.toCrates kind body s t → Ledger T.toCrates t → RecordStep T call s₀ s t

section Wrote

variable {X : Crates} {s t : ObjectStore} {kind : String} {body : Value}

theorem object_writeCall (X : Crates) (kind : String) (body : Value)
    (signing : Option (Bytes × Option String)) :
    ((writeCall X kind body signing).object X).kind = kind ∧
      ((writeCall X kind body signing).object X).body = canonicalJson body := by
  cases signing <;> exact ⟨rfl, rfl⟩

/-- What is held after a write was held before, or is the record. -/
theorem Wrote.holds (hX : ReadsBack X) (h : Wrote X kind body s t) {kind' objectId : String}
    {body' : Value} (hh : Holds X t kind' objectId body') :
    Holds X s kind' objectId body' ∨ kind = kind' ∧ canonicalJson body = body' := by
  obtain ⟨signing, rfl⟩ := h
  obtain ⟨hk, hb⟩ := object_writeCall X kind body signing
  rcases (adds_write X _ s).holds hX hh with hold | ⟨o, ho, hkind, -, hbody⟩
  · exact .inl hold
  · rw [List.mem_singleton.mp ho] at hkind hbody
    rw [hb, canonicalJson_idem] at hbody
    exact .inr ⟨hk.symm.trans hkind, hbody⟩

theorem Wrote.keeps (h : Wrote X kind body s t) {kind' objectId : String} {body' : Value}
    (hh : Holds X s kind' objectId body') : Holds X t kind' objectId body' := by
  obtain ⟨signing, rfl⟩ := h
  exact hh.adds (adds_write X _ s)

variable {α : Type} {kind' : String} {read : Value → Option α} {record : α}

theorem Wrote.isStored (h : Wrote X kind body s t) (hs : IsStored X s kind' read record) :
    IsStored X t kind' read record := by
  obtain ⟨objectId, body', hbody, hread⟩ := hs
  exact ⟨objectId, body', h.keeps hbody, hread⟩

/-- A write does not touch the records of other kinds. -/
theorem Wrote.isStored_iff (hX : ReadsBack X) (h : Wrote X kind body s t) (hne : kind ≠ kind') :
    IsStored X t kind' read record ↔ IsStored X s kind' read record := by
  refine ⟨fun ⟨objectId, body', hbody, hread⟩ => ?_, h.isStored⟩
  rcases h.holds hX hbody with hold | ⟨hk, -⟩
  · exact ⟨objectId, body', hold, hread⟩
  · exact absurd hk hne

theorem IsStored.same (hs : SameContent s t) :
    IsStored X t kind' read record ↔ IsStored X s kind' read record := by
  simp only [IsStored, Holds.same hs]

theorem HasAttempt.same (hs : SameContent s t) {attemptId : String}
    (h : HasAttempt X s attemptId) : HasAttempt X t attemptId := by
  obtain ⟨attempt, hstored, hid⟩ := h
  exact ⟨attempt, (IsStored.same hs).mpr hstored, hid⟩

end Wrote

theorem RecordStep.keeps {T : Tools} {call : TypedCommand} {s₀ s t : ObjectStore}
    (h : RecordStep T call s₀ s t) {kind objectId : String} {body : Value}
    (hh : Holds T.toCrates s kind objectId body) : Holds T.toCrates t kind objectId body := by
  cases h with
  | read _ hs => exact (Holds.same hs).mpr hh
  | write _ _ hwrote => exact hwrote.keeps hh

/-! ## Reading a ledger -/

section Reading

variable {T : Tools} {s t : ObjectStore}

/-- A listed id is read as what it holds. -/
theorem read_holds {X : Crates} (h : Ledger X s) {kind objectId : String}
    (hid : RefBackedOf X s kind objectId) {report : ObjectReadReport}
    (hr : ((readCachedObject X objectId).run exec s).1 = .ok report) :
    Holds X s kind objectId report.object.body := by
  obtain ⟨hex, hhex, hhex', hcopy⟩ := h.read hr
  obtain ⟨r, hmem, o, hparse, rfl, rfl⟩ := hid
  have hcopy' : HasCopy X s o := .ref hmem hparse
  have hid := objectId_inj (h.valid.valid hcopy) (h.valid.valid hcopy') hhex' hhex
  obtain ⟨hk, -⟩ := h.same hcopy hcopy' hid
  rw [← hk, ← hid]
  exact h.holds_copy hcopy

theorem readBodies_holds {α : Type} {kind name : String} {read : Value → Option α}
    (hX : ReadsBack T.toCrates) (h : Ledger T.toCrates s) {entries : List ObjectListEntry}
    (hentries : ∀ entry ∈ entries, RefBackedOf T.toCrates s kind entry.objectId)
    {listed : List (Listed α)}
    (hrun : (readBodies T name read entries).run exec s = (.ok listed, t)) :
    listed.map Listed.objectId = entries.map ObjectListEntry.objectId ∧
      ∀ e ∈ listed, ∃ body, Holds T.toCrates s kind e.objectId body ∧ read body = some e.body := by
  induction entries generalizing s t listed with
  | nil =>
    obtain rfl := Except.ok.inj (congrArg Prod.fst hrun)
    exact ⟨rfl, fun e he => nomatch he⟩
  | cons entry rest ih =>
    obtain ⟨hid, hrest⟩ := List.forall_mem_cons.mp hentries
    obtain ⟨report, s₁, hread, hrun⟩ := Prog.run_bind_inv exec hrun
    rw [Prog.run_mapFail_ok_iff] at hread
    obtain ⟨body, s₂, hbody, hrun⟩ := Prog.run_bind_inv exec hrun
    rw [Prog.run_ofExcept] at hbody
    obtain ⟨hbody, rfl⟩ := Prod.mk.inj hbody
    obtain ⟨restListed, s₃, hlisted, hrun⟩ := Prog.run_bind_inv exec hrun
    obtain rfl := Except.ok.inj (congrArg Prod.fst hrun)
    have hs := (readCachedObject_keeps _ _).of_run hread
    obtain ⟨hids, hall⟩ := ih (h.of_same hX hs)
      (fun e he => (RefBackedOf.same hs).mpr (hrest e he)) hlisted
    have hholds : Holds T.toCrates s kind entry.objectId report.object.body :=
      read_holds h hid (by rw [hread])
    refine ⟨by rw [List.map_cons, List.map_cons, hids], List.forall_mem_cons.mpr ⟨?_, ?_⟩⟩
    · refine ⟨report.object.body, hholds, ?_⟩
      unfold bodyOf at hbody
      split at hbody
      · cases hbody
      · next record hread' =>
          obtain rfl := Except.ok.inj (congrArg Prod.fst hbody)
          exact hread'
    · intro e he
      obtain ⟨body, hb, hread⟩ := hall e he
      exact ⟨body, (Holds.same hs).mp hb, hread⟩

/-- The records of a kind that are listed are the ones that are stored. -/
theorem listBodies_stored {α : Type} {kind name : String} {read : Value → Option α}
    (hX : ReadsBack T.toCrates) (h : Ledger T.toCrates s) {listed : List (Listed α)}
    (hrun : (listBodies T kind name read).run exec s = (.ok listed, t)) (record : α) :
    record ∈ listed.map Listed.body ↔ IsStored T.toCrates s kind read record := by
  obtain ⟨entries, s₁, hlist, hrun⟩ := Prog.run_bind_inv exec hrun
  rw [Prog.run_mapFail_ok_iff] at hlist
  obtain ⟨entries', hlist', -, hmem⟩ := h.valid.list kind
  rw [hlist'] at hlist
  obtain ⟨hentries, rfl⟩ := Prod.mk.inj hlist
  obtain rfl := Except.ok.inj hentries
  have hbacked : ∀ entry ∈ entries', RefBackedOf T.toCrates s kind entry.objectId :=
    fun entry he => (hmem _).mp (List.mem_map_of_mem he)
  obtain ⟨hids, hall⟩ := readBodies_holds hX h hbacked hrun
  rw [List.mem_map]
  constructor
  · rintro ⟨e, he, rfl⟩
    obtain ⟨body, hbody, hread⟩ := hall e he
    exact ⟨e.objectId, body, hbody, hread⟩
  · rintro ⟨objectId, body, hbody, hread⟩
    have hid := (hmem objectId).mpr hbody.refBackedOf
    rw [← hids] at hid
    obtain ⟨e, he, rfl⟩ := List.mem_map.mp hid
    obtain ⟨body', hbody', hread'⟩ := hall e he
    obtain ⟨-, rfl⟩ := h.holds_inj hbody hbody'
    exact ⟨e, he, Option.some.inj (hread'.symm.trans hread)⟩

/-- The list commands sort what is listed. -/
theorem sortedBodies_stored {α : Type} {kind name : String} {read : Value → Option α}
    {le : Listed α → Listed α → Bool} (hX : ReadsBack T.toCrates) (h : Ledger T.toCrates s)
    {listed : List (Listed α)}
    (hrun : (listBodies T kind name read >>= fun found => pure (found.mergeSort le)).run exec s =
      (.ok listed, t)) (record : α) :
    record ∈ listed.map Listed.body ↔ IsStored T.toCrates s kind read record := by
  obtain ⟨found, s₁, hfound, hrun⟩ := Prog.run_bind_inv exec hrun
  obtain rfl := Except.ok.inj (congrArg Prod.fst hrun)
  rw [← listBodies_stored hX h hfound, List.mem_map, List.mem_map]
  simp only [List.mem_mergeSort]

/-- The attempt that is found is a stored one, of the id that was asked for. -/
theorem findAttempt_stored (hX : ReadsBack T.toCrates) (h : Ledger T.toCrates s)
    {attemptId : String} {attempt : AgentAttempt}
    (hrun : (findAttempt T attemptId).run exec s = (.ok attempt, t)) :
    StoredAttempt T.toCrates s attempt ∧ attempt.attemptId = attemptId := by
  obtain ⟨listed, s₁, hlisted, hrun⟩ := Prog.run_bind_inv exec hrun
  have hstored := sortedBodies_stored hX h hlisted
  split at hrun
  · cases congrArg Prod.fst hrun
  · next entry hfind =>
      obtain rfl := Except.ok.inj (congrArg Prod.fst hrun)
      refine ⟨(hstored _).mp (List.mem_map_of_mem (List.mem_of_find?_eq_some hfind)), ?_⟩
      have hbeq := List.find?_some hfind
      exact eq_of_beq hbeq

end Reading

/-! ## Commands that read -/

section Keeps

variable (T : Tools)

theorem effectiveAttemptStatus_keeps (attemptId : String) :
    Keeps (effectiveAttemptStatus T attemptId) := by
  refine (findAttempt_keeps T attemptId).bind fun attempt => ?_
  refine ((listBodies_keeps T _ _ _).bind fun _ => keeps_ret _).bind fun listed => ?_
  dsimp only
  split
  · exact keeps_ret _
  · exact keeps_ret _

theorem listRuns_keeps : Keeps (listRuns T) :=
  (listBodies_keeps T _ _ _).bind fun _ => keeps_ret _

theorem listChanges_keeps : Keeps (listChanges T) :=
  (listBodies_keeps T _ _ _).bind fun _ => keeps_ret _

theorem selectChangeRuns_keeps (attemptId : String) (requestedRunIds : List String) :
    Keeps (selectChangeRuns T attemptId requestedRunIds) := by
  exact (listRuns_keeps T).bind fun listed => (keeps_ofExcept _).bind fun selected => keeps_ret _

theorem findPatchApplication_keeps (patchId idempotencyKey : String)
    (entries : List ObjectListEntry) :
    Keeps (findPatchApplication T patchId idempotencyKey entries) := by
  induction entries with
  | nil => exact keeps_ret _
  | cons entry rest ih =>
    refine ((readCachedObject_keeps _ _).mapFail _).bind fun report => ?_
    refine (keeps_ofExcept _).bind fun application => ?_
    split
    · exact keeps_ret _
    · exact ih

theorem findReplay_keeps (patchId : String) (idempotencyKey : Option String) :
    Keeps (findReplay T patchId idempotencyKey) := by
  cases idempotencyKey with
  | none => exact keeps_ret _
  | some idempotencyKey =>
    exact ((listRefBackedObjects_keeps _ _).mapFail _).bind fun entries =>
      findPatchApplication_keeps T patchId idempotencyKey entries

end Keeps

/-! ## What every call does -/

/-- Sequences of steps between ledgers. -/
def Reaches (T : Tools) (call : TypedCommand) (s₀ s t : ObjectStore) : Prop :=
  Ledger T.toCrates s →
    Ledger T.toCrates t ∧ Relation.ReflTransGen (RecordStep T call s₀) s t

instance (T : Tools) (call : TypedCommand) (s₀ : ObjectStore) : Std.Refl (Reaches T call s₀) :=
  ⟨fun _ h => ⟨h, .refl⟩⟩

instance (T : Tools) (call : TypedCommand) (s₀ : ObjectStore) :
    IsTrans ObjectStore (Reaches T call s₀) where
  trans _ _ _ h h' hs := by
    obtain ⟨ht, hst⟩ := h hs
    obtain ⟨hu, htu⟩ := h' ht
    exact ⟨hu, hst.trans htu⟩

/-- The program, run from `s` as a part of the call, does such steps, as long as no hashes
    collide. -/
def Does (T : Tools) (call : TypedCommand) (s₀ : ObjectStore) {α : Type} (p : Command α)
    (s : ObjectStore) : Prop :=
  Prog.Ensures exec (fun u => NoCollisions T.toCrates u u) (Reaches T call s₀) p
    (fun _ _ => True) s

section Does

variable {T : Tools} {call : TypedCommand} {s₀ s : ObjectStore} {α β : Type}

theorem does_ret (a : α) : Does T call s₀ (.ret a : Command α) s := Prog.ensures_ret trivial

theorem does_fail (e : CliError) : Does T call s₀ (.fail e : Command α) s := Prog.ensures_fail

theorem does_bind_ofExcept {x : Except CliError α} {f : α → Command β}
    (hf : ∀ a, x = .ok a → Does T call s₀ (f a) s) : Does T call s₀ (liftM x >>= f) s := by
  cases x with
  | ok a => exact hf a rfl
  | error e => exact does_fail e

/-- A part that only reads. -/
theorem does_bind_reads (hX : ReadsBack T.toCrates) (h : Ledger T.toCrates s) {p : Command α}
    {f : α → Command β} (hp : Keeps p)
    (hf : ∀ a t, p.run exec s = (.ok a, t) → SameContent s t → Ledger T.toCrates t →
      Does T call s₀ (f a) t) : Does T call s₀ (p >>= f) s := by
  refine Prog.Ensures.bind (Q := fun a t => p.run exec s = (.ok a, t)) (fun _ => ⟨fun _ => ?_,
    fun a ha => Prod.ext ha rfl⟩) fun a t _ hrun => ?_
  · exact ⟨h.of_same hX (hp s), .single (.read h (hp s))⟩
  · have hs := hp.of_run hrun
    exact hf a t hrun hs (h.of_same hX hs)

theorem wrote_writeRecord {kind : String} {body : Value} (signing : Option (Bytes × Option String))
    (s : ObjectStore) :
    Wrote T.toCrates kind body s ((writeRecord T kind body signing).run exec s).2 := by
  refine ⟨signing, ?_⟩
  rw [writeRecord, Prog.run_mapFail, prog_writeCall]

/-- A write that is allowed here, and what follows it. -/
theorem does_bind_write (hX : ReadsBack T.toCrates) (h : Ledger T.toCrates s) {kind : String}
    {body : Value} {signing : Option (Bytes × Option String)} {f : ObjectWriteReport → Command β}
    (hw : Writes T call s₀ s kind body)
    (hf : ∀ report t, Wrote T.toCrates kind body s t →
      Holds T.toCrates t kind report.objectId (canonicalJson body) → Ledger T.toCrates t →
      Does T call s₀ (f report) t) :
    Does T call s₀ (writeRecord T kind body signing >>= f) s := by
  refine Prog.Ensures.bind (Q := fun report t => Wrote T.toCrates kind body s t ∧
    Holds T.toCrates t kind report.objectId (canonicalJson body) ∧ Ledger T.toCrates t)
    (fun hI => ?_) fun report t _ hQ => hf report t hQ.1 hQ.2.1 hQ.2.2
  have hwrote : Wrote T.toCrates kind body s ((writeRecord T kind body signing).run exec s).2 :=
    wrote_writeRecord signing s
  obtain ⟨hk, hb⟩ := object_writeCall T.toCrates kind body signing
  have hrun : (writeRecord T kind body signing).run exec s =
      ((((writeCall T.toCrates kind body signing).prog T.toCrates).run exec s).1.mapError .git,
        (((writeCall T.toCrates kind body signing).prog T.toCrates).run exec s).2) := by
    rw [writeRecord, Prog.run_mapFail, prog_writeCall]
  have hsha := hI _ (Prog.visits_last _ s)
  rw [hrun] at hsha hwrote ⊢
  have hledger := h.write hX (writeCall T.toCrates kind body signing) hsha
  refine ⟨fun _ => ⟨hledger, .single (.write h hw hwrote hledger)⟩, fun report hok => ⟨hwrote, ?_, hledger⟩⟩
  have hok' : (((writeCall T.toCrates kind body signing).prog T.toCrates).run exec s).1 =
      .ok report := by
    rcases hres : (((writeCall T.toCrates kind body signing).prog T.toCrates).run exec s).1 with
      e | r
    · rw [hres] at hok
      cases hok
    · rw [hres] at hok
      exact congrArg _ (Except.ok.inj hok)
  have hheld := hledger.holds_of_ok hX (Prod.ext hok' rfl)
  rwa [hk, hb, canonicalJson_idem] at hheld

end Does

section Calls

variable {T : Tools} {call : TypedCommand} {s₀ s : ObjectStore}

theorem intentWrite_does (hX : ReadsBack T.toCrates) (h : Ledger T.toCrates s) (env : Environment)
    (intent : Except CliError WorkIntent) : Does T call s₀ (intentWrite T env intent) s := by
  refine does_bind_ofExcept fun signing _ => does_bind_ofExcept fun intent _ => ?_
  split
  · exact does_bind_write hX h (.intent intent) fun _ _ _ _ _ => does_ret _
  · exact does_ret _

theorem issueImport_does (hX : ReadsBack T.toCrates) (h : Ledger T.toCrates s) (env : Environment)
    (args : IssueImportArgs) : Does T call s₀ (issueImport T env args) s := by
  refine does_bind_ofExcept fun signing _ => does_bind_ofExcept fun privacy _ => ?_
  dsimp only
  split
  · exact does_bind_write hX h (.intent _) fun _ _ _ _ _ => does_ret _
  · exact does_ret _

theorem startAttempt_does (hX : ReadsBack T.toCrates) (h : Ledger T.toCrates s)
    (env : Environment) {input : AttemptStartInput} (inPlace : Bool)
    (signing : Option (Bytes × Option String))
    (hw : ∀ attempt : AgentAttempt, attempt.intentId = input.intentId →
      Writes T call s₀ s "agent.attempt" attempt.toValue) :
    Does T call s₀ (startAttempt T env input inPlace signing) s := by
  refine does_bind_ofExcept fun headCommit _ => ?_
  split
  · exact does_fail _
  · refine does_bind_ofExcept fun _ _ => ?_
    exact does_bind_write hX h (hw _ rfl) fun _ _ _ _ _ => does_ret _

theorem workStart_does (hX : ReadsBack T.toCrates) (h : Ledger T.toCrates s) (env : Environment)
    (args : WorkStartArgs) : Does T call s₀ (workStart T env args) s := by
  refine does_bind_ofExcept fun signing _ => does_bind_ofExcept fun privacy _ => ?_
  dsimp only
  split
  · refine does_bind_write hX h (.intent _) fun intentObject t _ hholds ht => ?_
    refine startAttempt_does hX ht env _ _ fun attempt hid => .workAttempt ?_
    rw [hid]
    exact hholds.refBackedOf
  · exact does_fail _

theorem attemptStart_does (hX : ReadsBack T.toCrates) (h : Ledger T.toCrates s)
    (env : Environment) (input : AttemptStartInput) (inPlace : Bool) :
    Does T (.attemptStart env input inPlace) s₀ (attemptStart T env input inPlace) s := by
  refine does_bind_ofExcept fun signing _ => ?_
  refine does_bind_reads hX h ((readCachedObject_keeps _ _).mapFail _) fun report t hrun hs ht => ?_
  rw [Prog.run_mapFail_ok_iff] at hrun
  -- the object that was read has the digits of the id as it was typed
  obtain ⟨hex, hhex, hhex', hcopy⟩ := h.read (by rw [hrun])
  have hholds := h.holds_copy hcopy
  split
  · exact does_fail _
  · next hk =>
      rw [not_not.mp hk] at hholds
      refine does_bind_ofExcept fun intent _ => ?_
      split
      · refine startAttempt_does hX ht env inPlace signing fun attempt hid => ?_
        exact .attempt rfl hid ((Holds.same hs).mpr hholds).refBackedOf hhex' hhex
      · exact does_fail _

theorem writeAttemptTransition_does (hX : ReadsBack T.toCrates) (h : Ledger T.toCrates s)
    (env : Environment) {input : AttemptTransitionInput} {status : AttemptStatus}
    (signing : Option (Bytes × Option String))
    (hpatch : status = .submitted →
      ∃ patch, StoredPatch T.toCrates s patch ∧ patch.attemptId = input.attemptId) :
    Does T call s₀ (writeAttemptTransition T env input status signing) s := by
  refine does_bind_reads hX h (findAttempt_keeps T _) fun attempt t hrun hs ht => ?_
  obtain ⟨hstored, hid⟩ := findAttempt_stored hX h hrun
  refine does_bind_reads hX ht (effectiveAttemptStatus_keeps T _) fun current u _ hu hledger => ?_
  split
  · exact does_fail _
  · refine does_bind_ofExcept fun createdAtMs _ => ?_
    refine does_bind_write hX hledger (.transition ?_ fun hsub => ?_) fun _ _ _ _ _ => does_ret _
    · exact HasAttempt.same (hs.trans hu) ⟨attempt, hstored, rfl⟩
    · obtain ⟨patch, hpatch, hpid⟩ := hpatch hsub
      exact ⟨patch, (IsStored.same (hs.trans hu)).mpr hpatch, hpid.trans hid.symm⟩

theorem attemptAbandon_does (hX : ReadsBack T.toCrates) (h : Ledger T.toCrates s)
    (env : Environment) (input : AttemptTransitionInput) :
    Does T call s₀ (attemptAbandon T env input) s := by
  refine does_bind_ofExcept fun signing _ => ?_
  exact writeAttemptTransition_does hX h env signing fun hsub => nomatch hsub

theorem attemptSubmit_does (hX : ReadsBack T.toCrates) (h : Ledger T.toCrates s)
    (env : Environment) (input : AttemptTransitionInput) :
    Does T call s₀ (attemptSubmit T env input) s := by
  refine does_bind_ofExcept fun signing _ => ?_
  refine does_bind_reads hX h (listPatches_keeps T) fun patches t hrun hs ht => ?_
  have hstored := sortedBodies_stored hX h hrun
  split
  · next hany =>
      obtain ⟨entry, hentry, hid⟩ := List.any_eq_true.mp hany
      refine writeAttemptTransition_does hX ht env signing fun _ => ⟨entry.body, ?_, eq_of_beq hid⟩
      exact (IsStored.same hs).mpr ((hstored _).mp (List.mem_map_of_mem hentry))
  · exact does_fail _

theorem runExec_does (hX : ReadsBack T.toCrates) (h : Ledger T.toCrates s) (env : Environment)
    (input : RunExecInput) : Does T call s₀ (runExec T env input) s := by
  refine does_bind_ofExcept fun signing _ => ?_
  refine does_bind_reads hX h (findAttempt_keeps T _) fun attempt t hrun hs ht => ?_
  obtain ⟨hstored, -⟩ := findAttempt_stored hX h hrun
  refine does_bind_reads hX ht (effectiveAttemptStatus_keeps T _) fun current u _ hu hledger => ?_
  have hattempt := HasAttempt.same (hs.trans hu) ⟨attempt, hstored, rfl⟩
  split
  · exact does_fail _
  · refine does_bind_ofExcept fun _ _ => does_bind_ofExcept fun startedAtMs _ => ?_
    refine does_bind_ofExcept fun output _ => does_bind_ofExcept fun finishedAtMs _ => ?_
    refine does_bind_write hX hledger (.trace _) fun _ v hwrote _ hv => ?_
    refine does_bind_write hX hv (.run ?_) fun _ _ _ _ _ => does_ret _
    obtain ⟨attempt', hstored', hid⟩ := hattempt
    exact ⟨attempt', hwrote.isStored hstored', hid⟩

theorem requestedRuns_mem {allRuns : List AgentRun} {attemptId : String} {runIds : List String}
    {selected : List AgentRun} (h : requestedRuns allRuns attemptId runIds = .ok selected) :
    ∀ run ∈ selected, run ∈ allRuns ∧ run.attemptId = attemptId := by
  induction runIds generalizing selected with
  | nil =>
    obtain rfl := Except.ok.inj h
    exact fun run hr => nomatch hr
  | cons runId rest ih =>
    rw [requestedRuns] at h
    split at h
    · cases h
    · next run hfind =>
        split at h
        · cases h
        · next hid =>
            rcases hrest : requestedRuns allRuns attemptId rest with e | restRuns
            · rw [hrest] at h
              cases h
            · rw [hrest] at h
              obtain rfl := Except.ok.inj h
              exact List.forall_mem_cons.mpr
                ⟨⟨List.mem_of_find?_eq_some hfind, not_not.mp hid⟩, ih hrest⟩

/-- The runs that are selected are stored runs of the attempt. -/
theorem selectChangeRuns_stored {t : ObjectStore} (hX : ReadsBack T.toCrates)
    (h : Ledger T.toCrates s) {attemptId : String} {requestedRunIds : List String}
    {runs : List AgentRun}
    (hrun : (selectChangeRuns T attemptId requestedRunIds).run exec s = (.ok runs, t)) :
    ∀ run ∈ runs, StoredRun T.toCrates s run ∧ run.attemptId = attemptId := by
  obtain ⟨listed, s₁, hlisted, hrun⟩ := Prog.run_bind_inv exec hrun
  obtain ⟨selected, s₂, hselected, hrun⟩ := Prog.run_bind_inv exec hrun
  rw [Prog.run_ofExcept] at hselected
  replace hselected := congrArg Prod.fst hselected
  obtain rfl := Except.ok.inj (congrArg Prod.fst hrun)
  intro run hmem
  replace hmem := List.mem_mergeSort.mp ((List.destutter_sublist _ _).mem hmem)
  have hmem' : run ∈ listed.map Listed.body ∧ run.attemptId = attemptId := by
    split at hselected
    · obtain rfl := Except.ok.inj hselected
      obtain ⟨hl, hid⟩ := List.mem_filter.mp hmem
      exact ⟨hl, eq_of_beq hid⟩
    · exact requestedRuns_mem hselected run hmem
  exact ⟨(sortedBodies_stored hX h hlisted run).mp hmem'.1, hmem'.2⟩

theorem changeDetect_does (hX : ReadsBack T.toCrates) (h : Ledger T.toCrates s)
    (env : Environment) (input : ChangeDetectInput) :
    Does T call s₀ (changeDetect T env input) s := by
  refine does_bind_ofExcept fun signing _ => ?_
  refine does_bind_reads hX h (findAttempt_keeps T _) fun attempt t hrun hs ht => ?_
  obtain ⟨hstored, -⟩ := findAttempt_stored hX h hrun
  refine does_bind_ofExcept fun detected _ => ?_
  split
  · exact does_fail _
  · refine does_bind_reads hX ht (selectChangeRuns_keeps T _ _) fun runs u hruns hu hledger => ?_
    have hmem := selectChangeRuns_stored hX ht hruns
    refine does_bind_write hX hledger (.change ?_ fun run hr => ?_) fun _ _ _ _ _ => does_ret _
    · exact (IsStored.same (hs.trans hu)).mpr hstored
    · exact ⟨(IsStored.same hu).mpr (hmem run hr).1, (hmem run hr).2⟩

theorem patchPrepare_does (hX : ReadsBack T.toCrates) (h : Ledger T.toCrates s)
    (env : Environment) (attemptId : String) :
    Does T (.patchPrepare env attemptId) s (patchPrepare T env attemptId) s := by
  refine does_bind_ofExcept fun signing _ => ?_
  refine does_bind_reads hX h (findAttempt_keeps T _) fun attempt t hrun hs ht => ?_
  obtain ⟨hstored, rfl⟩ := findAttempt_stored hX h hrun
  refine does_bind_reads hX ht (listChanges_keeps T) fun listed u hlisted hu hledger => ?_
  have hlist := sortedBodies_stored hX ht hlisted
  have hsu := hs.trans hu
  dsimp only
  split
  · exact does_fail _
  · refine does_bind_ofExcept fun detected hdetected => ?_
    split
    · next hany =>
        refine does_bind_write hX hledger (.patchDiff _) fun diffObject v hwrote hdiff hv => ?_
        refine does_bind_write hX hv (.patch rfl ?_ rfl (fun change => ?_) hdetected ?_ hdiff
          (fun kind objectId body hheld => hwrote.keeps ((Holds.same hsu).mpr hheld)) ?_)
          fun _ _ _ _ _ => does_ret _
        · exact hwrote.isStored ((IsStored.same hsu).mpr hstored)
        · rw [List.mem_filter, hlist, beq_iff_eq, ← IsStored.same hu,
            ← hwrote.isStored_iff hX (by decide)]
          rfl
        · obtain ⟨change, hchange, hhash⟩ := List.any_eq_true.mp hany
          exact List.mem_map.mpr ⟨change, hchange, eq_of_beq hhash⟩
        · intro kind objectId body hne hheld
          rcases hwrote.holds hX hheld with hold | ⟨hk, -⟩
          · exact (Holds.same hsu).mp hold
          · exact absurd hk.symm hne
    · exact does_fail _

theorem patchApply_does (hX : ReadsBack T.toCrates) (h : Ledger T.toCrates s)
    (env : Environment) (input : PatchApplyInput) :
    Does T call s₀ (patchApply T env input) s := by
  refine does_bind_reads hX h (listPatches_keeps T) fun patches t _ _ ht => ?_
  split
  · exact does_fail _
  refine does_bind_reads hX ht (findAttempt_keeps T _) fun attempt u _ _ hu => ?_
  split
  · exact does_fail _
  refine does_bind_ofExcept fun headCommit _ => ?_
  split
  · exact does_fail _
  split
  · exact does_fail _
  refine does_bind_reads hX hu (resolvePatchDiff_keeps _ _ _) fun resolved v _ _ hv => ?_
  split
  · exact does_fail _
  refine does_bind_ofExcept fun _ _ => ?_
  refine does_bind_reads hX hv (findReplay_keeps T _ _) fun replayed w _ _ hw => ?_
  split
  · exact does_ret _
  refine does_bind_ofExcept fun _ _ => does_bind_ofExcept fun _ _ => ?_
  refine does_bind_ofExcept fun _ _ => does_bind_ofExcept fun appliedAtMs _ => ?_
  exact does_bind_write hX hw (.application _) fun _ _ _ _ _ => does_ret _

theorem patchRetire_does (hX : ReadsBack T.toCrates) (h : Ledger T.toCrates s)
    (env : Environment) (input : PatchRetireInput) :
    Does T call s₀ (patchRetire T env input) s := by
  refine does_bind_reads hX h (listPatches_keeps T) fun patches t _ _ ht => ?_
  split
  · split
    · exact does_fail _
    · refine does_bind_ofExcept fun retiredAtMs _ => ?_
      exact does_bind_write hX ht (.retirement _) fun _ _ _ _ _ => does_ret _
  · exact does_fail _

end Calls

/-- A call on a ledger is a sequence of steps to a ledger, unless hashes collide on the
    way. -/
theorem TypedCommand.steps {T : Tools} (hX : ReadsBack T.toCrates) (call : TypedCommand)
    {s : ObjectStore} (h : Ledger T.toCrates s)
    (hsha : ∀ u, (call.prog T).Visits exec s u → NoCollisions T.toCrates u u) :
    Ledger T.toCrates ((call.prog T).run exec s).2 ∧
      Relation.ReflTransGen (RecordStep T call s) s ((call.prog T).run exec s).2 := by
  have hforget : ∀ {α : Type} {p : Command α}, Does T call s p s →
      Does T call s (do let _ ← p) s := fun hp =>
    Prog.Ensures.bind hp fun _ _ _ _ => does_ret _
  have hdoes : Does T call s (call.prog T) s := by
    cases call with
    | intentWrite env intent => exact hforget (intentWrite_does hX h env intent)
    | issueImport env args => exact hforget (issueImport_does hX h env args)
    | workStart env args => exact hforget (workStart_does hX h env args)
    | attemptStart env input inPlace => exact hforget (attemptStart_does hX h env input inPlace)
    | runExec env input => exact hforget (runExec_does hX h env input)
    | changeDetect env input => exact hforget (changeDetect_does hX h env input)
    | patchPrepare env attemptId => exact hforget (patchPrepare_does hX h env attemptId)
    | attemptSubmit env input => exact hforget (attemptSubmit_does hX h env input)
    | attemptAbandon env input => exact hforget (attemptAbandon_does hX h env input)
    | patchApply env input => exact hforget (patchApply_does hX h env input)
    | patchRetire env input => exact hforget (patchRetire_does hX h env input)
  exact (hdoes hsha).1 h

/-! ## Runs -/

/-- The stores a sequence of calls passes through, those within a call included. -/
def PassesThrough (T : Tools) : ObjectStore → List TypedCommand → ObjectStore → Prop
  | s, [], u => u = s
  | s, call :: rest, u =>
    (call.prog T).Visits exec s u ∨ PassesThrough T ((call.prog T).run exec s).2 rest u

/-- Every call of the sequence meets a condition in the store it begins in. -/
def EachCall (T : Tools) (meets : TypedCommand → ObjectStore → Prop) :
    ObjectStore → List TypedCommand → Prop
  | _, [] => True
  | s, call :: rest => meets call s ∧ EachCall T meets ((call.prog T).run exec s).2 rest

theorem eachCall_of_forall {T : Tools} {meets : TypedCommand → Prop} {calls : List TypedCommand}
    (h : ∀ call ∈ calls, meets call) (s : ObjectStore) :
    EachCall T (fun call _ => meets call) s calls := by
  induction calls generalizing s with
  | nil => trivial
  | cons call rest ih =>
    obtain ⟨hcall, hrest⟩ := List.forall_mem_cons.mp h
    exact ⟨hcall, ih hrest _⟩

theorem eachCall_append {T : Tools} {meets : TypedCommand → ObjectStore → Prop}
    {calls calls' : List TypedCommand} {s : ObjectStore} (h : EachCall T meets s calls)
    (h' : EachCall T meets (runAll T s calls) calls') : EachCall T meets s (calls ++ calls') := by
  induction calls generalizing s with
  | nil => exact h'
  | cons call rest ih => exact ⟨h.1, ih h.2 h'⟩

/-- What every step of every call keeps, under a condition on the calls, holds after every
    sequence of calls. -/
theorem runAll_invariant {T : Tools} (hX : ReadsBack T.toCrates) {I : ObjectStore → Prop}
    {meets : TypedCommand → ObjectStore → Prop}
    (hstep : ∀ call s₀ s t, meets call s₀ → I s₀ → I s → RecordStep T call s₀ s t → I t)
    {calls : List TypedCommand} {s : ObjectStore} (h : Ledger T.toCrates s) (hI : I s)
    (hmeets : EachCall T meets s calls)
    (hsha : ∀ u, PassesThrough T s calls u → NoCollisions T.toCrates u u) :
    Ledger T.toCrates (runAll T s calls) ∧ I (runAll T s calls) := by
  induction calls generalizing s with
  | nil => exact ⟨h, hI⟩
  | cons call rest ih =>
    obtain ⟨hcall, hrest⟩ := hmeets
    obtain ⟨hledger, hsteps⟩ := call.steps hX h fun u hu => hsha u (.inl hu)
    refine ih hledger ?_ hrest fun u hu => hsha u (.inr hu)
    generalize ((call.prog T).run exec s).2 = t at hsteps
    induction hsteps with
    | refl => exact hI
    | tail _ hlast ih' => exact hstep call s _ _ hcall hI ih' hlast

end RickydataGit.Cli
