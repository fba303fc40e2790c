/-
  What a patch id stands for.

  The id of a patch is the hash of the attempt and of the ids of its changes; the diff is
  the one found in the work tree, and only has to be that of some change.

  `StandsFor X s patch raw` : the diff object of the patch is stored and holds these bytes,
  so that they are what `resolve_patch_diff` returns (`StandsFor.resolves`).

  `oneDiff_of_unmoved`: after every sequence of commands, patches of one id resolve to one
  diff, if no `patch prepare` finds another diff in the work tree than a stored patch of
  the id it computes has. In `movedBack` one does: the work tree is at the second of two
  recorded states, then at the first again.
-/
import RickydataGit.Cli.Provenance

namespace RickydataGit.Cli

open RickydataGit.Lib RickydataGit.Core RickydataGit.Git

/-! ## Hexadecimal digits -/

theorem utf8ByteSize_ofList (cs : List Char) :
    (String.ofList cs).utf8ByteSize = (cs.map Char.utf8Size).sum := by
  induction cs with
  | nil => rfl
  | cons c cs ih =>
    rw [String.ofList_cons, String.utf8ByteSize_append, String.utf8ByteSize_singleton, ih,
      List.map_cons, List.sum_cons]

theorem utf8Size_digitChar : ∀ d < 16, d.digitChar.utf8Size = 1 := by
  decide

theorem digitChar_ne_plus : ∀ d < 16, d.digitChar ≠ '+' := by
  decide

theorem byteOfHex_digits (b : UInt8) :
    byteOfHex (b.toNat / 16).digitChar (b.toNat % 16).digitChar = some b := by
  have hb := b.toNat_lt
  rw [byteOfHex, if_neg (digitChar_ne_plus _ (by omega)), hexDigitValue_digitChar _ (by omega),
    hexDigitValue_digitChar _ (by omega)]
  simp only [Option.bind_eq_bind, Option.bind_some]
  rw [Nat.div_add_mod' b.toNat 16, UInt8.ofNat_toNat]
  rfl

theorem decodeHexFrom_hexEncode (index : Nat) (bytes : Bytes) :
    decodeHexFrom index (hexEncode bytes).toList = .ok bytes := by
  rw [hexEncode_toList]
  induction bytes generalizing index with
  | nil => rfl
  | cons b bytes ih =>
    have hb := b.toNat_lt
    have hhigh := utf8Size_digitChar (b.toNat / 16) (by omega)
    have hlow := utf8Size_digitChar (b.toNat % 16) (by omega)
    rw [List.flatMap_cons, List.cons_append, List.cons_append, List.nil_append, decodeHexFrom,
      hhigh, hlow, byteOfHex_digits, ih]
    rfl

/-- What is encoded is decoded again. -/
theorem decodeHex_hexEncode (bytes : Bytes) : decodeHex (hexEncode bytes) = .ok bytes := by
  have hsize : (hexEncode bytes).utf8ByteSize = 2 * bytes.length := by
    have hones : (hexEncode bytes).toList.map Char.utf8Size =
        List.replicate (hexEncode bytes).toList.length 1 := by
      refine List.eq_replicate_iff.mpr ⟨List.length_map .., fun n hn => ?_⟩
      obtain ⟨c, hc, rfl⟩ := List.mem_map.mp hn
      obtain ⟨d, hd, rfl⟩ := mem_hexEncode hc
      exact utf8Size_digitChar d hd
    rw [← String.ofList_toList (s := hexEncode bytes), utf8ByteSize_ofList, hones, List.sum_replicate,
      length_hexEncode, smul_eq_mul, mul_one]
  rw [decodeHex, if_neg (by omega), decodeHexFrom_hexEncode]

/-! ## The diff of a patch -/

/-- The diff object of the patch holds these bytes. -/
def StandsFor (X : Crates) (s : ObjectStore) (patch : PreparedPatch) (raw : Bytes) : Prop :=
  ∃ diffObjectId body patchDiff, patch.diffObjectIds = [diffObjectId] ∧
    Holds X s "agent.patch_diff" diffObjectId body ∧ PatchDiff.ofValue body = some patchDiff ∧
    patchDiff.patchId = patch.patchId ∧ patchDiff.attemptId = patch.attemptId ∧
    patchDiff.baseCommit = patch.baseCommit ∧ patchDiff.encoding = "hex" ∧
    patchDiff.diffHash ∈ patch.diffHashes ∧ patchDiff.encodedDiff = hexEncode raw ∧
    patchDiff.diffHash = hashText X raw ∧ patchDiff.diffBytes = .ofNat raw.length

section StandsFor

variable {X : Crates} {s t : ObjectStore} {patch : PreparedPatch} {raw raw' : Bytes}

theorem StandsFor.mono
    (hst : ∀ kind objectId body, Holds X s kind objectId body → Holds X t kind objectId body)
    (h : StandsFor X s patch raw) : StandsFor X t patch raw := by
  obtain ⟨diffObjectId, body, patchDiff, hids, hbody, hrest⟩ := h
  exact ⟨diffObjectId, body, patchDiff, hids, hst _ _ _ hbody, hrest⟩

/-- In a ledger the bytes are determined. -/
theorem StandsFor.unique (hs : Ledger X s) (h : StandsFor X s patch raw)
    (h' : StandsFor X s patch raw') : raw = raw' := by
  obtain ⟨diffObjectId, body, patchDiff, hids, hbody, hread, -, -, -, -, -, hraw, -⟩ := h
  obtain ⟨diffObjectId', body', patchDiff', hids', hbody', hread', -, -, -, -, -, hraw', -⟩ := h'
  obtain rfl := List.singleton_inj.mp (hids.symm.trans hids')
  obtain ⟨-, rfl⟩ := hs.holds_inj hbody hbody'
  obtain rfl := Option.some.inj (hread.symm.trans hread')
  exact hexEncode_inj (hraw.symm.trans hraw')

/-- They are the diff that the patch resolves to, whatever the work tree is like. -/
theorem StandsFor.resolves {T : Tools} (hs : Ledger T.toCrates s)
    (h : StandsFor T.toCrates s patch raw) (attempt : AgentAttempt) :
    ∃ resolved, ((resolvePatchDiff T patch attempt).run exec s).1 = .ok resolved ∧
      resolved.rawDiff = raw := by
  obtain ⟨diffObjectId, body, patchDiff, hids, hbody, hread, hpatch, hattempt, hbase, hencoding,
    hlisted, hraw, hhash, hbytes⟩ := h
  rw [hhash] at hlisted
  obtain ⟨o, hsound, hcopy, hkind, hid⟩ := hs.valid.sound hs.sha hs.valid hbody.refBackedOf
  have hheld := hs.holds_copy hcopy
  rw [hid] at hheld
  obtain ⟨-, hobody⟩ := hs.holds_inj hheld hbody
  have hbodyOf : bodyOf T "PatchDiff" PatchDiff.ofValue o = .ok patchDiff := by
    rw [bodyOf, hobody, hread]
  have hhead : patch.diffObjectIds.head? = some diffObjectId := by
    rw [hids]
    rfl
  refine ⟨⟨patchDiff.diffHash, patchDiff.diffBytes, patchDiff.filePaths, raw⟩, ?_, rfl⟩
  rw [resolvePatchDiff_run hhead hsound attempt, checkedPatchDiff, if_neg (not_not.mpr hkind),
    hbodyOf]
  simp only [bind, Except.bind, hpatch, hattempt, hbase, hencoding, hlisted, hraw,
    decodeHex_hexEncode, hhash, hbytes, ne_eq, not_true_eq_false, if_false]
  rfl

end StandsFor

/-! ## Sequences of commands -/

/-- Patches of one id resolve to one diff. -/
def OneDiff (T : Tools) (s : ObjectStore) : Prop :=
  ∀ patch patch', StoredPatch T.toCrates s patch → StoredPatch T.toCrates s patch' →
    patch.patchId = patch'.patchId → ∀ env env' attempt attempt', ∃ resolved resolved',
      ((resolvePatchDiff (toolsIn T env) patch attempt).run exec s).1 = .ok resolved ∧
      ((resolvePatchDiff (toolsIn T env') patch' attempt').run exec s).1 = .ok resolved' ∧
      resolved.rawDiff = resolved'.rawDiff

/-- Where a `patch prepare` can go on, the stored patches of the id it computes have the
    diff that is in the work tree now. -/
def Unmoved (T : Tools) : TypedCommand → ObjectStore → Prop
  | .patchPrepare env attemptId, s =>
    ∀ (attempt : AgentAttempt) (changes : List ChangeEvidence) (detected : WorktreeDiff),
      StoredAttempt T.toCrates s attempt → attempt.attemptId = attemptId →
      (∀ change, change ∈ changes ↔
        StoredChange T.toCrates s change ∧ change.attemptId = attemptId) →
      detectAttemptDiff T env attempt = .ok detected →
      detected.diffHash ∈ changes.map ChangeEvidence.diffHash →
      ∀ patch raw, StoredPatch T.toCrates s patch →
        patch.patchId = patchIdOf T attemptId (sortedDedup (changes.map ChangeEvidence.changeId)) →
        StandsFor T.toCrates s patch raw → raw = detected.rawDiff
  | _, _ => True

/-- Every stored patch has a diff, and patches of one id have the same. -/
structure Prepared (X : Crates) (s : ObjectStore) : Prop where
  stands : ∀ patch, StoredPatch X s patch → ∃ raw, StandsFor X s patch raw
  same : ∀ patch patch' raw raw', StoredPatch X s patch → StoredPatch X s patch' →
    patch.patchId = patch'.patchId → StandsFor X s patch raw → StandsFor X s patch' raw' → raw = raw'

section Steps

variable {T : Tools} {s t : ObjectStore}

theorem Prepared.oneDiff (hs : Ledger T.toCrates s) (h : Prepared T.toCrates s) :
    OneDiff T s := by
  intro patch patch' hpatch hpatch' hid env env' attempt attempt'
  obtain ⟨raw, hraw⟩ := h.stands patch hpatch
  obtain ⟨raw', hraw'⟩ := h.stands patch' hpatch'
  obtain ⟨resolved, hrun, hresolved⟩ := hraw.resolves (T := toolsIn T env) hs attempt
  obtain ⟨resolved', hrun', hresolved'⟩ := hraw'.resolves (T := toolsIn T env') hs attempt'
  refine ⟨resolved, resolved', hrun, hrun', ?_⟩
  rw [hresolved, hresolved', h.same patch patch' raw raw' hpatch hpatch' hid hraw hraw']

/-- Nothing changes while no patch is added. -/
theorem Prepared.mono (hs : Ledger T.toCrates t) (h : Prepared T.toCrates s)
    (hst : ∀ kind objectId body, Holds T.toCrates s kind objectId body →
      Holds T.toCrates t kind objectId body)
    (hpatches : ∀ patch, StoredPatch T.toCrates t patch → StoredPatch T.toCrates s patch) :
    Prepared T.toCrates t where
  stands patch hpatch := by
    obtain ⟨raw, hraw⟩ := h.stands patch (hpatches patch hpatch)
    exact ⟨raw, hraw.mono hst⟩
  same patch patch' raw raw' hpatch hpatch' hid hraw hraw' := by
    obtain ⟨old, hold⟩ := h.stands patch (hpatches patch hpatch)
    obtain ⟨old', hold'⟩ := h.stands patch' (hpatches patch' hpatch')
    rw [hraw.unique hs (hold.mono hst), hraw'.unique hs (hold'.mono hst)]
    exact h.same patch patch' old old' (hpatches patch hpatch) (hpatches patch' hpatch') hid hold
      hold'

/-- The diff of a patch as it is prepared. -/
theorem standsFor_preparedPatchOf {attempt : AgentAttempt} {changes : List ChangeEvidence}
    {git : GitDiff} {diffObjectId : String}
    (hhash : (worktreeDiff T git).diffHash ∈ changes.map ChangeEvidence.diffHash)
    (hdiff : Holds T.toCrates s "agent.patch_diff" diffObjectId
      (canonicalJson (patchDiffOf (preparedPatchOf T attempt changes diffObjectId).patchId attempt
        (worktreeDiff T git)).toValue)) :
    StandsFor T.toCrates s (preparedPatchOf T attempt changes diffObjectId) git.diff :=
  ⟨diffObjectId, _, _, rfl, hdiff, PatchDiff.readBack _, rfl, rfl, rfl, rfl,
    mem_sortedDedup.mpr hhash, rfl, rfl, rfl⟩

/-- A new patch agrees with the stored ones of its id. -/
theorem Prepared.patch {patch : PreparedPatch} {raw : Bytes} (hs : Ledger T.toCrates t)
    (h : Prepared T.toCrates s)
    (hst : ∀ kind objectId body, Holds T.toCrates s kind objectId body →
      Holds T.toCrates t kind objectId body)
    (hpatches : ∀ patch', StoredPatch T.toCrates t patch' →
      StoredPatch T.toCrates s patch' ∨ patch' = patch)
    (hraw : StandsFor T.toCrates t patch raw)
    (hunmoved : ∀ patch' raw', StoredPatch T.toCrates s patch' → patch'.patchId = patch.patchId →
      StandsFor T.toCrates s patch' raw' → raw' = raw) : Prepared T.toCrates t := by
  have hold : ∀ patch' raw', StoredPatch T.toCrates s patch' → StandsFor T.toCrates t patch' raw' →
      StandsFor T.toCrates s patch' raw' := by
    intro patch' raw' hpatch' hraw'
    obtain ⟨old, hold⟩ := h.stands patch' hpatch'
    rwa [hraw'.unique hs (hold.mono hst)]
  constructor
  · intro patch' hpatch'
    rcases hpatches patch' hpatch' with hp | rfl
    · obtain ⟨old, hold⟩ := h.stands patch' hp
      exact ⟨old, hold.mono hst⟩
    · exact ⟨raw, hraw⟩
  · intro p p' r r' hp hp' hid hr hr'
    rcases hpatches p hp with hps | rfl
    · rcases hpatches p' hp' with hps' | rfl
      · exact h.same p p' r r' hps hps' hid (hold p r hps hr) (hold p' r' hps' hr')
      · rw [hunmoved p r hps hid (hold p r hps hr), hraw.unique hs hr']
    · rw [hr.unique hs hraw]
      rcases hpatches p' hp' with hps' | rfl
      · rw [hunmoved p' r' hps' hid.symm (hold p' r' hps' hr')]
      · exact hraw.unique hs hr'

theorem detectAttemptDiff_ok {env : Environment} {attempt : AgentAttempt} {detected : WorktreeDiff}
    (h : detectAttemptDiff T env attempt = .ok detected) : ∃ git, worktreeDiff T git = detected := by
  unfold detectAttemptDiff at h
  rcases hgit : env.gitDiff attempt with e | git
  · rw [hgit] at h
    cases h
  · rw [hgit] at h
    exact ⟨git, Except.ok.inj h⟩

theorem IsStored.of_same_holds {α : Type} {kind : String} {read : Value → Option α}
    (hst : ∀ objectId body, Holds T.toCrates t kind objectId body ↔
      Holds T.toCrates s kind objectId body) (record : α) :
    IsStored T.toCrates t kind read record ↔ IsStored T.toCrates s kind read record := by
  simp only [IsStored, hst]

theorem RecordStep.prepared (hX : ReadsBack T.toCrates) {call : TypedCommand} {s₀ : ObjectStore}
    (hunmoved : Unmoved T call s₀) (h₀ : Prepared T.toCrates s₀) (h : Prepared T.toCrates s)
    (hstep : RecordStep T call s₀ s t) : Prepared T.toCrates t := by
  have hkeeps : ∀ kind objectId body, Holds T.toCrates s kind objectId body →
      Holds T.toCrates t kind objectId body := fun _ _ _ => hstep.keeps
  cases hstep with
  | read hs hsame =>
    exact h.mono (hs.of_same hX hsame) hkeeps fun patch hpatch => (IsStored.same hsame).mp hpatch
  | @write kind body hs hw hwrote ht =>
    by_cases hkind : kind = "agent.patch"
    · cases hw with
      | @patch env attemptId attempt changes detected diffObjectId hcall hattempt hid hchanges
          hdetected hhash hdiff hkept hold =>
        subst hcall hid
        -- the attempt and its changes are those that were there when the call began
        have hstored : ∀ {α : Type} {kind : String} {read : Value → Option α} (record : α),
            kind ≠ "agent.patch_diff" → (IsStored T.toCrates s kind read record ↔
              IsStored T.toCrates s₀ kind read record) := fun record hne =>
          IsStored.of_same_holds (fun objectId body =>
            ⟨hold _ objectId body hne, hkept _ objectId body⟩) record
        obtain ⟨git, rfl⟩ := detectAttemptDiff_ok hdetected
        refine h.patch ht hkeeps (fun patch' hpatch' => ?_)
          ((standsFor_preparedPatchOf hhash hdiff).mono hkeeps) fun patch' raw' hpatch' hid' hraw' => ?_
        · obtain ⟨objectId, body, hbody, hread⟩ := hpatch'
          rcases hwrote.holds hX hbody with hold | ⟨-, rfl⟩
          · exact .inl ⟨objectId, body, hold, hread⟩
          · rw [PreparedPatch.readBack] at hread
            exact .inr (Option.some.inj hread).symm
        · have hpatch₀ := (hstored patch' (by decide)).mp hpatch'
          obtain ⟨old, hold⟩ := h₀.stands patch' hpatch₀
          rw [hraw'.unique hs (hold.mono hkept)]
          refine hunmoved attempt changes _ ((hstored attempt (by decide)).mp hattempt) rfl
            (fun change => ?_) hdetected hhash patch' old hpatch₀ hid' hold
          rw [hchanges change]
          exact and_congr_left fun _ => hstored change (by decide)
      | _ => exact absurd hkind (by decide)
    · exact h.mono ht hkeeps fun patch hpatch => (hwrote.isStored_iff hX hkind).mp hpatch

end Steps

/-- After every sequence of commands, patches of one id resolve to one diff, if no
    `patch prepare` finds the work tree moved since a patch of its id. -/
theorem oneDiff_of_unmoved {T : Tools} (hX : ReadsBack T.toCrates) (calls : List TypedCommand)
    (hunmoved : EachCall T (Unmoved T) .empty calls)
    (hsha : ∀ u, PassesThrough T .empty calls u → NoCollisions T.toCrates u u) :
    OneDiff T (runAll T .empty calls) := by
  have hempty : ∀ patch, ¬ StoredPatch T.toCrates .empty patch := by
    rintro patch ⟨objectId, body, ⟨r, hr, -⟩, -⟩
    have hsome := (mem_objectRefs.mp hr).1
    simp [ObjectStore.empty] at hsome
  have hprepared : Prepared T.toCrates .empty := by
    constructor
    · exact fun patch hpatch => absurd hpatch (hempty patch)
    · exact fun patch _ _ _ hpatch => absurd hpatch (hempty patch)
  obtain ⟨hledger, hI⟩ := runAll_invariant hX
    (fun call s₀ s t hcall h₀ h hstep => hstep.prepared hX hcall h₀ h)
    (ledger_empty _) hprepared hunmoved hsha
  exact hI.oneDiff hledger

/-! ## A work tree that is moved back -/

/-- What git prints when a file was made executable. -/
def modeChange (name : String) : GitDiff where
  diff := utf8 s!"diff --git a/{name} b/{name}\nold mode 100644\nnew mode 100755\n"
  numstat := s!"0\t0\t{name}\n"
  nameStatus := s!"M\t{name}\n"
  names := [name]

/-- A work tree with this change. -/
def showing (name : String) : Environment :=
  { quietEnvironment with gitDiff := fun _ => .ok (modeChange name) }

/-- Two states of the work tree are recorded, and a patch is prepared of the second. -/
def preparedOnce : List TypedCommand :=
  exampleStart exampleIntentId ++
    [.changeDetect (showing "f") ⟨lowerAttempt.attemptId, []⟩,
      .changeDetect (showing "g") ⟨lowerAttempt.attemptId, []⟩,
      .patchPrepare (showing "g") lowerAttempt.attemptId]

/-- The work tree is back at the first when a patch is prepared again. -/
def movedBack : List TypedCommand :=
  preparedOnce ++ [.patchPrepare (showing "f") lowerAttempt.attemptId]

/-- The evidence of such a change. -/
def modeChangeEvidence (name diffHash changeId : String) : ChangeEvidence where
  changeId := changeId
  intentId := lowerAttempt.intentId
  attemptId := lowerAttempt.attemptId
  runIds := []
  baseCommit := lowerAttempt.baseCommit
  filePaths := [name]
  diffSummary := { DiffSummary.empty with fileCount := 1, filesModified := 1 }
  symbols := []
  diffHash := diffHash
  relatedContractHashes := []
  diagnostics := []

theorem changeOf_modeChange {name diffHash changeId : String}
    (hpaths : (worktreeDiff .reference (modeChange name)).filePaths = [name])
    (hsummary : (worktreeDiff .reference (modeChange name)).diffSummary =
      { DiffSummary.empty with fileCount := 1, filesModified := 1 })
    (hhash : (worktreeDiff .reference (modeChange name)).diffHash = diffHash)
    (hid : stableJsonHash .reference (.obj [("attempt_id", .str lowerAttempt.attemptId),
      ("diff_hash", .str diffHash), ("run_ids", .arr [])] (by simp)) = changeId) :
    changeOf .reference lowerAttempt (worktreeDiff .reference (modeChange name)) [] =
      modeChangeEvidence name diffHash changeId := by
  subst hhash hid
  have hcontracts : relatedContractHashes [] = [] := by
    rw [relatedContractHashes, List.flatMap_nil, sortedDedup_nil]
  rw [changeOf, hcontracts, hpaths, hsummary]
  rfl

def changeF : ChangeEvidence := modeChangeEvidence "f"
  "sha256:aace8e86782624137e17035a367eda2b9737a07019d88f84fcfa055b40d49e03"
  "sha256:f2c7ee6f0efeceb66c0548e1f27c2f3cd7d370386194bc7287aaa45444d011d9"

def changeG : ChangeEvidence := modeChangeEvidence "g"
  "sha256:c8d032205caa96ac849f3df71394ae9aa114c3779046341e0ee6ccceea1da96e"
  "sha256:3f1fbc178bc993acc34238cbea6d8e0a1f93704bd0540bc7baa6090f085fab84"

theorem changeOf_f : changeOf .reference lowerAttempt
    (worktreeDiff .reference (modeChange "f")) [] = changeF := by
  refine changeOf_modeChange (by decide +kernel) (by decide +kernel) (by decide +kernel) ?_
  rw [stableJsonHash_eq]
  decide +kernel

theorem changeOf_g : changeOf .reference lowerAttempt
    (worktreeDiff .reference (modeChange "g")) [] = changeG := by
  refine changeOf_modeChange (by decide +kernel) (by decide +kernel) (by decide +kernel) ?_
  rw [stableJsonHash_eq]
  decide +kernel

/-- The diff of such a change, as it is stored. -/
def modeChangeDiff (name diffHash : String) : PatchDiff where
  patchId := "sha256:8d128c21dd63e216ab2ab2feb31d0184228bd67050fe27cd6f57042593cc0a06"
  attemptId := lowerAttempt.attemptId
  baseCommit := lowerAttempt.baseCommit
  diffHash := diffHash
  diffBytes := 51
  filePaths := [name]
  encoding := "hex"
  encodedDiff := hexEncode (modeChange name).diff

def patchDiffF : PatchDiff := modeChangeDiff "f" changeF.diffHash

def patchDiffG : PatchDiff := modeChangeDiff "g" changeG.diffHash

/-- The patch of both changes. -/
def patchOfBoth (diffObjectId : String) : PreparedPatch where
  patchId := patchDiffF.patchId
  intentId := lowerAttempt.intentId
  attemptId := lowerAttempt.attemptId
  baseCommit := lowerAttempt.baseCommit
  changeIds := [changeG.changeId, changeF.changeId]
  runIds := []
  filePaths := ["f", "g"]
  diffHashes := [changeF.diffHash, changeG.diffHash]
  diffObjectIds := [diffObjectId]
  relatedContractHashes := []
  diagnostics := []

theorem preparedPatchOf_example (diffObjectId : String) :
    preparedPatchOf .reference lowerAttempt [changeG, changeF] diffObjectId =
      patchOfBoth diffObjectId := by
  have hchanges : sortedDedup ([changeG, changeF].map ChangeEvidence.changeId) =
      [changeG.changeId, changeF.changeId] :=
    sortedDedup_eq_of_mem (by decide) fun value => .rfl
  have hpaths : sortedDedup ([changeG, changeF].flatMap ChangeEvidence.filePaths) = ["f", "g"] :=
    sortedDedup_eq_of_mem (by decide) fun value => by
      simp [changeF, changeG, modeChangeEvidence, or_comm]
  have hhashes : sortedDedup ([changeG, changeF].map ChangeEvidence.diffHash) =
      [changeF.diffHash, changeG.diffHash] :=
    sortedDedup_eq_of_mem (by decide) fun value => by simp [or_comm]
  have hid : patchIdOf .reference lowerAttempt.attemptId [changeG.changeId, changeF.changeId] =
      patchDiffF.patchId := by
    rw [patchIdOf, stableJsonHash_eq]
    decide +kernel
  have hruns : [changeG, changeF].flatMap ChangeEvidence.runIds = [] := rfl
  have hcontracts : [changeG, changeF].flatMap ChangeEvidence.relatedContractHashes = [] := rfl
  rw [preparedPatchOf, hchanges, hpaths, hhashes, hid, hruns, hcontracts, sortedDedup_nil]
  rfl

def patchF : PreparedPatch := patchOfBoth
  "sha256:44520ff3cdc947fb1484a8089857698c030df65d27a5499c6a50367c09ca2521"

def patchG : PreparedPatch := patchOfBoth
  "sha256:f5815359a9233a861e24d19dbc105ebfc99dbfe8316df6f728ea6e810daec1d5"

def objectOfChange (change : ChangeEvidence) : CanonicalObject :=
  cachedObject .reference "agent.change" change.toValue

def objectOfDiff (patchDiff : PatchDiff) : CanonicalObject :=
  cachedObject .reference "agent.patch_diff" patchDiff.toValue

def objectOfPatch (patch : PreparedPatch) : CanonicalObject :=
  cachedObject .reference "agent.patch" patch.toValue

/-- The ids of both changes, and so on. -/
theorem objectIds_changes :
    (objectOfChange changeF).objectId =
      "sha256:d2b9c619bb006ad5dd926196deb4b8e2969c0382feb965e0401c198b6a93ea82" ∧
    (objectOfChange changeG).objectId =
      "sha256:046d5ece41bd06b134073c8b14d7a322f84f90e41b70270141712582dc9b46f8" := by
  simp only [objectOfChange, objectId_cachedObject]
  decide +kernel

theorem objectIds_diffs :
    (objectOfDiff patchDiffF).objectId =
      "sha256:44520ff3cdc947fb1484a8089857698c030df65d27a5499c6a50367c09ca2521" ∧
    (objectOfDiff patchDiffG).objectId =
      "sha256:f5815359a9233a861e24d19dbc105ebfc99dbfe8316df6f728ea6e810daec1d5" := by
  simp only [objectOfDiff, objectId_cachedObject]
  decide +kernel

theorem objectIds_patches :
    (objectOfPatch patchF).objectId =
      "sha256:56863fef1eba9e45b8c72a4198e9c78c8e9776d810abb506ab4e8f53a977bd05" ∧
    (objectOfPatch patchG).objectId =
      "sha256:15c4f4f422e477f411e6defb3870103be1d1c6b0de444aea1f6465bd55176522" := by
  simp only [objectOfPatch, objectId_cachedObject]
  decide +kernel

/-- The objects after the first preparation. -/
def preparedObjects : List CanonicalObject :=
  [objectOfPatch patchG, objectOfDiff patchDiffG, objectOfChange changeG, objectOfChange changeF,
    lowerAttemptObject, intentObject]

/-- The objects at the end. -/
def movedBackObjects : List CanonicalObject :=
  objectOfPatch patchF :: objectOfDiff patchDiffF :: preparedObjects

theorem movedBackObjects_nodup : (movedBackObjects.map CanonicalObject.objectId).Nodup := by
  obtain ⟨hchangeF, hchangeG⟩ := objectIds_changes
  obtain ⟨hdiffF, hdiffG⟩ := objectIds_diffs
  obtain ⟨hpatchF, hpatchG⟩ := objectIds_patches
  simp only [movedBackObjects, preparedObjects, List.map_cons, List.map_nil, hchangeF, hchangeG,
    hdiffF, hdiffG, hpatchF, hpatchG, lowerAttemptObject_objectId, intentObject_objectId]
  decide

/-- What there is of each kind. -/
theorem movedBackObjects_kinds {o : CanonicalObject} (ho : o ∈ movedBackObjects) :
    (o.kind = "agent.attempt" → o = lowerAttemptObject) ∧ o.kind ≠ "agent.run" ∧
      (o.kind = "agent.change" → o = objectOfChange changeF ∨ o = objectOfChange changeG) ∧
      (o.kind = "agent.patch" → o = objectOfPatch patchF ∨ o = objectOfPatch patchG) := by
  simp only [movedBackObjects, preparedObjects, List.mem_cons, List.not_mem_nil, or_false] at ho
  rcases ho with rfl | rfl | rfl | rfl | rfl | rfl | rfl | rfl
  · exact ⟨fun h => absurd h (by decide), by decide, fun h => absurd h (by decide), fun _ => .inl rfl⟩
  · exact ⟨fun h => absurd h (by decide), by decide, fun h => absurd h (by decide),
      fun h => absurd h (by decide)⟩
  · exact ⟨fun h => absurd h (by decide), by decide, fun h => absurd h (by decide), fun _ => .inr rfl⟩
  · exact ⟨fun h => absurd h (by decide), by decide, fun h => absurd h (by decide),
      fun h => absurd h (by decide)⟩
  · exact ⟨fun h => absurd h (by decide), by decide, fun _ => .inr rfl, fun h => absurd h (by decide)⟩
  · exact ⟨fun h => absurd h (by decide), by decide, fun _ => .inl rfl, fun h => absurd h (by decide)⟩
  · exact ⟨fun _ => rfl, by decide, fun h => absurd h (by decide), fun h => absurd h (by decide)⟩
  · exact ⟨fun h => absurd h (by decide), by decide, fun h => absurd h (by decide),
      fun h => absurd h (by decide)⟩

/-- The attempt is the only one, and is found. -/
theorem lowerAttempt_listed {os : List CanonicalObject} (hsub : os ⊆ movedBackObjects)
    (hmem : lowerAttemptObject ∈ os) :
    (∀ o ∈ os, o.kind = "agent.attempt" → (AgentAttempt.ofValue o.canonical.body).isSome) ∧
      (∃ o ∈ os, o.kind = "agent.attempt" ∧
        AgentAttempt.ofValue o.canonical.body = some lowerAttempt) ∧
      ∀ o ∈ os, ∀ found, o.kind = "agent.attempt" →
        AgentAttempt.ofValue o.canonical.body = some found →
        found.attemptId = lowerAttempt.attemptId → found = lowerAttempt := by
  have hbody : AgentAttempt.ofValue lowerAttemptObject.canonical.body = some lowerAttempt := by
    have hcanonical : lowerAttemptObject.canonical.body = canonicalJson lowerAttempt.toValue :=
      canonicalJson_idem _
    rw [hcanonical, AgentAttempt.readBack]
  refine ⟨fun o ho hk => ?_, ⟨_, hmem, rfl, hbody⟩, fun o ho found hk hfound _ => ?_⟩
  · rw [(movedBackObjects_kinds (hsub ho)).1 hk, hbody]
    rfl
  · rw [(movedBackObjects_kinds (hsub ho)).1 hk, hbody] at hfound
    exact (Option.some.inj hfound).symm

theorem objectOfChange_body (change : ChangeEvidence) :
    ChangeEvidence.ofValue (objectOfChange change).canonical.body = some change := by
  have hcanonical : (objectOfChange change).canonical.body = canonicalJson change.toValue :=
    canonicalJson_idem _
  rw [hcanonical, ChangeEvidence.readBack]

/-- The two changes are the only ones. -/
theorem changes_listed {os : List CanonicalObject} (hsub : os ⊆ movedBackObjects)
    (hf : objectOfChange changeF ∈ os) (hg : objectOfChange changeG ∈ os) :
    (∀ o ∈ os, o.kind = "agent.change" → (ChangeEvidence.ofValue o.canonical.body).isSome) ∧
      ∀ change, change ∈ [changeG, changeF] ↔ (∃ o ∈ os, o.kind = "agent.change" ∧
        ChangeEvidence.ofValue o.canonical.body = some change) ∧
        change.attemptId = lowerAttempt.attemptId := by
  refine ⟨fun o ho hk => ?_, fun change => ⟨fun hmem => ?_, fun ⟨⟨o, ho, hk, hread⟩, _⟩ => ?_⟩⟩
  · obtain rfl | rfl := (movedBackObjects_kinds (hsub ho)).2.2.1 hk
    · rw [objectOfChange_body]
      rfl
    · rw [objectOfChange_body]
      rfl
  · simp only [List.mem_cons, List.not_mem_nil, or_false] at hmem
    rcases hmem with rfl | rfl
    · exact ⟨⟨_, hg, rfl, objectOfChange_body _⟩, rfl⟩
    · exact ⟨⟨_, hf, rfl, objectOfChange_body _⟩, rfl⟩
  · obtain rfl | rfl := (movedBackObjects_kinds (hsub ho)).2.2.1 hk
    · rw [objectOfChange_body, Option.some.injEq] at hread
      simp [hread]
    · rw [objectOfChange_body, Option.some.injEq] at hread
      simp [hread]

/-- The two states are recorded. -/
theorem changes_recorded : ∃ t, EndsAll .reference .empty (preparedOnce.take 4) t ∧
    Filled .reference (preparedObjects.drop 2) t := by
  have hX := readsBack_reference
  obtain ⟨s, hstart, hs⟩ := exampleStart_filled
  have hnodup := movedBackObjects_nodup
  simp only [movedBackObjects, preparedObjects, List.map_cons, List.nodup_cons] at hnodup
  obtain ⟨-, -, -, -, hg, hf, -⟩ := hnodup
  have hsub : [lowerAttemptObject, intentObject] ⊆ movedBackObjects := by
    simp [movedBackObjects, preparedObjects]
  have hsub' : [objectOfChange changeF, lowerAttemptObject, intentObject] ⊆ movedBackObjects := by
    simp [movedBackObjects, preparedObjects]
  obtain ⟨hread, hstored, hunique⟩ := lowerAttempt_listed hsub (by simp)
  obtain ⟨t, hdetectF, ht⟩ := @changeDetect_ends .reference _ _ _ (showing "f") _ hX hs rfl rfl
    hread hstored hunique (by decide) (fun o ho => (movedBackObjects_kinds (hsub ho)).2.1)
    _ changeOf_f hf
  obtain ⟨hread', hstored', hunique'⟩ := lowerAttempt_listed hsub' (by simp)
  obtain ⟨u, hdetectG, hu⟩ := @changeDetect_ends .reference _ _ _ (showing "g") _ hX ht rfl rfl
    hread' hstored' hunique' (by decide) (fun o ho => (movedBackObjects_kinds (hsub' ho)).2.1)
    _ changeOf_g hg
  exact ⟨u, hstart.append (.cons hdetectF (.cons hdetectG (endsAll_nil hX hu))), hu⟩

/-- The diff object of a change that was recorded. -/
theorem patchDiffOf_modeChange {name : String} {change : ChangeEvidence}
    (hchange : changeOf .reference lowerAttempt (worktreeDiff .reference (modeChange name)) [] = change)
    (hpaths : change.filePaths = [name]) (hbytes : (modeChange name).diff.length = 51) :
    patchDiffOf patchDiffF.patchId lowerAttempt (worktreeDiff .reference (modeChange name)) =
      modeChangeDiff name change.diffHash := by
  subst hchange
  have hpaths' : (worktreeDiff .reference (modeChange name)).filePaths = [name] := hpaths
  have hbytes' : (worktreeDiff .reference (modeChange name)).diffBytes = 51 :=
    congrArg UInt64.ofNat hbytes
  rw [patchDiffOf, hpaths', hbytes']
  rfl

section Prepare

variable {os : List CanonicalObject} {s : ObjectStore} {name : String} {change : ChangeEvidence}
  {patch : PreparedPatch}

/-- Either state can be prepared once both are recorded. -/
theorem patchPrepare_modeChange (hs : Filled .reference os s) (hsub : os ⊆ movedBackObjects)
    (hmem : preparedObjects.drop 2 ⊆ os) (hmember : change ∈ [changeG, changeF])
    (hchange : changeOf .reference lowerAttempt (worktreeDiff .reference (modeChange name)) [] = change)
    (hpaths : change.filePaths = [name]) (hbytes : (modeChange name).diff.length = 51)
    (hpatch : patchOfBoth (objectOfDiff (modeChangeDiff name change.diffHash)).objectId = patch)
    (hnew : (objectOfDiff (modeChangeDiff name change.diffHash)).objectId ∉
      os.map CanonicalObject.objectId)
    (hnew' : (objectOfPatch patch).objectId ∉ (objectOfDiff (modeChangeDiff name change.diffHash) ::
      os).map CanonicalObject.objectId) :
    ∃ t, Ends .reference
        ((TypedCommand.patchPrepare (showing name) lowerAttempt.attemptId).prog .reference) s () t ∧
      Filled .reference
        (objectOfPatch patch :: objectOfDiff (modeChangeDiff name change.diffHash) :: os) t := by
  have hX := readsBack_reference
  obtain ⟨hread, hstored, hunique⟩ := lowerAttempt_listed hsub
    (hmem (by simp [preparedObjects]))
  obtain ⟨hchanges, hlisted⟩ := changes_listed hsub (hmem (by simp [preparedObjects]))
    (hmem (by simp [preparedObjects]))
  have hhash : (worktreeDiff .reference (modeChange name)).diffHash ∈
      [changeG, changeF].map ChangeEvidence.diffHash := by
    refine List.mem_map.mpr ⟨change, hmember, ?_⟩
    rw [← hchange]
    rfl
  have hpatchId : patch.patchId = patchDiffF.patchId := by
    rw [← hpatch]
    rfl
  exact @patchPrepare_ends .reference _ _ _ (showing name) _ hX hs rfl rfl hread hstored
    hunique _ _ _ hchanges hlisted hhash ((preparedPatchOf_example _).trans hpatch)
    (hpatchId ▸ patchDiffOf_modeChange hchange hpaths hbytes) hnew hnew'

end Prepare

theorem preparedOnce_ends : ∃ t, EndsAll .reference .empty preparedOnce t ∧
    Filled .reference preparedObjects t := by
  obtain ⟨s, hends, hs⟩ := changes_recorded
  have hnodup := movedBackObjects_nodup
  simp only [movedBackObjects, preparedObjects, List.map_cons, List.nodup_cons] at hnodup
  obtain ⟨-, -, hpatch, hdiff, -⟩ := hnodup
  have hsub : preparedObjects.drop 2 ⊆ movedBackObjects := by
    simp [movedBackObjects, preparedObjects]
  have hobject : patchOfBoth (objectOfDiff patchDiffG).objectId = patchG := by
    rw [objectIds_diffs.2]
    rfl
  obtain ⟨t, hprepare, ht⟩ := @patchPrepare_modeChange _ _ "g" _ _ hs hsub (List.Subset.refl _)
    (by simp) changeOf_g rfl (by decide) hobject hdiff hpatch
  exact ⟨t, hends.append (.cons hprepare (endsAll_nil readsBack_reference ht)), ht⟩

theorem movedBack_ends : ∃ t, EndsAll .reference .empty movedBack t ∧
    Filled .reference movedBackObjects t := by
  obtain ⟨s, hends, hs⟩ := preparedOnce_ends
  have hnodup := movedBackObjects_nodup
  rw [movedBackObjects, List.map_cons, List.map_cons, List.nodup_cons, List.nodup_cons] at hnodup
  obtain ⟨hpatch, hdiff, -⟩ := hnodup
  have hsub : preparedObjects ⊆ movedBackObjects := by
    rw [movedBackObjects]
    exact fun o ho => List.mem_cons_of_mem _ (List.mem_cons_of_mem _ ho)
  have hobject : patchOfBoth (objectOfDiff patchDiffF).objectId = patchF := by
    rw [objectIds_diffs.1]
    rfl
  obtain ⟨t, hprepare, ht⟩ := @patchPrepare_modeChange _ _ "f" _ _ hs hsub (List.drop_subset _ _)
    (by simp) changeOf_f rfl (by decide) hobject hdiff hpatch
  exact ⟨t, hends.append (.cons hprepare (endsAll_nil readsBack_reference ht)), ht⟩

/-- After the first preparation there is one patch, and it has one diff. -/
theorem preparedOnce_oneDiff : OneDiff .reference (runAll .reference .empty preparedOnce) := by
  have hX := readsBack_reference
  obtain ⟨s, hends, hs⟩ := changes_recorded
  obtain ⟨t, hends', -⟩ := preparedOnce_ends
  refine oneDiff_of_unmoved (T := .reference) hX preparedOnce ?_ hends'.clean
  have hfirst : EachCall .reference (Unmoved .reference) .empty (preparedOnce.take 4) :=
    ⟨trivial, trivial, trivial, trivial, trivial⟩
  refine @eachCall_append _ _ (preparedOnce.take 4) _ _ hfirst ⟨?_, trivial⟩
  rw [hends.run]
  -- no patch is stored yet
  rintro attempt changes detected - - - - - patch raw ⟨objectId, body, hbody, -⟩
  obtain ⟨o, ho, hk, -⟩ := (hs.holds hX).mp hbody
  simp only [preparedObjects, List.drop_succ_cons, List.drop_zero, List.mem_cons, List.not_mem_nil,
    or_false] at ho
  rcases ho with rfl | rfl | rfl | rfl
  · exact absurd hk (by decide)
  · exact absurd hk (by decide)
  · exact absurd hk (by decide)
  · exact absurd hk (by decide)

theorem standsFor_movedBack {s : ObjectStore} {patch : PreparedPatch} {name : String}
    {change : ChangeEvidence} (hs : Filled .reference movedBackObjects s)
    (hdiff : objectOfDiff (modeChangeDiff name change.diffHash) ∈ movedBackObjects)
    (hmember : change ∈ [changeF, changeG])
    (hchange : changeOf .reference lowerAttempt (worktreeDiff .reference (modeChange name)) [] = change)
    (hbytes : (modeChange name).diff.length = 51)
    (hpatch : patchOfBoth (objectOfDiff (modeChangeDiff name change.diffHash)).objectId = patch) :
    StandsFor .reference s patch (modeChange name).diff := by
  have hbody : (objectOfDiff (modeChangeDiff name change.diffHash)).canonical.body =
      canonicalJson (modeChangeDiff name change.diffHash).toValue := canonicalJson_idem _
  refine ⟨_, _, modeChangeDiff name change.diffHash, ?_,
    (hs.holds readsBack_reference).mpr ⟨_, hdiff, rfl, rfl, hbody⟩, PatchDiff.readBack _, ?_, ?_, ?_,
    rfl, ?_, rfl, ?_, ?_⟩
  · rw [← hpatch]
    rfl
  · rw [← hpatch]
    rfl
  · rw [← hpatch]
    rfl
  · rw [← hpatch]
    rfl
  · rw [← hpatch]
    exact List.mem_map_of_mem (f := ChangeEvidence.diffHash) hmember
  · rw [← hchange]
    rfl
  · rw [hbytes]
    rfl

/-- At the end two patches of one id have different diffs. -/
theorem movedBack_breaks_oneDiff : ¬ OneDiff .reference (runAll .reference .empty movedBack) := by
  intro h
  have hX := readsBack_reference
  obtain ⟨s, hends, hs⟩ := movedBack_ends
  rw [hends.run] at h
  have hobjectF : patchOfBoth (objectOfDiff patchDiffF).objectId = patchF := by
    rw [objectIds_diffs.1]
    rfl
  have hobjectG : patchOfBoth (objectOfDiff patchDiffG).objectId = patchG := by
    rw [objectIds_diffs.2]
    rfl
  have hstored : ∀ patch, objectOfPatch patch ∈ movedBackObjects → StoredPatch .reference s patch := by
    intro patch hmem
    have hbody : (objectOfPatch patch).canonical.body = canonicalJson patch.toValue :=
      canonicalJson_idem _
    exact ⟨_, _, (hs.holds hX).mpr ⟨_, hmem, rfl, rfl, hbody⟩, PreparedPatch.readBack _⟩
  have hrawF := standsFor_movedBack hs (by simp [movedBackObjects, patchDiffF]) (by simp) changeOf_f
    (by decide) hobjectF
  have hrawG := standsFor_movedBack hs (by simp [movedBackObjects, preparedObjects, patchDiffG])
    (by simp) changeOf_g (by decide) hobjectG
  obtain ⟨resolved, resolved', hrun, hrun', heq⟩ := h patchF patchG
    (hstored _ (by simp [movedBackObjects])) (hstored _ (by simp [movedBackObjects, preparedObjects]))
    rfl quietEnvironment quietEnvironment lowerAttempt lowerAttempt
  obtain ⟨found, hfound, hraw⟩ := hrawF.resolves (T := toolsIn .reference quietEnvironment)
    (hs.ledger hX) lowerAttempt
  obtain ⟨found', hfound', hraw'⟩ := hrawG.resolves (T := toolsIn .reference quietEnvironment)
    (hs.ledger hX) lowerAttempt
  obtain rfl := Except.ok.inj (hrun.symm.trans hfound)
  obtain rfl := Except.ok.inj (hrun'.symm.trans hfound')
  rw [hraw, hraw'] at heq
  exact absurd heq (by decide)

end RickydataGit.Cli
