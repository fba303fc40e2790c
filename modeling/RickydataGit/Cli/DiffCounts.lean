/-
  `summarize_diff`, on what git prints of a list of changes.

  A change is one line of `--numstat`, one line of `--name-status` and one name of
  `--name-only -z`. The lines are counted as they are; the names are decoded with
  replacement characters, sorted and counted without repetition. `diffSummary_counts_iff`:
  the summary counts every change once exactly when the names are still distinct after
  the decoding, and the numbers fit in 64 bits.
-/
import RickydataGit.Core.NumberText
import RickydataGit.Cli.LossyLines

namespace RickydataGit.Cli

open RickydataGit.Lib RickydataGit.Core RickydataGit.Git

/-! ## Changes and their renderings -/

inductive ChangeStatus where
  | added
  | deleted
  | modified
  | typeChanged
  | renamed (similarity : Nat) (oldPath : Bytes)

/-- The change of one file. A path has no NUL byte. -/
structure FileChange where
  path : Bytes
  status : ChangeStatus
  /-- Inserted and deleted lines, of a text. -/
  lines : Option (Nat × Nat)
  nonempty : path ≠ []
  noNul : (0 : UInt8) ∉ path

structure ChangeList where
  changes : List FileChange
  distinct : (changes.map FileChange.path).Nodup

/-- How the paths of a change are written on a line: git quotes a line feed. -/
structure PathTexts where
  numstat : FileChange → Bytes
  nameStatus : FileChange → Bytes
  numstat_line : ∀ change, (10 : UInt8) ∉ numstat change
  nameStatus_line : ∀ change, (10 : UInt8) ∉ nameStatus change

def ChangeStatus.letter : ChangeStatus → Char
  | added => 'A'
  | deleted => 'D'
  | modified => 'M'
  | typeChanged => 'T'
  | renamed _ _ => 'R'

/-- The letter, with three digits of similarity for a rename. -/
def ChangeStatus.text : ChangeStatus → List Char
  | renamed similarity _ => 'R' :: (Nat.toDigits 10 similarity).leftpad 3 '0'
  | status => [status.letter]

/-- The two numbers of a text, or the dashes of a binary file. -/
def FileChange.countTexts (change : FileChange) : List Char × List Char :=
  match change.lines with
  | none => (['-'], ['-'])
  | some (insertions, deletions) => (Nat.toDigits 10 insertions, Nat.toDigits 10 deletions)

namespace PathTexts

variable (texts : PathTexts)

def numstatLine (change : FileChange) : Bytes :=
  utf8 (.ofList (change.countTexts.1 ++ '\t' :: (change.countTexts.2 ++ ['\t']))) ++
    texts.numstat change

def nameStatusLine (change : FileChange) : Bytes :=
  utf8 (.ofList (change.status.text ++ ['\t'])) ++ texts.nameStatus change

/-- What git prints about the changes, decoded as `detect_attempt_diff` decodes it. -/
def gitDiff (list : ChangeList) (diff : Bytes) : GitDiff where
  diff
  numstat := toStringLossy
    ((list.changes.map texts.numstatLine).flatMap fun line => line ++ [10])
  nameStatus := toStringLossy
    ((list.changes.map texts.nameStatusLine).flatMap fun line => line ++ [10])
  names := ((list.changes.flatMap fun change => change.path ++ [0]).splitOn 0).map toStringLossy

end PathTexts

namespace ChangeList

variable (list : ChangeList)

def insertions : Nat :=
  (list.changes.map fun change => (change.lines.map Prod.fst).getD 0).sum

def deletions : Nat :=
  (list.changes.map fun change => (change.lines.map Prod.snd).getD 0).sum

def binaries : Nat := list.changes.countP fun change => change.lines.isNone

/-- The summary counts every change once. -/
structure CountsOnce (summary : DiffSummary) : Prop where
  fileCount : summary.fileCount.toNat = list.changes.length
  statuses : summary.fileCount.toNat = summary.filesAdded.toNat + summary.filesDeleted.toNat +
    summary.filesModified.toNat + summary.filesRenamed.toNat
  insertions : summary.insertions.toNat = list.insertions
  deletions : summary.deletions.toNat = list.deletions
  binaryFileCount : summary.binaryFileCount.toNat = list.binaries

end ChangeList

/-! ## One line -/

/-- A line of `--numstat`. -/
def DiffSummary.addCounts (summary : DiffSummary) (line : String) : DiffSummary :=
  match splitAt '\t' line with
  | insertions :: deletions :: _ =>
    if insertions = "-" ∨ deletions = "-" then
      { summary with binaryFileCount := summary.binaryFileCount + 1 }
    else
      { summary with
        insertions := summary.insertions + (parseU64 insertions).getD 0
        deletions := summary.deletions + (parseU64 deletions).getD 0 }
  | _ => summary

/-- A line of `--name-status`. -/
def DiffSummary.addStatus (summary : DiffSummary) (line : String) : DiffSummary :=
  match line.toList.head? with
  | some 'A' => { summary with filesAdded := summary.filesAdded + 1 }
  | some 'D' => { summary with filesDeleted := summary.filesDeleted + 1 }
  | some 'R' => { summary with filesRenamed := summary.filesRenamed + 1 }
  | some 'M' | some 'T' | some 'C' => { summary with filesModified := summary.filesModified + 1 }
  | _ => summary

theorem summarizeDiff_eq (filePaths : List String) (numstat nameStatus : String) :
    summarizeDiff filePaths numstat nameStatus =
      (linesOf nameStatus).foldl DiffSummary.addStatus
        ((linesOf numstat).foldl DiffSummary.addCounts
          { DiffSummary.empty with fileCount := .ofNat filePaths.length }) := rfl

/-- A carriage return is taken from behind a tab only. -/
theorem stripReturn_tab (cs rest : List Char) :
    ∃ rest', (stripReturn (.ofList (cs ++ '\t' :: rest))).toList = cs ++ '\t' :: rest' := by
  unfold stripReturn
  split
  · next hlast =>
    rw [String.toList_ofList] at hlast ⊢
    rcases rest with _ | ⟨c, rest⟩
    · simp at hlast
    · refine ⟨(c :: rest).dropLast, ?_⟩
      rw [String.toList_ofList, List.dropLast_append_of_ne_nil (by simp)]
      rfl
  · exact ⟨rest, by rw [String.toList_ofList]⟩

theorem parseU64_toDigits {n : Nat} (h : n < 2 ^ 64) :
    parseU64 (.ofList (Nat.toDigits 10 n)) = some (.ofNat n) := by
  have hdigits : (Nat.toDigits 10 n).all Char.isDigit = true :=
    List.all_eq_true.mpr fun c hc => isDigit_of_mem_toDigits hc
  have hne : (Nat.toDigits 10 n).isEmpty = false := by
    rw [List.isEmpty_eq_false_iff]
    exact Nat.toDigits_ne_nil
  have hvalue : (Nat.toDigits 10 n).foldl (fun n c => n * 10 + (c.toNat - '0'.toNat)) 0 = n := by
    have hstep : (fun (n : Nat) (c : Char) => n * 10 + (c.toNat - '0'.toNat)) =
        fun n c => 10 * n + (c.toNat - '0'.toNat) := by
      funext n c
      rw [Nat.mul_comm]
    rw [hstep, ← Nat.ofDigitChars_eq_foldl, Nat.ofDigitChars_ten_toDigits]
  unfold parseU64
  rw [String.toList_ofList]
  dsimp only
  split
  · next rest heq =>
    have hplus := isDigit_of_mem_toDigits (n := n) (heq ▸ List.mem_cons_self)
    exact absurd hplus (by decide)
  · simp only [hdigits, hne, hvalue, h, Bool.not_true, Bool.or_self, Bool.false_eq_true, if_false,
      if_true]

/-! ## The line of a change -/

section Lines

variable (texts : PathTexts) (change : FileChange)

theorem mem_countTexts {c : Char} (h : c ∈ change.countTexts.1 ∨ c ∈ change.countTexts.2) :
    c = '-' ∨ c.isDigit = true := by
  unfold FileChange.countTexts at h
  split at h
  · simp only [List.mem_singleton, or_self] at h
    exact .inl h
  · rcases h with h | h
    · exact .inr (isDigit_of_mem_toDigits h)
    · exact .inr (isDigit_of_mem_toDigits h)

theorem ascii_of_count {c : Char} (h : c = '-' ∨ c.isDigit = true) : c.toNat < 128 ∧ c ≠ '\t' := by
  rcases h with rfl | h
  · decide
  · refine ⟨?_, fun heq => ?_⟩
    · have hle : c.toNat ≤ '9'.toNat := by
        simp only [Char.isDigit, Bool.and_eq_true, decide_eq_true_eq] at h
        exact h.2
      exact Nat.lt_of_le_of_lt hle (by decide)
    · rw [heq] at h
      cases h

/-- The first two fields of a line of `--numstat` are the two numbers. -/
theorem fields_numstatLine : ∃ more,
    splitAt '\t' (stripReturn (toStringLossy (texts.numstatLine change))) =
      .ofList change.countTexts.1 :: .ofList change.countTexts.2 :: more := by
  have hcount : ∀ c, c ∈ change.countTexts.1 ∨ c ∈ change.countTexts.2 → c.toNat < 128 ∧ c ≠ '\t' :=
    fun c hc => ascii_of_count (mem_countTexts change hc)
  have hascii : ∀ c ∈ change.countTexts.1 ++ '\t' :: (change.countTexts.2 ++ ['\t']),
      c.toNat < 128 := by
    intro c hc
    simp only [List.mem_append, List.mem_cons, List.not_mem_nil, or_false] at hc
    rcases hc with hc | rfl | hc | rfl
    · exact (hcount c (.inl hc)).1
    · decide
    · exact (hcount c (.inr hc)).1
    · decide
  have hchars : toStringLossy (texts.numstatLine change) =
      .ofList ((change.countTexts.1 ++ '\t' :: change.countTexts.2) ++
        '\t' :: lossyChars 0 (texts.numstat change)) := by
    rw [toStringLossy, PathTexts.numstatLine, lossyChars_utf8_append hascii]
    simp
  obtain ⟨rest, hrest⟩ := stripReturn_tab (change.countTexts.1 ++ '\t' :: change.countTexts.2)
    (lossyChars 0 (texts.numstat change))
  rw [hchars, splitAt, hrest, List.append_assoc, List.cons_append,
    List.splitOn_append_cons_self_of_not_mem fun hc => (hcount _ (.inl hc)).2 rfl,
    List.splitOn_append_cons_self_of_not_mem fun hc => (hcount _ (.inr hc)).2 rfl]
  exact ⟨_, rfl⟩

theorem ascii_statusText (status : ChangeStatus) {c : Char} (h : c ∈ status.text) :
    c.toNat < 128 := by
  cases status
  case renamed similarity oldPath =>
    rcases List.mem_cons.mp h with rfl | h
    · decide
    · rw [List.leftpad] at h
      rcases List.mem_append.mp h with h | h
      · rw [List.eq_of_mem_replicate h]
        decide
      · exact (ascii_of_count (.inr (isDigit_of_mem_toDigits h))).1
  all_goals
    rw [List.mem_singleton.mp h]
    decide

theorem lineFeed_not_mem_statusText (status : ChangeStatus) : '\n' ∉ status.text := by
  cases status
  case renamed similarity oldPath =>
    intro h
    rcases List.mem_cons.mp h with h | h
    · cases h
    · rw [List.leftpad] at h
      rcases List.mem_append.mp h with h | h
      · cases List.eq_of_mem_replicate h
      · exact absurd (isDigit_of_mem_toDigits h) (by decide)
  all_goals decide

/-- The text of a status is its letter and what may follow. -/
theorem statusText_eq (status : ChangeStatus) : ∃ more, status.text = status.letter :: more := by
  cases status <;> exact ⟨_, rfl⟩

/-- A line of `--name-status` starts with the letter. -/
theorem head_nameStatusLine :
    (stripReturn (toStringLossy (texts.nameStatusLine change))).toList.head? =
      some change.status.letter := by
  have hascii : ∀ c ∈ change.status.text ++ ['\t'], c.toNat < 128 := by
    intro c hc
    rcases List.mem_append.mp hc with hc | hc
    · exact ascii_statusText _ hc
    · rw [List.mem_singleton.mp hc]
      decide
  have hchars : toStringLossy (texts.nameStatusLine change) =
      .ofList (change.status.text ++ '\t' :: lossyChars 0 (texts.nameStatus change)) := by
    rw [toStringLossy, PathTexts.nameStatusLine, lossyChars_utf8_append hascii]
    simp
  obtain ⟨rest, hrest⟩ := stripReturn_tab change.status.text
    (lossyChars 0 (texts.nameStatus change))
  obtain ⟨more, hmore⟩ := statusText_eq change.status
  rw [hchars, hrest, hmore]
  rfl

theorem lineFeed_not_mem_numstatLine : (10 : UInt8) ∉ texts.numstatLine change := by
  have hcount : ∀ c, c ∈ change.countTexts.1 ∨ c ∈ change.countTexts.2 → c.toNat < 128 ∧ c ≠ '\n' :=
    fun c hc => ⟨(ascii_of_count (mem_countTexts change hc)).1, by
      rintro rfl
      rcases mem_countTexts change hc with h | h
      · cases h
      · cases h⟩
  rw [PathTexts.numstatLine, List.mem_append, not_or]
  refine ⟨lineFeed_not_mem_utf8 fun c hc => ?_, texts.numstat_line change⟩
  simp only [List.mem_append, List.mem_cons, List.not_mem_nil, or_false] at hc
  rcases hc with hc | rfl | hc | rfl
  · exact hcount c (.inl hc)
  · decide
  · exact hcount c (.inr hc)
  · decide

theorem lineFeed_not_mem_nameStatusLine : (10 : UInt8) ∉ texts.nameStatusLine change := by
  rw [PathTexts.nameStatusLine, List.mem_append, not_or]
  refine ⟨lineFeed_not_mem_utf8 fun c hc => ?_, texts.nameStatus_line change⟩
  rcases List.mem_append.mp hc with hc | hc
  · exact ⟨ascii_statusText _ hc, fun heq => lineFeed_not_mem_statusText _ (heq ▸ hc)⟩
  · rw [List.mem_singleton.mp hc]
    decide

theorem countText_ne_dash (n : Nat) : String.ofList (Nat.toDigits 10 n) ≠ "-" := by
  intro h
  have hdash : Nat.toDigits 10 n = ['-'] := ofList_inj h
  have hdigit := isDigit_of_mem_toDigits (n := n) (hdash ▸ List.mem_singleton_self '-')
  exact absurd hdigit (by decide)

/-- The numbers of the change fit in 64 bits. -/
def FileChange.Fits : Prop :=
  ∀ counts, change.lines = some counts → counts.1 < 2 ^ 64 ∧ counts.2 < 2 ^ 64

theorem addCounts_line (h : change.Fits) (summary : DiffSummary) :
    summary.addCounts (stripReturn (toStringLossy (texts.numstatLine change))) =
      { summary with
        insertions := summary.insertions + .ofNat ((change.lines.map Prod.fst).getD 0)
        deletions := summary.deletions + .ofNat ((change.lines.map Prod.snd).getD 0)
        binaryFileCount := summary.binaryFileCount +
          .ofNat (if change.lines.isNone then 1 else 0) } := by
  obtain ⟨more, hfields⟩ := fields_numstatLine texts change
  rw [DiffSummary.addCounts, hfields]
  dsimp only
  rcases hlines : change.lines with _ | ⟨insertions, deletions⟩
  · have hdash : String.ofList change.countTexts.1 = "-" := by
      rw [FileChange.countTexts, hlines]
    rw [if_pos (.inl hdash)]
    simp
  · have htexts : change.countTexts = (Nat.toDigits 10 insertions, Nat.toDigits 10 deletions) := by
      rw [FileChange.countTexts, hlines]
    obtain ⟨hi, hd⟩ := h _ hlines
    rw [htexts, if_neg (by simp [countText_ne_dash]), parseU64_toDigits hi, parseU64_toDigits hd]
    simp

theorem addStatus_line (summary : DiffSummary) :
    summary.addStatus (stripReturn (toStringLossy (texts.nameStatusLine change))) =
      { summary with
        filesAdded := summary.filesAdded + .ofNat (if change.status.letter = 'A' then 1 else 0)
        filesDeleted := summary.filesDeleted + .ofNat (if change.status.letter = 'D' then 1 else 0)
        filesModified := summary.filesModified +
          .ofNat (if change.status.letter ∈ ['M', 'T'] then 1 else 0)
        filesRenamed := summary.filesRenamed +
          .ofNat (if change.status.letter = 'R' then 1 else 0) } := by
  rw [DiffSummary.addStatus, head_nameStatusLine]
  cases change.status <;> simp [ChangeStatus.letter]

end Lines

/-! ## All lines -/

section Folds

variable (texts : PathTexts)

/-- The loop over `--numstat` adds up the numbers and counts the binary files. -/
theorem foldl_addCounts {changes : List FileChange} (h : ∀ change ∈ changes, change.Fits)
    (summary : DiffSummary) :
    (changes.map fun change => stripReturn (toStringLossy (texts.numstatLine change))).foldl
        DiffSummary.addCounts summary =
      { summary with
        insertions := summary.insertions +
          .ofNat (changes.map fun change => (change.lines.map Prod.fst).getD 0).sum
        deletions := summary.deletions +
          .ofNat (changes.map fun change => (change.lines.map Prod.snd).getD 0).sum
        binaryFileCount := summary.binaryFileCount +
          .ofNat (changes.countP fun change => change.lines.isNone) } := by
  induction changes generalizing summary with
  | nil => simp
  | cons change changes ih =>
    rw [List.map_cons, List.foldl_cons, addCounts_line texts change (h change (.head _)),
      ih fun c hmem => h c (.tail _ hmem)]
    simp only [List.map_cons, List.sum_cons, List.countP_cons, UInt64.ofNat_add, UInt64.add_assoc]
    rw [UInt64.add_comm (.ofNat (changes.countP _))]

/-- The loop over `--name-status` counts each status. -/
theorem foldl_addStatus (changes : List FileChange) (summary : DiffSummary) :
    (changes.map fun change => stripReturn (toStringLossy (texts.nameStatusLine change))).foldl
        DiffSummary.addStatus summary =
      { summary with
        filesAdded := summary.filesAdded +
          .ofNat (changes.countP fun change => change.status.letter = 'A')
        filesDeleted := summary.filesDeleted +
          .ofNat (changes.countP fun change => change.status.letter = 'D')
        filesModified := summary.filesModified +
          .ofNat (changes.countP fun change => change.status.letter ∈ ['M', 'T'])
        filesRenamed := summary.filesRenamed +
          .ofNat (changes.countP fun change => change.status.letter = 'R') } := by
  induction changes generalizing summary with
  | nil => simp
  | cons change changes ih =>
    rw [List.map_cons, List.foldl_cons, addStatus_line texts change, ih]
    simp only [List.countP_cons, decide_eq_true_eq, UInt64.ofNat_add, UInt64.add_assoc]
    simp only [UInt64.add_comm (.ofNat (if _ then 1 else 0))]

/-- Every change has one of the statuses. -/
theorem countP_statuses (changes : List FileChange) :
    (changes.countP fun change => change.status.letter = 'A') +
        (changes.countP fun change => change.status.letter = 'D') +
        (changes.countP fun change => change.status.letter ∈ ['M', 'T']) +
        (changes.countP fun change => change.status.letter = 'R') = changes.length := by
  induction changes with
  | nil => rfl
  | cons change changes ih =>
    have hone : (if change.status.letter = 'A' then 1 else 0) +
        (if change.status.letter = 'D' then 1 else 0) +
        (if change.status.letter ∈ ['M', 'T'] then 1 else 0) +
        (if change.status.letter = 'R' then 1 else 0) = 1 := by
      cases change.status <;> rfl
    simp only [List.countP_cons, List.length_cons, decide_eq_true_eq]
    omega

end Folds

/-! ## The names -/

/-- The names that git lists are the paths, decoded. -/
theorem names_gitDiff (texts : PathTexts) (list : ChangeList) (diff : Bytes) :
    (texts.gitDiff list diff).names.filter (fun name => !name.isEmpty) =
      list.changes.map fun change => toStringLossy change.path := by
  have hparts : (list.changes.flatMap fun change => change.path ++ [(0 : UInt8)]) =
      (list.changes.map FileChange.path).flatMap fun path => path ++ [0] := by
    rw [List.flatMap_map]
  have hnul : ∀ path ∈ list.changes.map FileChange.path, (0 : UInt8) ∉ path := by
    intro path hmem
    obtain ⟨change, -, rfl⟩ := List.mem_map.mp hmem
    exact change.noNul
  have hall : ∀ name ∈ list.changes.map (fun change => toStringLossy change.path),
      (!name.isEmpty) = true := by
    intro name hmem
    obtain ⟨change, -, rfl⟩ := List.mem_map.mp hmem
    simpa using toStringLossy_ne_empty change.nonempty
  rw [PathTexts.gitDiff]
  dsimp only
  rw [hparts, splitOn_terminated hnul, List.map_append, List.filter_append, List.map_map]
  have hlast : (([[]] : List Bytes).map toStringLossy).filter (fun name => !name.isEmpty) = [] := by
    decide
  rw [hlast, List.append_nil]
  exact List.filter_eq_self.mpr hall

theorem length_sortedDedup_le (values : List String) :
    (sortedDedup values).length ≤ values.length := by
  rw [sortedDedup_eq]
  exact (List.dedup_sublist _).length_le.trans (List.length_mergeSort _).le

/-- Nothing is lost exactly when nothing is repeated. -/
theorem length_sortedDedup_eq_iff {values : List String} :
    (sortedDedup values).length = values.length ↔ values.Nodup := by
  have hperm := List.mergeSort_perm values fun a b => decide (a ≤ b)
  rw [sortedDedup_eq, ← hperm.nodup_iff, ← hperm.length_eq, ← List.dedup_eq_self]
  exact ⟨fun h => (List.dedup_sublist _).eq_of_length h, fun h => congrArg List.length h⟩

/-! ## The summary -/

section Summary

variable (T : Tools) (texts : PathTexts) (list : ChangeList) (diff : Bytes)

theorem fileCount_addCounts (summary : DiffSummary) (line : String) :
    (summary.addCounts line).fileCount = summary.fileCount := by
  unfold DiffSummary.addCounts
  split
  · split <;> rfl
  · rfl

theorem fileCount_addStatus (summary : DiffSummary) (line : String) :
    (summary.addStatus line).fileCount = summary.fileCount := by
  unfold DiffSummary.addStatus
  split <;> rfl

theorem fileCount_foldl {add : DiffSummary → String → DiffSummary}
    (hadd : ∀ summary line, (add summary line).fileCount = summary.fileCount)
    (lines : List String) (summary : DiffSummary) :
    (lines.foldl add summary).fileCount = summary.fileCount := by
  induction lines generalizing summary with
  | nil => rfl
  | cons line lines ih => rw [List.foldl_cons, ih, hadd]

theorem fileCount_summary : (worktreeDiff T (texts.gitDiff list diff)).diffSummary.fileCount =
    .ofNat (sortedDedup (list.changes.map fun change => toStringLossy change.path)).length := by
  rw [worktreeDiff]
  dsimp only
  rw [summarizeDiff_eq, fileCount_foldl fileCount_addStatus, fileCount_foldl fileCount_addCounts,
    names_gitDiff]

theorem summary_of_fits (h : ∀ change ∈ list.changes, change.Fits) :
    (worktreeDiff T (texts.gitDiff list diff)).diffSummary =
      { fileCount :=
          .ofNat (sortedDedup (list.changes.map fun change => toStringLossy change.path)).length
        filesAdded := .ofNat (list.changes.countP fun change => change.status.letter = 'A')
        filesModified := .ofNat (list.changes.countP fun change => change.status.letter ∈ ['M', 'T'])
        filesDeleted := .ofNat (list.changes.countP fun change => change.status.letter = 'D')
        filesRenamed := .ofNat (list.changes.countP fun change => change.status.letter = 'R')
        binaryFileCount := .ofNat list.binaries
        insertions := .ofNat list.insertions
        deletions := .ofNat list.deletions } := by
  have hnumstat : linesOf (texts.gitDiff list diff).numstat =
      list.changes.map fun change => stripReturn (toStringLossy (texts.numstatLine change)) := by
    refine (linesOf_toStringLossy fun line hmem => ?_).trans (List.map_map ..)
    obtain ⟨change, -, rfl⟩ := List.mem_map.mp hmem
    exact lineFeed_not_mem_numstatLine texts change
  have hstatus : linesOf (texts.gitDiff list diff).nameStatus =
      list.changes.map fun change => stripReturn (toStringLossy (texts.nameStatusLine change)) := by
    refine (linesOf_toStringLossy fun line hmem => ?_).trans (List.map_map ..)
    obtain ⟨change, -, rfl⟩ := List.mem_map.mp hmem
    exact lineFeed_not_mem_nameStatusLine texts change
  rw [worktreeDiff]
  dsimp only
  rw [summarizeDiff_eq, hnumstat, hstatus, foldl_addCounts texts h, foldl_addStatus, names_gitDiff]
  simp [DiffSummary.empty, ChangeList.binaries, ChangeList.insertions, ChangeList.deletions]

/-- The numbers of a change are at most the sums. -/
theorem fits_of_sums (hinsertions : list.insertions < 2 ^ 64) (hdeletions : list.deletions < 2 ^ 64) :
    ∀ change ∈ list.changes, change.Fits := by
  intro change hmem counts hcounts
  have hi : (change.lines.map Prod.fst).getD 0 ≤ list.insertions :=
    List.le_sum_of_mem (List.mem_map.mpr ⟨change, hmem, rfl⟩)
  have hd : (change.lines.map Prod.snd).getD 0 ≤ list.deletions :=
    List.le_sum_of_mem (List.mem_map.mpr ⟨change, hmem, rfl⟩)
  rw [hcounts] at hi hd
  exact ⟨Nat.lt_of_le_of_lt hi hinsertions, Nat.lt_of_le_of_lt hd hdeletions⟩

/-- The summary counts every change once exactly when the decoded names are distinct and
    the numbers fit. -/
theorem diffSummary_counts_iff :
    list.CountsOnce (worktreeDiff T (texts.gitDiff list diff)).diffSummary ↔
      (list.changes.map fun change => toStringLossy change.path).Nodup ∧
        list.changes.length < 2 ^ 64 ∧ list.insertions < 2 ^ 64 ∧ list.deletions < 2 ^ 64 := by
  have hlength : (list.changes.map fun change => toStringLossy change.path).length =
      list.changes.length := List.length_map _
  constructor
  · intro h
    have hcount := h.fileCount
    have hlt : list.changes.length < 2 ^ 64 := by
      rw [← hcount]
      exact UInt64.toNat_lt _
    have hle := length_sortedDedup_le (list.changes.map fun change => toStringLossy change.path)
    rw [hlength] at hle
    rw [fileCount_summary, UInt64.toNat_ofNat_of_lt' (Nat.lt_of_le_of_lt hle hlt)] at hcount
    refine ⟨length_sortedDedup_eq_iff.mp (hcount.trans hlength.symm), hlt, ?_, ?_⟩
    · rw [← h.insertions]
      exact UInt64.toNat_lt _
    · rw [← h.deletions]
      exact UInt64.toNat_lt _
  · rintro ⟨hnodup, hlt, hinsertions, hdeletions⟩
    have hstatuses := countP_statuses list.changes
    have hbinaries : list.binaries ≤ list.changes.length := List.countP_le_length
    have hfiles := (length_sortedDedup_eq_iff.mpr hnodup).trans hlength
    have toNat : ∀ n, n ≤ list.changes.length → (UInt64.ofNat n).toNat = n :=
      fun n hn => UInt64.toNat_ofNat_of_lt' (Nat.lt_of_le_of_lt hn hlt)
    rw [summary_of_fits T texts list diff (fits_of_sums list hinsertions hdeletions), hfiles]
    constructor
    · exact toNat _ le_rfl
    · dsimp only
      rw [toNat _ le_rfl, toNat _ (by omega), toNat _ (by omega), toNat _ (by omega),
        toNat _ (by omega)]
      omega
    · exact UInt64.toNat_ofNat_of_lt' hinsertions
    · exact UInt64.toNat_ofNat_of_lt' hdeletions
    · exact toNat _ hbinaries

end Summary

/-! ## Names that are decoded alike -/

/-- A byte as git writes it between quotes: octal digits for what is not printed. -/
def quotedByte (b : UInt8) : Bytes :=
  if 32 ≤ b ∧ b < 127 ∧ b ≠ 34 ∧ b ≠ 92 then [b]
  else [92, 48 + b / 64, 48 + b / 8 % 8, 48 + b % 8]

def quotedPath (path : Bytes) : Bytes := 34 :: (path.flatMap quotedByte ++ [34])

theorem lineFeed_not_mem_quotedPath (path : Bytes) : (10 : UInt8) ∉ quotedPath path := by
  have hall : ∀ n < 256, (10 : UInt8) ∉ quotedByte (.ofNat n) := by decide +kernel
  rw [quotedPath, List.mem_cons, List.mem_append, List.mem_flatMap]
  rintro (h | ⟨b, -, h⟩ | h)
  · cases h
  · have hb := hall b.toNat b.toNat_lt
    rw [UInt8.ofNat_toNat] at hb
    exact hb h
  · cases List.mem_singleton.mp h

/-- Every path between quotes. -/
def quotedTexts : PathTexts where
  numstat change := quotedPath change.path
  nameStatus change := quotedPath change.path
  numstat_line change := lineFeed_not_mem_quotedPath change.path
  nameStatus_line change := lineFeed_not_mem_quotedPath change.path

/-- Two new files, whose names are one byte each that is not UTF-8. -/
def byteNames : ChangeList where
  changes := [
    { path := [0xFE], status := .added, lines := some (1, 0), nonempty := by simp
      noNul := by decide },
    { path := [0xFF], status := .added, lines := some (1, 0), nonempty := by simp
      noNul := by decide }]
  distinct := by decide

/-- Both names are decoded as a replacement character, and one file is counted. -/
theorem byteNames_counted_once :
    (worktreeDiff .reference (quotedTexts.gitDiff byteNames [])).diffSummary.fileCount = 1 ∧
      byteNames.changes.length = 2 ∧
      ¬ byteNames.CountsOnce
        (worktreeDiff .reference (quotedTexts.gitDiff byteNames [])).diffSummary := by
  have hnames : (byteNames.changes.map fun change => toStringLossy change.path) =
      ["\uFFFD", "\uFFFD"] := by decide +kernel
  have hsorted : sortedDedup ["\uFFFD", "\uFFFD"] = ["\uFFFD"] :=
    sortedDedup_eq_of_mem (List.pairwise_singleton ..) (by simp)
  have hcount : (worktreeDiff .reference (quotedTexts.gitDiff byteNames [])).diffSummary.fileCount =
      1 := by
    rw [fileCount_summary, hnames, hsorted]
    rfl
  refine ⟨hcount, rfl, fun h => ?_⟩
  have hlength := h.fileCount
  rw [hcount] at hlength
  exact absurd hlength (by decide)

end RickydataGit.Cli
