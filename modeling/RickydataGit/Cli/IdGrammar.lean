/-
  The parsers of object ids: `object_hex` with the cache path and the reference name
  built on it, `object_ref_name_from_id` and `FileRelayStore::object_path`.

  An id is `sha256:` and 64 small hexadecimal digits, as the errors of two of them say.
  Only the relay asks for small digits; `object_hex` folds capitals, and
  `object_ref_name_from_id` keeps them. `one_grammar_iff`: the five agree on a pair of
  strings, and no two strings share a file or a reference, exactly when neither has
  64 digits with a capital among them.
-/
import RickydataGit.Lib.HexDigits
import RickydataGit.Cli.SyncVerify
import RickydataGit.Relay.FileStore

namespace RickydataGit.Cli

open RickydataGit.Lib RickydataGit.Core RickydataGit.Git RickydataGit.Relay

/-! ## Ids -/

/-- `sha256:` and 64 digits. -/
structure HexId (s : String) (hex : List Char) : Prop where
  eq : s = "sha256:" ++ .ofList hex
  length : hex.length = 64
  digits : ∀ c ∈ hex, HexDigit c

/-- `sha256:<64 lowercase hex chars>`. -/
def IsObjectId (s : String) : Prop := ∃ hex, HexId s hex ∧ ∀ c ∈ hex, SmallHex c

/-- An id but for the capitals among its digits. -/
def HasCapital (s : String) : Prop := ∃ hex, HexId s hex ∧ ∃ c ∈ hex, CapitalHex c

/-- The parser takes the string. -/
def Accepts {ε α : Type} (parse : String → Except ε α) (s : String) : Prop :=
  ∃ a, parse s = .ok a

/-- A name that one of the two functions gives to the string. -/
def RefName (s name : String) : Prop :=
  objectRefName s = .ok name ∨ objectRefNameFromId s = .ok name

/-- The five parsers take the string exactly when it is an object id, and it has one
    reference name at most. -/
structure OneGrammar (X : Crates) (s : String) : Prop where
  objectHex : Accepts objectHex s ↔ IsObjectId s
  objectCachePath : Accepts objectCachePath s ↔ IsObjectId s
  objectRefName : Accepts objectRefName s ↔ IsObjectId s
  objectRefNameFromId : Accepts objectRefNameFromId s ↔ IsObjectId s
  objectPath : ∀ repoId, Accepts (objectPath X repoId) s ↔ IsObjectId s
  agree : ∀ name name', RefName s name → RefName s name' → name = name'

/-- The strings share no cache file, no reference and no file of the relay. -/
structure Apart (X : Crates) (s s' : String) : Prop where
  cachePath : ∀ path, objectCachePath s = .ok path → objectCachePath s' ≠ .ok path
  refName : ∀ name, RefName s name → ¬ RefName s' name
  objectPath : ∀ repoId repoId' path,
    objectPath X repoId s = .ok path → objectPath X repoId' s' ≠ .ok path

theorem HexId.unique {s : String} {hex hex' : List Char} (h : HexId s hex) (h' : HexId s hex') :
    hex = hex' := by
  have heq := h.eq.symm.trans h'.eq
  exact ofList_inj ((String.append_right_inj _).mp heq)

theorem HasCapital.not_objectId {s : String} (h : HasCapital s) : ¬ IsObjectId s := by
  rintro ⟨hex, hid, hsmall⟩
  obtain ⟨hex', hid', c, hc, hcapital⟩ := h
  rw [hid'.unique hid] at hc
  exact hcapital.not_small (hsmall c hc)

/-- Sixty-four digits make an object id or have a capital among them. -/
theorem HexId.cases {s : String} {hex : List Char} (h : HexId s hex) :
    IsObjectId s ∨ HasCapital s := by
  by_cases hc : ∃ c ∈ hex, CapitalHex c
  · exact .inr ⟨hex, h, hc⟩
  · refine .inl ⟨hex, h, fun c hmem => ?_⟩
    rcases h.digits c hmem with hsmall | hcapital
    · exact hsmall
    · exact absurd ⟨c, hmem, hcapital⟩ hc

/-! ## What the parsers take -/

theorem stripSha256_append (hex : List Char) : stripSha256 ("sha256:" ++ .ofList hex) = some hex := by
  have hl : "sha256:".toList.length = 7 := by decide
  rw [stripSha256, String.toList_append, if_pos (by simp), ← hl, List.drop_left, String.toList_ofList]

theorem all_isAsciiHexdigit_iff {hex : List Char} :
    hex.all isAsciiHexdigit = true ↔ ∀ c ∈ hex, HexDigit c := by
  simp only [List.all_eq_true, isAsciiHexdigit, hexDigitValue_isSome_iff]

theorem isLowerHexdigit_iff {c : Char} : isLowerHexdigit c = true ↔ SmallHex c := by
  rw [isLowerHexdigit, Bool.and_eq_true, hexDigitValue_isSome_iff]
  constructor
  · rintro ⟨hs | hc, hu⟩
    · exact hs
    · rw [hc.isUpper] at hu
      cases hu
  · intro hs
    exact ⟨.inl hs, by rw [hs.isUpper]; rfl⟩

/-- The tests of the three parsers are of one form. -/
theorem digits_pass_iff {p : Char → Bool} {s : String} {hex : List Char}
    (hs : stripSha256 s = some hex) :
    ¬ (hex.length ≠ 64 ∨ hex.all p = false) ↔
      s = "sha256:" ++ .ofList hex ∧ hex.length = 64 ∧ hex.all p = true := by
  have heq := eq_of_stripSha256 hs
  simp only [not_or, ne_eq, not_not, Bool.not_eq_false, heq, true_and]

theorem objectHex_ok_iff {s : String} {hex : List Char} :
    objectHex s = .ok hex ↔ ∃ hex', HexId s hex' ∧ hex = hex'.map Char.toLower := by
  constructor
  · intro h
    unfold objectHex at h
    split at h
    · cases h
    · next hex' hs =>
      split at h
      · cases h
      · next ht =>
        obtain ⟨heq, hl, hall⟩ := (digits_pass_iff hs).mp ht
        exact ⟨hex', ⟨heq, hl, all_isAsciiHexdigit_iff.mp hall⟩, (Except.ok.inj h).symm⟩
  · rintro ⟨hex', hid, rfl⟩
    have hs : stripSha256 s = some hex' := by rw [hid.eq, stripSha256_append]
    have ht := (digits_pass_iff hs).mpr ⟨hid.eq, hid.length, all_isAsciiHexdigit_iff.mpr hid.digits⟩
    rw [objectHex, hs]
    exact if_neg ht

theorem objectRefNameFromId_ok_iff {s name : String} :
    objectRefNameFromId s = .ok name ↔ ∃ hex, HexId s hex ∧ name = refNameOf hex := by
  constructor
  · intro h
    unfold objectRefNameFromId at h
    split at h
    · cases h
    · next hex hs =>
      split at h
      · cases h
      · next ht =>
        obtain ⟨heq, hl, hall⟩ := (digits_pass_iff hs).mp ht
        exact ⟨hex, ⟨heq, hl, all_isAsciiHexdigit_iff.mp hall⟩, (Except.ok.inj h).symm⟩
  · rintro ⟨hex, hid, rfl⟩
    have hs : stripSha256 s = some hex := by rw [hid.eq, stripSha256_append]
    have ht := (digits_pass_iff hs).mpr ⟨hid.eq, hid.length, all_isAsciiHexdigit_iff.mpr hid.digits⟩
    rw [objectRefNameFromId, hs]
    exact if_neg ht

theorem objectDigits_ok_iff {s : String} {hex : List Char} :
    objectDigits s = .ok hex ↔ HexId s hex ∧ ∀ c ∈ hex, SmallHex c := by
  constructor
  · intro h
    unfold objectDigits at h
    split at h
    · cases h
    · next hex' hs =>
      split at h
      · cases h
      · next ht =>
        obtain rfl := Except.ok.inj h
        obtain ⟨heq, hl, hall⟩ := (digits_pass_iff hs).mp ht
        have hsmall : ∀ c ∈ hex', SmallHex c :=
          fun c hc => isLowerHexdigit_iff.mp (List.all_eq_true.mp hall c hc)
        exact ⟨⟨heq, hl, fun c hc => .inl (hsmall c hc)⟩, hsmall⟩
  · rintro ⟨hid, hsmall⟩
    have hs : stripSha256 s = some hex := by rw [hid.eq, stripSha256_append]
    have hall : hex.all isLowerHexdigit = true :=
      List.all_eq_true.mpr fun c hc => isLowerHexdigit_iff.mpr (hsmall c hc)
    have ht := (digits_pass_iff hs).mpr ⟨hid.eq, hid.length, hall⟩
    rw [objectDigits, hs]
    exact if_neg ht

theorem map_toLower_of_small {hex : List Char} (h : ∀ c ∈ hex, SmallHex c) :
    hex.map Char.toLower = hex :=
  (List.map_congr_left fun c hc => (h c hc).toLower).trans (List.map_id _)

/-! ## Strings without capitals -/

section Grammar

variable {X : Crates} {s s' : String}

theorem accepts_objectHex_iff : Accepts objectHex s ↔ ∃ hex, HexId s hex := by
  constructor
  · rintro ⟨_, h⟩
    obtain ⟨hex, hid, -⟩ := objectHex_ok_iff.mp h
    exact ⟨hex, hid⟩
  · rintro ⟨hex, hid⟩
    exact ⟨_, objectHex_ok_iff.mpr ⟨hex, hid, rfl⟩⟩

theorem objectCachePath_ok_iff {path : String} :
    objectCachePath s = .ok path ↔ ∃ hex, objectHex s = .ok hex ∧ path = cachePathOf hex := by
  rcases h : objectHex s with e | hex
  · rw [objectCachePath_error h]
    constructor
    · rintro ⟨⟩
    · rintro ⟨_, ⟨⟩, -⟩
  · rw [objectCachePath_eq h]
    constructor
    · rintro ⟨⟩
      exact ⟨hex, rfl, rfl⟩
    · rintro ⟨_, ⟨⟩, rfl⟩
      rfl

theorem objectRefName_ok_iff {name : String} :
    objectRefName s = .ok name ↔ ∃ hex, objectHex s = .ok hex ∧ name = refNameOf hex := by
  rcases h : objectHex s with e | hex
  · have he : objectRefName s = .error e := by rw [objectRefName, h]; rfl
    rw [he]
    constructor
    · rintro ⟨⟩
    · rintro ⟨_, ⟨⟩, -⟩
  · rw [objectRefName_eq h]
    constructor
    · rintro ⟨⟩
      exact ⟨hex, rfl, rfl⟩
    · rintro ⟨_, ⟨⟩, rfl⟩
      rfl

/-- A string without 64 digits that have a capital is accepted by all or by none. -/
theorem hexId_iff_of_no_capital (h : ¬ HasCapital s) : (∃ hex, HexId s hex) ↔ IsObjectId s := by
  constructor
  · rintro ⟨hex, hid⟩
    exact hid.cases.resolve_right h
  · rintro ⟨hex, hid, -⟩
    exact ⟨hex, hid⟩

/-- Both functions name the reference of the digits as they are spelled. -/
theorem refName_of_no_capital (h : ¬ HasCapital s) {name : String} (hn : RefName s name) :
    ∃ hex, HexId s hex ∧ name = refNameOf hex := by
  rcases hn with hn | hn
  · obtain ⟨_, hhex, rfl⟩ := objectRefName_ok_iff.mp hn
    obtain ⟨hex, hid, rfl⟩ := objectHex_ok_iff.mp hhex
    obtain ⟨hex', hid', hsmall⟩ := hid.cases.resolve_right h
    obtain rfl := hid.unique hid'
    exact ⟨hex, hid, by rw [map_toLower_of_small hsmall]⟩
  · exact objectRefNameFromId_ok_iff.mp hn

theorem oneGrammar_of_no_capital (h : ¬ HasCapital s) : OneGrammar X s where
  objectHex := accepts_objectHex_iff.trans (hexId_iff_of_no_capital h)
  objectCachePath := by
    rw [← hexId_iff_of_no_capital h, ← accepts_objectHex_iff]
    constructor
    · rintro ⟨_, hp⟩
      obtain ⟨hex, hhex, -⟩ := objectCachePath_ok_iff.mp hp
      exact ⟨hex, hhex⟩
    · rintro ⟨hex, hhex⟩
      exact ⟨_, objectCachePath_eq hhex⟩
  objectRefName := by
    rw [← hexId_iff_of_no_capital h, ← accepts_objectHex_iff]
    constructor
    · rintro ⟨_, hn⟩
      obtain ⟨hex, hhex, -⟩ := objectRefName_ok_iff.mp hn
      exact ⟨hex, hhex⟩
    · rintro ⟨hex, hhex⟩
      exact ⟨_, objectRefName_eq hhex⟩
  objectRefNameFromId := by
    rw [← hexId_iff_of_no_capital h]
    constructor
    · rintro ⟨_, hn⟩
      obtain ⟨hex, hid, -⟩ := objectRefNameFromId_ok_iff.mp hn
      exact ⟨hex, hid⟩
    · rintro ⟨hex, hid⟩
      exact ⟨_, objectRefNameFromId_ok_iff.mpr ⟨hex, hid, rfl⟩⟩
  objectPath := by
    intro repoId
    constructor
    · rintro ⟨_, hp⟩
      obtain ⟨hex, hdigits, -⟩ := objectPath_ok hp
      exact ⟨hex, objectDigits_ok_iff.mp hdigits⟩
    · rintro ⟨hex, hid⟩
      exact ⟨_, objectPath_eq (objectDigits_ok_iff.mpr hid)⟩
  agree := by
    intro name name' hn hn'
    obtain ⟨hex, hid, rfl⟩ := refName_of_no_capital h hn
    obtain ⟨hex', hid', rfl⟩ := refName_of_no_capital h hn'
    rw [hid.unique hid']

/-- Strings of different digits have files and references of their own. -/
theorem apart_of_no_capital (h : ¬ HasCapital s) (h' : ¬ HasCapital s') (hne : s ≠ s') :
    Apart X s s' where
  cachePath := by
    intro path hp hp'
    obtain ⟨_, hhex, rfl⟩ := objectCachePath_ok_iff.mp hp
    obtain ⟨_, hhex', hpath⟩ := objectCachePath_ok_iff.mp hp'
    have hl := (objectHex_length hhex).trans (objectHex_length hhex').symm
    obtain rfl := cachePathOf_inj hl hpath
    obtain ⟨hex, hid, rfl⟩ := objectHex_ok_iff.mp hhex
    obtain ⟨hex', hid', heq⟩ := objectHex_ok_iff.mp hhex'
    obtain ⟨_, hsid, hsmall⟩ := hid.cases.resolve_right h
    obtain ⟨_, hsid', hsmall'⟩ := hid'.cases.resolve_right h'
    obtain rfl := hid.unique hsid
    obtain rfl := hid'.unique hsid'
    rw [map_toLower_of_small hsmall, map_toLower_of_small hsmall'] at heq
    exact hne (by rw [hid.eq, hid'.eq, heq])
  refName := by
    intro name hn hn'
    obtain ⟨hex, hid, rfl⟩ := refName_of_no_capital h hn
    obtain ⟨hex', hid', hname⟩ := refName_of_no_capital h' hn'
    have heq := refNameOf_inj (hid.length.trans hid'.length.symm) hname
    exact hne (by rw [hid.eq, hid'.eq, heq])
  objectPath := by
    intro repoId repoId' path hp hp'
    obtain ⟨hex, hdigits, rfl⟩ := objectPath_ok hp
    obtain ⟨hex', hdigits', hpath⟩ := objectPath_ok hp'
    obtain ⟨-, rfl⟩ := objectFile_inj hpath
    exact hne (objectDigits_inj hdigits hdigits')

/-- With a capital the relay refuses what the others take. -/
theorem HasCapital.not_oneGrammar (h : HasCapital s) : ¬ OneGrammar X s := by
  intro hg
  have hnot := h.not_objectId
  obtain ⟨hex, hid, -⟩ := h
  exact hnot (hg.objectHex.mp (accepts_objectHex_iff.mpr ⟨hex, hid⟩))

/-! ## The grammar of ids -/

/-- The parsers are of one grammar on two strings, and the two share no file and no
    reference, exactly when neither has a capital among its 64 digits. -/
theorem one_grammar_iff (X : Crates) (s s' : String) :
    (OneGrammar X s ∧ OneGrammar X s' ∧ (s ≠ s' → Apart X s s')) ↔
      ¬ HasCapital s ∧ ¬ HasCapital s' := by
  constructor
  · rintro ⟨hg, hg', -⟩
    exact ⟨fun h => h.not_oneGrammar hg, fun h => h.not_oneGrammar hg'⟩
  · rintro ⟨h, h'⟩
    exact ⟨oneGrammar_of_no_capital h, oneGrammar_of_no_capital h', apart_of_no_capital h h'⟩

end Grammar

/-- Sixty-four times `A`. -/
def capitalId : String := "sha256:" ++ .ofList (List.replicate 64 'A')

def smallId : String := "sha256:" ++ .ofList (List.replicate 64 'a')

theorem hexId_capitalId : HexId capitalId (List.replicate 64 'A') :=
  ⟨rfl, List.length_replicate, fun _ hc => (List.eq_of_mem_replicate hc) ▸ .inr (by decide)⟩

theorem hexId_smallId : HexId smallId (List.replicate 64 'a') :=
  ⟨rfl, List.length_replicate, fun _ hc => (List.eq_of_mem_replicate hc) ▸ .inl (by decide)⟩

/-- The git store takes the capitals and reads the object of the small id; the two
    functions name two references, and the relay takes the small id alone. -/
theorem capitalId_breaks_grammar :
    ¬ OneGrammar .reference capitalId ∧ Accepts objectHex capitalId ∧
      (∀ repoId, ¬ Accepts (objectPath .reference repoId) capitalId) ∧
      capitalId ≠ smallId ∧ objectCachePath capitalId = objectCachePath smallId ∧
      ¬ ∃ name, objectRefName capitalId = .ok name ∧ objectRefNameFromId capitalId = .ok name := by
  have hcapital : HasCapital capitalId :=
    ⟨_, hexId_capitalId, 'A', by decide, by decide⟩
  have hfold : (List.replicate 64 'A').map Char.toLower = List.replicate 64 'a' := by
    rw [List.map_replicate]
    rfl
  have hkeep : (List.replicate 64 'a').map Char.toLower = List.replicate 64 'a' := by
    rw [List.map_replicate]
    rfl
  have hhex : objectHex capitalId = .ok (List.replicate 64 'a') :=
    objectHex_ok_iff.mpr ⟨_, hexId_capitalId, hfold.symm⟩
  have hhex' : objectHex smallId = .ok (List.replicate 64 'a') :=
    objectHex_ok_iff.mpr ⟨_, hexId_smallId, hkeep.symm⟩
  refine ⟨hcapital.not_oneGrammar, ⟨_, hhex⟩, ?_, by decide +kernel, ?_, ?_⟩
  · rintro repoId ⟨path, hp⟩
    obtain ⟨hex, hdigits, -⟩ := objectPath_ok hp
    exact hcapital.not_objectId ⟨hex, objectDigits_ok_iff.mp hdigits⟩
  · rw [objectCachePath_eq hhex, objectCachePath_eq hhex']
  · rintro ⟨name, hn, hn'⟩
    obtain ⟨_, hid, rfl⟩ := objectRefName_ok_iff.mp hn
    obtain rfl := Except.ok.inj (hhex.symm.trans hid)
    obtain ⟨hex, hid', hname⟩ := objectRefNameFromId_ok_iff.mp hn'
    obtain rfl := hexId_capitalId.unique hid'
    have heq := refNameOf_inj (by rw [List.length_replicate, List.length_replicate]) hname
    exact absurd heq (by decide)

end RickydataGit.Cli
