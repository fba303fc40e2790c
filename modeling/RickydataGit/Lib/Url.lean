/-
  The path of an http URL, as the URL standard reads it.

  Blanks around the text and line breaks in it are left out, and so is what comes from a `?`
  or `#` on. Slashes of both kinds separate the segments, dot segments take segments away, and
  characters outside the path set are percent-encoded. Which authorities can be read is left
  open (`accepts`).

  `requestPath_append`: what follows a slash is walked from the directory before it.
-/
import Mathlib

namespace RickydataGit.Lib.Url

abbrev Segment := List Char

/-! ## Text -/

/-- A C0 control or a space. -/
def isBlank (c : Char) : Bool := decide (c.toNat ≤ 0x20)

def isBreak (c : Char) : Bool := c == '\t' || c == '\n' || c == '\r'

/-- Where the path ends. -/
def isEnd (c : Char) : Bool := c == '?' || c == '#'

def isSlash (c : Char) : Bool := c == '/' || c == '\\'

def cleaned (url : List Char) : List Char :=
  (((url.dropWhile isBlank).rdropWhile isBlank).filter (!isBreak ·)).takeWhile (!isEnd ·)

/-- The path of a cleaned text: what comes after the scheme, any slashes and the authority. -/
def cleanedPath (accepts : List Char → Bool) (text : List Char) : Option (List Char) :=
  match text.dropWhile (· != ':') with
  | [] => none
  | _ :: rest =>
    if (text.takeWhile (· != ':')).map Char.toLower ∈ ["http".toList, "https".toList] then
      let hier := rest.dropWhile isSlash
      let authority := hier.takeWhile (!isSlash ·)
      if authority ≠ [] ∧ accepts authority then some (hier.dropWhile (!isSlash ·)) else none
    else none

/-! ## Segments -/

def hexDigit (n : Nat) : Char := (['0', '1', '2', '3', '4', '5', '6', '7', '8', '9', 'A', 'B', 'C',
  'D', 'E', 'F'].getD n '0')

/-- The characters of the path percent-encode set. -/
def isEncoded (c : Char) : Bool :=
  decide (c.toNat ≤ 0x20) || decide (0x7e < c.toNat) ||
    ['"', '#', '<', '>', '?', '^', '\x60', '\x7b', '\x7d'].contains c

def encodeChar (c : Char) : List Char :=
  if isEncoded c then
    (String.utf8EncodeChar c).flatMap fun b =>
      ['%', hexDigit (b.toNat / 16), hexDigit (b.toNat % 16)]
  else [c]

def encode (segment : Segment) : Segment := segment.flatMap encodeChar

def isSingleDot (segment : Segment) : Bool :=
  [['.'], ['%', '2', 'e']].contains (segment.map Char.toLower)

def isDoubleDot (segment : Segment) : Bool :=
  [['.', '.'], ['.', '%', '2', 'e'], ['%', '2', 'e', '.'], ['%', '2', 'e', '%', '2', 'e']].contains
    (segment.map Char.toLower)

/-- A segment with a slash behind it. -/
def enter (directory : List Segment) (segment : Segment) : List Segment :=
  if isDoubleDot segment then directory.dropLast
  else if isSingleDot segment then directory
  else directory ++ [encode segment]

/-- The last segment. -/
def finish (directory : List Segment) (segment : Segment) : List Segment :=
  if isDoubleDot segment || isSingleDot segment then enter directory segment ++ [[]]
  else enter directory segment

def segments : List Char → List Segment
  | [] => []
  | _ :: path => path.splitOnP isSlash

def normalise (path : List Char) : List Segment :=
  finish ((segments path).dropLast.foldl enter []) ((segments path).getLast?.getD [])

/-- The segments of the path that is requested. -/
def requestPath (accepts : List Char → Bool) (url : List Char) : Option (List Segment) :=
  (cleanedPath accepts (cleaned url)).map normalise

/-! ## What follows a slash -/

/-- Nothing that is left out, ends something or starts something. -/
def isPlain (c : Char) : Bool := c.isAlphanum || c == '.' || c == '_' || c == '-'

section Plain

variable {c : Char}

theorem isPlain_lt (h : isPlain c = true) : c.toNat < 128 := by
  simp only [isPlain, Char.isAlphanum, Char.isAlpha, Char.isUpper, Char.isLower, Char.isDigit,
    Bool.or_eq_true, Bool.and_eq_true, decide_eq_true_eq, beq_iff_eq, UInt32.le_iff_toNat_le,
    ge_iff_le] at h
  have htoNat : c.toNat = c.val.toNat := rfl
  have hZ : 'Z'.val.toNat = 90 := rfl
  have hz : 'z'.val.toNat = 122 := rfl
  have h9 : '9'.val.toNat = 57 := rfl
  rcases h with ((h | rfl) | rfl) | rfl
  · omega
  · decide
  · decide
  · decide

/-- What a plain character is not. -/
structure Ordinary (c : Char) : Prop where
  blank : isBlank c = false
  notBreak : isBreak c = false
  notEnd : isEnd c = false
  slash : isSlash c = false
  encoded : isEncoded c = false
  colon : c ≠ ':'
  percent : c ≠ '%'

instance (c : Char) : Decidable (Ordinary c) :=
  decidable_of_iff (isBlank c = false ∧ isBreak c = false ∧ isEnd c = false ∧ isSlash c = false ∧
      isEncoded c = false ∧ c ≠ ':' ∧ c ≠ '%')
    ⟨fun ⟨h₁, h₂, h₃, h₄, h₅, h₆, h₇⟩ => ⟨h₁, h₂, h₃, h₄, h₅, h₆, h₇⟩,
      fun ⟨h₁, h₂, h₃, h₄, h₅, h₆, h₇⟩ => ⟨h₁, h₂, h₃, h₄, h₅, h₆, h₇⟩⟩

theorem ordinary_of_isPlain (h : isPlain c = true) : Ordinary c := by
  have hall : ∀ n : Fin 128, isPlain (Char.ofNat n) = true → Ordinary (Char.ofNat n) := by
    decide
  have hc := hall ⟨c.toNat, isPlain_lt h⟩
  rw [show Char.ofNat (⟨c.toNat, isPlain_lt h⟩ : Fin 128) = c from Char.ofNat_toNat c] at hc
  exact hc h

end Plain

/-- The beginning of a URL, with nothing left out at its end. -/
def front (base : List Char) : List Char := (base.dropWhile isBlank).filter (!isBreak ·)

/-- A character of what follows: a slash or an ordinary one. -/
def Follows (c : Char) : Prop := c = '/' ∨ Ordinary c

section Follows

variable {accepts : List Char → Bool} {base tail : List Char}

theorem takeWhile_append_stop {p : Char → Bool} {stop : Char} (xs ys : List Char)
    (hstop : p stop = false) : (xs ++ stop :: ys).takeWhile p = xs.takeWhile p := by
  rw [List.takeWhile_append, List.takeWhile_cons_of_neg (by simp [hstop]), List.append_nil]
  split
  · next hall =>
      exact ((List.takeWhile_prefix p).eq_of_length hall).symm
  · rfl

theorem cleaned_append (hbase : ∀ c ∈ base, isEnd c = false) (htail : ∀ c ∈ tail, Follows c) :
    cleaned (base ++ '/' :: tail) = front base ++ '/' :: tail := by
  have hkept : ∀ c ∈ '/' :: tail, isBlank c = false ∧ isBreak c = false ∧ isEnd c = false := by
    intro c hc
    rcases List.mem_cons.mp hc with rfl | hc
    · decide
    rcases htail c hc with rfl | h
    · decide
    · exact ⟨h.blank, h.notBreak, h.notEnd⟩
  have hdrop : (base ++ '/' :: tail).dropWhile isBlank = base.dropWhile isBlank ++ '/' :: tail := by
    rw [List.dropWhile_append]
    split
    · next hall =>
        rw [List.isEmpty_iff.mp hall, List.dropWhile_cons_of_neg (by decide), List.nil_append]
    · rfl
  have hlast : (base.dropWhile isBlank ++ '/' :: tail).rdropWhile isBlank =
      base.dropWhile isBlank ++ '/' :: tail := by
    refine List.rdropWhile_eq_self_iff.mpr fun hne => ?_
    rw [List.getLast_append_of_ne_nil _ (List.cons_ne_nil _ _),
      (hkept _ (List.getLast_mem (List.cons_ne_nil '/' tail))).1]
    decide
  have hfilter : ('/' :: tail).filter (!isBreak ·) = '/' :: tail :=
    List.filter_eq_self.mpr fun c hc => by simp [(hkept c hc).2.1]
  rw [cleaned, hdrop, hlast, List.filter_append, hfilter]
  refine List.takeWhile_eq_self_iff.mpr fun c hc => ?_
  rcases List.mem_append.mp hc with hc | hc
  · have hmem := (List.dropWhile_sublist _).mem (List.mem_of_mem_filter hc)
    simp [hbase c hmem]
  · simp [(hkept c hc).2.2]

/-- What comes of a text with a slash behind it, whatever follows. -/
theorem cleanedPath_cases (accepts : List Char → Bool) (text : List Char) :
    (∃ path, ∀ tail, (∀ c ∈ tail, Follows c) →
        cleanedPath accepts (text ++ '/' :: tail) = some (path ++ '/' :: tail)) ∨
      cleanedPath accepts (text ++ ['/']) = none ∧ ∀ tail path, (∀ c ∈ tail, Follows c) →
        cleanedPath accepts (text ++ '/' :: tail) = some path →
          path = (tail.dropWhile isSlash).dropWhile (!isSlash ·) := by
  have hcolon : ∀ tail : List Char, (∀ c ∈ tail, Follows c) → ':' ∉ tail := by
    intro tail htail hmem
    rcases htail _ hmem with h | h
    · exact absurd h (by decide)
    · exact h.colon rfl
  by_cases hscheme : ':' ∈ text
  swap
  · -- no scheme, and none comes later
    have hnone : ∀ tail : List Char, (∀ c ∈ tail, Follows c) →
        cleanedPath accepts (text ++ '/' :: tail) = none := by
      intro tail htail
      have hnil : (text ++ '/' :: tail).dropWhile (· != ':') = [] := by
        refine List.dropWhile_eq_nil_iff.mpr fun c hc => ?_
        rcases List.mem_append.mp hc with hc | hc
        · simpa using fun h : c = ':' => hscheme (h ▸ hc)
        rcases List.mem_cons.mp hc with rfl | hc
        · rfl
        · simpa using fun h : c = ':' => hcolon tail htail (h ▸ hc)
      rw [cleanedPath, hnil]
    refine .inr ⟨hnone [] (by simp), fun tail path htail hpath => ?_⟩
    rw [hnone tail htail] at hpath
    cases hpath
  obtain ⟨scheme, rest, rfl, hfirst⟩ := List.eq_append_cons_of_mem hscheme
  have hother : ∀ c ∈ scheme, (c != ':') = true := fun c hc => by
    simpa using fun h : c = ':' => hfirst (h ▸ hc)
  have hread : ∀ tail : List Char, cleanedPath accepts (scheme ++ ':' :: rest ++ '/' :: tail) =
      if scheme.map Char.toLower ∈ ["http".toList, "https".toList] then
        let hier := (rest ++ '/' :: tail).dropWhile isSlash
        let authority := hier.takeWhile (!isSlash ·)
        if authority ≠ [] ∧ accepts authority then some (hier.dropWhile (!isSlash ·)) else none
      else none := by
    intro tail
    rw [cleanedPath, List.append_assoc, List.dropWhile_append_of_pos hother,
      List.takeWhile_append_of_pos hother, List.cons_append,
      List.dropWhile_cons_of_neg (by decide), List.takeWhile_cons_of_neg (by decide),
      List.append_nil]
  by_cases hhttp : scheme.map Char.toLower ∈ ["http".toList, "https".toList]
  swap
  · simp only [hread, if_neg hhttp]
    exact .inr ⟨trivial, fun _ _ _ h => nomatch h⟩
  simp only [hread, if_pos hhttp]
  rcases hhier : rest.dropWhile isSlash with _ | ⟨c, hier⟩
  · -- slashes only, and the authority is looked for in what follows
    have hall : ∀ tail : List Char, (rest ++ '/' :: tail).dropWhile isSlash =
        tail.dropWhile isSlash := by
      intro tail
      rw [List.dropWhile_append, hhier, List.isEmpty_nil, if_pos rfl,
        List.dropWhile_cons_of_pos (by decide)]
    simp only [hall]
    refine .inr ⟨if_neg (by simp), fun tail path _ hpath => ?_⟩
    split at hpath
    · exact (Option.some.inj hpath).symm
    · cases hpath
  · have hc : (!isSlash c) = true := by
      have hne : rest.dropWhile isSlash ≠ [] := by
        rw [hhier]
        exact List.cons_ne_nil _ _
      have hhead := List.head_dropWhile_not isSlash hne
      simp only [hhier, List.head_cons] at hhead
      simpa using hhead
    have hall : ∀ tail : List Char, (rest ++ '/' :: tail).dropWhile isSlash =
        c :: hier ++ '/' :: tail := by
      intro tail
      rw [List.dropWhile_append, hhier]
      rfl
    have htake : ∀ tail : List Char, (c :: hier ++ '/' :: tail).takeWhile (!isSlash ·) =
        (c :: hier).takeWhile (!isSlash ·) := fun tail =>
      takeWhile_append_stop _ _ (by decide)
    have hdrop : ∀ tail : List Char, (c :: hier ++ '/' :: tail).dropWhile (!isSlash ·) =
        (c :: hier).dropWhile (!isSlash ·) ++ '/' :: tail := by
      intro tail
      rw [List.dropWhile_append]
      split
      · next h =>
          rw [List.isEmpty_iff.mp h, List.dropWhile_cons_of_neg (by decide), List.nil_append]
      · rfl
    simp only [hall, htake, hdrop]
    split
    · exact .inl ⟨_, fun _ _ => rfl⟩
    · exact .inr ⟨rfl, fun _ _ _ h => nomatch h⟩

end Follows

/-! ## Plain segments -/

/-- Plain characters, one at least. -/
def PlainSegment (segment : Segment) : Prop :=
  segment ≠ [] ∧ ∀ c ∈ segment, isPlain c = true

/-- The segments with slashes between them. -/
def joined : List Segment → List Char
  | [] => []
  | [segment] => segment
  | segment :: next :: rest => segment ++ '/' :: joined (next :: rest)

theorem joined_cons {segment : Segment} {rest : List Segment} (h : rest ≠ []) :
    joined (segment :: rest) = segment ++ '/' :: joined rest := by
  cases rest with
  | nil => exact absurd rfl h
  | cons next rest => rfl

variable {segs : List Segment}

theorem follows_joined (h : ∀ s ∈ segs, PlainSegment s) : ∀ c ∈ joined segs, Follows c := by
  induction segs with
  | nil => exact fun c hc => nomatch hc
  | cons segment rest ih =>
    have hown : ∀ c ∈ segment, Follows c := fun c hc =>
      .inr (ordinary_of_isPlain ((h segment List.mem_cons_self).2 c hc))
    rcases rest with _ | ⟨next, rest⟩
    · exact hown
    · intro c hc
      rcases List.mem_append.mp hc with hc | hc
      · exact hown c hc
      rcases List.mem_cons.mp hc with rfl | hc
      · exact .inl rfl
      · exact ih (fun s hs => h s (List.mem_cons_of_mem _ hs)) c hc

theorem not_slash_of_plain {segment : Segment} (h : PlainSegment segment) :
    ∀ c ∈ segment, isSlash c = false := fun c hc => (ordinary_of_isPlain (h.2 c hc)).slash

theorem splitOnP_joined (h : ∀ s ∈ segs, PlainSegment s) (hne : segs ≠ []) :
    (joined segs).splitOnP isSlash = segs := by
  induction segs with
  | nil => exact absurd rfl hne
  | cons segment rest ih =>
    have hown := not_slash_of_plain (h segment List.mem_cons_self)
    rcases rest with _ | ⟨next, rest⟩
    · exact List.splitOnP_eq_singleton hown
    · rw [joined, List.splitOnP_append_cons_of_forall_mem hown _ (by decide),
        ih (fun s hs => h s (List.mem_cons_of_mem _ hs)) (List.cons_ne_nil _ _)]

theorem segments_append (path tail : List Char) :
    segments (path ++ '/' :: tail) = segments path ++ tail.splitOnP isSlash := by
  cases path with
  | nil => rfl
  | cons c path => exact List.splitOnP_append_cons path tail (by decide)

/-- A plain segment is itself, dots aside. -/
theorem encode_plain {segment : Segment} (h : ∀ c ∈ segment, isPlain c = true) :
    encode segment = segment := by
  induction segment with
  | nil => rfl
  | cons c rest ih =>
    have hc : encodeChar c = [c] := by
      rw [encodeChar, (ordinary_of_isPlain (h c List.mem_cons_self)).encoded]
      rfl
    have hrest := ih fun x hx => h x (List.mem_cons_of_mem _ hx)
    rw [encode, List.flatMap_cons, hc]
    exact congrArg (c :: ·) hrest

theorem toLower_plain {c : Char} (h : isPlain c = true) :
    (c.toLower = '.' ↔ c = '.') ∧ c.toLower ≠ '%' := by
  have hall : ∀ n : Fin 128, isPlain (Char.ofNat n) = true →
      ((Char.ofNat n).toLower = '.' ↔ Char.ofNat n = '.') ∧ (Char.ofNat n).toLower ≠ '%' := by
    decide
  have hc := hall ⟨c.toNat, isPlain_lt h⟩
  rw [show Char.ofNat (⟨c.toNat, isPlain_lt h⟩ : Fin 128) = c from Char.ofNat_toNat c] at hc
  exact hc h

/-- Of the plain segments one is a single dot and one a double dot. -/
theorem isDot_plain_iff {segment : Segment} (h : ∀ c ∈ segment, isPlain c = true) :
    (isSingleDot segment = true ↔ segment = ['.']) ∧
      (isDoubleDot segment = true ↔ segment = ['.', '.']) := by
  have hpercent : '%' ∉ segment.map Char.toLower := fun hmem => by
    obtain ⟨c, hc, hlower⟩ := List.mem_map.mp hmem
    exact (toLower_plain (h c hc)).2 hlower
  have hdots : ∀ n, segment.map Char.toLower = List.replicate n '.' ↔
      segment = List.replicate n '.' := fun n => by
    rw [List.eq_replicate_iff, List.eq_replicate_iff, List.length_map, List.forall_mem_map]
    exact and_congr_right fun _ => forall₂_congr fun c hc => (toLower_plain (h c hc)).1
  constructor
  · refine Iff.trans ?_ (hdots 1)
    simp only [isSingleDot, List.contains_eq_mem, decide_eq_true_eq, List.mem_cons,
      List.not_mem_nil, or_false]
    exact or_iff_left fun heq => hpercent (by rw [heq]; decide)
  · refine Iff.trans ?_ (hdots 2)
    simp only [isDoubleDot, List.contains_eq_mem, decide_eq_true_eq, List.mem_cons,
      List.not_mem_nil, or_false]
    refine or_iff_left ?_
    rintro (heq | heq | heq)
    · exact hpercent (by rw [heq]; decide)
    · exact hpercent (by rw [heq]; decide)
    · exact hpercent (by rw [heq]; decide)

/-- A plain segment that is no dots is entered as it is. -/
theorem enter_plain {segment : Segment} (h : ∀ c ∈ segment, isPlain c = true)
    (hdot : segment ≠ ['.']) (hdouble : segment ≠ ['.', '.']) (directory : List Segment) :
    enter directory segment = directory ++ [segment] := by
  obtain ⟨hone, htwo⟩ := isDot_plain_iff h
  rw [enter, if_neg fun hd => hdouble (htwo.mp hd), if_neg fun hs => hdot (hone.mp hs),
    encode_plain h]

theorem finish_plain {segment : Segment} (h : ∀ c ∈ segment, isPlain c = true)
    (hdot : segment ≠ ['.']) (hdouble : segment ≠ ['.', '.']) (directory : List Segment) :
    finish directory segment = directory ++ [segment] := by
  obtain ⟨hone, htwo⟩ := isDot_plain_iff h
  rw [finish, if_neg, enter_plain h hdot hdouble]
  rw [Bool.or_eq_true]
  rintro (hd | hs)
  · exact hdouble (htwo.mp hd)
  · exact hdot (hone.mp hs)

theorem length_enter_le (directory : List Segment) (segment : Segment) :
    (enter directory segment).length ≤ directory.length + 1 := by
  unfold enter
  split
  · rw [List.length_dropLast]
    omega
  · split
    · exact Nat.le_succ _
    · rw [List.length_append, List.length_singleton]

theorem length_foldl_enter_le (segs directory : List Segment) :
    (segs.foldl enter directory).length ≤ directory.length + segs.length := by
  induction segs generalizing directory with
  | nil => exact Nat.le_refl _
  | cons segment rest ih =>
    have hstep := length_enter_le directory segment
    have hrest := ih (enter directory segment)
    rw [List.foldl_cons, List.length_cons]
    omega

theorem length_finish_le (directory : List Segment) (segment : Segment) :
    (finish directory segment).length ≤ directory.length + 1 := by
  unfold finish enter
  split
  · rw [List.length_append, List.length_singleton]
    split
    · rw [List.length_dropLast]
      omega
    · split
      · exact Nat.le_refl _
      · next h hdouble hsingle => simp_all
  · next h =>
    simp only [Bool.or_eq_true, not_or, Bool.not_eq_true] at h
    rw [h.1, h.2]
    simp

/-- The path of a base followed by plain segments: they are walked from the directory of the
    base, unless the base has no authority of its own. -/
theorem requestPath_append (accepts : List Char → Bool) {base : List Char}
    (hbase : ∀ c ∈ base, isEnd c = false) (hplain : ∀ s ∈ segs, PlainSegment s)
    (htwo : 2 ≤ segs.length) :
    (∃ directory, requestPath accepts (base ++ ['/']) = some (directory ++ [[]]) ∧
        requestPath accepts (base ++ '/' :: joined segs) =
          some (finish (segs.dropLast.foldl enter directory) (segs.getLast?.getD []))) ∨
      requestPath accepts (base ++ ['/']) = none ∧ ∀ path,
        requestPath accepts (base ++ '/' :: joined segs) = some path →
          path.length < segs.length := by
  have hne : segs ≠ [] := by
    rintro rfl
    exact absurd htwo (by decide)
  have hfollows := follows_joined hplain
  have hclean := cleaned_append hbase hfollows
  have hslash : cleaned (base ++ ['/']) = front base ++ ['/'] := cleaned_append hbase (by simp)
  rw [requestPath, requestPath, hclean, hslash]
  rcases cleanedPath_cases accepts (front base) with ⟨path, hpath⟩ | ⟨hnone, hlater⟩
  · left
    refine ⟨(segments path).foldl enter [], ?_, ?_⟩
    · rw [hpath [] (by simp), Option.map_some, normalise, segments_append, List.splitOnP_nil,
        List.dropLast_concat, List.getLast?_concat]
      rfl
    · rw [hpath _ hfollows, Option.map_some, normalise, segments_append,
        splitOnP_joined hplain hne, List.dropLast_append_of_ne_nil hne, List.foldl_append,
        List.getLast?_append_of_ne_nil _ hne]
  · refine .inr ⟨by rw [hnone]; rfl, fun path hpath => ?_⟩
    obtain ⟨text, htext, rfl⟩ := Option.map_eq_some_iff.mp hpath
    obtain rfl := hlater _ _ hfollows htext
    obtain ⟨first, rest, rfl⟩ := List.exists_cons_of_ne_nil hne
    have hrest : rest ≠ [] := by
      rintro rfl
      rw [List.length_singleton] at htwo
      omega
    -- the first segment is the authority
    have hfirst := hplain first List.mem_cons_self
    have hown := not_slash_of_plain hfirst
    obtain ⟨c, cs, hcs⟩ := List.exists_cons_of_ne_nil hfirst.1
    have hhead : (joined (first :: rest)).dropWhile isSlash = joined (first :: rest) := by
      rw [joined_cons hrest, hcs, List.cons_append]
      exact List.dropWhile_cons_of_neg (by simp [hown c (hcs ▸ List.mem_cons_self)])
    have hpast : (joined (first :: rest)).dropWhile (!isSlash ·) = '/' :: joined rest := by
      rw [joined_cons hrest, List.dropWhile_append_of_pos fun x hx => by simp [hown x hx],
        List.dropWhile_cons_of_neg (by decide)]
    rw [hhead, hpast, normalise, segments,
      splitOnP_joined (fun s hs => hplain s (List.mem_cons_of_mem _ hs)) hrest]
    have hlast := length_finish_le (rest.dropLast.foldl enter []) (rest.getLast?.getD [])
    have hwalk := length_foldl_enter_le rest.dropLast []
    rw [List.length_dropLast] at hwalk
    have hpos := List.length_pos_iff.mpr hrest
    simp only [List.length_cons, List.length_nil] at hwalk ⊢
    omega

end RickydataGit.Lib.Url
