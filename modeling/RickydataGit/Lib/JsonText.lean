/-
  The text of a JSON tree and its reading.

  `print` writes a tree in the standard syntax under a `Layout` (the white space
  between tokens): no white space at all is the compact text, a line break and an
  indent after every bracket and comma is the usual pretty text. A number is
  written and read by a `NumText`; its text consists of number characters.

  `readValue_print` is the round trip with a remainder: the reader stops exactly
  behind the text of the tree. From it, `read_print` (the reader inverts every
  layout) and `print_inj` (two trees with one text are one tree). Both are for
  every tree, every string in it and every layout.

  The reader takes fuel, the length of its input; no text of that length needs
  more.
-/
import RickydataGit.Lib.Json

namespace RickydataGit.Lib

/-! ## Characters -/

/-- The white space of JSON. -/
def isWs (c : Char) : Bool := c = ' ' || c = '\n' || c = '\t' || c = '\r'

/-- The characters a number is written with. -/
def isNumChar (c : Char) : Bool :=
  c.isDigit || c = '-' || c = '+' || c = '.' || c = 'e' || c = 'E'

def skipWs (cs : List Char) : List Char := cs.dropWhile isWs

theorem skipWs_append {ws : List Char} (h : ∀ c ∈ ws, isWs c = true) (cs : List Char) :
    skipWs (ws ++ cs) = skipWs cs :=
  List.dropWhile_append_of_pos h

theorem skipWs_cons {c : Char} (h : isWs c = false) (cs : List Char) :
    skipWs (c :: cs) = c :: cs := by
  simp [skipWs, h]

/-! ## Strings -/

/-- The escape of one character: quote, backslash and control characters only. -/
def escapeChar (c : Char) : List Char :=
  if c = '"' then ['\\', '"']
  else if c = '\\' then ['\\', '\\']
  else if c.toNat < 0x20 then
    match c.toNat with
    | 0x08 => ['\\', 'b']
    | 0x09 => ['\\', 't']
    | 0x0a => ['\\', 'n']
    | 0x0c => ['\\', 'f']
    | 0x0d => ['\\', 'r']
    | n => ['\\', 'u', '0', '0', (n / 16).digitChar, (n % 16).digitChar]
  else [c]

def quote (s : String) : List Char := '"' :: (s.toList.flatMap escapeChar ++ ['"'])

/-- The value of a hexadecimal digit of either case. -/
def hexDigitValue (c : Char) : Option Nat :=
  if '0' ≤ c ∧ c ≤ '9' then some (c.toNat - '0'.toNat)
  else if 'a' ≤ c ∧ c ≤ 'f' then some (c.toNat - 'a'.toNat + 10)
  else if 'A' ≤ c ∧ c ≤ 'F' then some (c.toNat - 'A'.toNat + 10)
  else none

/-- The character a one-letter escape stands for. -/
def unescape : Char → Option Char
  | '"' => some '"'
  | '\\' => some '\\'
  | '/' => some '/'
  | 'b' => some '\x08'
  | 'f' => some '\x0c'
  | 'n' => some '\n'
  | 'r' => some '\r'
  | 't' => some '\t'
  | _ => none

/-- The rest of a string literal behind its opening quote. A `\u` escape is read
    when it is a scalar value by itself. -/
def readString : List Char → Option (List Char × List Char)
  | [] => none
  | '"' :: r => some ([], r)
  | '\\' :: 'u' :: a :: b :: c :: d :: r => do
      let n := (← hexDigitValue a) * 4096 + (← hexDigitValue b) * 256 +
        (← hexDigitValue c) * 16 + (← hexDigitValue d)
      if n.isValidChar then
        let p ← readString r
        some (Char.ofNat n :: p.1, p.2)
      else none
  | '\\' :: c :: r => do
      let e ← unescape c
      let p ← readString r
      some (e :: p.1, p.2)
  | ['\\'] => none
  | c :: r =>
      if c.toNat < 0x20 then none
      else (readString r).map fun p => (c :: p.1, p.2)

theorem hexDigitValue_digitChar : ∀ d < 16, hexDigitValue d.digitChar = some d := by
  decide

/-- A control character without a letter of its own comes back from its `\u` escape. -/
theorem readString_unicode {c : Char} (hc : c.toNat < 0x20) (r : List Char) :
    readString (['\\', 'u', '0', '0', (c.toNat / 16).digitChar, (c.toNat % 16).digitChar] ++ r) =
      (readString r).map fun p => (c :: p.1, p.2) := by
  have h0 : hexDigitValue '0' = some 0 := by decide
  have h1 := hexDigitValue_digitChar (c.toNat / 16) (by omega)
  have h2 := hexDigitValue_digitChar (c.toNat % 16) (by omega)
  have hn : 0 * 4096 + 0 * 256 + c.toNat / 16 * 16 + c.toNat % 16 = c.toNat := by omega
  have hv : c.toNat.isValidChar := c.valid
  simp only [List.cons_append, List.nil_append, readString, h0, h1, h2, hn,
    Option.bind_eq_bind, Option.bind_some, if_pos hv, Char.ofNat_toNat]
  cases readString r <;> rfl

theorem readString_letter {c e : Char} (hu : c ≠ 'u') (h : unescape c = some e)
    (r : List Char) :
    readString ('\\' :: c :: r) = (readString r).map fun p => (e :: p.1, p.2) := by
  rw [readString.eq_def]
  split
  · simp_all
  · simp_all
  · simp_all
  · rename_i heq
    simp only [List.cons.injEq, true_and] at heq
    obtain ⟨rfl, rfl⟩ := heq
    simp only [h, Option.bind_eq_bind, Option.bind_some]
    cases readString r <;> rfl
  · simp_all
  · next hno _ heq =>
      simp only [List.cons.injEq] at heq
      exact absurd heq.2.symm (hno c r heq.1.symm)

theorem readString_plain {c : Char} (hq : c ≠ '"') (hb : c ≠ '\\') (hc : ¬ c.toNat < 0x20)
    (r : List Char) :
    readString (c :: r) = (readString r).map fun p => (c :: p.1, p.2) := by
  rw [readString.eq_def]
  split <;> simp_all

theorem char_eq_of_toNat {c d : Char} (h : c.toNat = d.toNat) : c = d := by
  rw [← Char.ofNat_toNat c, h, Char.ofNat_toNat]

theorem readString_escapeChar (c : Char) (r : List Char) :
    readString (escapeChar c ++ r) = (readString r).map fun p => (c :: p.1, p.2) := by
  unfold escapeChar
  by_cases hq : c = '"'
  · subst hq
    exact readString_letter (by decide) rfl r
  by_cases hb : c = '\\'
  · subst hb
    exact readString_letter (by decide) rfl r
  rw [if_neg hq, if_neg hb]
  by_cases hc : c.toNat < 0x20
  · rw [if_pos hc]
    split
    · next h => rw [char_eq_of_toNat (d := '\x08') h]; exact readString_letter (by decide) rfl r
    · next h => rw [char_eq_of_toNat (d := '\t') h]; exact readString_letter (by decide) rfl r
    · next h => rw [char_eq_of_toNat (d := '\n') h]; exact readString_letter (by decide) rfl r
    · next h => rw [char_eq_of_toNat (d := '\x0c') h]; exact readString_letter (by decide) rfl r
    · next h => rw [char_eq_of_toNat (d := '\r') h]; exact readString_letter (by decide) rfl r
    · exact readString_unicode hc r
  · rw [if_neg hc]
    exact readString_plain hq hb hc r

theorem readString_flatMap (cs r : List Char) :
    readString (cs.flatMap escapeChar ++ '"' :: r) = some (cs, r) := by
  induction cs with
  | nil => simp [readString]
  | cons c cs ih =>
    rw [List.flatMap_cons, List.append_assoc, readString_escapeChar, ih]
    rfl

/-! ## Numbers -/

/-- How numbers of type `N` are written and read. -/
structure NumText (N : Type) where
  text : N → List Char
  read : List Char → Option N
  read_text : ∀ n, read (text n) = some n
  text_ne_nil : ∀ n, text n ≠ []
  text_chars : ∀ n, ∀ c ∈ text n, isNumChar c = true

/-- The text behind a value: what follows a number is no number character. -/
def StopsNumber (r : List Char) : Prop := ∀ c ∈ r.head?, isNumChar c = false

theorem stopsNumber_cons {c : Char} (h : isNumChar c = false) (r : List Char) :
    StopsNumber (c :: r) := by
  simp [StopsNumber, h]

theorem takeWhile_text {t r : List Char} (ht : ∀ c ∈ t, isNumChar c = true)
    (hr : StopsNumber r) :
    (t ++ r).takeWhile isNumChar = t ∧ (t ++ r).dropWhile isNumChar = r := by
  have htake : r.takeWhile isNumChar = [] := by
    cases r with
    | nil => rfl
    | cons c r => simp [hr c (by simp)]
  have hdrop : r.dropWhile isNumChar = r := by
    cases r with
    | nil => rfl
    | cons c r => simp [hr c (by simp)]
  exact ⟨by rw [List.takeWhile_append_of_pos ht, htake, List.append_nil],
    by rw [List.dropWhile_append_of_pos ht, hdrop]⟩

/-! ## Layout and printing -/

/-- The white space of a text: `brk d` is written at depth `d` behind an opening
    bracket or a comma and before a closing bracket, `colon` behind a colon. -/
structure Layout where
  brk : Nat → List Char
  colon : List Char
  brk_ws : ∀ d, ∀ c ∈ brk d, isWs c = true
  colon_ws : ∀ c ∈ colon, isWs c = true

/-- No white space. -/
def Layout.compact : Layout where
  brk _ := []
  colon := []
  brk_ws := by simp
  colon_ws := by simp

/-- A line break and two spaces a level, and a space behind a colon. -/
def Layout.pretty : Layout where
  brk d := '\n' :: List.replicate (2 * d) ' '
  colon := [' ']
  brk_ws := by
    intro d c hc
    rcases List.mem_cons.mp hc with rfl | hc
    · decide
    · rw [List.eq_of_mem_replicate hc]; decide
  colon_ws := by
    intro c hc
    rw [List.mem_singleton.mp hc]; decide

namespace Json

variable {N : Type}

mutual
/-- The text of a tree at depth `d`. -/
def print (C : NumText N) (L : Layout) (d : Nat) : Json N → List Char
  | .null => ['n', 'u', 'l', 'l']
  | .bool true => ['t', 'r', 'u', 'e']
  | .bool false => ['f', 'a', 'l', 's', 'e']
  | .num n => C.text n
  | .str s => quote s
  | .arr [] => ['[', ']']
  | .arr (x :: xs) =>
      '[' :: (L.brk (d + 1) ++ (print C L (d + 1) x ++ (printElems C L (d + 1) xs ++
        (L.brk d ++ [']']))))
  | .obj [] => ['{', '}']
  | .obj ((k, v) :: ms) =>
      '{' :: (L.brk (d + 1) ++ (quote k ++ (':' :: (L.colon ++ (print C L (d + 1) v ++
        (printMembers C L (d + 1) ms ++ (L.brk d ++ ['}'])))))))

/-- The elements behind the first one. -/
def printElems (C : NumText N) (L : Layout) (d : Nat) : List (Json N) → List Char
  | [] => []
  | x :: xs => ',' :: (L.brk d ++ (print C L d x ++ printElems C L d xs))

/-- The members behind the first one. -/
def printMembers (C : NumText N) (L : Layout) (d : Nat) : List (String × Json N) → List Char
  | [] => []
  | (k, v) :: ms =>
      ',' :: (L.brk d ++ (quote k ++ (':' :: (L.colon ++ (print C L d v ++
        printMembers C L d ms)))))
end

/-! ## Reading -/

/-- A key and the colon behind it. -/
def readKey : List Char → Option (String × List Char)
  | '"' :: r =>
      match readString r with
      | some (k, r) =>
          match skipWs r with
          | ':' :: r' => some (String.ofList k, skipWs r')
          | _ => none
      | none => none
  | _ => none

mutual
/-- The value at the head of a text and what is left of it. The first argument
    bounds the number of nested calls. -/
def readValue (C : NumText N) : Nat → List Char → Option (Json N × List Char)
  | 0, _ => none
  | n + 1, cs =>
      match cs with
      | 'n' :: 'u' :: 'l' :: 'l' :: r => some (.null, r)
      | 't' :: 'r' :: 'u' :: 'e' :: r => some (.bool true, r)
      | 'f' :: 'a' :: 'l' :: 's' :: 'e' :: r => some (.bool false, r)
      | '"' :: r => (readString r).map fun p => (.str (String.ofList p.1), p.2)
      | '[' :: r =>
          match skipWs r with
          | ']' :: r' => some (.arr [], r')
          | r' => (readElems C n r').map fun p => (.arr p.1, p.2)
      | '{' :: r =>
          match skipWs r with
          | '}' :: r' => some (.obj [], r')
          | r' => (readMembers C n r').map fun p => (.obj p.1, p.2)
      | cs =>
          (C.read (cs.takeWhile isNumChar)).map fun x => (.num x, cs.dropWhile isNumChar)

/-- The elements up to the closing bracket. -/
def readElems (C : NumText N) : Nat → List Char → Option (List (Json N) × List Char)
  | 0, _ => none
  | n + 1, cs =>
      match readValue C n cs with
      | none => none
      | some (x, r) =>
          match skipWs r with
          | ']' :: r' => some ([x], r')
          | ',' :: r' => (readElems C n (skipWs r')).map fun p => (x :: p.1, p.2)
          | _ => none

/-- The members up to the closing brace. -/
def readMembers (C : NumText N) : Nat → List Char → Option (List (String × Json N) × List Char)
  | 0, _ => none
  | n + 1, cs =>
      match readKey cs with
      | none => none
      | some (k, r) =>
          match readValue C n r with
          | none => none
          | some (v, r) =>
              match skipWs r with
              | '}' :: r' => some ([(k, v)], r')
              | ',' :: r' => (readMembers C n (skipWs r')).map fun p => ((k, v) :: p.1, p.2)
              | _ => none
end

/-- The one value a text consists of, up to white space around it. -/
def read (C : NumText N) (cs : List Char) : Option (Json N) :=
  match readValue C cs.length (skipWs cs) with
  | some (v, r) => if skipWs r = [] then some v else none
  | none => none

/-! ## Round trip -/

variable {C : NumText N} {L : Layout}

/-- A text that can start where a value is expected. -/
def StartsValue (cs : List Char) : Prop :=
  ∃ c r, cs = c :: r ∧ isWs c = false ∧ c ≠ ']' ∧ c ≠ '}'

theorem StartsValue.append {cs : List Char} (h : StartsValue cs) (r : List Char) :
    StartsValue (cs ++ r) := by
  obtain ⟨c, t, rfl, hc⟩ := h
  exact ⟨c, t ++ r, rfl, hc⟩

theorem StartsValue.skipWs {cs : List Char} (h : StartsValue cs) : skipWs cs = cs := by
  obtain ⟨c, t, rfl, hc, _⟩ := h
  exact skipWs_cons hc t

theorem not_ws_of_numChar {c : Char} (h : isNumChar c = true) :
    isWs c = false ∧ c ≠ ']' ∧ c ≠ '}' ∧ c ≠ '"' ∧ c ≠ '[' ∧ c ≠ '{' ∧ c ≠ 'n' ∧ c ≠ 't' ∧
      c ≠ 'f' := by
  refine ⟨?_, ?_, ?_, ?_, ?_, ?_, ?_, ?_, ?_⟩
  · by_contra hw
    simp only [isWs, Bool.not_eq_false, Bool.or_eq_true, decide_eq_true_iff] at hw
    rcases hw with ((rfl | rfl) | rfl) | rfl <;> exact absurd h (by decide)
  all_goals
    rintro rfl
    exact absurd h (by decide)

theorem startsValue_print (d : Nat) (v : Json N) : StartsValue (print C L d v) := by
  cases v with
  | null => exact ⟨'n', _, by rw [print], by decide, by decide, by decide⟩
  | bool b =>
    cases b with
    | true => exact ⟨'t', _, by rw [print], by decide, by decide, by decide⟩
    | false => exact ⟨'f', _, by rw [print], by decide, by decide, by decide⟩
  | num n =>
    rw [print]
    cases ht : C.text n with
    | nil => exact absurd ht (C.text_ne_nil n)
    | cons c t =>
      obtain ⟨h1, h2, h3, _⟩ := not_ws_of_numChar (C.text_chars n c (by simp [ht]))
      exact ⟨c, t, rfl, h1, h2, h3⟩
  | str s => exact ⟨'"', _, by rw [print, quote], by decide, by decide, by decide⟩
  | arr xs =>
    cases xs with
    | nil => exact ⟨'[', _, by rw [print], by decide, by decide, by decide⟩
    | cons x xs => exact ⟨'[', _, by rw [print], by decide, by decide, by decide⟩
  | obj ms =>
    cases ms with
    | nil => exact ⟨'{', _, by rw [print], by decide, by decide, by decide⟩
    | cons m ms => exact ⟨'{', _, by rw [print], by decide, by decide, by decide⟩

theorem print_length_pos (d : Nat) (v : Json N) : 0 < (print C L d v).length := by
  obtain ⟨c, r, h, _⟩ := startsValue_print (C := C) (L := L) d v
  rw [h]
  simp

theorem skipWs_brk_print (d e : Nat) (v : Json N) (r : List Char) :
    skipWs (L.brk e ++ (print C L d v ++ r)) = print C L d v ++ r := by
  rw [skipWs_append (L.brk_ws e), ((startsValue_print d v).append r).skipWs]

theorem skipWs_brk_cons (e : Nat) {c : Char} (hc : isWs c = false) (r : List Char) :
    skipWs (L.brk e ++ c :: r) = c :: r := by
  rw [skipWs_append (L.brk_ws e), skipWs_cons hc]

/-- Behind an element or a member stands a comma, white space or a bracket. -/
theorem stopsNumber_brk (e : Nat) {c : Char} (hc : isNumChar c = false) (r : List Char) :
    StopsNumber (L.brk e ++ c :: r) := by
  cases h : L.brk e with
  | nil => exact stopsNumber_cons hc r
  | cons b t =>
    have hb : isWs b = true := L.brk_ws e b (by simp [h])
    refine stopsNumber_cons ?_ _
    by_contra hn
    rw [Bool.not_eq_false] at hn
    rw [(not_ws_of_numChar hn).1] at hb
    exact Bool.noConfusion hb

theorem stopsNumber_printElems (d e : Nat) (xs : List (Json N)) (r : List Char) :
    StopsNumber (printElems C L d xs ++ (L.brk e ++ ']' :: r)) := by
  cases xs with
  | nil => rw [printElems, List.nil_append]; exact stopsNumber_brk e (by decide) r
  | cons x xs => rw [printElems, List.cons_append]; exact stopsNumber_cons (by decide) _

theorem stopsNumber_printMembers (d e : Nat) (ms : List (String × Json N)) (r : List Char) :
    StopsNumber (printMembers C L d ms ++ (L.brk e ++ '}' :: r)) := by
  cases ms with
  | nil => rw [printMembers, List.nil_append]; exact stopsNumber_brk e (by decide) r
  | cons m ms => rw [printMembers, List.cons_append]; exact stopsNumber_cons (by decide) _

/-- What the round trip says of one value, at every depth and with any remainder. -/
def RoundTrips (C : NumText N) (L : Layout) (v : Json N) : Prop :=
  ∀ d n r, (print C L d v).length ≤ n → StopsNumber r →
    readValue C n (print C L d v ++ r) = some (v, r)

theorem readElems_print (d e : Nat) (x : Json N) (xs : List (Json N))
    (hx : RoundTrips C L x) (hxs : ∀ y ∈ xs, RoundTrips C L y) (n : Nat) (r : List Char)
    (hn : (print C L d x ++ printElems C L d xs).length < n) :
    readElems C n (print C L d x ++ (printElems C L d xs ++ (L.brk e ++ ']' :: r))) =
      some (x :: xs, r) := by
  obtain ⟨m, rfl⟩ : ∃ m, n = m + 1 := ⟨n - 1, by omega⟩
  rw [List.length_append] at hn
  rw [readElems, hx d m _ (by omega) (stopsNumber_printElems d e xs r)]
  induction xs generalizing x m with
  | nil =>
    simp only [printElems, List.nil_append]
    rw [skipWs_brk_cons e (by decide)]
    rfl
  | cons y ys ih =>
    simp only [printElems, List.length_append, List.length_cons] at hn
    obtain ⟨k, rfl⟩ : ∃ k, m = k + 1 := ⟨m - 1, by omega⟩
    have hy := hxs y (by simp)
    simp only [printElems, List.cons_append, List.append_assoc]
    rw [skipWs_cons (by decide)]
    change (readElems C (k + 1) (skipWs _)).map _ = _
    rw [skipWs_brk_print, readElems, hy d k _ (by omega) (stopsNumber_printElems d e ys r),
      ih y hy (fun z hz => hxs z (by simp [hz])) k (by omega)]
    rfl

theorem readKey_quote (k : String) {cs : List Char} (h : StartsValue cs) :
    readKey (quote k ++ (':' :: (L.colon ++ cs))) = some (k, cs) := by
  rw [quote, List.cons_append, List.append_assoc, List.singleton_append, readKey,
    readString_flatMap]
  dsimp only
  rw [skipWs_cons (by decide)]
  change some (String.ofList k.toList, skipWs (L.colon ++ cs)) = _
  rw [skipWs_append L.colon_ws, h.skipWs, String.ofList_toList]

theorem skipWs_brk_quote (e : Nat) (k : String) (r : List Char) :
    skipWs (L.brk e ++ (quote k ++ r)) = quote k ++ r := by
  rw [quote, List.cons_append]
  exact skipWs_brk_cons e (by decide) _

theorem readMembers_print (d e : Nat) (k : String) (v : Json N) (ms : List (String × Json N))
    (hv : RoundTrips C L v) (hms : ∀ m ∈ ms, RoundTrips C L m.2) (n : Nat) (r : List Char)
    (hn : (print C L d v ++ printMembers C L d ms).length < n) :
    readMembers C n (quote k ++ (':' :: (L.colon ++ (print C L d v ++
      (printMembers C L d ms ++ (L.brk e ++ '}' :: r)))))) = some ((k, v) :: ms, r) := by
  obtain ⟨m, rfl⟩ : ∃ m, n = m + 1 := ⟨n - 1, by omega⟩
  rw [List.length_append] at hn
  rw [readMembers, readKey_quote k ((startsValue_print d v).append _)]
  dsimp only
  rw [hv d m _ (by omega) (stopsNumber_printMembers d e ms r)]
  induction ms generalizing k v m with
  | nil =>
    simp only [printMembers, List.nil_append]
    rw [skipWs_brk_cons e (by decide)]
    rfl
  | cons w ws ih =>
    obtain ⟨k', v'⟩ := w
    simp only [printMembers, List.length_append, List.length_cons] at hn
    obtain ⟨j, rfl⟩ : ∃ j, m = j + 1 := ⟨m - 1, by omega⟩
    have hv' : RoundTrips C L v' := hms (k', v') (by simp)
    simp only [printMembers, List.cons_append, List.append_assoc]
    rw [skipWs_cons (by decide)]
    change (readMembers C (j + 1) (skipWs _)).map _ = _
    rw [skipWs_brk_quote, readMembers, readKey_quote k' ((startsValue_print d v').append _)]
    dsimp only
    rw [hv' d j _ (by omega) (stopsNumber_printMembers d e ws r),
      ih k' v' hv' (fun z hz => hms z (by simp [hz])) j (by omega)]
    rfl

theorem readValue_num {n : N} (m : Nat) {r : List Char} (hr : StopsNumber r) :
    readValue C (m + 1) (C.text n ++ r) = some (.num n, r) := by
  obtain ⟨htake, hdrop⟩ := takeWhile_text (C.text_chars n) hr
  have hread : (C.read ((C.text n ++ r).takeWhile isNumChar)).map
      (fun x => ((.num x, (C.text n ++ r).dropWhile isNumChar) : Json N × List Char)) =
      some (.num n, r) := by
    rw [htake, hdrop, C.read_text]
    rfl
  cases ht : C.text n with
  | nil => exact absurd ht (C.text_ne_nil n)
  | cons c t =>
    obtain ⟨_, _, _, h1, h2, h3, h4, h5, h6⟩ := not_ws_of_numChar (C.text_chars n c (by simp [ht]))
    rw [ht] at hread
    rw [List.cons_append] at hread ⊢
    -- a number starts with none of the other values' first characters
    rw [readValue]
    · exact hread
    all_goals simp_all

theorem readValue_print (v : Json N) : RoundTrips C L v := by
  intro d n r hn hr
  have hpos := print_length_pos (C := C) (L := L) d v
  obtain ⟨m, rfl⟩ : ∃ m, n = m + 1 := ⟨n - 1, by omega⟩
  induction v generalizing d m r with
  | null => rw [print]; rfl
  | bool b => cases b <;> (rw [print]; rfl)
  | num x => rw [print]; exact readValue_num m hr
  | str s =>
    rw [print, quote, List.cons_append, List.append_assoc, List.singleton_append, readValue,
      readString_flatMap]
    simp
  | arr xs ih =>
    cases xs with
    | nil => rw [print]; rfl
    | cons x xs =>
      have hall : ∀ y ∈ x :: xs, RoundTrips C L y := by
        intro y hy d n r hn hr
        have hpos := print_length_pos (C := C) (L := L) d y
        obtain ⟨m, rfl⟩ : ∃ m, n = m + 1 := ⟨n - 1, by omega⟩
        exact ih y hy d r hr hpos m hn
      rw [print] at hn ⊢
      simp only [List.length_cons, List.length_append] at hn
      simp only [List.cons_append, List.append_assoc, List.nil_append]
      obtain ⟨c, t, hct, _, hc, _⟩ := startsValue_print (C := C) (L := L) (d + 1) x
      have helems := readElems_print (L := L) (d + 1) d x xs (hall x (by simp))
        (fun y hy => hall y (by simp [hy])) m r (by rw [List.length_append]; omega)
      rw [readValue, skipWs_brk_print]
      split
      · next heq =>
          rw [hct, List.cons_append, List.cons.injEq] at heq
          exact absurd heq.1 hc
      · rw [helems]
        rfl
  | obj ms ih =>
    cases ms with
    | nil => rw [print]; rfl
    | cons w ws =>
      obtain ⟨k, v⟩ := w
      have hall : ∀ y ∈ (k, v) :: ws, RoundTrips C L y.2 := by
        intro y hy d n r hn hr
        have hpos := print_length_pos (C := C) (L := L) d y.2
        obtain ⟨m, rfl⟩ : ∃ m, n = m + 1 := ⟨n - 1, by omega⟩
        exact ih y hy d r hr hpos m hn
      rw [print] at hn ⊢
      simp only [List.length_cons, List.length_append] at hn
      simp only [List.cons_append, List.append_assoc, List.nil_append]
      have hmembers := readMembers_print (L := L) (d + 1) d k v ws (hall (k, v) (by simp))
        (fun y hy => hall y (by simp [hy])) m r (by rw [List.length_append]; omega)
      rw [readValue, skipWs_brk_quote]
      split
      · next heq => simp [quote] at heq
      · rw [hmembers]
        rfl

/-- The reader inverts printing, whatever the layout. -/
theorem read_print (C : NumText N) (L : Layout) (v : Json N) :
    read C (print C L 0 v) = some v := by
  have h := readValue_print (C := C) (L := L) v 0 (print C L 0 v).length [] (Nat.le_refl _)
    (by simp [StopsNumber])
  rw [List.append_nil] at h
  rw [read, (startsValue_print 0 v).skipWs, h]
  rfl

/-- A text belongs to one tree only. -/
theorem print_inj (C : NumText N) (L : Layout) {v w : Json N}
    (h : print C L 0 v = print C L 0 w) : v = w := by
  have hv := read_print C L v
  rw [h, read_print] at hv
  exact (Option.some.inj hv).symm

end Json

end RickydataGit.Lib
