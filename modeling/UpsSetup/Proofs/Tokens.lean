import UpsSetup.Line.Written
import UpsSetup.Proofs.Lines
import UpsSetup.Proofs.Results

/-!
# Written tokens are read back

`Line.encode` puts tokens on a line and `Line.tokenize` takes a line apart. The way back goes in the
two steps of the reader.

1. `scan` sees the pieces that a written token consists of, whatever follows the token
   (`scan_encodeToken`).
2. `join` puts these pieces together to the token again (`words_encodePieces`).

**`tokenize_encode`**: the tokens of a line are those that were put on it. No token is excluded, and
neither is a character in one.
-/

namespace UpsSetup.Line

open Text

/-! ## Classes of characters -/

theorem isSpecial_eq_false_iff {c : Char} :
    isSpecial c = false ↔ c ≠ '"' ∧ c ≠ '#' ∧ c ≠ '=' ∧ c ≠ '\\' ∧ c ≠ '[' ∧ c ≠ ']' ∧
      isBlank c = false := by
  simp [isSpecial, and_assoc]

/-- The characters that end a line are white space. -/
theorem isBlank_of_isTerminator {c : Char} (h : isTerminator c = true) : isBlank c = true := by
  simp only [isTerminator, Bool.or_eq_true, decide_eq_true_eq] at h
  rcases h with rfl | rfl <;> decide

theorem isTerminator_eq_false {c : Char} (h : isBlank c = false) : isTerminator c = false := by
  cases ht : isTerminator c with
  | false => rfl
  | true => exact absurd (isBlank_of_isTerminator ht) (by simp [h])

theorem standsBare_iff {cs : List Char} :
    standsBare cs = true ↔ cs ≠ [] ∧ ∀ c ∈ cs, isSpecial c = false := by
  simp [standsBare]

/-! ## Scanning one step

The reader matches a backslash first, so a character that is none falls to the case of its quoting.
-/

/-- What the cases of the reader for a backslash leave over is none. -/
theorem ne_backslash {c : Char} {cs : List Char} (hlast : c = '\\' → cs = [] → False)
    (hmore : ∀ d ds, c = '\\' → cs = d :: ds → False) : c ≠ '\\' := by
  intro hc
  cases cs with
  | nil => exact hlast hc rfl
  | cons d ds => exact hmore d ds hc rfl

/-- Between quotes only a quote has a meaning of its own, next to the backslash. -/
theorem scan_true_cons {c : Char} (hc : c ≠ '\\') (rest : List Char) :
    scan true (c :: rest) =
      if c = '"' then scan false rest else (.part [c] :: ·) <$> scan true rest := by
  cases rest <;> simp [scan, hc]

/-- Outside of quotes the meaning of a character is decided in this order. -/
theorem scan_false_cons {c : Char} (hc : c ≠ '\\') (rest : List Char) :
    scan false (c :: rest) =
      if c = '"' then (.part [] :: ·) <$> scan true rest
      else if c = '#' then .ok []
      else if isBlank c then (.gap :: ·) <$> scan false rest
      else if c = '=' then (.equals :: ·) <$> scan false rest
      else (.part [c] :: ·) <$> scan false rest := by
  cases rest <;> simp [scan, hc]

/-- A character behind a backslash is part of a word, in quotes and outside of them. -/
theorem scan_escaped (quoted : Bool) (c : Char) (rest : List Char) :
    scan quoted ('\\' :: c :: rest) = (.part [c] :: ·) <$> scan quoted rest := by
  cases quoted <;> rw [scan]

theorem scan_blank {c : Char} (hc : isBlank c = true) (rest : List Char) :
    scan false (c :: rest) = (.gap :: ·) <$> scan false rest := by
  have h1 : c ≠ '\\' := by rintro rfl; exact absurd hc (by decide)
  have h2 : c ≠ '"' := by rintro rfl; exact absurd hc (by decide)
  have h3 : c ≠ '#' := by rintro rfl; exact absurd hc (by decide)
  rw [scan_false_cons h1, if_neg h2, if_neg h3, if_pos hc]

/-- An equals sign outside of quotes is a piece of its own. -/
theorem scan_equals (rest : List Char) :
    scan false ('=' :: rest) = (.equals :: ·) <$> scan false rest := by
  rw [scan_false_cons (by decide)]
  simp [show isBlank '=' = false from by decide]

/-- A character without a meaning of its own is part of a word. Brackets are such characters,
although they keep a token from standing bare. -/
theorem scan_plain {c : Char} (h1 : c ≠ '"') (h2 : c ≠ '#') (h3 : c ≠ '=') (h4 : c ≠ '\\')
    (h5 : isBlank c = false) (rest : List Char) :
    scan false (c :: rest) = (.part [c] :: ·) <$> scan false rest := by
  rw [scan_false_cons h4, if_neg h1, if_neg h2, if_neg (by simp [h5]), if_neg h3]

/-! ## Pieces of a written token -/

/-- Each character as a part of a word. -/
def charParts (cs : List Char) : List Piece := cs.map fun c => .part [c]

@[simp] theorem charParts_nil : charParts [] = [] := rfl

@[simp] theorem charParts_cons (c : Char) (cs : List Char) :
    charParts (c :: cs) = .part [c] :: charParts cs := rfl

/-- The pieces of a token as `quote` writes it. -/
def quotePieces (token : String) : List Piece :=
  if standsBare token.toList then charParts token.toList
  else .part [] :: charParts token.toList

/-- The pieces of a token as `encodeToken` writes it. -/
def tokenPieces (token : String) : List Piece :=
  if token = "=" then [.equals] else quotePieces token

/-- The pieces of the line on which tokens stand. -/
def encodePieces : List String → List Piece
  | [] => []
  | [t] => tokenPieces t
  | t :: ts => tokenPieces t ++ .gap :: encodePieces ts

/-- The reader takes characters without a meaning of their own one by one, whatever follows them. -/
theorem scan_plain_append {cs : List Char}
    (h : ∀ c ∈ cs, isBlank c = false ∧ c ≠ '"' ∧ c ≠ '#' ∧ c ≠ '=' ∧ c ≠ '\\')
    (rest : List Char) : scan false (cs ++ rest) = (charParts cs ++ ·) <$> scan false rest := by
  induction cs with
  | nil => simp
  | cons c cs ih =>
    obtain ⟨h1, h2, h3, h4, h5⟩ := h c List.mem_cons_self
    rw [List.cons_append, scan_plain h2 h3 h4 h5 h1, ih fun x hx => h x (List.mem_cons_of_mem _ hx)]
    simp

/-- A token that stands bare is taken character by character. -/
theorem scan_bare {cs : List Char} (h : ∀ c ∈ cs, isSpecial c = false) (rest : List Char) :
    scan false (cs ++ rest) = (charParts cs ++ ·) <$> scan false rest := by
  refine scan_plain_append (fun c hc => ?_) rest
  obtain ⟨h1, h2, h3, h4, -, -, h5⟩ := isSpecial_eq_false_iff.mp (h c hc)
  exact ⟨h5, h1, h2, h3, h4⟩

/-- Backslashes and quotes are escaped, and no other character is. -/
theorem escape_cons (c : Char) (cs : List Char) :
    escape (c :: cs) = (if c = '\\' ∨ c = '"' then ['\\', c] else [c]) ++ escape cs :=
  List.flatMap_cons

/-- Between quotes the reader takes back every escape. -/
theorem scan_escape (cs rest : List Char) :
    scan true (escape cs ++ rest) = (charParts cs ++ ·) <$> scan true rest := by
  induction cs with
  | nil => simp [escape]
  | cons c cs ih =>
    rw [escape_cons]
    by_cases hc : c = '\\' ∨ c = '"'
    · rw [if_pos hc, List.append_assoc]
      show scan true ('\\' :: c :: (escape cs ++ rest)) = _
      rw [scan_escaped, ih]
      simp
    · rw [if_neg hc, List.append_assoc]
      show scan true (c :: (escape cs ++ rest)) = _
      rw [not_or] at hc
      rw [scan_true_cons hc.1, if_neg hc.2, ih]
      simp

theorem toList_quote_of_bare {token : String} (h : standsBare token.toList = true) :
    (quote token).toList = token.toList := by
  simp [quote, h]

theorem toList_quote_of_not_bare {token : String} (h : standsBare token.toList = false) :
    (quote token).toList = '"' :: (escape token.toList ++ ['"']) := by
  simp [quote, h]

/-- The reader sees the pieces of a written token, whatever follows it. -/
theorem scan_quote (token : String) (rest : List Char) :
    scan false ((quote token).toList ++ rest) = (quotePieces token ++ ·) <$> scan false rest := by
  cases hb : standsBare token.toList with
  | true =>
    rw [toList_quote_of_bare hb, scan_bare (standsBare_iff.mp hb).2]
    simp [quotePieces, hb]
  | false =>
    rw [toList_quote_of_not_bare hb]
    show scan false ('"' :: (escape token.toList ++ ['"'] ++ rest)) = _
    rw [scan_false_cons (by decide), if_pos rfl, List.append_assoc, scan_escape,
      List.singleton_append, scan_true_cons (by decide), if_pos rfl]
    simp [quotePieces, hb]

theorem scan_quote_self (token : String) :
    scan false (quote token).toList = .ok (quotePieces token) := by
  have h := scan_quote token []
  rw [List.append_nil] at h
  rw [h]
  show Except.ok (quotePieces token ++ []) = _
  rw [List.append_nil]

/-- An equals sign as a token is written without quotes and still seen as one. -/
theorem scan_encodeToken (token : String) (rest : List Char) :
    scan false ((encodeToken token).toList ++ rest) =
      (tokenPieces token ++ ·) <$> scan false rest := by
  by_cases h : token = "="
  · subst h
    show scan false ('=' :: rest) = _
    rw [scan_equals]
    simp [tokenPieces]
  · simp only [encodeToken, tokenPieces, if_neg h]
    exact scan_quote token rest

/-! ## Words of the pieces -/

/-- Characters in a row are put together to the start of one word. -/
theorem join_charParts {cs : List Char} (h : cs ≠ []) (ps : List Piece) :
    join (charParts cs ++ ps) = (some (cs ++ (join ps).1.getD []), (join ps).2) := by
  induction cs with
  | nil => exact absurd rfl h
  | cons c cs ih =>
    cases cs with
    | nil => simp [join]
    | cons d ds =>
      rw [charParts_cons, List.cons_append, join, ih (by simp)]
      simp

/-- Behind an opening quote even no characters are a word. -/
theorem join_open (cs : List Char) (ps : List Piece) :
    join (.part [] :: (charParts cs ++ ps)) = (some (cs ++ (join ps).1.getD []), (join ps).2) := by
  rw [join]
  by_cases hcs : cs = []
  · simp [hcs]
  · rw [join_charParts hcs]
    simp

/-- The pieces of a written token are one word, even if the token is empty. -/
theorem join_quotePieces (token : String) (ps : List Piece) :
    join (quotePieces token ++ ps) =
      (some (token.toList ++ (join ps).1.getD []), (join ps).2) := by
  cases hb : standsBare token.toList with
  | true => simp only [quotePieces, hb, if_true, join_charParts (standsBare_iff.mp hb).1]
  | false =>
    rw [quotePieces, hb, if_neg (by simp)]
    exact join_open token.toList ps

@[simp] theorem words_quotePieces (token : String) :
    words (quotePieces token) = [token.toList] := by
  have h := join_quotePieces token []
  rw [List.append_nil] at h
  simp [words, h, join]

/-- A gap ends the word before it. -/
theorem words_quotePieces_gap (token : String) (ps : List Piece) :
    words (quotePieces token ++ .gap :: ps) = token.toList :: words ps := by
  rw [words, join_quotePieces]
  simp [join, words]

/-- The pieces of a token give this token and nothing else. -/
theorem words_tokenPieces (token : String) : words (tokenPieces token) = [token.toList] := by
  by_cases h : token = "="
  · subst h; rfl
  · simp [tokenPieces, h]

theorem words_tokenPieces_gap (token : String) (ps : List Piece) :
    words (tokenPieces token ++ .gap :: ps) = token.toList :: words ps := by
  by_cases h : token = "="
  · subst h; simp [tokenPieces]
  · simp only [tokenPieces, if_neg h, words_quotePieces_gap]

/-- The pieces of a line give the tokens that are on it. -/
theorem words_encodePieces : ∀ ts : List String, words (encodePieces ts) = ts.map String.toList
  | [] => rfl
  | [t] => by simp [encodePieces, words_tokenPieces]
  | t :: u :: ts => by
    rw [encodePieces, words_tokenPieces_gap, words_encodePieces (u :: ts)]
    · rfl
    · simp

/-! ## Ends of written tokens -/

/-- The text starts with a character that is neither white space nor a number sign. -/
def Opens (cs : List Char) : Prop := ∃ c rest, cs = c :: rest ∧ isBlank c = false ∧ c ≠ '#'

/-- The text ends with a character that is no white space. -/
def Closes (cs : List Char) : Prop := ∃ rest c, cs = rest ++ [c] ∧ isBlank c = false

theorem Opens.append {cs : List Char} (h : Opens cs) (ds : List Char) : Opens (cs ++ ds) := by
  obtain ⟨c, rest, rfl, hc⟩ := h
  exact ⟨c, rest ++ ds, rfl, hc⟩

theorem Closes.append {ds : List Char} (h : Closes ds) (cs : List Char) : Closes (cs ++ ds) := by
  obtain ⟨rest, c, rfl, hc⟩ := h
  exact ⟨cs ++ rest, c, by simp, hc⟩

theorem opens_quote (token : String) : Opens (quote token).toList := by
  cases hb : standsBare token.toList with
  | true =>
    rw [toList_quote_of_bare hb]
    obtain ⟨hne, hall⟩ := standsBare_iff.mp hb
    obtain ⟨c, rest, hcs⟩ := List.exists_cons_of_ne_nil hne
    obtain ⟨-, h2, -, -, -, -, h5⟩ := isSpecial_eq_false_iff.mp (hall c (by simp [hcs]))
    exact ⟨c, rest, hcs, h5, h2⟩
  | false =>
    rw [toList_quote_of_not_bare hb]
    exact ⟨'"', _, rfl, by decide, by decide⟩

theorem closes_quote (token : String) : Closes (quote token).toList := by
  cases hb : standsBare token.toList with
  | true =>
    rw [toList_quote_of_bare hb]
    obtain ⟨hne, hall⟩ := standsBare_iff.mp hb
    refine ⟨token.toList.dropLast, token.toList.getLast hne,
      (List.dropLast_concat_getLast hne).symm, ?_⟩
    exact (isSpecial_eq_false_iff.mp (hall _ (List.getLast_mem hne))).2.2.2.2.2.2
  | false =>
    rw [toList_quote_of_not_bare hb]
    exact ⟨'"' :: escape token.toList, '"', by simp, by decide⟩

/-- A written token is never taken for a comment or for white space. -/
theorem opens_encodeToken (token : String) : Opens (encodeToken token).toList := by
  by_cases h : token = "="
  · subst h; exact ⟨'=', [], rfl, by decide, by decide⟩
  · simp only [encodeToken, if_neg h, opens_quote]

/-- A written token does not end in white space, not even one that holds it. -/
theorem closes_encodeToken (token : String) : Closes (encodeToken token).toList := by
  by_cases h : token = "="
  · subst h; exact ⟨[], '=', rfl, by decide⟩
  · simp only [encodeToken, if_neg h, closes_quote]

/-- Nothing is cut from the end of such a line. -/
theorem body_eq_self {line : List Char} (h : Closes line) : body line = line := by
  obtain ⟨rest, c, rfl, hc⟩ := h
  simp [body, dropEndWhile, isTerminator_eq_false hc]

/-! ## Lines of tokens -/

theorem toList_encode_singleton (t : String) : (encode [t]).toList = (encodeToken t).toList := by
  simp [encode]

/-- One space stands between two tokens. -/
theorem toList_encode_cons (t u : String) (ts : List String) :
    (encode (t :: u :: ts)).toList =
      (encodeToken t).toList ++ ' ' :: (encode (u :: ts)).toList := by
  simp only [encode, List.map_cons, String.intercalate_cons_cons, String.toList_append,
    List.append_assoc]
  rfl

theorem opens_encode (t : String) (ts : List String) : Opens (encode (t :: ts)).toList := by
  cases ts with
  | nil => rw [toList_encode_singleton]; exact opens_encodeToken t
  | cons u us => rw [toList_encode_cons]; exact (opens_encodeToken t).append _

/-- Nothing would be cut from the end of a line of tokens. -/
theorem closes_encode : ∀ (t : String) (ts : List String), Closes (encode (t :: ts)).toList
  | t, [] => by rw [toList_encode_singleton]; exact closes_encodeToken t
  | t, u :: us => by
    rw [toList_encode_cons, List.append_cons]
    exact (closes_encode u us).append _

/-- The reader sees the pieces of a line of tokens. -/
theorem scan_encode : ∀ ts : List String, scan false (encode ts).toList = .ok (encodePieces ts)
  | [] => by simp [encode, encodePieces, scan]
  | [t] => by
    have h := scan_encodeToken t []
    rw [List.append_nil] at h
    rw [toList_encode_singleton, h]
    simp [scan, encodePieces, Functor.map, Except.map]
  | t :: u :: ts => by
    rw [toList_encode_cons, scan_encodeToken, scan_blank (by decide), scan_encode (u :: ts)]
    rfl

/-- What is left when a line is taken apart, for a line from which nothing is cut. -/
theorem tokenize_of_scan {line : String} {ps : List Piece} (hc : Closes line.toList)
    (h : scan false line.toList = .ok ps) :
    tokenize line = .ok ((words ps).map String.ofList) := by
  rw [tokenize, body_eq_self hc, h]
  rfl

/-- White space in front of a line is lost. -/
theorem tokenize_tab (line : String) : tokenize ("\t" ++ line) = tokenize line := by
  rw [tokenize, tokenize, toList_tab, body, dropEndWhile_cons (by decide), scan_blank (by decide)]
  show _ <$> _ <$> scan false (body line.toList) = _
  cases scan false (body line.toList) with
  | error flaw => rfl
  | ok ps =>
    show Except.ok ((words (.gap :: ps)).map String.ofList) = _
    rw [words_gap]
    rfl

/-- **The tokens of a line are those that were put on it.** -/
theorem tokenize_encode (ts : List String) : tokenize (encode ts) = .ok ts := by
  cases ts with
  | nil => rfl
  | cons t ts =>
    rw [tokenize_of_scan (closes_encode t ts) (scan_encode (t :: ts)), words_encodePieces,
      List.map_map]
    simp [Function.comp_def]

/-! ## Characters of the tokens

The tokens of a line are made of characters of that line, in their order. What is lost are the
characters with a meaning of their own.
-/

/-- The characters of a piece that stand in a token. -/
def Piece.chars : Piece → List Char
  | .gap => []
  | .equals => ['=']
  | .part t => t

@[simp] theorem Piece.chars_gap : Piece.gap.chars = [] := rfl

@[simp] theorem Piece.chars_equals : Piece.equals.chars = ['='] := rfl

@[simp] theorem Piece.chars_part (t : List Char) : (Piece.part t).chars = t := rfl

/-- Putting the pieces together to words neither loses nor moves a character. -/
theorem flatten_words (ps : List Piece) : (words ps).flatten = ps.flatMap Piece.chars := by
  induction ps with
  | nil => rfl
  | cons p ps ih =>
    cases p with
    | gap => simpa using ih
    | equals => simpa using ih
    | part t =>
      rw [List.flatMap_cons, ← ih]
      cases h : (join ps).1 <;> simp [words, join, h]

/-- The pieces hold characters of the line, in the order of the line. -/
theorem sublist_of_scan {quoted : Bool} {cs : List Char} {ps : List Piece}
    (h : scan quoted cs = .ok ps) : (ps.flatMap Piece.chars).Sublist cs := by
  fun_induction scan quoted cs generalizing ps with
  | case1 | case3 => simp at h
  | case2 | case8 => cases h; simp
  | case4 quoted c cs ih =>
    obtain ⟨ps, hps, rfl⟩ := Result.map_eq_ok_iff.mp h
    exact ((ih hps).cons_cons c).cons _
  | case5 cs _ _ ih => exact (ih h).cons _
  | case7 cs _ _ ih | case9 c cs _ _ _ _ _ ih =>
    obtain ⟨ps, hps, rfl⟩ := Result.map_eq_ok_iff.mp h
    exact (ih hps).cons _
  | case6 c cs _ _ _ ih | case10 cs _ _ _ _ _ ih | case11 c cs _ _ _ _ _ _ ih =>
    obtain ⟨ps, hps, rfl⟩ := Result.map_eq_ok_iff.mp h
    exact (ih hps).cons_cons _

/-- Where no character of a line is lost, none is of those that cannot stand in a token bare, and
each equals sign is a token of its own. -/
theorem plain_of_scan {quoted : Bool} {cs : List Char} {ps : List Piece}
    (h : scan quoted cs = .ok ps) (hlen : cs.length ≤ (ps.flatMap Piece.chars).length) :
    quoted = false ∧ ∀ c ∈ cs, isBlank c = false ∧ c ≠ '"' ∧ c ≠ '#' ∧ c ≠ '\\' ∧
      (c = '=' → .equals ∈ ps) := by
  fun_induction scan quoted cs generalizing ps with
  | case1 | case3 => simp at h
  | case2 quoted hq => simpa using hq
  | case4 quoted c cs ih =>
    -- the backslash is lost
    obtain ⟨ps, hps, rfl⟩ := Result.map_eq_ok_iff.mp h
    have := (sublist_of_scan hps).length_le
    simp only [List.flatMap_cons, List.length_append, List.length_cons, Piece.chars_part,
      List.length_nil] at hlen
    omega
  | case5 cs _ _ ih =>
    -- a closing quote is lost as well
    have := (sublist_of_scan h).length_le
    rw [List.length_cons] at hlen
    omega
  | case6 c cs _ _ _ ih =>
    obtain ⟨ps, hps, rfl⟩ := Result.map_eq_ok_iff.mp h
    exact absurd (ih hps (by simpa using hlen)).1 (by simp)
  | case7 cs _ _ ih | case9 c cs _ _ _ _ _ ih =>
    -- so are quotes and white space
    obtain ⟨ps, hps, rfl⟩ := Result.map_eq_ok_iff.mp h
    have := (sublist_of_scan hps).length_le
    simp only [List.flatMap_cons, List.length_append, List.length_cons, Piece.chars_part,
      Piece.chars_gap, List.length_nil] at hlen
    omega
  -- and so is a comment with its number sign
  | case8 cs => cases h; simp at hlen
  | case10 cs _ _ _ _ _ ih =>
    obtain ⟨ps, hps, rfl⟩ := Result.map_eq_ok_iff.mp h
    refine ⟨rfl, fun d hd => ?_⟩
    rcases List.mem_cons.mp hd with rfl | hd
    · exact ⟨by decide, by decide, by decide, by decide, fun _ => List.mem_cons_self⟩
    · obtain ⟨h1, h2, h3, h4, h5⟩ := (ih hps (by simpa using hlen)).2 d hd
      exact ⟨h1, h2, h3, h4, fun he => List.mem_cons_of_mem _ (h5 he)⟩
  | case11 c cs hlast hmore hq hn hb he ih =>
    obtain ⟨ps, hps, rfl⟩ := Result.map_eq_ok_iff.mp h
    refine ⟨rfl, fun d hd => ?_⟩
    rcases List.mem_cons.mp hd with rfl | hd
    · exact ⟨by simpa using hb, hq, hn, ne_backslash hlast hmore, fun h => absurd h he⟩
    · obtain ⟨h1, h2, h3, h4, h5⟩ := (ih hps (by simpa using hlen)).2 d hd
      exact ⟨h1, h2, h3, h4, fun he => List.mem_cons_of_mem _ (h5 he)⟩

/-- An equals sign never touches a word, so it stands among the words after the first. -/
theorem equals_mem_join {ps : List Piece} (h : .equals ∈ ps) : ['='] ∈ (join ps).2 := by
  induction ps with
  | nil => simp at h
  | cons p ps ih =>
    cases p with
    | gap => exact List.mem_append_right _ (ih (by simpa using h))
    | equals => exact List.mem_cons_self
    | part t => exact ih (by simpa using h)

theorem equals_mem_words {ps : List Piece} (h : .equals ∈ ps) : ['='] ∈ words ps :=
  List.mem_append_right _ (equals_mem_join h)

/-! ## Characters in tokens -/

/-- A token holds no character that is not on its line. -/
theorem mem_of_mem_tokens {line : String} {tokens : List String} {t : String}
    (h : tokenize line = .ok tokens) (ht : t ∈ tokens) {c : Char} (hc : c ∈ t.toList) :
    c ∈ line.toList := by
  obtain ⟨ps, hps, rfl⟩ := Result.map_eq_ok_iff.mp h
  obtain ⟨w, hw, rfl⟩ := List.mem_map.mp ht
  rw [String.toList_ofList] at hc
  have hm : c ∈ (words ps).flatten := List.mem_flatten.mpr ⟨w, hw, hc⟩
  rw [flatten_words] at hm
  have hb : (body line.toList).Sublist line.toList := by
    rw [body, dropEndWhile_eq]
    exact (List.rdropWhile_prefix _ _).sublist
  exact hb.mem ((sublist_of_scan hps).mem hm)

theorem mem_escape {cs : List Char} {c : Char} (h : c ∈ escape cs) : c = '\\' ∨ c ∈ cs := by
  obtain ⟨d, hd, hc⟩ := List.mem_flatMap.mp h
  split at hc
  · rcases List.mem_pair.mp hc with rfl | rfl
    · exact Or.inl rfl
    · exact Or.inr hd
  · rw [List.mem_singleton.mp hc]
    exact Or.inr hd

/-- Writing a token adds quotes and backslashes at most. -/
theorem mem_quote {token : String} {c : Char} (h : c ∈ (quote token).toList) :
    c = '"' ∨ c = '\\' ∨ c ∈ token.toList := by
  cases hb : standsBare token.toList with
  | true =>
    rw [toList_quote_of_bare hb] at h
    exact Or.inr (Or.inr h)
  | false =>
    rw [toList_quote_of_not_bare hb] at h
    rcases List.mem_cons.mp h with h | h
    · exact Or.inl h
    · rcases List.mem_append.mp h with h | h
      · exact Or.inr (mem_escape h)
      · exact Or.inl (List.mem_singleton.mp h)

theorem mem_encodeToken {token : String} {c : Char} (h : c ∈ (encodeToken token).toList) :
    c = '"' ∨ c = '\\' ∨ c ∈ token.toList := by
  by_cases he : token = "="
  · rw [encodeToken, if_pos he] at h
    exact Or.inr (Or.inr h)
  · rw [encodeToken, if_neg he] at h
    exact mem_quote h

/-- A line holds the characters of its tokens and those that tell the tokens apart. -/
theorem mem_encode {c : Char} : ∀ {ts : List String}, c ∈ (encode ts).toList →
    c = ' ' ∨ c = '"' ∨ c = '\\' ∨ ∃ t ∈ ts, c ∈ t.toList
  | [], h => by simp [encode] at h
  | [t], h => by
    rw [toList_encode_singleton] at h
    rcases mem_encodeToken h with h | h | h
    · exact Or.inr (Or.inl h)
    · exact Or.inr (Or.inr (Or.inl h))
    · exact Or.inr (Or.inr (Or.inr ⟨t, List.mem_cons_self, h⟩))
  | t :: u :: ts, h => by
    rw [toList_encode_cons] at h
    rcases List.mem_append.mp h with h | h
    · rcases mem_encodeToken h with h | h | h
      · exact Or.inr (Or.inl h)
      · exact Or.inr (Or.inr (Or.inl h))
      · exact Or.inr (Or.inr (Or.inr ⟨t, List.mem_cons_self, h⟩))
    · rcases List.mem_cons.mp h with h | h
      · exact Or.inl h
      · rcases mem_encode h with h | h | h | ⟨v, hv, h⟩
        · exact Or.inl h
        · exact Or.inr (Or.inl h)
        · exact Or.inr (Or.inr (Or.inl h))
        · exact Or.inr (Or.inr (Or.inr ⟨v, List.mem_cons_of_mem _ hv, h⟩))

/-- A token without a line end is written without one. -/
theorem holdsNoEnd_quote {token : String} (h : HoldsNoEnd token.toList) :
    HoldsNoEnd (quote token).toList := fun c hc => by
  rcases mem_quote hc with rfl | rfl | hc
  · decide
  · decide
  · exact h c hc

theorem holdsNoEnd_encodeToken {token : String} (h : HoldsNoEnd token.toList) :
    HoldsNoEnd (encodeToken token).toList := fun c hc => by
  rcases mem_encodeToken hc with rfl | rfl | hc
  · decide
  · decide
  · exact h c hc

/-! ## Lines that are cut off

A token that holds a line end is written between quotes, and in a file its line ends within them.
What is left of the line is rejected. -/

/-- What comes before the first line end is escaped as if the rest was not there. -/
theorem takeWhile_escape_append {cs : List Char} (h : ¬HoldsNoEnd cs) (rest : List Char) :
    (escape cs ++ rest).takeWhile (fun c => !isTerminator c) =
      escape (cs.takeWhile fun c => !isTerminator c) := by
  induction cs with
  | nil => exact absurd (fun c hc => by simp at hc) h
  | cons c cs ih =>
    by_cases hc : isTerminator c = true
    · -- a line end is not escaped, so both sides stop in front of it
      have he : ¬(c = '\\' ∨ c = '"') := by
        rintro (rfl | rfl) <;> exact absurd hc (by decide)
      rw [escape_cons, if_neg he]
      simp [hc, escape]
    · have hcs : ¬HoldsNoEnd cs := fun hn => h fun d hd => by
        rcases List.mem_cons.mp hd with rfl | hd
        · simpa using hc
        · exact hn d hd
      rw [List.takeWhile_cons_of_pos (by simpa using hc), escape_cons, escape_cons,
        List.append_assoc, List.takeWhile_append_of_pos, ih hcs]
      intro d hd
      split at hd
      · rcases List.mem_pair.mp hd with rfl | rfl
        · decide
        · simpa using hc
      · rw [List.mem_singleton.mp hd]
        simpa using hc

/-- A quoted token that is cut off at a line end lacks its closing quote. -/
theorem scan_cut_quote {token : String} (h : ¬HoldsNoEnd token.toList) (rest : List Char) :
    scan false (((quote token).toList ++ rest).takeWhile fun c => !isTerminator c) =
      .error .unterminatedQuote := by
  have hb : standsBare token.toList = false := by
    cases hb : standsBare token.toList with
    | false => rfl
    | true =>
      refine absurd (fun c hc => ?_) h
      exact isTerminator_eq_false
        (isSpecial_eq_false_iff.mp ((standsBare_iff.mp hb).2 c hc)).2.2.2.2.2.2
  rw [toList_quote_of_not_bare hb, List.cons_append, List.append_assoc,
    List.takeWhile_cons_of_pos (by decide), takeWhile_escape_append h,
    scan_false_cons (by decide), if_pos rfl]
  -- what is left of the token ends without the closing quote
  have he := scan_escape (token.toList.takeWhile fun c => !isTerminator c) []
  rw [List.append_nil] at he
  rw [he]
  rfl

theorem scan_cut_encodeToken {token : String} (h : ¬HoldsNoEnd token.toList) (rest : List Char) :
    scan false (((encodeToken token).toList ++ rest).takeWhile fun c => !isTerminator c) =
      .error .unterminatedQuote := by
  have he : token ≠ "=" := by
    rintro rfl
    exact h (by simp [HoldsNoEnd, isTerminator])
  rw [encodeToken, if_neg he]
  exact scan_cut_quote h rest

/-- A line of tokens is rejected when it is cut off within one of them. -/
theorem scan_cut_encode : ∀ {ts : List String}, (∃ t ∈ ts, ¬HoldsNoEnd t.toList) →
    scan false ((encode ts).toList.takeWhile fun c => !isTerminator c) = .error .unterminatedQuote
  | [], h => by simp at h
  | [t], h => by
    have ht : ¬HoldsNoEnd t.toList := by simpa using h
    have hs := scan_cut_encodeToken ht []
    rwa [List.append_nil, ← toList_encode_singleton] at hs
  | t :: u :: ts, h => by
    rw [toList_encode_cons]
    by_cases ht : HoldsNoEnd t.toList
    · have hrest : ∃ v ∈ u :: ts, ¬HoldsNoEnd v.toList := by
        obtain ⟨v, hv, hn⟩ := h
        rcases List.mem_cons.mp hv with rfl | hv
        · exact absurd ht hn
        · exact ⟨v, hv, hn⟩
      have hpos : ∀ c ∈ (encodeToken t).toList, (!isTerminator c) = true := by
        intro c hc
        simp [holdsNoEnd_encodeToken ht c hc]
      rw [List.takeWhile_append_of_pos hpos, List.takeWhile_cons_of_pos (by decide),
        scan_encodeToken, scan_blank (by decide), scan_cut_encode hrest]
      rfl
    · exact scan_cut_encodeToken ht _

end UpsSetup.Line
