import Mathlib.Data.List.SplitBy
import UpsSetup.Proofs.Reading

/-!
# Elements of a line

The grammar of configuration lines, said without the reader. A line is a list of elements and behind
them a comment or none. An element is a white space character, an equals sign, a plain character, a
character with a backslash before it, or a group between double quotes. Each equals sign is a token,
and so is each longest run of adjacent elements of the last three kinds.

* `scan_layout` and `scan_broken`: what the reader makes of a line that has this form, and of one
  that breaks off within an element.
* `hasForm`: every line is of one of these two kinds.
* `words_pieces`: the reader puts the same elements together that the grammar does.

**`tokenize_follows_grammar`** puts them together: the reader accepts exactly the lines of the grammar
and gives their tokens, and it names what is wrong with each other line.
-/

namespace UpsSetup.Line

open Text

/-! ## The grammar -/

/-- What stands for one character between double quotes. -/
inductive QuotedChar where
  /-- A character that stands for itself. -/
  | plain (c : Char) (isPlain : c ≠ '"' ∧ c ≠ '\\')
  /-- A character with a backslash before it. -/
  | escaped (c : Char)

namespace QuotedChar

/-- How it is written. -/
def text : QuotedChar → List Char
  | plain c _ => [c]
  | escaped c => ['\\', c]

/-- The character that it stands for. -/
def char : QuotedChar → Char
  | plain c _ | escaped c => c

end QuotedChar

/-- A character without a meaning of its own outside quotes. -/
structure IsPlain (c : Char) : Prop where
  not_blank : isBlank c = false
  ne_equals : c ≠ '='
  ne_quote : c ≠ '"'
  ne_sign : c ≠ '#'
  ne_backslash : c ≠ '\\'

/-- The smallest parts of a line that have a meaning. -/
inductive Element where
  /-- A white space character. -/
  | blank (c : Char) (isBlank : isBlank c = true)
  /-- An equals sign. -/
  | equals
  /-- A character that stands for itself. -/
  | plain (c : Char) (isPlain : IsPlain c)
  /-- A character with a backslash before it. -/
  | escaped (c : Char)
  /-- Characters between double quotes. -/
  | quoted (chars : List QuotedChar)

namespace Element

/-- How an element is written. -/
def text : Element → List Char
  | blank c _ | plain c _ => [c]
  | equals => ['=']
  | escaped c => ['\\', c]
  | quoted chars => '"' :: (chars.flatMap QuotedChar.text ++ ['"'])

/-- What an element gives to a token. -/
def content : Element → List Char
  | blank _ _ => []
  | equals => ['=']
  | plain c _ | escaped c => [c]
  | quoted chars => chars.map QuotedChar.char

/-- Whether an element makes one token with those next to it that do so, too. -/
def isPart : Element → Bool
  | blank _ _ | equals => false
  | plain _ _ | escaped _ | quoted _ => true

end Element

/-- The elements, where the longest runs of those that make one token are put together. -/
def runs (elements : List Element) : List (List Element) :=
  elements.splitBy fun a b => a.isPart && b.isPart

/-- The token of a run, if it is no white space. -/
def runToken? : List Element → Option (List Char)
  | [.blank _ _] => none
  | run => some (run.flatMap Element.content)

/-- A line as the grammar has it. -/
structure Layout where
  elements : List Element
  /-- What follows the number sign behind the elements, if there is one. -/
  comment : Option (List Char)

namespace Layout

/-- How the line is written. -/
def text (l : Layout) : List Char :=
  l.elements.flatMap Element.text ++ l.comment.elim [] ('#' :: ·)

/-- The tokens of the line. -/
def tokens (l : Layout) : List String :=
  ((runs l.elements).filterMap runToken?).map String.ofList

end Layout

/-- What is left of a line behind its elements if it breaks off within the next one. -/
inductive Broken : Flaw → List Char → Prop where
  /-- A backslash that has nothing to escape. -/
  | backslash : Broken .danglingEscape ['\\']
  /-- Such a backslash behind a quote. -/
  | backslashInQuotes (chars : List QuotedChar) :
    Broken .danglingEscape ('"' :: (chars.flatMap QuotedChar.text ++ ['\\']))
  /-- A quote that is not closed. -/
  | openQuote (chars : List QuotedChar) :
    Broken .unterminatedQuote ('"' :: chars.flatMap QuotedChar.text)

/-! ## Reading elements -/

/-- The pieces that the reader makes of an element. An opening quote is an empty part. -/
def Element.pieces : Element → List Piece
  | .blank _ _ => [.gap]
  | .equals => [.equals]
  | .plain c _ | .escaped c => [.part [c]]
  | .quoted chars => .part [] :: charParts (chars.map QuotedChar.char)

/-- Between quotes the reader takes a character, whatever follows it. -/
theorem scan_quotedChar (q : QuotedChar) (rest : List Char) :
    scan true (q.text ++ rest) = (.part [q.char] :: ·) <$> scan true rest := by
  cases q with
  | plain c hc =>
    show scan true (c :: rest) = _
    rw [scan_true_cons hc.2, if_neg hc.1]
    rfl
  | escaped c => exact scan_escaped true c rest

theorem scan_quotedChars (chars : List QuotedChar) (rest : List Char) :
    scan true (chars.flatMap QuotedChar.text ++ rest) =
      (charParts (chars.map QuotedChar.char) ++ ·) <$> scan true rest := by
  induction chars with
  | nil => simp
  | cons q chars ih =>
    rw [List.flatMap_cons, List.append_assoc, scan_quotedChar, ih]
    simp

/-- The reader takes an element, whatever follows it. -/
theorem scan_element (e : Element) (rest : List Char) :
    scan false (e.text ++ rest) = (e.pieces ++ ·) <$> scan false rest := by
  cases e with
  | blank c hc => exact scan_blank hc rest
  | equals => exact scan_equals rest
  | plain c hc =>
    exact scan_plain hc.ne_quote hc.ne_sign hc.ne_equals hc.ne_backslash hc.not_blank rest
  | escaped c => exact scan_escaped false c rest
  | quoted chars =>
    show scan false ('"' :: (chars.flatMap QuotedChar.text ++ ['"'] ++ rest)) = _
    rw [scan_false_cons (by decide), if_pos rfl, List.append_assoc, scan_quotedChars,
      List.singleton_append, scan_true_cons (by decide), if_pos rfl]
    simp [Element.pieces]

theorem scan_elements (elements : List Element) (rest : List Char) :
    scan false (elements.flatMap Element.text ++ rest) =
      (elements.flatMap Element.pieces ++ ·) <$> scan false rest := by
  induction elements with
  | nil => simp
  | cons e elements ih =>
    rw [List.flatMap_cons, List.append_assoc, scan_element, ih]
    simp

/-- A line of the grammar is taken apart into its elements. -/
theorem scan_layout (l : Layout) : scan false l.text = .ok (l.elements.flatMap Element.pieces) := by
  have hrest : scan false (l.comment.elim [] ('#' :: ·)) = .ok [] := by
    cases l.comment with
    | none => rfl
    | some comment => exact scan_false_cons (by decide) comment
  rw [Layout.text, scan_elements, hrest]
  simp [Functor.map, Except.map]

/-- A line that breaks off within an element is rejected. -/
theorem scan_broken {flaw : Flaw} {rest : List Char} (h : Broken flaw rest)
    (elements : List Element) :
    scan false (elements.flatMap Element.text ++ rest) = .error flaw := by
  have hrest : scan false rest = .error flaw := by
    cases h with
    | backslash => rfl
    | backslashInQuotes chars =>
      rw [scan_false_cons (by decide), if_pos rfl, scan_quotedChars]
      rfl
    | openQuote chars =>
      have hquoted := scan_quotedChars chars []
      rw [List.append_nil] at hquoted
      rw [scan_false_cons (by decide), if_pos rfl, hquoted]
      rfl
  rw [scan_elements, hrest]
  rfl

/-! ## Every line has a form -/

/-- The text is a line of the grammar, or one that breaks off within an element. -/
def HasForm (cs : List Char) : Prop :=
  (∃ l : Layout, l.text = cs) ∨
    ∃ flaw rest, Broken flaw rest ∧
      ∃ elements : List Element, elements.flatMap Element.text ++ rest = cs

theorem Broken.hasForm {flaw : Flaw} {cs : List Char} (h : Broken flaw cs) : HasForm cs :=
  .inr ⟨flaw, cs, h, [], rfl⟩

theorem HasForm.cons (e : Element) {cs : List Char} (h : HasForm cs) : HasForm (e.text ++ cs) := by
  rcases h with ⟨l, rfl⟩ | ⟨flaw, rest, hbroken, elements, rfl⟩
  · exact .inl ⟨{ l with elements := e :: l.elements }, by simp [Layout.text]⟩
  · exact .inr ⟨flaw, rest, hbroken, e :: elements, by simp⟩

/-- What is left of a line has a form together with the group that is open, if one is. -/
def Continues : Bool → List Char → Prop
  | false, cs => HasForm cs
  | true, cs => ∀ chars : List QuotedChar, HasForm ('"' :: (chars.flatMap QuotedChar.text ++ cs))

theorem Continues.quotedChar (q : QuotedChar) {cs : List Char} (h : Continues true cs) :
    Continues true (q.text ++ cs) := by
  intro chars
  have hq := h (chars ++ [q])
  rwa [List.flatMap_append, List.flatMap_singleton, List.append_assoc] at hq

/-- Every text continues a line, whether or not a group is open where it starts. -/
theorem continues (quoted : Bool) (cs : List Char) : Continues quoted cs := by
  fun_induction scan quoted cs with
  | case1 =>
    intro chars
    rw [List.append_nil]
    exact (Broken.openQuote chars).hasForm
  | case2 quoted hq =>
    rw [Bool.not_eq_true] at hq
    subst hq
    exact Or.inl ⟨⟨[], none⟩, rfl⟩
  | case3 quoted =>
    cases quoted with
    | false => exact Broken.backslash.hasForm
    | true => exact fun chars => (Broken.backslashInQuotes chars).hasForm
  | case4 quoted c cs ih =>
    cases quoted with
    | false => exact HasForm.cons (.escaped c) ih
    | true => exact Continues.quotedChar (.escaped c) ih
  | case5 cs _ _ ih =>
    -- the group that is open ends here
    intro chars
    have hgroup := HasForm.cons (.quoted chars) ih
    simpa [Element.text] using hgroup
  | case6 c cs hlast hmore hq ih =>
    exact Continues.quotedChar (.plain c ⟨hq, ne_backslash hlast hmore⟩) ih
  | case7 cs _ _ ih => exact ih []
  | case8 cs => exact Or.inl ⟨⟨[], some cs⟩, rfl⟩
  | case9 c cs _ _ _ _ hb ih => exact HasForm.cons (.blank c hb) ih
  | case10 cs _ _ _ _ _ ih => exact HasForm.cons .equals ih
  | case11 c cs hlast hmore hq hn hb he ih =>
    exact HasForm.cons (.plain c ⟨by simpa using hb, he, hq, hn, ne_backslash hlast hmore⟩) ih

theorem hasForm (cs : List Char) : HasForm cs := continues false cs

/-! ## Tokens -/

/-- A part of a token touches whatever word the rest starts with. -/
theorem join_part {e : Element} (he : e.isPart = true) (ps : List Piece) :
    join (e.pieces ++ ps) = (some (e.content ++ (join ps).1.getD []), (join ps).2) := by
  cases e with
  | blank | equals => simp [Element.isPart] at he
  | plain | escaped => rfl
  | quoted chars =>
    show join (.part [] :: (charParts _ ++ ps)) = _
    rw [join_open]
    rfl

theorem join_parts {run : List Element} (hne : run ≠ []) (hrun : ∀ e ∈ run, e.isPart = true)
    (ps : List Piece) :
    join (run.flatMap Element.pieces ++ ps) =
      (some (run.flatMap Element.content ++ (join ps).1.getD []), (join ps).2) := by
  induction run with
  | nil => exact absurd rfl hne
  | cons e run ih =>
    rw [List.flatMap_cons, List.flatMap_cons, List.append_assoc,
      join_part (hrun e List.mem_cons_self)]
    cases run with
    | nil => simp
    | cons f run => rw [ih (by simp) fun x hx => hrun x (List.mem_cons_of_mem _ hx)]; simp

/-- What does not start with a part of a token does not touch the word before it. -/
theorem fst_join_pieces {elements : List Element} (h : ∀ e ∈ elements.head?, e.isPart = false) :
    (join (elements.flatMap Element.pieces)).1 = none := by
  cases elements with
  | nil => rfl
  | cons e elements =>
    have he := h e rfl
    cases e with
    | blank | equals => rfl
    | plain | escaped | quoted => simp [Element.isPart] at he

theorem runs_cons_of_not_part {e : Element} (he : e.isPart = false) (elements : List Element) :
    runs (e :: elements) = [e] :: runs elements :=
  List.splitBy_append (l := [e]) (by simp [he])

/-- What does not start with a part of a token starts a new run. -/
theorem runs_append {rest : List Element} (hrest : ∀ e ∈ rest.head?, e.isPart = false)
    (front : List Element) : runs (front ++ rest) = runs front ++ runs rest :=
  List.splitBy_append fun _ _ e he => by rw [hrest e he, Bool.and_false]

theorem runs_of_parts {run : List Element} (hne : run ≠ []) (hrun : ∀ e ∈ run, e.isPart = true) :
    runs run = [run] := by
  have hpairs : run.Pairwise fun a b => (a.isPart && b.isPart) = true :=
    List.pairwise_of_forall_mem_list fun a ha b hb => by rw [hrun a ha, hrun b hb]; rfl
  exact List.splitBy_of_isChain hne hpairs.isChain

/-- Elements that start with a part of a token start with a run of such parts. -/
theorem exists_run {e : Element} (he : e.isPart = true) (elements : List Element) :
    ∃ run rest, e :: elements = run ++ rest ∧ run ≠ [] ∧ (∀ f ∈ run, f.isPart = true) ∧
      ∀ f ∈ rest.head?, f.isPart = false := by
  refine ⟨(e :: elements).takeWhile Element.isPart, (e :: elements).dropWhile Element.isPart,
    List.takeWhile_append_dropWhile.symm, ?_, fun f hf => List.mem_takeWhile_imp hf, ?_⟩
  · rw [List.takeWhile_cons_of_pos he]
    exact List.cons_ne_nil _ _
  · intro f hf
    have hhead := List.head?_dropWhile_not Element.isPart (e :: elements)
    rw [hf] at hhead
    exact hhead

theorem runToken?_of_parts {run : List Element} (hrun : ∀ e ∈ run, e.isPart = true) :
    runToken? run = some (run.flatMap Element.content) := by
  unfold runToken?
  split
  next c hc => exact absurd (hrun _ List.mem_cons_self) (by simp [Element.isPart])
  next => rfl

/-- **The reader puts those elements together that the grammar does.** -/
theorem words_pieces (elements : List Element) :
    words (elements.flatMap Element.pieces) = (runs elements).filterMap runToken? := by
  match elements with
  | [] => rfl
  | e :: es =>
    cases hpart : e.isPart with
    | false =>
      rw [runs_cons_of_not_part hpart, List.flatMap_cons, List.filterMap_cons]
      have ih := words_pieces es
      cases e with
      | blank => exact (words_gap _).trans ih
      | equals => exact (words_equals _).trans (congrArg _ ih)
      | plain | escaped | quoted => simp [Element.isPart] at hpart
    | true =>
      -- a run is taken off as a whole, and what is left is shorter
      obtain ⟨run, rest, hsplit, hne, hrun, hrest⟩ := exists_run hpart es
      have ih := words_pieces rest
      rw [hsplit, runs_append hrest, runs_of_parts hne hrun, List.singleton_append,
        List.filterMap_cons, runToken?_of_parts hrun, ← ih, List.flatMap_append, words,
        join_parts hne hrun]
      simp [words, fst_join_pieces hrest]
termination_by elements.length
decreasing_by
  · exact Nat.lt_succ_self _
  · have hlength := congrArg List.length hsplit
    have hpos := List.length_pos_iff.mpr hne
    rw [List.length_append] at hlength
    rw [hlength]
    omega

/-! ## Lines of the grammar -/

/-- A line of the grammar is accepted with its tokens. -/
theorem tokenize_of_layout {line : String} {l : Layout} (h : l.text = body line.toList) :
    tokenize line = .ok l.tokens := by
  rw [tokenize, ← h, scan_layout, Layout.tokens, ← words_pieces]
  rfl

/-- A line that breaks off is rejected for this. -/
theorem tokenize_of_broken {line : String} {flaw : Flaw} {rest : List Char}
    (hbroken : Broken flaw rest) {elements : List Element}
    (h : elements.flatMap Element.text ++ rest = body line.toList) : tokenize line = .error flaw := by
  rw [tokenize, ← h, scan_broken hbroken]
  rfl

theorem tokenize_eq_ok_iff {line : String} {tokens : List String} :
    tokenize line = .ok tokens ↔ ∃ l : Layout, l.text = body line.toList ∧ l.tokens = tokens := by
  constructor
  · intro htokens
    rcases hasForm (body line.toList) with ⟨l, hl⟩ | ⟨flaw, rest, hbroken, elements, h⟩
    · rw [tokenize_of_layout hl, Except.ok.injEq] at htokens
      exact ⟨l, hl, htokens⟩
    · rw [tokenize_of_broken hbroken h] at htokens
      simp at htokens
  · rintro ⟨l, hl, rfl⟩
    exact tokenize_of_layout hl

theorem tokenize_eq_error_iff {line : String} {flaw : Flaw} :
    tokenize line = .error flaw ↔ ∃ rest, Broken flaw rest ∧
      ∃ elements : List Element, elements.flatMap Element.text ++ rest = body line.toList := by
  constructor
  · intro herror
    rcases hasForm (body line.toList) with ⟨l, hl⟩ | ⟨flaw', rest, hbroken, elements, h⟩
    · rw [tokenize_of_layout hl] at herror
      simp at herror
    · rw [tokenize_of_broken hbroken h, Except.error.injEq] at herror
      subst herror
      exact ⟨rest, hbroken, elements, h⟩
  · rintro ⟨rest, hbroken, elements, h⟩
    exact tokenize_of_broken hbroken h

/-! ## Comments -/

/-- White space is a list of elements without a token. -/
theorem exists_blanks {cs : List Char} (h : ∀ c ∈ cs, isBlank c = true) :
    ∃ blanks : List Element, blanks.flatMap Element.text = cs ∧
      (∀ e ∈ blanks.head?, e.isPart = false) ∧ (runs blanks).filterMap runToken? = [] := by
  induction cs with
  | nil => exact ⟨[], rfl, by simp, rfl⟩
  | cons c cs ih =>
    obtain ⟨blanks, htext, -, htokens⟩ := ih fun d hd => h d (List.mem_cons_of_mem _ hd)
    refine ⟨.blank c (h c List.mem_cons_self) :: blanks, ?_, ?_, ?_⟩
    · rw [List.flatMap_cons, htext]
      rfl
    · rintro e ⟨⟩
      rfl
    · rw [runs_cons_of_not_part rfl, List.filterMap_cons, htokens]
      rfl

/-- White space at the end of a line can be followed by a comment. -/
theorem Layout.exists_comment (l : Layout) {ends : List Char}
    (h : ∀ c ∈ ends, isBlank c = true) (comment : List Char) :
    ∃ l' : Layout, l'.text = l.text ++ ends ++ '#' :: comment ∧ l'.tokens = l.tokens := by
  obtain ⟨elements, comment?⟩ := l
  cases comment? with
  | some earlier =>
    exact ⟨⟨elements, some (earlier ++ ends ++ '#' :: comment)⟩, by simp [text], rfl⟩
  | none =>
    obtain ⟨blanks, htext, hhead, htokens⟩ := exists_blanks h
    refine ⟨⟨elements ++ blanks, some comment⟩, by simp [text, htext], ?_⟩
    simp only [tokens, runs_append hhead, List.filterMap_append, htokens, List.append_nil]

theorem body_append_comment (cs comment : List Char) :
    body (cs ++ '#' :: comment) = cs ++ '#' :: body comment :=
  dropEndWhile_append_cons (by decide) cs comment

/-- A comment can be put behind every line that is accepted. -/
theorem tokenize_comment {line : String} {tokens : List String} (h : tokenize line = .ok tokens)
    (comment : String) : tokenize (line ++ "#" ++ comment) = .ok tokens := by
  obtain ⟨l, hl, rfl⟩ := tokenize_eq_ok_iff.mp h
  -- the line ends that are cut off without the comment are white space in front of it
  obtain ⟨ends, hline, hends⟩ := exists_dropEndWhile_append isTerminator line.toList
  obtain ⟨l', htext, htokens⟩ := l.exists_comment (fun c hc => isBlank_of_isTerminator (hends c hc))
    (body comment.toList)
  refine tokenize_eq_ok_iff.mpr ⟨l', ?_, htokens⟩
  have hchars : (line ++ "#" ++ comment).toList = line.toList ++ '#' :: comment.toList := by simp
  rw [htext, hl, hchars, body_append_comment]
  exact congrArg (· ++ _) hline.symm

theorem tokenizeLine_eq_error_iff {number : Int} {line : String} {flaw : Flaw} :
    tokenizeLine number line = .error ⟨number, .flaw flaw⟩ ↔ tokenize line = .error flaw := by
  rw [tokenizeLine]
  cases tokenize line <;> simp [Except.mapError]

/-- **The reader accepts exactly the lines of the grammar and gives their tokens.** A line that it
rejects breaks off within an element, and the error names the line. A comment can be put behind every
line that is accepted. -/
theorem tokenizeLine_follows_grammar (number : Int) (line : String) :
    let text := line.toList.rdropWhile fun c => c = '\r' || c = '\n'
    (∀ tokens, tokenizeLine number line = .ok tokens ↔
      ∃ l : Layout, l.text = text ∧ l.tokens = tokens) ∧
    ((∃ flaw, tokenizeLine number line = .error ⟨number, .flaw flaw⟩) ↔
      ¬∃ l : Layout, l.text = text) ∧
    (∀ flaw, tokenizeLine number line = .error ⟨number, .flaw flaw⟩ ↔
      ∃ rest, Broken flaw rest ∧
        ∃ elements : List Element, elements.flatMap Element.text ++ rest = text) ∧
    ∀ tokens comment, tokenizeLine number line = .ok tokens →
      tokenizeLine number (line ++ "#" ++ comment) = .ok tokens := by
  intro text
  have htext : text = body line.toList := rfl
  have hok : ∀ tokens, tokenizeLine number line = .ok tokens ↔
      ∃ l : Layout, l.text = text ∧ l.tokens = tokens := fun tokens => by
    rw [tokenizeLine, Result.mapError_eq_ok_iff, tokenize_eq_ok_iff, htext]
  refine ⟨hok, ?_, fun flaw => ?_, fun tokens comment h => ?_⟩
  · constructor
    · rintro ⟨flaw, hflaw⟩ ⟨l, hl⟩
      rw [(hok l.tokens).mpr ⟨l, hl, rfl⟩] at hflaw
      simp at hflaw
    · intro hnone
      rcases hasForm text with hl | ⟨flaw, rest, hbroken, elements, h⟩
      · exact absurd hl hnone
      · exact ⟨flaw, tokenizeLine_eq_error_iff.mpr (tokenize_of_broken hbroken h)⟩
  · rw [tokenizeLine_eq_error_iff, tokenize_eq_error_iff, htext]
  · exact Result.mapError_eq_ok_iff.mpr (tokenize_comment (Result.mapError_eq_ok_iff.mp h) comment)

/-- Adjacent groups and escapes are one token, and a group may be empty. -/
theorem tokenizeLine_follows_grammar_of_adjacent_groups :
    tokenizeLine 7 "up\"s a\"\\#=\"\" \r\n" = .ok ["ups a#", "=", ""] ∧
      tokenizeLine 7 ("up\"s a\"\\#=\"\" \r\n" ++ "#" ++ "\"\\") = .ok ["ups a#", "=", ""] := by
  have h : tokenizeLine 7 "up\"s a\"\\#=\"\" \r\n" = .ok ["ups a#", "=", ""] := by rfl
  exact ⟨h, (tokenizeLine_follows_grammar 7 _).2.2.2 _ _ h⟩

end UpsSetup.Line
