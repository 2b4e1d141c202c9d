import UpsSetup.Document.Basic
import UpsSetup.Proofs.Tokens

/-!
# Reading a document line by line

A reading that rejects no line is `Document.addLines`, which goes on from any document and does not
count lines, so it can be taken apart at every place between two lines (`addLines_append`). What
each line preserves holds at the end (`addLines_induction`).

The second half says what the lines hold that a document is written with: comments, indented or not,
and lists of tokens are read back as they are.
-/

namespace UpsSetup

open Text Line

/-! ## Readings that reject no line -/

namespace Document

variable {α : Type} [Document α]

/-- Takes lines one after the other, unless one is rejected. -/
def addLines (d : α) (lines : List String) : Except LineFault α := lines.foldlM addLine d

@[simp] theorem addLines_nil (d : α) : addLines d [] = .ok d := rfl

theorem addLines_cons (d : α) (line : String) (lines : List String) :
    addLines d (line :: lines) = addLine d line >>= fun d' => addLines d' lines := rfl

/-- Lines can be read in two parts. -/
theorem addLines_append (d : α) (ls ms : List String) :
    addLines d (ls ++ ms) = addLines d ls >>= fun d' => addLines d' ms := List.foldlM_append

theorem addLines_append_of_ok {d d' : α} {ls : List String} (h : addLines d ls = .ok d')
    (ms : List String) : addLines d (ls ++ ms) = addLines d' ms := by
  rw [addLines_append, h]
  rfl

theorem addLine_of_ofLine {line : String} {c : Content} (h : Content.ofLine line = .ok c) (d : α) :
    addLine d line = addContent d c := by
  rw [addLine, h]
  rfl

/-- A line is accepted if its form is, and the document takes what it holds. -/
theorem addLine_eq_ok_iff {d d' : α} {line : String} :
    addLine d line = .ok d' ↔ ∃ c, Content.ofLine line = .ok c ∧ addContent d c = .ok d' :=
  Result.bind_eq_ok_iff

/-- What each line preserves holds at the end. -/
theorem addLines_induction {P : α → Prop} {d d' : α} {lines : List String} (h0 : P d)
    (hstep : ∀ line ∈ lines, ∀ d d' : α, P d → addLine d line = .ok d' → P d')
    (h : addLines d lines = .ok d') : P d' := by
  induction lines generalizing d with
  | nil => cases h; exact h0
  | cons line lines ih =>
    obtain ⟨e, he, hrest⟩ := Result.bind_eq_ok_iff.mp h
    have h1 : P e := hstep line List.mem_cons_self d e h0 he
    exact ih h1 (fun l hl => hstep l (List.mem_cons_of_mem _ hl)) hrest

/-- Where no line is rejected, each has content. -/
theorem exists_content_of_addLines {d d' : α} {lines : List String}
    (h : addLines d lines = .ok d') {line : String} (hl : line ∈ lines) :
    ∃ c, Content.ofLine line = .ok c := by
  induction lines generalizing d with
  | nil => simp at hl
  | cons l ls ih =>
    obtain ⟨e, he, hrest⟩ := Result.bind_eq_ok_iff.mp h
    rcases List.mem_cons.mp hl with rfl | hl
    · obtain ⟨c, hc, -⟩ := addLine_eq_ok_iff.mp he
      exact ⟨c, hc⟩
    · exact ih hrest hl

end Document

namespace Reading

variable {α : Type} [Document α]

/-- A reading without an error has accepted every line. -/
theorem extend_eq_iff {d d' : α} {number : Nat} {lines : List String} :
    extend d number lines = ⟨d', none⟩ ↔ Document.addLines d lines = .ok d' := by
  induction lines generalizing d number with
  | nil =>
    unfold extend
    rw [Document.addLines_nil, Except.ok.injEq, Reading.mk.injEq]
    exact and_iff_left rfl
  | cons line lines ih =>
    unfold extend
    rw [Document.addLines_cons]
    cases h : Document.addLine d line with
    | error fault =>
      constructor
      · intro hr
        exact absurd (congrArg Reading.error hr) (by simp)
      · intro hr
        exact absurd hr (by simp [Bind.bind, Except.bind])
    | ok e => exact ih

theorem ofLines_eq_iff {d : α} {lines : List String} :
    ofLines α lines = ⟨d, none⟩ ↔ Document.addLines (Document.empty : α) lines = .ok d :=
  extend_eq_iff

omit [Document α] in
theorem isComplete_iff {r : Reading α} : r.isComplete = true ↔ r = ⟨r.document, none⟩ := by
  obtain ⟨d, error⟩ := r
  simp [isComplete]

/-- A complete reading is one that rejects no line. -/
theorem isComplete_ofLines_iff {lines : List String} :
    (ofLines α lines).isComplete = true ↔
      Document.addLines (Document.empty : α) lines = .ok (ofLines α lines).document := by
  rw [isComplete_iff, ofLines_eq_iff]

/-- A document whose lines hold no line feed is read from the lines it was written with. -/
theorem ofText_text {d : α} (h : ∀ line ∈ Document.render d, '\n' ∉ line.toList) :
    ofText α (Document.text d) = ofLines α (Document.render d) := by
  rw [ofText, Document.text, lines_unlines h]

end Reading

/-! ## What a line holds -/

/-- The text is a comment as a document keeps it. -/
structure IsComment (text : String) : Prop where
  trimmed : trim text = text
  sign : startsComment text = true

theorem startsComment_trim {line : String} {c : Char} {rest : List Char}
    (h : line.toList.dropWhile isBlank = c :: rest) :
    startsComment (trim line) = decide (c = '#') := by
  rw [startsComment, toList_trim, head?_trimChars h]
  simp

namespace Content

theorem ofLine_of_trim {line text : String} (ht : trim line = text)
    (hs : startsComment text = true) : ofLine line = .ok (.comment text) := by
  unfold ofLine
  rw [ht]
  exact if_pos hs

/-- A comment is read as it is written. -/
theorem ofLine_comment {text : String} (h : IsComment text) : ofLine text = .ok (.comment text) :=
  ofLine_of_trim h.trimmed h.sign

/-- What a line holds does not depend on how far it is indented. -/
theorem ofLine_tab (line : String) : ofLine ("\t" ++ line) = ofLine line := by
  unfold ofLine
  rw [trim_tab, tokenize_tab]

/-- What is read as a comment can be written as one. -/
theorem isComment_of_ofLine {line text : String} (h : ofLine line = .ok (.comment text)) :
    IsComment text := by
  rw [ofLine] at h
  split at h
  next hs =>
    rw [Except.ok.injEq, comment.injEq] at h
    subst h
    exact ⟨trim_trim line, hs⟩
  next =>
    obtain ⟨ts, -, hts⟩ := Result.map_eq_ok_iff.mp (Result.mapError_eq_ok_iff.mp h)
    cases ts <;> simp [ofTokens] at hts

theorem ofLine_empty : ofLine "" = .ok .blank := rfl

/-- A line whose first character that is no white space is no number sign is taken apart. -/
theorem ofLine_of_opens {line : String} (h : Opens (line.toList.dropWhile isBlank)) :
    ofLine line = (ofTokens <$> tokenize line).mapError .flaw := by
  obtain ⟨c, rest, hd, -, hc⟩ := h
  rw [ofLine, startsComment_trim hd, if_neg (by simpa using hc)]

theorem dropWhile_of_opens {cs : List Char} (h : Opens cs) : cs.dropWhile isBlank = cs := by
  obtain ⟨c, rest, rfl, hb, -⟩ := h
  rw [List.dropWhile_cons_of_neg (by simp [hb])]

/-- A line of tokens that does not start as a comment is read as these tokens. -/
theorem ofLine_of_tokenize {line first : String} {rest : List String}
    (h : Opens (line.toList.dropWhile isBlank)) (ht : tokenize line = .ok (first :: rest)) :
    ofLine line = .ok (.tokens first rest) := by
  rw [ofLine_of_opens h, ht]
  rfl

/-- **The tokens that are put on a line are what the line holds.** -/
theorem ofLine_encode (first : String) (rest : List String) :
    ofLine (encode (first :: rest)) = .ok (.tokens first rest) := by
  have h := opens_encode first rest
  exact ofLine_of_tokenize (by rwa [dropWhile_of_opens h]) (tokenize_encode _)

/-! ## Characters of the content -/

theorem tokenize_of_ofLine {line first : String} {rest : List String}
    (h : ofLine line = .ok (.tokens first rest)) : tokenize line = .ok (first :: rest) := by
  rw [ofLine] at h
  split at h
  · simp at h
  · obtain ⟨ts, hts, he⟩ := Result.map_eq_ok_iff.mp (Result.mapError_eq_ok_iff.mp h)
    cases ts with
    | nil => simp [ofTokens] at he
    | cons t ts => simp only [ofTokens, tokens.injEq] at he; rw [hts, he.1, he.2]

/-- A comment holds no character that is not on its line. -/
theorem mem_of_mem_comment {line text : String} (h : ofLine line = .ok (.comment text)) {c : Char}
    (hc : c ∈ text.toList) : c ∈ line.toList := by
  rw [ofLine] at h
  split at h
  next =>
    rw [Except.ok.injEq, comment.injEq] at h
    rw [← h, toList_trim] at hc
    exact mem_of_mem_trimChars hc
  next =>
    obtain ⟨ts, -, hts⟩ := Result.map_eq_ok_iff.mp (Result.mapError_eq_ok_iff.mp h)
    cases ts <;> simp [ofTokens] at hts

/-- Neither do the tokens. -/
theorem mem_of_mem_token {line first : String} {rest : List String}
    (h : ofLine line = .ok (.tokens first rest)) {t : String} (ht : t ∈ first :: rest) {c : Char}
    (hc : c ∈ t.toList) : c ∈ line.toList :=
  mem_of_mem_tokens (tokenize_of_ofLine h) ht hc

end Content

/-! ## Written lines -/

/-- The line feed of a line is cut off before the line is taken apart. -/
theorem Line.tokenize_newline (line : String) : tokenize (line ++ "\n") = tokenize line := by
  have hbody : body (line.toList ++ ['\n']) = body line.toList := by
    unfold body dropEndWhile
    rw [List.reverse_append, List.reverse_singleton, List.singleton_append,
      List.dropWhile_cons_of_pos (by decide)]
  rw [tokenize, tokenize, String.toList_append]
  exact congrArg _ (congrArg (scan false) hbody)

/-- **A line on which tokens are put gives back these tokens and is never taken for a comment**, so
that every document gets the tokens. None is excluded: a token may be empty, and it may hold any
character. -/
theorem Line.encoded_tokens_read_back (ts : List String) :
    tokenize (encode ts) = .ok ts ∧ tokenize (encode ts ++ "\n") = .ok ts ∧
      startsComment (trim (encode ts)) = false ∧
      ∀ {α : Type} [Document α] (d : α),
        Document.addLine d (encode ts) = Document.addContent d (Content.ofTokens ts) := by
  have hcontent : Content.ofLine (encode ts) = .ok (Content.ofTokens ts) := by
    cases ts with
    | nil => exact Content.ofLine_empty
    | cons first rest => exact Content.ofLine_encode first rest
  have hsign : startsComment (trim (encode ts)) = false := by
    cases ts with
    | nil => rfl
    | cons first rest =>
      -- the line starts with a character that is neither white space nor a number sign
      obtain ⟨c, cs, hline, -, hc⟩ := opens_encode first rest
      have hdrop := Content.dropWhile_of_opens (opens_encode first rest)
      rw [startsComment_trim (hdrop.trans hline)]
      exact decide_eq_false hc
  refine ⟨tokenize_encode ts, ?_, hsign, fun d => Document.addLine_of_ofLine hcontent d⟩
  rw [Line.tokenize_newline]
  exact tokenize_encode ts

end UpsSetup
