import Mathlib.Algebra.GroupWithZero.Nat
import UpsSetup.Proofs.Reading

/-!
# Section headers

A section header is the one thing that is written raw: values and keys are quoted where that is
needed, the name in a header never is. Which names are read back is therefore a matter of their
characters: those of a `PlainName`, and no others (`ofLine_sectionHeader`,
`headerLength_sectionHeader_lt`).

A header whose name is not plain may be rejected, may be no header any more, or may be the header of
another section. That section has a shorter name in any case. So names are compared by their length:
`headerLength` is what a line contributes to the names of a document.
-/

namespace UpsSetup

open Text Line

/-- No character of the name is lost in a header, and none takes it apart. -/
def PlainName (name : String) : Prop :=
  ∀ c ∈ name.toList, isBlank c = false ∧ c ≠ '"' ∧ c ≠ '#' ∧ c ≠ '=' ∧ c ≠ '\\'

instance (name : String) : Decidable (PlainName name) :=
  List.decidableBAll
    (fun c => isBlank c = false ∧ c ≠ '"' ∧ c ≠ '#' ∧ c ≠ '=' ∧ c ≠ '\\') name.toList

namespace PlainName

/-- A plain name holds no white space, so it holds no line end either. -/
theorem holdsNoEnd {name : String} (h : PlainName name) : HoldsNoEnd name.toList := by
  intro c hc
  exact isTerminator_eq_false (h c hc).1

theorem ne_empty_of_not {name : String} (h : ¬PlainName name) : 0 < name.length := by
  rw [← String.length_toList]
  refine List.length_pos_iff.mpr fun he => h fun c hc => ?_
  rw [he] at hc
  exact absurd hc List.not_mem_nil

end PlainName

namespace Line

/-! ## Names in headers -/

theorem toList_sectionHeader (name : String) :
    (sectionHeader name).toList = '[' :: (name.toList ++ [']']) := by
  rw [sectionHeader, String.toList_append, String.toList_append]
  rfl

theorem opens_sectionHeader (name : String) : Opens (sectionHeader name).toList :=
  ⟨'[', name.toList ++ [']'], toList_sectionHeader name, by decide, by decide⟩

theorem closes_sectionHeader (name : String) : Closes (sectionHeader name).toList :=
  ⟨'[' :: name.toList, ']', toList_sectionHeader name, by decide⟩

/-- The tokens of a header are the header itself, and no others give its name. -/
theorem sectionName?_eq_some_iff {tokens : List String} {name : String} :
    sectionName? tokens = some name ↔ tokens = [sectionHeader name] := by
  constructor
  · intro h
    unfold sectionName? at h
    split at h
    next token =>
      split at h
      next rest hrest =>
        split at h
        next hlast =>
          rw [Option.some.injEq] at h
          obtain ⟨start, rfl⟩ := List.getLast?_eq_some_iff.mp hlast
          rw [List.dropLast_concat] at h
          rw [List.cons.injEq, and_iff_left rfl, ← String.toList_inj, toList_sectionHeader, hrest,
            ← h, String.toList_ofList]
        next => simp at h
      next => simp at h
    next => simp at h
  · rintro rfl
    simp [sectionName?, toList_sectionHeader]

/-! ## Plain names -/

/-- Characters that mean nothing to the reader are taken one by one. -/
theorem scan_of_plain {cs : List Char}
    (h : ∀ c ∈ cs, isBlank c = false ∧ c ≠ '"' ∧ c ≠ '#' ∧ c ≠ '=' ∧ c ≠ '\\') :
    scan false cs = .ok (charParts cs) := by
  have hs := scan_plain_append h []
  rw [List.append_nil] at hs
  rw [hs]
  show Except.ok (charParts cs ++ []) = _
  rw [List.append_nil]

theorem tokenize_sectionHeader {name : String} (h : PlainName name) :
    tokenize (sectionHeader name) = .ok [sectionHeader name] := by
  have hplain : ∀ c ∈ (sectionHeader name).toList,
      isBlank c = false ∧ c ≠ '"' ∧ c ≠ '#' ∧ c ≠ '=' ∧ c ≠ '\\' := by
    intro c hc
    rw [toList_sectionHeader] at hc
    rcases List.mem_cons.mp hc with rfl | hc
    · decide
    · rcases List.mem_append.mp hc with hc | hc
      · exact h c hc
      · rw [List.mem_singleton.mp hc]
        decide
  have hwords : words (charParts (sectionHeader name).toList) = [(sectionHeader name).toList] := by
    have hne : (sectionHeader name).toList ≠ [] := by
      rw [toList_sectionHeader]
      exact List.cons_ne_nil _ _
    have hj := join_charParts hne []
    rw [List.append_nil] at hj
    rw [words, hj]
    simp [join]
  rw [tokenize_of_scan (closes_sectionHeader name) (scan_of_plain hplain), hwords, List.map_cons,
    String.ofList_toList]
  rfl

/-- **A header with a plain name is read as the header of that section.** -/
theorem ofLine_sectionHeader {name : String} (h : PlainName name) :
    Content.ofLine (sectionHeader name) = .ok (.tokens (sectionHeader name) []) := by
  refine Content.ofLine_of_tokenize ?_ (tokenize_sectionHeader h)
  rw [Content.dropWhile_of_opens (opens_sectionHeader name)]
  exact opens_sectionHeader name

/-! ## Lengths of names -/

/-- The name of the section whose header a line is, if it is one. -/
def headerName? (line : String) : Option String :=
  match Content.ofLine line with
  | .ok (.tokens first rest) => sectionName? (first :: rest)
  | _ => none

/-- The number of characters in the name of the section whose header a line is. -/
def headerLength (line : String) : Nat := ((headerName? line).map String.length).getD 0

theorem headerLength_of_none {line : String} (h : headerName? line = none) :
    headerLength line = 0 := by
  rw [headerLength, h]
  rfl

theorem headerLength_of_some {line name : String} (h : headerName? line = some name) :
    headerLength line = name.length := by
  rw [headerLength, h]
  rfl

/-- A header is a line of one token. -/
theorem tokenize_of_headerName? {line name : String} (h : headerName? line = some name) :
    tokenize line = .ok [sectionHeader name] := by
  unfold headerName? at h
  split at h
  next first rest hc =>
    rw [Content.tokenize_of_ofLine hc, sectionName?_eq_some_iff.mp h]
  next => simp at h

/-- The pieces of a line that holds a single token. -/
theorem pieces_of_tokenize {line token : String} (h : tokenize line = .ok [token]) :
    ∃ ps, scan false (body line.toList) = .ok ps ∧ words ps = [token.toList] ∧
      token.toList = ps.flatMap Piece.chars := by
  obtain ⟨ps, hps, hmap⟩ := Result.map_eq_ok_iff.mp h
  obtain ⟨w, hw, rfl⟩ := List.map_eq_singleton_iff.mp hmap
  rw [String.toList_ofList]
  refine ⟨ps, hps, hw, ?_⟩
  rw [← flatten_words, hw, List.flatten_singleton]

/-- A line is longer than the name in it by the two brackets at least. -/
theorem length_le_of_headerName? {line name : String} (h : headerName? line = some name) :
    name.length + 2 ≤ line.length := by
  obtain ⟨ps, hps, -, hchars⟩ := pieces_of_tokenize (tokenize_of_headerName? h)
  have hbody : (body line.toList).length ≤ line.toList.length := by
    rw [body, dropEndWhile_eq]
    exact (List.rdropWhile_prefix _ _).length_le
  have hlen := (sublist_of_scan hps).length_le
  rw [← hchars, toList_sectionHeader, List.length_cons, List.length_append,
    List.length_singleton] at hlen
  rw [← String.length_toList, ← String.length_toList]
  omega

/-- A name that a header keeps in its whole length is plain. -/
theorem plainName_of_headerName? {n name : String} (h : headerName? (sectionHeader n) = some name)
    (hlen : n.length ≤ name.length) : PlainName n := by
  obtain ⟨ps, hps, hw, hchars⟩ := pieces_of_tokenize (tokenize_of_headerName? h)
  rw [body_eq_self (closes_sectionHeader n)] at hps
  have hle : (sectionHeader n).toList.length ≤ (ps.flatMap Piece.chars).length := by
    rw [← hchars, toList_sectionHeader, toList_sectionHeader]
    simp only [List.length_cons, List.length_append, String.length_toList]
    omega
  have hplain := (plain_of_scan hps hle).2
  intro c hc
  have hmem : c ∈ (sectionHeader n).toList := by
    rw [toList_sectionHeader]
    exact List.mem_cons_of_mem _ (List.mem_append_left _ hc)
  obtain ⟨h1, h2, h3, h4, h5⟩ := hplain c hmem
  refine ⟨h1, h2, h3, fun he => ?_, h4⟩
  -- an equals sign would be a token of its own beside the header
  have heq := equals_mem_words (h5 he)
  rw [hw, toList_sectionHeader, List.mem_singleton] at heq
  simp at heq

/-- **A header whose name is not plain gives a shorter name, if it gives one at all.** -/
theorem headerLength_sectionHeader_lt {n : String} (h : ¬PlainName n) :
    headerLength (sectionHeader n) < n.length := by
  cases hn : headerName? (sectionHeader n) with
  | none =>
    rw [headerLength_of_none hn]
    exact PlainName.ne_empty_of_not h
  | some name =>
    rw [headerLength_of_some hn]
    by_contra hle
    exact h (plainName_of_headerName? hn (by omega))

/-- What is read back of a name is never longer than the name. -/
theorem headerLength_sectionHeader_le (n : String) : headerLength (sectionHeader n) ≤ n.length := by
  by_cases h : PlainName n
  · have hn : headerName? (sectionHeader n) = some n := by
      unfold headerName?
      rw [ofLine_sectionHeader h]
      exact sectionName?_eq_some_iff.mpr rfl
    exact Nat.le_of_eq (headerLength_of_some hn)
  · exact Nat.le_of_lt (headerLength_sectionHeader_lt h)

/-! ## Headers in a file -/

/-- Where several lines hold a name, two characters of them do not belong to it. -/
theorem sum_headerLength_le (lines : List String) :
    (lines.map headerLength).sum = 0 ∨
      (lines.map headerLength).sum + 2 ≤ (lines.map String.length).sum := by
  induction lines with
  | nil => exact Or.inl rfl
  | cons line lines ih =>
    rw [List.map_cons, List.map_cons, List.sum_cons, List.sum_cons]
    cases hn : headerName? line with
    | none =>
      rw [headerLength_of_none hn]
      omega
    | some name =>
      have hle := length_le_of_headerName? hn
      rw [headerLength_of_some hn]
      omega

/-- What a header becomes in a file gives shorter names as well, even where it becomes several
lines. -/
theorem sum_headerLength_fileLines_lt {n : String} (h : ¬PlainName n) :
    (((fileLines (sectionHeader n).toList).map String.ofList).map headerLength).sum < n.length := by
  by_cases hends : HoldsNoEnd (sectionHeader n).toList
  · -- the header stays one line
    rw [fileLines_of_holdsNoEnd hends, List.map_singleton, String.ofList_toList, List.map_singleton,
      List.sum_singleton]
    exact headerLength_sectionHeader_lt h
  · -- a line end is lost, and each header that is left spends two characters on its brackets
    have hlt : ((fileLines (sectionHeader n).toList).flatten).length < n.length + 2 := by
      rw [flatten_fileLines]
      have hex : ∃ c ∈ (sectionHeader n).toList, ¬(!isTerminator c) = true := by
        simpa [HoldsNoEnd] using hends
      have hfilter := List.length_filter_lt_length_iff_exists.mpr hex
      have hlen : (sectionHeader n).toList.length = n.length + 2 := by
        rw [toList_sectionHeader, List.length_cons, List.length_append, String.length_toList]
        rfl
      omega
    have hsum : (((fileLines (sectionHeader n).toList).map String.ofList).map String.length).sum =
        ((fileLines (sectionHeader n).toList).flatten).length := by
      rw [List.length_flatten, List.map_map]
      simp [Function.comp_def]
    have hpos := PlainName.ne_empty_of_not h
    rcases sum_headerLength_le ((fileLines (sectionHeader n).toList).map String.ofList) with h0 | h2
    · omega
    · omega

end Line

end UpsSetup
