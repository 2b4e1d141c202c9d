import Mathlib.Data.List.DropRight
import UpsSetup.Line.Token
import UpsSetup.Text.Lines

/-!
# Lines of a written text

A text that is written line by line is read back line by line if no line holds a line end
(`lines_unlines`). In a file each of the three usual line ends counts, so there a line that holds
one becomes several: `fileLines` is what becomes of it, and `lines_unifyEnds_unlines` says that it
depends on nothing but that line.

* Such a line gives at least its start up to the first line end (`head?_fileLines`).
* What it gives holds its characters except the line ends (`flatten_fileLines`).
-/

namespace UpsSetup.Text

open Line (isTerminator)

/-! ## Trimming -/

theorem dropEndWhile_eq (p : Char → Bool) (cs : List Char) : dropEndWhile p cs = cs.rdropWhile p :=
  rfl

/-- Nothing is dropped up to the last character that is kept. -/
theorem dropEndWhile_append_cons {p : Char → Bool} {c : Char} (hc : p c = false)
    (front cs : List Char) :
    dropEndWhile p (front ++ c :: cs) = front ++ c :: dropEndWhile p cs := by
  unfold dropEndWhile
  rw [List.reverse_append, List.reverse_cons, List.append_assoc, List.dropWhile_append]
  split
  next h =>
    rw [List.isEmpty_iff.mp h, List.singleton_append, List.dropWhile_cons_of_neg (by simp [hc])]
    simp
  next => simp

/-- What stands in front of a character that stays is not cut. -/
theorem dropEndWhile_cons {p : Char → Bool} {c : Char} (hc : p c = false) (cs : List Char) :
    dropEndWhile p (c :: cs) = c :: dropEndWhile p cs :=
  dropEndWhile_append_cons hc [] cs

/-- What is dropped are characters of the kind that is to be dropped. -/
theorem exists_dropEndWhile_append (p : Char → Bool) (cs : List Char) :
    ∃ ends, cs = dropEndWhile p cs ++ ends ∧ ∀ c ∈ ends, p c = true := by
  refine ⟨cs.rtakeWhile p, ?_, fun c hc => List.mem_rtakeWhile_imp hc⟩
  have hreverse := List.takeWhile_append_dropWhile (p := p) (l := cs.reverse)
  rw [← List.reverse_inj, List.reverse_append, List.reverse_reverse] at hreverse
  exact hreverse.symm

theorem toList_tab (s : String) : ("\t" ++ s).toList = '\t' :: s.toList := by
  rw [String.toList_append]
  rfl

/-- White space in front is cut. -/
theorem trimChars_blank {c : Char} (hc : isBlank c = true) (cs : List Char) :
    trimChars (c :: cs) = trimChars cs := by
  simp only [trimChars, List.dropWhile_cons_of_pos hc]

/-- The first character that is no white space stays the first. -/
theorem head?_trimChars {cs rest : List Char} {c : Char} (h : cs.dropWhile isBlank = c :: rest) :
    (trimChars cs).head? = some c := by
  have hc : isBlank c = false := by
    have := List.head_dropWhile_not isBlank (l := cs) (by simp [h])
    simpa [h] using this
  rw [trimChars, h, dropEndWhile_eq]
  obtain ⟨tail, ht⟩ := List.rdropWhile_prefix isBlank (l := c :: rest)
  cases hd : (c :: rest).rdropWhile isBlank with
  | nil => simp [List.rdropWhile_eq_nil_iff.mp hd c List.mem_cons_self] at hc
  | cons d ds =>
    rw [hd, List.cons_append, List.cons.injEq] at ht
    simp [ht.1]

/-- What is trimmed once is trimmed for good. -/
theorem trimChars_trimChars (cs : List Char) : trimChars (trimChars cs) = trimChars cs := by
  have hd : (trimChars cs).dropWhile isBlank = trimChars cs := by
    cases h : cs.dropWhile isBlank with
    | nil => simp [trimChars, h, dropEndWhile]
    | cons c rest =>
      have hc : isBlank c = false := by
        have := List.head_dropWhile_not isBlank (l := cs) (by simp [h])
        simpa [h] using this
      obtain ⟨ds, hds⟩ := List.head?_eq_some_iff.mp (head?_trimChars h)
      rw [hds, List.dropWhile_cons_of_neg (by simp [hc])]
  rw [trimChars, hd, trimChars]
  simp only [dropEndWhile_eq]
  exact List.rdropWhile_idempotent isBlank _

theorem trim_trim (s : String) : trim (trim s) = trim s := by
  simp [trim, trimChars_trimChars]

theorem trim_tab (s : String) : trim ("\t" ++ s) = trim s := by
  rw [trim, toList_tab, trimChars_blank (by decide), trim]

/-- Trimming adds no character. -/
theorem mem_of_mem_trimChars {cs : List Char} {c : Char} (h : c ∈ trimChars cs) : c ∈ cs :=
  (List.dropWhile_sublist _).mem ((List.rdropWhile_prefix isBlank _).sublist.mem h)

/-! ## Lines that hold no line end -/

/-- A line of a text holds no line feed. -/
theorem not_mem_of_mem_cutLines {cs l : List Char} (h : l ∈ cutLines cs) : '\n' ∉ l := by
  induction cs generalizing l with
  | nil => simp [cutLines] at h
  | cons c cs ih =>
    rw [cutLines] at h
    split at h
    next hc =>
      rcases List.mem_cons.mp h with rfl | h
      · simp
      · exact ih h
    next hc =>
      split at h
      next => simp only [List.mem_singleton] at h; subst h; simp [Ne.symm hc]
      next m ms hm =>
        rcases List.mem_cons.mp h with rfl | h
        · simp [Ne.symm hc, ih (hm ▸ List.mem_cons_self)]
        · exact ih (hm ▸ List.mem_cons_of_mem _ h)

theorem mem_of_mem_cutLines {cs l : List Char} (h : l ∈ cutLines cs) {c : Char} (hc : c ∈ l) :
    c ∈ cs := by
  induction cs generalizing l with
  | nil => simp [cutLines] at h
  | cons d cs ih =>
    rw [cutLines] at h
    split at h
    next =>
      rcases List.mem_cons.mp h with rfl | h
      · simp at hc
      · exact List.mem_cons_of_mem _ (ih h hc)
    next =>
      split at h
      next => simp only [List.mem_singleton] at h; subst h; simp_all
      next m ms hm =>
        rcases List.mem_cons.mp h with rfl | h
        · rcases List.mem_cons.mp hc with rfl | hc
          · exact List.mem_cons_self
          · exact List.mem_cons_of_mem _ (ih (hm ▸ List.mem_cons_self) hc)
        · exact List.mem_cons_of_mem _ (ih (hm ▸ List.mem_cons_of_mem _ h) hc)

/-- Once the line ends are unified there is no carriage return. -/
theorem not_mem_unifyEndChars (cs : List Char) : '\r' ∉ unifyEndChars cs := by
  fun_induction unifyEndChars cs with
  | case1 => simp
  | case2 cs ih => simp [ih]
  | case3 cs h ih => simp [ih]
  | case4 c cs h1 h2 ih => simpa [ih] using fun h => h2 h.symm

/-- No character of the text ends a line in a file. -/
def HoldsNoEnd (cs : List Char) : Prop := ∀ c ∈ cs, isTerminator c = false

instance (cs : List Char) : Decidable (HoldsNoEnd cs) :=
  List.decidableBAll (fun c => isTerminator c = false) cs

/-- A text holds no line end if it holds none of the characters that make one. -/
theorem holdsNoEnd_iff {cs : List Char} :
    HoldsNoEnd cs ↔ ∀ c, isTerminator c = true → c ∉ cs := by
  constructor
  · intro h c hc hm
    rw [h c hm] at hc
    exact absurd hc (by simp)
  · intro h c hm
    by_contra hc
    exact h c (by simpa using hc) hm

theorem HoldsNoEnd.newline_not_mem {cs : List Char} (h : HoldsNoEnd cs) : '\n' ∉ cs := fun hm =>
  absurd (h _ hm) (by decide)

theorem HoldsNoEnd.return_not_mem {cs : List Char} (h : HoldsNoEnd cs) : '\r' ∉ cs := fun hm =>
  absurd (h _ hm) (by decide)

theorem HoldsNoEnd.append {cs ds : List Char} (hc : HoldsNoEnd cs) (hd : HoldsNoEnd ds) :
    HoldsNoEnd (cs ++ ds) := fun c h => by
  rcases List.mem_append.mp h with h | h
  · exact hc c h
  · exact hd c h

/-- The lines of a text hold no line feed. -/
theorem newline_not_mem_of_mem_lines {s l : String} (h : l ∈ lines s) : '\n' ∉ l.toList := by
  obtain ⟨cs, hcs, rfl⟩ := List.mem_map.mp h
  simpa using not_mem_of_mem_cutLines hcs

/-- The lines of a file hold no line end. -/
theorem holdsNoEnd_of_mem_lines {s l : String} (h : l ∈ lines (unifyEnds s)) :
    HoldsNoEnd l.toList := by
  intro c hc
  have h1 : c ≠ '\n' := fun he => newline_not_mem_of_mem_lines h (he ▸ hc)
  obtain ⟨cs, hcs, rfl⟩ := List.mem_map.mp h
  have h2 : c ≠ '\r' := by
    rintro rfl
    have hm := mem_of_mem_cutLines hcs (by simpa using hc)
    simp only [unifyEnds, String.toList_ofList] at hm
    exact not_mem_unifyEndChars _ hm
  simp [isTerminator, h1, h2]

/-! ## Lines that hold line ends -/

/-- The lines that a written line becomes in a file. -/
def fileLines (l : List Char) : List (List Char) := cutLines (unifyEndChars (l ++ ['\n']))

theorem unifyEndChars_append_newline (cs rest : List Char) :
    unifyEndChars (cs ++ '\n' :: rest) = unifyEndChars (cs ++ ['\n']) ++ unifyEndChars rest := by
  fun_induction unifyEndChars cs with
  | case1 => simp [unifyEndChars]
  | case2 cs ih => simp [unifyEndChars, ih]
  | case3 cs h ih =>
    -- a carriage return that no line feed follows
    cases cs with
    | nil => simp [unifyEndChars]
    | cons c cs =>
      have hc : c ≠ '\n' := fun he => h cs (by rw [he])
      simp only [List.cons_append] at ih ⊢
      rw [unifyEndChars, unifyEndChars, ih]
      · rfl
      · simpa using hc
      · simpa using hc
  | case4 c cs h1 h2 ih =>
    simp only [List.cons_append]
    rw [unifyEndChars, unifyEndChars, ih]
    · rfl
    all_goals simp_all

theorem cutLines_ne_nil {cs : List Char} (h : cs ≠ []) : cutLines cs ≠ [] := by
  cases cs with
  | nil => exact absurd rfl h
  | cons c cs => rw [cutLines]; split <;> [simp; split <;> simp]

/-- A text can be cut behind any of its line feeds. -/
theorem cutLines_append_newline (cs rest : List Char) :
    cutLines (cs ++ '\n' :: rest) = cutLines (cs ++ ['\n']) ++ cutLines rest := by
  induction cs with
  | nil => simp [cutLines]
  | cons c cs ih =>
    simp only [List.cons_append, cutLines, ih]
    split
    · rfl
    · have hne : cutLines (cs ++ ['\n']) ≠ [] := cutLines_ne_nil (by simp)
      obtain ⟨m, ms, hm⟩ := List.exists_cons_of_ne_nil hne
      simp [hm]

/-- A text without carriage returns is left as it is. -/
theorem unifyEndChars_append {cs : List Char} (h : '\r' ∉ cs) (rest : List Char) :
    unifyEndChars (cs ++ rest) = cs ++ unifyEndChars rest := by
  induction cs with
  | nil => rfl
  | cons c cs ih =>
    simp only [List.mem_cons, not_or] at h
    rw [List.cons_append, List.cons_append, unifyEndChars, ih h.2]
    · exact fun _ he _ => h.1 he.symm
    · exact fun he => h.1 he.symm

/-- Each line end starts a line feed. -/
theorem exists_unifyEndChars_cons {c : Char} (hc : isTerminator c = true) (rest : List Char) :
    ∃ tail, unifyEndChars (c :: rest) = '\n' :: tail := by
  simp only [isTerminator, Bool.or_eq_true, decide_eq_true_eq] at hc
  rcases hc with rfl | rfl
  · cases rest with
    | nil => exact ⟨[], rfl⟩
    | cons d ds =>
      by_cases hd : d = '\n'
      · subst hd; exact ⟨unifyEndChars ds, rfl⟩
      · exact ⟨unifyEndChars (d :: ds), by rw [unifyEndChars]; simpa using hd⟩
  · exact ⟨unifyEndChars rest, by rw [unifyEndChars] <;> simp⟩

theorem exists_unifyEndChars_append (cs : List Char) :
    ∃ start, unifyEndChars (cs ++ ['\n']) = start ++ ['\n'] := by
  fun_induction unifyEndChars cs with
  | case1 => exact ⟨[], rfl⟩
  | case2 cs ih =>
    obtain ⟨start, hs⟩ := ih
    exact ⟨'\n' :: start, by simp [unifyEndChars, hs]⟩
  | case3 cs h ih =>
    obtain ⟨start, hs⟩ := ih
    cases cs with
    | nil => exact ⟨[], rfl⟩
    | cons c cs =>
      refine ⟨'\n' :: start, ?_⟩
      rw [List.cons_append, List.cons_append, unifyEndChars, ← List.cons_append, hs]
      · rfl
      · exact fun ds he => h cs (by rw [(List.cons.inj he).1])
  | case4 c cs h1 h2 ih =>
    obtain ⟨start, hs⟩ := ih
    refine ⟨c :: start, ?_⟩
    rw [List.cons_append, unifyEndChars, hs]
    · rfl
    · exact fun _ he _ => h2 he
    · exact h2

/-- **Each written line becomes lines of the file on its own.** -/
theorem lines_unifyEnds_unlines : ∀ ls : List String,
    lines (unifyEnds (unlines ls)) =
      ls.flatMap fun l => (fileLines l.toList).map String.ofList
  | [] => by simp [lines, unifyEnds, unlines, unifyEndChars, cutLines]
  | l :: ls => by
    have ih := lines_unifyEnds_unlines ls
    -- the first line ends with a line feed of its own, and there the text can be cut
    obtain ⟨start, hs⟩ := exists_unifyEndChars_append l.toList
    simp only [lines, unifyEnds, String.toList_ofList] at ih ⊢
    rw [toList_unlines_cons, unifyEndChars_append_newline, hs, List.append_assoc,
      List.singleton_append, cutLines_append_newline, List.map_append, ih, List.flatMap_cons,
      fileLines, hs]

/-- A line without a line end is one line of the file. -/
theorem fileLines_of_holdsNoEnd {l : List Char} (h : HoldsNoEnd l) : fileLines l = [l] := by
  rw [fileLines, unifyEndChars_append h.return_not_mem]
  exact cutLines_append h.newline_not_mem []

/-- What a written line becomes starts with its start up to the first line end. -/
theorem head?_fileLines (l : List Char) :
    (fileLines l).head? = some (l.takeWhile fun c => !isTerminator c) := by
  have hstart : HoldsNoEnd (l.takeWhile fun c => !isTerminator c) := fun c hc => by
    simpa using List.mem_takeWhile_imp hc
  rw [fileLines]
  nth_rewrite 1 [← l.takeWhile_append_dropWhile (p := fun c => !isTerminator c)]
  rw [List.append_assoc, unifyEndChars_append hstart.return_not_mem]
  -- behind the start comes a line end, its own or the one that is written behind every line
  have hrest : ∃ tail, unifyEndChars ((l.dropWhile fun c => !isTerminator c) ++ ['\n']) =
      '\n' :: tail := by
    cases h : l.dropWhile fun c => !isTerminator c with
    | nil => exact exists_unifyEndChars_cons (by decide) _
    | cons c rest =>
      have hc := List.head_dropWhile_not (fun c => !isTerminator c) (l := l) (by simp [h])
      exact exists_unifyEndChars_cons (by simpa [h] using hc) _
  obtain ⟨tail, ht⟩ := hrest
  rw [ht, cutLines_append hstart.newline_not_mem]
  rfl

/-- Cutting a text into lines loses nothing but the line feeds. -/
theorem flatten_cutLines (cs : List Char) : (cutLines cs).flatten = cs.filter (· ≠ '\n') := by
  induction cs with
  | nil => rfl
  | cons c cs ih =>
    rw [cutLines]
    split
    next h => simp [h, ih]
    next h =>
      rw [List.filter_cons_of_pos (by simp [h]), ← ih]
      split
      next hn => simp [hn]
      next m ms hm => simp [hm]

theorem filter_unifyEndChars (cs : List Char) :
    (unifyEndChars cs).filter (· ≠ '\n') = cs.filter fun c => !isTerminator c := by
  fun_induction unifyEndChars cs with
  | case1 => rfl
  | case2 cs ih =>
    rw [List.filter_cons_of_neg (by simp), List.filter_cons_of_neg (by decide),
      List.filter_cons_of_neg (by decide), ih]
  | case3 cs h ih =>
    rw [List.filter_cons_of_neg (by simp), List.filter_cons_of_neg (by decide), ih]
  | case4 c cs h1 h2 ih =>
    by_cases hn : c = '\n'
    · subst hn
      rw [List.filter_cons_of_neg (by simp), List.filter_cons_of_neg (by decide), ih]
    · have hc : isTerminator c = false := by simpa [isTerminator, hn] using h2
      rw [List.filter_cons_of_pos (by simp [hn]), List.filter_cons_of_pos (by simp [hc]), ih]

/-- What a written line becomes holds its characters except the line ends. -/
theorem flatten_fileLines (l : List Char) :
    (fileLines l).flatten = l.filter fun c => !isTerminator c := by
  rw [fileLines, flatten_cutLines, filter_unifyEndChars, List.filter_append,
    List.filter_cons_of_neg (by decide), List.filter_nil, List.append_nil]

end UpsSetup.Text
