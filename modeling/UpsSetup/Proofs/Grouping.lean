import Mathlib.Logic.Basic
import UpsSetup.Request.Report

/-!
# Grouped command lines

How the words of a command line are read (`Word.text_ofText`) and grouped (`ofWords_option`), and
what the request is that they make: its problems and records depend on the occurrences of each
option only, and not on the order in which different options stand (`problems_eq_nil_iff`,
`records_eq_of_only`). -/

namespace UpsSetup

namespace Word

/-- The word as it stands on the command line. -/
def text : Word → String
  | literal text => text
  | option dashes name => dashes.text ++ name
  | separator => "--"

/-- What a text is as a word says what the text was. -/
theorem text_ofText (word : String) : (ofText word).text = word := by
  rw [← String.toList_inj]
  unfold ofText ofChars
  split <;> simp_all [text, Dashes.text]

theorem eq_of_ofText_eq_literal {word text : String} (h : ofText word = .literal text) :
    text = word := by
  have htext := text_ofText word
  rw [h] at htext
  exact htext

/-- Only a dash makes a word anything else than a literal. -/
theorem ofText_of_head?_ne {word : String} (h : word.toList.head? ≠ some '-') :
    ofText word = .literal word := by
  unfold ofText ofChars
  split
  next hchars => simp [hchars] at h
  next hchars => simp [hchars] at h
  next hchars => simp [hchars] at h
  next hchars => simp [hchars] at h
  next hchars => simp [hchars] at h
  next => rw [String.ofList_toList]

end Word

namespace Arguments

/-! ## Words -/

/-- Literals in front of the first option belong to none. -/
theorem ofWords_literals {literals : List String}
    (h : ∀ text ∈ literals, Word.ofText text = .literal text) (more : List String) :
    ofWords (literals ++ more) = ⟨literals ++ (ofWords more).leading, (ofWords more).segments⟩ := by
  induction literals with
  | nil => rfl
  | cons text literals ih =>
    rw [List.cons_append, ofWords, h text List.mem_cons_self,
      ih fun text ht => h text (List.mem_cons_of_mem _ ht)]
    rfl

/-- An option takes the literals that follow it, up to the next option. -/
theorem ofWords_option {word name : String} {dashes : Dashes}
    (hword : Word.ofText word = .option dashes name) {literals : List String}
    (hliterals : ∀ text ∈ literals, Word.ofText text = .literal text) {more : List String}
    (hmore : (ofWords more).leading = []) :
    ofWords (word :: (literals ++ more)) =
      ⟨[], ⟨some (dashes, name), literals⟩ :: (ofWords more).segments⟩ := by
  rw [ofWords, hword, ofWords_literals hliterals, hmore, List.append_nil]
  rfl

/-! ## The directory -/

theorem ofText_localDirectory : Word.ofText Catalog.localDirectory.option =
    .option .two Catalog.localDirectory.name := by decide

/-- A directory that looks like no option is the value of the option before it. -/
theorem ofWords_localDirectory {directory : String}
    (hd : Word.ofText directory = .literal directory) {more : List String}
    {segments : List Segment} (hmore : ofWords more = ⟨[], segments⟩) :
    ofWords (Catalog.localDirectory.option :: directory :: more) =
      ⟨[], ⟨some (.two, Catalog.localDirectory.name), [directory]⟩ :: segments⟩ := by
  have hliterals : ∀ text ∈ [directory], Word.ofText text = .literal text := by simpa using hd
  have hall := ofWords_option ofText_localDirectory hliterals (congrArg leading hmore)
  rwa [hmore] at hall

/-- A directory that looks like an option is missing as the value of the option before it, whatever
follows. -/
theorem exists_segment_of_not_literal {directory : String}
    (hd : Word.ofText directory ≠ .literal directory) : ∃ option, ∀ more,
      ofWords (Catalog.localDirectory.option :: directory :: more) =
        ⟨[], ⟨some (.two, Catalog.localDirectory.name), []⟩ :: ⟨option, (ofWords more).leading⟩ ::
          (ofWords more).segments⟩ := by
  have hwords : ∀ more, ofWords (Catalog.localDirectory.option :: directory :: more) =
      cons (.option .two Catalog.localDirectory.name)
        (cons (Word.ofText directory) (ofWords more)) := by
    intro more
    rw [← ofText_localDirectory]
    rfl
  -- the word after the option for the directory starts a segment of its own
  cases hword : Word.ofText directory with
  | literal text =>
    rw [Word.eq_of_ofText_eq_literal hword] at hword
    exact absurd hword hd
  | option dashes name =>
    refine ⟨some (dashes, name), fun more => ?_⟩
    rw [hwords, hword]
    rfl
  | separator =>
    refine ⟨none, fun more => ?_⟩
    rw [hwords, hword]
    rfl

/-! ## Names -/

theorem nodup_eraseDups {α : Type} [BEq α] [LawfulBEq α] (l : List α) : l.eraseDups.Nodup := by
  induction h : l.length using Nat.strongRecOn generalizing l with
  | ind n ih =>
    cases l with
    | nil => simp
    | cons a l =>
      rw [List.eraseDups_cons, List.nodup_cons]
      have hlt : (l.filter fun b => !b == a).length < n := by
        have hle := List.length_filter_le (fun b => !b == a) l
        rw [List.length_cons] at h
        omega
      refine ⟨fun hmem => ?_, ih _ hlt _ rfl⟩
      have hfilter := (List.mem_filter.mp (List.mem_eraseDups.mp hmem)).2
      simp at hfilter

theorem nodup_names (a : Arguments) (dashes : Dashes) : (a.names dashes).Nodup := nodup_eraseDups _

/-- The names are those of the segments. -/
theorem mem_names_iff {a : Arguments} {dashes : Dashes} {name : String} :
    name ∈ a.names dashes ↔ ∃ s ∈ a.segments, s.option = some (dashes, name) := by
  rw [names, List.mem_eraseDups, List.mem_filterMap]
  refine exists_congr fun s => and_congr_right fun _ => ?_
  rw [Option.bind_eq_some_iff]
  constructor
  · rintro ⟨⟨d, name'⟩, hs, h⟩
    dsimp only at h
    split at h
    next hd =>
      rw [Option.some.injEq] at h
      rw [hs, hd, h]
    next => simp at h
  · intro hs
    exact ⟨(dashes, name), hs, by simp⟩

theorem occurrences_eq_nil_iff {a : Arguments} {dashes : Dashes} {name : String} :
    a.occurrences name dashes = [] ↔ name ∉ a.names dashes := by
  rw [mem_names_iff, occurrences, List.map_eq_nil_iff, List.filter_eq_nil_iff]
  simp

theorem count_eq_zero_iff {a : Arguments} {dashes : Dashes} {name : String} :
    a.count name dashes = 0 ↔ name ∉ a.names dashes := by
  rw [count, List.length_eq_zero_iff, occurrences_eq_nil_iff]

theorem isGiven_iff {a : Arguments} {name : String} :
    a.isGiven name = true ↔ ∃ s ∈ a.segments, ∃ dashes, s.option = some (dashes, name) := by
  have hcount : a.isGiven name = true ↔ name ∈ a.names .one ∨ name ∈ a.names .two := by
    rw [isGiven, decide_eq_true_iff, Nat.pos_iff_ne_zero, ne_eq, Nat.add_eq_zero_iff,
      count_eq_zero_iff, count_eq_zero_iff, not_and_or, not_not, not_not]
  rw [hcount, mem_names_iff, mem_names_iff]
  constructor
  · rintro (⟨s, hs, ho⟩ | ⟨s, hs, ho⟩)
    · exact ⟨s, hs, .one, ho⟩
    · exact ⟨s, hs, .two, ho⟩
  · rintro ⟨s, hs, dashes, ho⟩
    cases dashes with
    | one => exact Or.inl ⟨s, hs, ho⟩
    | two => exact Or.inr ⟨s, hs, ho⟩

/-! ## Problems -/

/-- The options that exist have no problems if no occurrence of any of them has one, and no family
is both replaced and added to. -/
theorem problems_eq_nil_iff {a : Arguments} :
    a.problems = [] ↔
      (∀ name ∈ a.names .two, ∀ d, Catalog.find? name = some d →
        d.problems (a.occurrences name) = []) ∧ ∀ f, (a.familyCount f).conflicting = false := by
  have hall : ∀ f : Family, f ∈ Family.all := by
    intro f
    cases f <;> decide
  rw [problems, List.append_eq_nil_iff, List.flatMap_eq_nil_iff, List.map_eq_nil_iff,
    List.filter_eq_nil_iff]
  -- a name that is no option has no problems of its own: it is an unknown option
  refine and_congr (forall₂_congr fun name _ => ⟨fun h d hd => ?_, fun h => ?_⟩)
    ⟨fun h f => ?_, fun h f _ => ?_⟩
  · rwa [hd] at h
  · cases hd : Catalog.find? name with
    | none => rfl
    | some d => exact h d hd
  · exact Bool.eq_false_iff.mpr (h f (hall f))
  · rw [h f]
    exact Bool.false_ne_true

theorem unknownOptions_eq_nil_iff {a : Arguments} :
    a.unknownOptions = [] ↔
      a.names .one = [] ∧ ∀ name ∈ a.names .two, Catalog.find? name ≠ none := by
  have hmap : ∀ {dashes : Dashes} {name : String} (text : String), name ∈ a.names dashes →
      (a.occurrences name dashes).map (fun _ => text) ≠ [] := by
    intro dashes name text hmem h
    exact occurrences_eq_nil_iff.mp (List.map_eq_nil_iff.mp h) hmem
  rw [unknownOptions, List.append_eq_nil_iff, List.flatMap_eq_nil_iff, List.flatMap_eq_nil_iff,
    List.eq_nil_iff_forall_not_mem]
  refine and_congr (forall₂_congr fun name hmem => ?_) (forall₂_congr fun name hmem => ?_)
  · exact iff_of_false (hmap _ hmem) fun h => h.elim
  · cases Catalog.find? name with
    | none => exact iff_of_false (hmap _ hmem) fun h => h rfl
    | some d => exact iff_of_true rfl (Option.some_ne_none d)

/-! ## Records -/

theorem flatMap_eq_of_only {α β : Type} {l : List α} (hnodup : l.Nodup) {f : α → List β} {a : α}
    (ha : a ∈ l) (honly : ∀ b ∈ l, b ≠ a → f b = []) : l.flatMap f = f a := by
  induction l with
  | nil => simp at ha
  | cons b l ih =>
    obtain ⟨hb, hnodup⟩ := List.nodup_cons.mp hnodup
    rw [List.flatMap_cons]
    -- behind the element itself, and in front of it, nothing contributes
    by_cases hba : b = a
    · subst hba
      have hrest : l.flatMap f = [] := List.flatMap_eq_nil_iff.mpr fun c hc =>
        honly c (List.mem_cons_of_mem _ hc) fun hcb => hb (hcb ▸ hc)
      rw [hrest, List.append_nil]
    · have hmem : a ∈ l := (List.mem_cons.mp ha).resolve_left (Ne.symm hba)
      rw [honly b List.mem_cons_self hba, List.nil_append]
      exact ih hnodup hmem fun c hc => honly c (List.mem_cons_of_mem _ hc)

/-- If only one option of a family is given, the records of the family come in the order of its
occurrences. -/
theorem records_eq_of_only {a : Arguments} {f : Family} {name : String}
    (hname : (Catalog.find? name).bind Descriptor.family? = some f)
    (honly : ∀ name' ∈ a.names .two, (Catalog.find? name').bind Descriptor.family? = some f →
      name' = name) {α : Type} (ofArguments? : List String → Option α) :
    a.records f ofArguments? = (a.occurrences name).filterMap ofArguments? := by
  unfold records
  by_cases hmem : name ∈ a.names .two
  · rw [flatMap_eq_of_only (a.nodup_names .two) hmem fun name' hmem' hne => ?_]
    · rw [if_pos hname]
    · exact if_neg fun h => hne (honly name' hmem' h)
  · rw [occurrences_eq_nil_iff.mpr hmem, List.filterMap_nil, List.flatMap_eq_nil_iff]
    intro name' hmem'
    refine if_neg fun h => hmem ?_
    rwa [← honly name' hmem' h]

end Arguments

/-- Nothing is wrong with a command line if all its options exist, none has a problem, and all
literals belong to options. -/
theorem Request.isValid_iff {a : Arguments} :
    (Request.ofArguments a).isValid = true ↔
      a.unknownOptions = [] ∧ a.problems = [] ∧ a.topLevel = [] := by
  unfold Request.isValid
  rw [Bool.and_eq_true, Bool.and_eq_true, List.isEmpty_iff, List.isEmpty_iff, List.isEmpty_iff,
    and_assoc]
  rfl

/-- The directory of a valid command line looks like no option. -/
theorem Request.literal_of_isValid {directory : String} {more : List String}
    (h : (Request.ofWords (Catalog.localDirectory.option :: directory :: more)).isValid = true) :
    Word.ofText directory = .literal directory := by
  refine Classical.byContradiction fun hd => ?_
  obtain ⟨option, hwords⟩ := Arguments.exists_segment_of_not_literal hd
  rw [Request.ofWords, hwords] at h
  have hproblems := (Arguments.problems_eq_nil_iff.mp (Request.isValid_iff.mp h).2.1).1
  have hmem := hproblems Catalog.localDirectory.name
    (Arguments.mem_names_iff.mpr ⟨_, List.mem_cons_self, rfl⟩) Catalog.localDirectory (by decide)
  -- the option for the directory is given without a value
  have hvalue := (List.append_eq_nil_iff.mp hmem).2
  rw [Arguments.occurrences, List.filter_cons_of_pos (by simp)] at hvalue
  simp [Descriptor.valueProblem?] at hvalue

/-- If the usage text is asked for in place of a directory, it is so whatever follows. -/
theorem Request.help_of_not_literal {directory : String}
    (hd : Word.ofText directory ≠ .literal directory) {more : List String}
    (hmore : (Request.ofWords more).help = false)
    (h : (Request.ofWords (Catalog.localDirectory.option :: directory :: more)).help = true)
    (more' : List String) :
    (Request.ofWords (Catalog.localDirectory.option :: directory :: more')).help = true := by
  obtain ⟨option, hwords⟩ := Arguments.exists_segment_of_not_literal hd
  change Arguments.isGiven _ _ = true at h
  show Arguments.isGiven _ _ = true
  rw [hwords, Arguments.isGiven_iff] at h
  rw [hwords, Arguments.isGiven_iff]
  obtain ⟨s, hs, hasked⟩ := h
  rcases List.mem_cons.mp hs with rfl | hs
  · exact ⟨_, List.mem_cons_self, hasked⟩
  · rcases List.mem_cons.mp hs with rfl | hs
    · exact ⟨_, List.mem_cons_of_mem _ List.mem_cons_self, hasked⟩
    · exact absurd (Arguments.isGiven_iff.mpr ⟨s, hs, hasked⟩) (Bool.eq_false_iff.mp hmore)

end UpsSetup
