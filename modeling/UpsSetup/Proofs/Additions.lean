import UpsSetup.Proofs.Grouping

/-!
# Additions

Command lines that choose a directory and add records. Such a command line is valid if each of its
additions is (`Addition.isValid_iff`), and it asks for the records of its additions in their order
(`Addition.records_grouped`). So both can be taken apart where the command line can.
-/

namespace UpsSetup

/-- An option that adds to the records of a family, with its arguments. None of them is an option
itself. -/
structure Addition where
  family : Family
  arguments : List String
  literal : ∀ text ∈ arguments, Word.ofText text = .literal text

namespace Addition

/-- The option and its arguments as they stand on the command line. -/
def words (a : Addition) : List String := a.family.addOption.option :: a.arguments

/-- The command line that chooses a directory and makes the additions. -/
def commandLine (directory : String) (additions : List Addition) : List String :=
  [Catalog.localDirectory.option, directory] ++ additions.flatMap words

/-- The records of a family that additions describe. -/
def records {α : Type} (f : Family) (ofArguments? : List String → Option α)
    (additions : List Addition) : List α :=
  (additions.filter (·.family = f)).filterMap fun a => ofArguments? a.arguments

/-- The records of two lists of additions are those of the first, then those of the second. -/
theorem records_append {α : Type} (f : Family) (ofArguments? : List String → Option α)
    (additions more : List Addition) : records f ofArguments? (additions ++ more) =
      records f ofArguments? additions ++ records f ofArguments? more := by
  rw [records, List.filter_append, List.filterMap_append]
  rfl

/-- What describes a record are the arguments of an addition. -/
theorem exists_of_mem_records {α : Type} {f : Family} {ofArguments? : List String → Option α}
    {additions : List Addition} {r : α} (h : r ∈ records f ofArguments? additions) :
    ∃ a ∈ additions, a.family = f ∧ ofArguments? a.arguments = some r := by
  obtain ⟨a, ha, hr⟩ := List.mem_filterMap.mp h
  obtain ⟨ha, hf⟩ := List.mem_filter.mp ha
  exact ⟨a, ha, of_decide_eq_true hf, hr⟩

/-! ## Grouping -/

/-- The segment of an addition. -/
def segment (a : Addition) : Segment := ⟨some (.two, a.family.addOption.name), a.arguments⟩

theorem ofText_addOption (f : Family) :
    Word.ofText f.addOption.option = .option .two f.addOption.name := by
  cases f <;> decide

/-- Each addition is a segment of its own, with all its arguments. -/
theorem ofWords_words (additions : List Addition) :
    Arguments.ofWords (additions.flatMap words) = ⟨[], additions.map segment⟩ := by
  induction additions with
  | nil => rfl
  | cons a additions ih =>
    have hmore : (Arguments.ofWords (additions.flatMap words)).leading = [] := by rw [ih]
    rw [List.flatMap_cons]
    show Arguments.ofWords (a.family.addOption.option ::
      (a.arguments ++ additions.flatMap words)) = _
    rw [Arguments.ofWords_option (ofText_addOption a.family) a.literal hmore, ih]
    rfl

/-- What a command line of additions is grouped into. -/
def grouped (directory : String) (additions : List Addition) : Arguments :=
  ⟨[], ⟨some (.two, Catalog.localDirectory.name), [directory]⟩ :: additions.map segment⟩

theorem ofWords_commandLine {directory : String} (hd : Word.ofText directory = .literal directory)
    (additions : List Addition) :
    Arguments.ofWords (commandLine directory additions) = grouped directory additions :=
  Arguments.ofWords_localDirectory hd (ofWords_words additions)

variable {directory : String} {additions : List Addition}

/-- The options of such a command line are those that choose the directory or add records. -/
theorem mem_names_grouped_iff {dashes : Dashes} {name : String} :
    name ∈ (grouped directory additions).names dashes ↔ dashes = .two ∧
      (name = Catalog.localDirectory.name ∨ ∃ a ∈ additions, name = a.family.addOption.name) := by
  rw [Arguments.mem_names_iff]
  constructor
  · rintro ⟨s, hs, ho⟩
    rcases List.mem_cons.mp hs with rfl | hs
    · obtain ⟨rfl, rfl⟩ := Prod.mk.inj (Option.some.inj ho)
      exact ⟨rfl, Or.inl rfl⟩
    · obtain ⟨a, ha, rfl⟩ := List.mem_map.mp hs
      obtain ⟨rfl, rfl⟩ := Prod.mk.inj (Option.some.inj ho)
      exact ⟨rfl, Or.inr ⟨a, ha, rfl⟩⟩
  · rintro ⟨rfl, rfl | ⟨a, ha, rfl⟩⟩
    · exact ⟨_, List.mem_cons_self, rfl⟩
    · exact ⟨a.segment, List.mem_cons_of_mem _ (List.mem_map_of_mem ha), rfl⟩

theorem addOption_name_inj {f f' : Family} : f.addOption.name = f'.addOption.name ↔ f = f' := by
  cases f <;> cases f' <;> decide

/-- An option that adds occurs once for each addition to its family, with its arguments. -/
theorem occurrences_addOption (f : Family) :
    (grouped directory additions).occurrences f.addOption.name =
      (additions.filter (·.family = f)).map (·.arguments) := by
  have hlocal : Catalog.localDirectory.name ≠ f.addOption.name := by
    cases f <;> decide
  have hsegment : ∀ a : Addition,
      decide (a.segment.option = some (Dashes.two, f.addOption.name)) = decide (a.family = f) := by
    intro a
    simp [segment, addOption_name_inj]
  unfold Arguments.occurrences grouped
  rw [List.filter_cons_of_neg (by simpa using hlocal), List.filter_map, List.map_map]
  exact congrArg _ (List.filter_congr fun a _ => hsegment a)

theorem occurrences_localDirectory :
    (grouped directory additions).occurrences Catalog.localDirectory.name = [[directory]] := by
  have hne : ∀ f : Family, f.addOption.name ≠ Catalog.localDirectory.name := by
    intro f
    cases f <;> decide
  unfold Arguments.occurrences grouped
  rw [List.filter_cons_of_pos (by simp), List.filter_eq_nil_iff.mpr]
  · rfl
  · intro s hs
    obtain ⟨a, -, rfl⟩ := List.mem_map.mp hs
    simpa [segment] using hne a.family

/-! ## What is asked for -/

theorem find?_addOption (f : Family) : Catalog.find? f.addOption.name = some f.addOption := by
  cases f <;> decide

theorem find?_localDirectory :
    Catalog.find? Catalog.localDirectory.name = some Catalog.localDirectory := by decide

/-- No other option of the catalog is given. -/
theorem not_mem_names_grouped {d : Descriptor} (hlocal : d ≠ Catalog.localDirectory)
    (hadd : ∀ f : Family, d ≠ f.addOption) (hd : Catalog.find? d.name = some d) (dashes : Dashes) :
    d.name ∉ (grouped directory additions).names dashes := by
  intro hmem
  rcases (mem_names_grouped_iff.mp hmem).2 with h | ⟨a, -, h⟩
  · rw [h, find?_localDirectory, Option.some.injEq] at hd
    exact hlocal hd.symm
  · rw [h, find?_addOption, Option.some.injEq] at hd
    exact hadd a.family hd.symm

theorem unknownOptions_grouped : (grouped directory additions).unknownOptions = [] := by
  refine Arguments.unknownOptions_eq_nil_iff.mpr ⟨?_, fun name hmem => ?_⟩
  · refine List.eq_nil_iff_forall_not_mem.mpr fun name hmem => ?_
    exact absurd (mem_names_grouped_iff.mp hmem).1 (by decide)
  · rcases (mem_names_grouped_iff.mp hmem).2 with rfl | ⟨a, -, rfl⟩
    · rw [find?_localDirectory]
      exact Option.some_ne_none _
    · rw [find?_addOption]
      exact Option.some_ne_none _

theorem topLevel_grouped : (grouped directory additions).topLevel = [] := by
  have hnone : (grouped directory additions).segments.filter (·.option = none) = [] := by
    refine List.filter_eq_nil_iff.mpr fun s hs => ?_
    rcases List.mem_cons.mp hs with rfl | hs
    · simp
    · obtain ⟨a, -, rfl⟩ := List.mem_map.mp hs
      simp [segment]
  rw [Arguments.topLevel, hnone]
  rfl

/-- Nothing replaces records, so no family is both replaced and added to. -/
theorem not_conflicting_grouped (f : Family) :
    ((grouped directory additions).familyCount f).conflicting = false := by
  have hzero : (grouped directory additions).count f.setOption.name = 0 := by
    refine Arguments.count_eq_zero_iff.mpr (not_mem_names_grouped ?_ (fun f' => ?_) ?_ .two)
    · cases f <;> decide
    · cases f <;> cases f' <;> decide
    · cases f <;> decide
  rw [Arguments.familyCount, hzero]
  rfl

/-- The option that adds to a family has no problems if no addition to the family has one. -/
theorem problems_addOption_eq_nil_iff (f : Family) :
    f.addOption.problems ((grouped directory additions).occurrences f.addOption.name) = [] ↔
      ∀ a ∈ additions, a.family = f → f.addOption.recordProblem? a.arguments = none := by
  have hproblems : ∀ occurrences, f.addOption.problems occurrences =
      occurrences.filterMap f.addOption.recordProblem? := fun _ => rfl
  rw [occurrences_addOption, hproblems, List.filterMap_map, List.filterMap_eq_nil_iff]
  simp only [List.mem_filter, decide_eq_true_eq, and_imp, Function.comp_apply]

/-- A command line of additions is valid if each addition is. -/
theorem isValid_iff :
    (Request.ofArguments (grouped directory additions)).isValid = true ↔
      ∀ a ∈ additions, a.family.addOption.recordProblem? a.arguments = none := by
  rw [Request.isValid_iff, and_iff_right unknownOptions_grouped, and_iff_left topLevel_grouped,
    Arguments.problems_eq_nil_iff, and_iff_left not_conflicting_grouped]
  constructor
  · intro h a ha
    have hmem : a.family.addOption.name ∈ (grouped directory additions).names .two :=
      mem_names_grouped_iff.mpr ⟨rfl, Or.inr ⟨a, ha, rfl⟩⟩
    have hproblems := h _ hmem _ (find?_addOption a.family)
    exact (problems_addOption_eq_nil_iff a.family).mp hproblems a ha rfl
  · intro h name hmem d hd
    -- the option for the directory has its one value, and the others add
    rcases (mem_names_grouped_iff.mp hmem).2 with rfl | ⟨a, -, rfl⟩
    · rw [find?_localDirectory, Option.some.injEq] at hd
      rw [← hd, occurrences_localDirectory]
      rfl
    · rw [find?_addOption, Option.some.injEq] at hd
      rw [← hd]
      exact (problems_addOption_eq_nil_iff a.family).mpr fun a' ha' hf => hf ▸ h a' ha'

/-- **The command line asks for the records of its additions, in their order.** -/
theorem records_grouped {α : Type} (f : Family) (ofArguments? : List String → Option α) :
    (grouped directory additions).records f ofArguments? = records f ofArguments? additions := by
  have hfind : (Catalog.find? f.addOption.name).bind Descriptor.family? = some f := by
    rw [find?_addOption]
    rfl
  rw [Arguments.records_eq_of_only hfind, occurrences_addOption, List.filterMap_map]
  · rfl
  · -- no other option that is given belongs to the family
    intro name hmem hname
    rcases (mem_names_grouped_iff.mp hmem).2 with rfl | ⟨a, -, rfl⟩
    · rw [find?_localDirectory] at hname
      simp [Catalog.localDirectory, Descriptor.family?] at hname
    · rw [find?_addOption, Option.bind_some] at hname
      rw [Option.some.inj hname]

/-- Where something is added to a family, what is there already is kept. -/
theorem keepsExisting_grouped {α : Type} {f : Family} {ofArguments? : List String → Option α}
    (h : records f ofArguments? additions ≠ []) :
    (Request.ofArguments (grouped directory additions)).keepsExisting f = true := by
  obtain ⟨r, hr⟩ := List.exists_mem_of_ne_nil _ h
  obtain ⟨a, ha, rfl, -⟩ := exists_of_mem_records hr
  have hcount : (grouped directory additions).count a.family.addOption.name ≠ 0 := by
    rw [ne_eq, Arguments.count_eq_zero_iff, not_not]
    exact mem_names_grouped_iff.mpr ⟨rfl, Or.inr ⟨a, ha, rfl⟩⟩
  exact decide_eq_true (Nat.pos_of_ne_zero hcount)

/-- Apart from its records, a command line of additions asks for nothing but the directory. -/
theorem request_grouped (directory : String) (additions : List Addition) :
    (Request.ofArguments (grouped directory additions)).help = false ∧
      (Request.ofArguments (grouped directory additions)).isConfigured = false ∧
      (Request.ofArguments (grouped directory additions)).localDirectory = some directory ∧
      (Request.ofArguments (grouped directory additions)).mode = none := by
  have hnot : ∀ d : Descriptor, d ∈ [Catalog.help, Catalog.isConfigured, Catalog.mode] →
      ∀ dashes, d.name ∉ (grouped directory additions).names dashes := by
    intro d hd dashes
    simp only [List.mem_cons, List.not_mem_nil, or_false] at hd
    rcases hd with rfl | rfl | rfl
    · exact not_mem_names_grouped (by decide) (fun f => by cases f <;> decide) (by decide) dashes
    · exact not_mem_names_grouped (by decide) (fun f => by cases f <;> decide) (by decide) dashes
    · exact not_mem_names_grouped (by decide) (fun f => by cases f <;> decide) (by decide) dashes
  refine ⟨?_, ?_, ?_, ?_⟩
  · show decide _ = false
    rw [Arguments.count_eq_zero_iff.mpr (hnot _ (by simp) .one),
      Arguments.count_eq_zero_iff.mpr (hnot _ (by simp) .two)]
    rfl
  · show decide _ = false
    rw [Arguments.count_eq_zero_iff.mpr (hnot _ (by simp) .two)]
    rfl
  · show (grouped directory additions).value? Catalog.localDirectory = _
    rw [Arguments.value?, Arguments.occurrence?, occurrences_localDirectory]
    rfl
  · show ((grouped directory additions).value? Catalog.mode).bind Mode.ofName? = none
    rw [Arguments.value?, Arguments.occurrence?,
      Arguments.occurrences_eq_nil_iff.mpr (hnot _ (by simp) .two)]
    rfl

/-! ## Directories that look like options -/

/-- A directory that looks like an option makes the command line invalid. -/
theorem not_isValid_of_not_literal (hd : Word.ofText directory ≠ .literal directory)
    (additions : List Addition) :
    (Request.ofWords (commandLine directory additions)).isValid = false :=
  Bool.eq_false_iff.mpr fun hvalid => hd (Request.literal_of_isValid hvalid)

/-- Whether a directory that looks like an option asks for help does not depend on what is added. -/
theorem help_of_not_literal (hd : Word.ofText directory ≠ .literal directory)
    (additions additions' : List Addition)
    (h : (Request.ofWords (commandLine directory additions)).help = true) :
    (Request.ofWords (commandLine directory additions')).help = true := by
  have hmore : (Request.ofWords (additions.flatMap words)).help = false := by
    rw [Bool.eq_false_iff]
    intro hasked
    change Arguments.isGiven _ _ = true at hasked
    rw [ofWords_words, Arguments.isGiven_iff] at hasked
    -- no addition asks for help
    obtain ⟨s, hs, dashes, ho⟩ := hasked
    obtain ⟨a, -, rfl⟩ := List.mem_map.mp hs
    have hhelp : ∀ f : Family, f.addOption.name ≠ Catalog.help.name := by
      intro f
      cases f <;> decide
    exact hhelp a.family (Prod.mk.inj (Option.some.inj ho)).2
  exact Request.help_of_not_literal hd hmore h (additions'.flatMap words)

end Addition

end UpsSetup
