import Mathlib.Data.List.Basic
import UpsSetup.Proofs.Grouping

/-!
# The grammar of the options

Which command lines are valid, said without the check. An option accepts or refuses its occurrences
as a whole (`Descriptor.Accepts`), and it has no problems exactly if it accepts them
(`Descriptor.problems_eq_nil_iff`). From this the grammar follows option by option
(`Arguments.IsGrammatical`), with the names and the numbers of arguments spelled out.

The second half counts what the operator is told: a line for each problem and one for each hint.
-/

namespace UpsSetup

/-! ## One option -/

namespace Descriptor

/-- The option accepts its occurrences, which are given by their arguments. -/
def Accepts (d : Descriptor) (occurrences : List (List String)) : Prop :=
  match d.kind with
  | .help => True
  | .flag => occurrences.length ≤ 1 ∧ ∀ args ∈ occurrences, args = []
  | .value _ choices => occurrences.length ≤ 1 ∧
      ∀ args ∈ occurrences, ∃ value, args = [value] ∧ ∀ names ∈ choices, value ∈ names
  | .record family _ =>
      ∀ args ∈ occurrences, family.minArgs ≤ args.length ∧ args.length ≤ family.maxArgs

/-- What does not occur is accepted. -/
theorem accepts_nil (d : Descriptor) : d.Accepts [] := by
  unfold Accepts
  cases d.kind with
  | help => exact trivial
  | flag => exact ⟨Nat.zero_le 1, fun _ h => absurd h List.not_mem_nil⟩
  | value metavar choices => exact ⟨Nat.zero_le 1, fun _ h => absurd h List.not_mem_nil⟩
  | record family keeps => exact fun _ h => absurd h List.not_mem_nil

/-- An option with a value takes one argument, and where there is a choice one of its words. -/
theorem valueProblem?_eq_none_iff {d : Descriptor} {args : List String} :
    d.valueProblem? args = none ↔
      ∃ value, args = [value] ∧ ∀ names ∈ d.choices, value ∈ names := by
  match args with
  | [] => simp [valueProblem?]
  | [value] =>
    have hchoices : d.choices.all (value ∈ ·) = true ↔ ∀ names ∈ d.choices, value ∈ names := by
      cases d.choices <;> simp
    rw [valueProblem?]
    by_cases h : d.choices.all (value ∈ ·) = true
    · rw [if_pos h]
      exact iff_of_true rfl ⟨value, rfl, hchoices.mp h⟩
    · rw [if_neg h]
      refine iff_of_false (by simp) ?_
      rintro ⟨value', hvalue, hall⟩
      obtain ⟨rfl, -⟩ := List.cons.inj hvalue
      exact h (hchoices.mpr hall)
  | _ :: _ :: _ => simp [valueProblem?]

/-- A record is described by a number of arguments within the bounds of its family. -/
theorem recordProblem?_eq_none_iff {d : Descriptor} {args : List String} (hpos : 0 < d.minArgs) :
    d.recordProblem? args = none ↔ d.minArgs ≤ args.length ∧ args.length ≤ d.maxArgs := by
  unfold recordProblem?
  by_cases hnil : args = []
  · rw [if_pos hnil, hnil]
    exact iff_of_false (by simp) fun h => by simp at h; omega
  · rw [if_neg hnil]
    by_cases hone : d.minArgs = d.maxArgs ∧ args.length ≠ d.minArgs
    · rw [if_pos hone]
      exact iff_of_false (by simp) fun h => hone.2 (by omega)
    · rw [if_neg hone]
      by_cases hfew : args.length < d.minArgs
      · rw [if_pos hfew]
        exact iff_of_false (by simp) fun h => by omega
      · rw [if_neg hfew]
        by_cases hmany : d.maxArgs < args.length
        · rw [if_pos hmany]
          exact iff_of_false (by simp) fun h => by omega
        · rw [if_neg hmany]
          exact iff_of_true rfl ⟨by omega, by omega⟩

theorem minArgs_pos (f : Family) : 0 < f.minArgs := by
  cases f <;> decide

/-- **An option has no problems exactly if it accepts its occurrences.** -/
theorem problems_eq_nil_iff {d : Descriptor} {occurrences : List (List String)} :
    d.problems occurrences = [] ↔ d.Accepts occurrences := by
  have hrepeated : List.replicate (occurrences.length - 1) (OptionProblem.repeated d) = [] ↔
      occurrences.length ≤ 1 := by
    rw [List.replicate_eq_nil_iff]
    omega
  unfold problems Accepts
  cases hkind : d.kind with
  | help => simp
  | flag =>
    dsimp only
    rw [List.append_eq_nil_iff, hrepeated, List.map_eq_nil_iff, List.filter_eq_nil_iff]
    simp
  | value metavar choices =>
    have hchoices : d.choices = choices := by rw [Descriptor.choices, hkind]
    dsimp only
    rw [List.append_eq_nil_iff, hrepeated, ← hchoices]
    refine and_congr_right fun hlen => ?_
    -- an option that occurs at most once is judged by its only occurrence
    match occurrences with
    | [] => simp
    | [args] =>
      rw [List.head?_cons, Option.bind_some, Option.toList_eq_nil_iff, List.forall_mem_singleton]
      exact valueProblem?_eq_none_iff
    | _ :: _ :: _ => simp at hlen
  | record family keeps =>
    have hmin : d.minArgs = family.minArgs := by rw [minArgs, hkind]
    have hmax : d.maxArgs = family.maxArgs := by rw [maxArgs, hkind]
    dsimp only
    rw [List.filterMap_eq_nil_iff, ← hmin, ← hmax]
    exact forall₂_congr fun args _ => recordProblem?_eq_none_iff (hmin ▸ minArgs_pos family)

end Descriptor

namespace Catalog

/-- The options have different names, so each is found under its own. -/
theorem find?_name {d : Descriptor} (h : d ∈ all) : find? d.name = some d := by
  revert d
  decide

theorem find?_eq_some_iff {name : String} {d : Descriptor} :
    find? name = some d ↔ d ∈ all ∧ d.name = name := by
  constructor
  · intro h
    exact ⟨List.mem_of_find?_eq_some h, by simpa using List.find?_some h⟩
  · rintro ⟨h, rfl⟩
    exact find?_name h

theorem find?_ne_none_iff {name : String} : find? name ≠ none ↔ name ∈ all.map (·.name) := by
  rw [Option.ne_none_iff_exists', List.mem_map]
  exact exists_congr fun d => find?_eq_some_iff

/-- A family has two options. -/
theorem family?_find?_eq_some_iff {name : String} {f : Family} :
    (find? name).bind Descriptor.family? = some f ↔
      name = f.setOption.name ∨ name = f.addOption.name := by
  have hall : ∀ d ∈ all, ∀ f ∈ d.family?,
      d.name = f.setOption.name ∨ d.name = f.addOption.name := by decide
  constructor
  · intro h
    obtain ⟨d, hfind, hf⟩ := Option.bind_eq_some_iff.mp h
    obtain ⟨hd, rfl⟩ := find?_eq_some_iff.mp hfind
    exact hall d hd f hf
  · rintro (rfl | rfl)
    · cases f <;> decide
    · cases f <;> decide

end Catalog

/-! ## The whole command line -/

namespace Arguments

theorem conflicting_eq_false_iff {a : Arguments} {f : Family} :
    (a.familyCount f).conflicting = false ↔
      a.occurrences f.setOption.name = [] ∨ a.occurrences f.addOption.name = [] := by
  rw [familyCount, FamilyCount.conflicting, Bool.and_eq_false_iff, decide_eq_false_iff_not,
    decide_eq_false_iff_not, Nat.not_lt, Nat.not_lt, Nat.le_zero, Nat.le_zero, count, count,
    List.length_eq_zero_iff, List.length_eq_zero_iff]

/-- All literals belong to options if there are none in front and none behind a separator. -/
theorem topLevel_eq_nil_iff {a : Arguments} :
    a.topLevel = [] ↔
      a.leading = [] ∧ ∀ s ∈ a.segments, s.option = none → s.arguments = [] := by
  rw [topLevel, List.append_eq_nil_iff, List.flatMap_eq_nil_iff]
  simp

/-- All options have two dashes and are in the catalog. -/
theorem unknownOptions_eq_nil_iff_forall {a : Arguments} :
    a.unknownOptions = [] ↔ ∀ s ∈ a.segments, ∀ dashes name, s.option = some (dashes, name) →
      dashes = .two ∧ name ∈ Catalog.all.map (·.name) := by
  rw [unknownOptions_eq_nil_iff, List.eq_nil_iff_forall_not_mem]
  simp only [Catalog.find?_ne_none_iff]
  constructor
  · rintro ⟨hone, htwo⟩ s hs dashes name ho
    cases dashes with
    | one => exact absurd (mem_names_iff.mpr ⟨s, hs, ho⟩) (hone name)
    | two => exact ⟨rfl, htwo name (mem_names_iff.mpr ⟨s, hs, ho⟩)⟩
  · intro h
    constructor
    · intro name hname
      obtain ⟨s, hs, ho⟩ := mem_names_iff.mp hname
      exact absurd (h s hs _ _ ho).1 (by decide)
    · intro name hname
      obtain ⟨s, hs, ho⟩ := mem_names_iff.mp hname
      exact (h s hs _ _ ho).2

/-- A command line is valid if its options exist, accept their occurrences and do not exclude each
other, and all literals belong to options. -/
theorem isValid_iff_accepts {a : Arguments} :
    (Request.ofArguments a).isValid = true ↔
      (∀ s ∈ a.segments, ∀ dashes name, s.option = some (dashes, name) →
        dashes = .two ∧ name ∈ Catalog.all.map (·.name)) ∧
      (∀ d ∈ Catalog.all, d.Accepts (a.occurrences d.name)) ∧
      (∀ f, (a.familyCount f).conflicting = false) ∧ a.topLevel = [] := by
  have hoptions : (∀ name ∈ a.names .two, ∀ d, Catalog.find? name = some d →
      d.problems (a.occurrences name) = []) ↔
        ∀ d ∈ Catalog.all, d.Accepts (a.occurrences d.name) := by
    constructor
    · intro h d hd
      by_cases hmem : d.name ∈ a.names .two
      · exact Descriptor.problems_eq_nil_iff.mp (h _ hmem d (Catalog.find?_name hd))
      · rw [occurrences_eq_nil_iff.mpr hmem]
        exact d.accepts_nil
    · intro h name _ d hfind
      obtain ⟨hd, rfl⟩ := Catalog.find?_eq_some_iff.mp hfind
      exact Descriptor.problems_eq_nil_iff.mpr (h d hd)
  rw [Request.isValid_iff, unknownOptions_eq_nil_iff_forall, problems_eq_nil_iff, hoptions,
    and_assoc]

/-- The names of the options. -/
def optionNames : List String :=
  ["help", "autoconfigure", "is-configured", "local", "system", "mode", "set-monitor",
    "add-monitor", "set-listen", "add-listen", "set-device", "add-device"]

/-- The grammar of the options. -/
structure IsGrammatical (a : Arguments) : Prop where
  options : ∀ s ∈ a.segments, ∀ dashes name, s.option = some (dashes, name) →
    dashes = .two ∧ name ∈ optionNames
  literals : a.leading = [] ∧ ∀ s ∈ a.segments, s.option = none → s.arguments = []
  flags : ∀ name ∈ ["autoconfigure", "is-configured", "system"],
    (a.occurrences name).length ≤ 1 ∧ ∀ args ∈ a.occurrences name, args = []
  directory : (a.occurrences "local").length ≤ 1 ∧
    ∀ args ∈ a.occurrences "local", args.length = 1
  mode : (a.occurrences "mode").length ≤ 1 ∧
    ∀ args ∈ a.occurrences "mode", ∃ m : Mode, args = [m.name]
  monitors : ∀ name ∈ ["set-monitor", "add-monitor"],
    ∀ args ∈ a.occurrences name, args.length = 6
  listens : ∀ name ∈ ["set-listen", "add-listen"],
    ∀ args ∈ a.occurrences name, args.length = 1 ∨ args.length = 2
  devices : ∀ name ∈ ["set-device", "add-device"],
    ∀ args ∈ a.occurrences name, args.length = 3 ∨ args.length = 4
  exclusive : ∀ f : Family,
    a.occurrences ("set-" ++ f.name) = [] ∨ a.occurrences ("add-" ++ f.name) = []

theorem names_all : Catalog.all.map (·.name) = optionNames := by decide

theorem accepts_localDirectory_iff {occurrences : List (List String)} :
    Catalog.localDirectory.Accepts occurrences ↔
      occurrences.length ≤ 1 ∧ ∀ args ∈ occurrences, args.length = 1 := by
  have hone : ∀ args : List String, (∃ value, args = [value] ∧
      ∀ names ∈ (none : Option (List String)), value ∈ names) ↔ args.length = 1 := by
    intro args
    simp [List.length_eq_one_iff]
  exact and_congr_right fun _ => forall₂_congr fun args _ => hone args

theorem accepts_mode_iff {occurrences : List (List String)} :
    Catalog.mode.Accepts occurrences ↔
      occurrences.length ≤ 1 ∧ ∀ args ∈ occurrences, ∃ m : Mode, args = [m.name] := by
  have hmode : ∀ args : List String, (∃ value, args = [value] ∧
      ∀ names ∈ some (Mode.all.map Mode.name), value ∈ names) ↔ ∃ m : Mode, args = [m.name] := by
    intro args
    have hall : ∀ m : Mode, m ∈ Mode.all := by
      intro m
      cases m <;> decide
    simp only [Option.mem_def, Option.some.injEq, forall_eq', List.mem_map]
    constructor
    · rintro ⟨value, rfl, m, -, rfl⟩
      exact ⟨m, rfl⟩
    · rintro ⟨m, rfl⟩
      exact ⟨m.name, rfl, m, hall m, rfl⟩
  exact and_congr_right fun _ => forall₂_congr fun args _ => hmode args

/-- What the catalog asks for, option by option. -/
theorem accepts_all_iff {a : Arguments} :
    (∀ d ∈ Catalog.all, d.Accepts (a.occurrences d.name)) ↔
      (∀ name ∈ ["autoconfigure", "is-configured", "system"],
        (a.occurrences name).length ≤ 1 ∧ ∀ args ∈ a.occurrences name, args = []) ∧
      ((a.occurrences "local").length ≤ 1 ∧ ∀ args ∈ a.occurrences "local", args.length = 1) ∧
      ((a.occurrences "mode").length ≤ 1 ∧
        ∀ args ∈ a.occurrences "mode", ∃ m : Mode, args = [m.name]) ∧
      ∀ f : Family, ∀ name ∈ ["set-" ++ f.name, "add-" ++ f.name],
        ∀ args ∈ a.occurrences name, f.minArgs ≤ args.length ∧ args.length ≤ f.maxArgs := by
  constructor
  · intro h
    refine ⟨?_, accepts_localDirectory_iff.mp (h Catalog.localDirectory (by decide)),
      accepts_mode_iff.mp (h Catalog.mode (by decide)), ?_⟩
    · intro name hname
      simp only [List.mem_cons, List.not_mem_nil, or_false] at hname
      rcases hname with rfl | rfl | rfl
      · exact h Catalog.autoconfigure (by decide)
      · exact h Catalog.isConfigured (by decide)
      · exact h Catalog.system (by decide)
    · intro f name hname
      rcases List.mem_pair.mp hname with rfl | rfl
      · exact h f.setOption (by cases f <;> decide)
      · exact h f.addOption (by cases f <;> decide)
  · rintro ⟨hflags, hdirectory, hmode, hrecords⟩ d hd
    rcases List.mem_append.mp hd with hd | hd
    · simp only [List.mem_cons, List.not_mem_nil, or_false] at hd
      rcases hd with rfl | rfl | rfl | rfl | rfl | rfl
      · exact trivial
      · exact hflags _ (by decide)
      · exact hflags _ (by decide)
      · exact accepts_localDirectory_iff.mpr hdirectory
      · exact hflags _ (by decide)
      · exact accepts_mode_iff.mpr hmode
    · obtain ⟨f, -, hd⟩ := List.mem_flatMap.mp hd
      rcases List.mem_pair.mp hd with rfl | rfl
      · exact hrecords f _ List.mem_cons_self
      · exact hrecords f _ (List.mem_cons_of_mem _ List.mem_cons_self)

/-- The bounds of each family, spelled out. -/
theorem bounds_iff {n : Nat} :
    (Family.monitor.minArgs ≤ n ∧ n ≤ Family.monitor.maxArgs ↔ n = 6) ∧
      (Family.listen.minArgs ≤ n ∧ n ≤ Family.listen.maxArgs ↔ n = 1 ∨ n = 2) ∧
      (Family.device.minArgs ≤ n ∧ n ≤ Family.device.maxArgs ↔ n = 3 ∨ n = 4) := by
  simp only [Family.minArgs, Family.maxArgs]
  omega

/-- **The valid command lines are those of the grammar.** -/
theorem isValid_iff_isGrammatical {a : Arguments} :
    (Request.ofArguments a).isValid = true ↔ a.IsGrammatical := by
  rw [isValid_iff_accepts, accepts_all_iff, topLevel_eq_nil_iff, names_all]
  simp only [conflicting_eq_false_iff]
  constructor
  · rintro ⟨hoptions, ⟨hflags, hdirectory, hmode, hrecords⟩, hexclusive, hliterals⟩
    refine ⟨hoptions, hliterals, hflags, hdirectory, hmode, ?_, ?_, ?_, hexclusive⟩
    · exact fun name hname args hargs => bounds_iff.1.mp (hrecords .monitor name hname args hargs)
    · exact fun name hname args hargs => bounds_iff.2.1.mp (hrecords .listen name hname args hargs)
    · exact fun name hname args hargs => bounds_iff.2.2.mp (hrecords .device name hname args hargs)
  · intro h
    refine ⟨h.options, ⟨h.flags, h.directory, h.mode, ?_⟩, h.exclusive, h.literals⟩
    intro f name hname args hargs
    cases f with
    | monitor => exact bounds_iff.1.mpr (h.monitors name hname args hargs)
    | listen => exact bounds_iff.2.1.mpr (h.listens name hname args hargs)
    | device => exact bounds_iff.2.2.mpr (h.devices name hname args hargs)

end Arguments

/-! ## What the operator is told -/

/-- How many problems come with a hint. -/
def Request.hintCount (r : Request) : Nat := r.problems.countP (·.hint.isSome)

/-- A problem is reported on one line, and its hint on another. -/
theorem length_report (p : OptionProblem) :
    p.report.length = 1 + if p.hint.isSome = true then 1 else 0 := by
  unfold OptionProblem.report
  cases p.hint with
  | none => rfl
  | some hint => rfl

theorem length_flatMap_report (problems : List OptionProblem) :
    (problems.flatMap OptionProblem.report).length =
      problems.length + problems.countP (·.hint.isSome) := by
  induction problems with
  | nil => rfl
  | cons p problems ih =>
    rw [List.flatMap_cons, List.length_append, ih, length_report, List.length_cons,
      List.countP_cons]
    omega

namespace Request

theorem isValid_iff_problemKinds {r : Request} : r.isValid = true ↔ r.problemKinds = [] := by
  rw [isValid, problemKinds, Bool.and_eq_true, Bool.and_eq_true, List.isEmpty_iff,
    List.isEmpty_iff, List.isEmpty_iff, List.append_eq_nil_iff, List.append_eq_nil_iff,
    List.map_eq_nil_iff, List.map_eq_nil_iff, List.map_eq_nil_iff]

/-- There is nothing to report about a valid command line. -/
theorem report_eq_error_iff {r : Request} : r.report = .error {} ↔ r.isValid = true := by
  unfold report
  split
  next h => exact iff_of_true rfl h
  next h => exact iff_of_false (by simp) h

/-- There is a line for each problem and one more for each hint. -/
theorem length_of_report {r : Request} {lines : List String} (h : r.report = .ok lines) :
    lines.length = r.problemKinds.length + r.hintCount := by
  unfold report at h
  split at h
  next => simp at h
  next =>
    rw [← Except.ok.inj h, List.length_append, List.length_append, length_flatMap_report,
      problemKinds, hintCount]
    simp only [List.length_map, List.length_append]
    omega

/-- **A command line is valid exactly if it keeps to the grammar of the options.** It is valid
exactly if there is no kind of problem with it, and exactly if there is nothing to report. Otherwise
the report has a line for each problem and one for each hint. -/
theorem isValid_iff_of_words (words : List String) :
    ((ofWords words).isValid = true ↔ (Arguments.ofWords words).IsGrammatical) ∧
      ((ofWords words).isValid = true ↔ (ofWords words).problemKinds = []) ∧
      ((ofWords words).isValid = true ↔ (ofWords words).report = .error {}) ∧
      ((ofWords words).isValid = false ↔ ∃ lines, (ofWords words).report = .ok lines ∧
        lines.length = (ofWords words).problemKinds.length + (ofWords words).hintCount) := by
  refine ⟨Arguments.isValid_iff_isGrammatical, isValid_iff_problemKinds,
    report_eq_error_iff.symm, ?_⟩
  rw [← Bool.not_eq_true, ← report_eq_error_iff]
  cases hreport : (ofWords words).report with
  | error nothing => exact iff_of_false (fun h => h rfl) (by simp)
  | ok lines => exact iff_of_true (by simp) ⟨lines, rfl, length_of_report hreport⟩

end Request

end UpsSetup
