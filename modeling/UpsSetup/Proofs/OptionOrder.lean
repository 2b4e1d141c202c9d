import UpsSetup.Proofs.OneFile
import UpsSetup.Proofs.Places

/-!
# The order of options

A command line without separators is a `CommandLine`: literals, then options with the literals
behind them. Options may change places as long as the occurrences of each option keep their order
(`CommandLine.Reorders`). The occurrences of every option are then the same, and so is all that the
request takes from them one option at a time (`Request.Agrees`); only what is listed option by
option is listed in another order. A valid request lists nothing of that kind, so it is the same
request (`Request.Agrees.eq_of_isValid`) and the same run. -/

namespace UpsSetup

/-! ## Command lines without separators -/

/-- An option on the command line, with the literals behind it. -/
structure OptionGroup where
  token : String
  literals : List String
  isOption : (Word.option? token).isSome
  areLiterals : ∀ text ∈ literals, Word.IsLiteral text

/-- The group as it stands on the command line. -/
def OptionGroup.words (g : OptionGroup) : List String := g.token :: g.literals

/-- A command line without separators. -/
structure CommandLine where
  /-- The literals before the first option. -/
  leading : List String
  groups : List OptionGroup
  areLiterals : ∀ text ∈ leading, Word.IsLiteral text

namespace CommandLine

/-- The words of the command line. -/
def words (c : CommandLine) : List String := c.leading ++ c.groups.flatMap OptionGroup.words

/-- The same groups in another order, where those of each option keep their order. -/
structure Reorders (c c' : CommandLine) : Prop where
  leading : c'.leading = c.leading
  perm : c'.groups.Perm c.groups
  order : ∀ token, c'.groups.filter (·.token = token) = c.groups.filter (·.token = token)

/-- Every command line without the separator is one. -/
theorem exists_words_eq {words : List String} (h : "--" ∉ words) :
    ∃ c : CommandLine, c.words = words := by
  induction words with
  | nil => exact ⟨⟨[], [], by simp⟩, rfl⟩
  | cons word words ih =>
    rw [List.mem_cons, not_or] at h
    obtain ⟨c, hc⟩ := ih h.2
    rcases Word.kind_cases word with ⟨hliteral, -, -⟩ | ⟨-, hseparator, -⟩ |
      ⟨-, -, dashes, name, hoption⟩
    · refine ⟨⟨word :: c.leading, c.groups, List.forall_mem_cons.mpr ⟨hliteral, c.areLiterals⟩⟩, ?_⟩
      rw [← hc]
      rfl
    · exact absurd hseparator.symm h.1
    · -- the option takes what was leading behind it
      refine ⟨⟨[], ⟨word, c.leading, Option.isSome_of_eq_some hoption, c.areLiterals⟩ :: c.groups,
        by simp⟩, ?_⟩
      rw [← hc]
      rfl

/-! ## Grouping -/

/-- The arguments that the command line is grouped into. -/
def arguments (c : CommandLine) : Arguments :=
  ⟨c.leading, c.groups.map fun g => ⟨Word.option? g.token, g.literals⟩⟩

/-- Each group is a segment of its own. -/
theorem ofWords_flatMap_groups (groups : List OptionGroup) :
    Arguments.ofWords (groups.flatMap OptionGroup.words) =
      ⟨[], groups.map fun g => ⟨Word.option? g.token, g.literals⟩⟩ := by
  induction groups with
  | nil => rfl
  | cons g groups ih =>
    obtain ⟨⟨dashes, name⟩, hoption⟩ := Option.isSome_iff_exists.mp g.isOption
    rw [List.flatMap_cons, OptionGroup.words, List.cons_append,
      Arguments.ofWords_option (Word.ofText_of_option? hoption)
        (fun text ht => Word.ofText_of_isLiteral (g.areLiterals text ht)) (by rw [ih]),
      ih, List.map_cons, hoption]

theorem ofWords_words (c : CommandLine) : Arguments.ofWords c.words = c.arguments := by
  have hleading : ∀ text ∈ c.leading, Word.ofText text = .literal text := fun text ht =>
    Word.ofText_of_isLiteral (c.areLiterals text ht)
  rw [words, Arguments.ofWords_literals hleading, ofWords_flatMap_groups, List.append_nil]
  rfl

theorem occurrences_arguments (c : CommandLine) (name : String) (dashes : Dashes) :
    c.arguments.occurrences name dashes =
      (c.groups.filter (Word.option? ·.token = some (dashes, name))).map (·.literals) := by
  rw [Arguments.occurrences, arguments, List.filter_map, List.map_map]
  rfl

/-- The words in front of the first option are those that belong to none. -/
theorem topLevel_arguments (c : CommandLine) : c.arguments.topLevel = c.leading := by
  have hnone : c.arguments.segments.filter (·.option = none) = [] := by
    refine List.filter_eq_nil_iff.mpr fun s hs => ?_
    obtain ⟨g, -, rfl⟩ := List.mem_map.mp hs
    simpa using Option.isSome_iff_ne_none.mp g.isOption
  rw [Arguments.topLevel, hnone, List.flatMap_nil, List.append_nil]
  rfl

/-- Only one token stands for an option. -/
theorem token_eq_of_option? {token token' : String} {option : Dashes × String}
    (h : Word.option? token = some option) (h' : Word.option? token' = some option) :
    token = token' := by
  obtain ⟨dashes, name⟩ := option
  rw [← Word.text_ofText token, ← Word.text_ofText token', Word.ofText_of_option? h,
    Word.ofText_of_option? h']

/-- Moving groups of different options past one another keeps the occurrences of each option. -/
theorem Reorders.occurrences {c c' : CommandLine} (h : c.Reorders c') (name : String)
    (dashes : Dashes) :
    c'.arguments.occurrences name dashes = c.arguments.occurrences name dashes := by
  rw [occurrences_arguments, occurrences_arguments]
  refine congrArg _ ?_
  by_cases htoken : ∃ token, Word.option? token = some (dashes, name)
  · obtain ⟨token, htoken⟩ := htoken
    have hiff : ∀ g : OptionGroup,
        Word.option? g.token = some (dashes, name) ↔ g.token = token := by
      intro g
      exact ⟨fun hg => token_eq_of_option? hg htoken, fun hg => hg ▸ htoken⟩
    simp only [hiff]
    exact h.order token
  · have hnot : ∀ g : OptionGroup, ¬Word.option? g.token = some (dashes, name) :=
      fun g hg => htoken ⟨_, hg⟩
    simp only [hnot, decide_false, List.filter_false]

end CommandLine

/-! ## Arguments with the same occurrences -/

namespace Arguments

/-- Each option occurs with the same arguments, and the same literals belong to no option. -/
structure SameOccurrences (a a' : Arguments) : Prop where
  occurrences : ∀ name dashes, a'.occurrences name dashes = a.occurrences name dashes
  topLevel : a'.topLevel = a.topLevel

namespace SameOccurrences

variable {a a' : Arguments}

theorem count (h : a.SameOccurrences a') (name : String) (dashes : Dashes) :
    a'.count name dashes = a.count name dashes :=
  congrArg List.length (h.occurrences name dashes)

/-- Whether the options of a family conflict depends on how often they occur. -/
theorem familyCount (h : a.SameOccurrences a') : a'.familyCount = a.familyCount := by
  funext f
  rw [Arguments.familyCount, h.count, h.count]
  rfl

theorem value? (h : a.SameOccurrences a') (d : Descriptor) : a'.value? d = a.value? d := by
  rw [Arguments.value?, occurrence?, h.occurrences]
  rfl

/-- The names are the same, but they need not come in the same order. -/
theorem names (h : a.SameOccurrences a') (dashes : Dashes) :
    (a'.names dashes).Perm (a.names dashes) := by
  refine (List.perm_ext_iff_of_nodup (a'.nodup_names dashes) (a.nodup_names dashes)).mpr
    fun name => ?_
  rw [← not_iff_not, ← occurrences_eq_nil_iff, ← occurrences_eq_nil_iff, h.occurrences]

/-- The same options are unknown, perhaps in another order. -/
theorem unknownOptions (h : a.SameOccurrences a') :
    a'.unknownOptions.Perm a.unknownOptions := by
  unfold Arguments.unknownOptions
  simp only [h.occurrences]
  exact ((h.names .one).flatMap_right _).append ((h.names .two).flatMap_right _)

/-- The same problems are found, perhaps in another order. -/
theorem problems (h : a.SameOccurrences a') : a'.problems.Perm a.problems := by
  unfold Arguments.problems
  simp only [h.occurrences, h.familyCount]
  exact ((h.names .two).flatMap_right _).append_right _

/-- Where a family is not conflicting, its records come in the same order. -/
theorem records (h : a.SameOccurrences a') {f : Family}
    (hf : (a.familyCount f).conflicting = false) {α : Type}
    (ofArguments? : List String → Option α) :
    a'.records f ofArguments? = a.records f ofArguments? := by
  rw [records_eq_of_not_conflicting hf, records_eq_of_not_conflicting (by rwa [h.familyCount]),
    h.occurrences, h.occurrences]

end SameOccurrences

end Arguments

theorem CommandLine.Reorders.sameOccurrences {c c' : CommandLine} (h : c.Reorders c') :
    c.arguments.SameOccurrences c'.arguments :=
  ⟨h.occurrences, by rw [topLevel_arguments, topLevel_arguments, h.leading]⟩

/-! ## Requests -/

namespace Request

/-- The requests agree, but for the order in which they list what is wrong, and the order of the
records of a family that is both replaced and added to. -/
structure Agrees (r r' : Request) : Prop where
  isValid : r'.isValid = r.isValid
  help : r'.help = r.help
  autoconfigure : r'.autoconfigure = r.autoconfigure
  isConfigured : r'.isConfigured = r.isConfigured
  system : r'.system = r.system
  localDirectory : r'.localDirectory = r.localDirectory
  mode : r'.mode = r.mode
  topLevel : r'.topLevel = r.topLevel
  count : r'.count = r.count
  unknownOptions : r'.unknownOptions.Perm r.unknownOptions
  problems : r'.problems.Perm r.problems
  monitors : (r.count .monitor).conflicting = false → r'.monitors = r.monitors
  listens : (r.count .listen).conflicting = false → r'.listens = r.listens
  devices : (r.count .device).conflicting = false → r'.devices = r.devices

/-- What is asked for depends on the occurrences of each option only. -/
theorem agrees_of_sameOccurrences {a a' : Arguments} (h : a.SameOccurrences a') :
    (ofArguments a).Agrees (ofArguments a') where
  isValid := by
    rw [Bool.eq_iff_iff, isValid_iff, isValid_iff, ← List.perm_nil, ← List.perm_nil,
      h.unknownOptions.congr_left, h.problems.congr_left, List.perm_nil, List.perm_nil, h.topLevel]
  help := by
    show a'.isGiven Catalog.help.name = a.isGiven Catalog.help.name
    rw [Arguments.isGiven, h.count, h.count]
    rfl
  autoconfigure := congrArg (decide <| 0 < ·) (h.count _ _)
  isConfigured := congrArg (decide <| 0 < ·) (h.count _ _)
  system := congrArg (decide <| 0 < ·) (h.count _ _)
  localDirectory := h.value? _
  mode := congrArg (Option.bind · Mode.ofName?) (h.value? _)
  topLevel := h.topLevel
  count := h.familyCount
  unknownOptions := h.unknownOptions
  problems := h.problems
  monitors := fun hf => h.records hf _
  listens := fun hf => h.records hf _
  devices := fun hf => h.records hf _

/-- A valid request lists nothing in an order of its own. -/
theorem Agrees.eq_of_isValid {a : Arguments} {r' : Request} (h : (ofArguments a).Agrees r')
    (hvalid : (ofArguments a).isValid = true) : r' = ofArguments a := by
  obtain ⟨hunknown, hproblems, -⟩ := isValid_iff.mp hvalid
  have hfamilies := (Arguments.problems_eq_nil_iff.mp hproblems).2
  have hnone : r'.unknownOptions = (ofArguments a).unknownOptions := by
    have hperm := h.unknownOptions
    rw [show (ofArguments a).unknownOptions = [] from hunknown] at hperm ⊢
    exact hperm.eq_nil
  have hnothing : r'.problems = (ofArguments a).problems := by
    have hperm := h.problems
    rw [show (ofArguments a).problems = [] from hproblems] at hperm ⊢
    exact hperm.eq_nil
  cases r'
  simp only [ofArguments, mk.injEq] at hnone hnothing ⊢
  exact ⟨hnone, hnothing, h.topLevel, h.help, h.autoconfigure, h.isConfigured, h.system,
    h.localDirectory, h.mode, h.monitors (hfamilies .monitor), h.listens (hfamilies .listen),
    h.devices (hfamilies .device), h.count⟩

end Request

/-! ## Records -/

/-- Where the number of arguments alone decides whether they describe a record, each description
makes one record. -/
theorem Arguments.map_some_filterMap {f : Family} {α : Type}
    {ofArguments? : List String → Option α}
    (hargs : ∀ args, (ofArguments? args).isSome = true ↔
      f.minArgs ≤ args.length ∧ args.length ≤ f.maxArgs) (l : List (List String)) :
    (l.filterMap ofArguments?).map some =
      (l.filter fun args => f.minArgs ≤ args.length ∧ args.length ≤ f.maxArgs).map
        ofArguments? := by
  rw [List.map_filterMap_some_eq_filter_map_isSome, List.filter_map]
  refine congrArg _ (List.filter_congr fun args _ => ?_)
  rw [Bool.eq_iff_iff, decide_eq_true_iff]
  exact hargs args

/-- The group describes a record of the family, with as many arguments as that takes. -/
def OptionGroup.Describes (g : OptionGroup) (f : Family) : Prop :=
  (g.token = f.setOption.option ∨ g.token = f.addOption.option) ∧
    f.minArgs ≤ g.literals.length ∧ g.literals.length ≤ f.maxArgs

instance (g : OptionGroup) (f : Family) : Decidable (g.Describes f) :=
  inferInstanceAs (Decidable (_ ∧ _))

namespace CommandLine

/-- The descriptions of records of the family, in the order of the command line. -/
def described (c : CommandLine) (f : Family) : List (List String) :=
  (c.groups.filter (·.Describes f)).map (·.literals)

theorem option?_eq_iff {f : Family} {d : Descriptor} (hd : d = f.setOption ∨ d = f.addOption)
    {token : String} : Word.option? token = some (.two, d.name) ↔ token = d.option := by
  have hoption : Word.option? d.option = some (.two, d.name) := by
    rcases hd with rfl | rfl
    · cases f <;> decide
    · cases f <;> decide
  exact ⟨fun h => token_eq_of_option? h hoption, fun h => h ▸ hoption⟩

/-- Since one of the two options of the family is not given, the occurrences of both come in the
order of the command line. -/
theorem occurrences_append {c : CommandLine} {f : Family}
    (h : (c.arguments.familyCount f).conflicting = false) :
    c.arguments.occurrences f.setOption.name ++ c.arguments.occurrences f.addOption.name =
      (c.groups.filter fun g =>
        g.token = f.setOption.option ∨ g.token = f.addOption.option).map (·.literals) := by
  have hnone := Arguments.conflicting_eq_false_iff.mp h
  simp only [occurrences_arguments, option?_eq_iff (Or.inl rfl), option?_eq_iff (Or.inr rfl),
    List.map_eq_nil_iff] at hnone ⊢
  rcases hnone with hset | hadd
  · rw [hset, List.map_nil, List.nil_append]
    refine congrArg _ (List.filter_congr fun g hg => ?_)
    have hg' : ¬g.token = f.setOption.option := by
      simpa using List.filter_eq_nil_iff.mp hset g hg
    exact decide_eq_decide.mpr (or_iff_right hg').symm
  · rw [hadd, List.map_nil, List.append_nil]
    refine congrArg _ (List.filter_congr fun g hg => ?_)
    have hg' : ¬g.token = f.addOption.option := by
      simpa using List.filter_eq_nil_iff.mp hadd g hg
    exact decide_eq_decide.mpr (or_iff_left hg').symm

/-- In a family that is not both replaced and added to, each description makes one record. -/
theorem map_some_records {c : CommandLine} {f : Family}
    (h : (c.arguments.familyCount f).conflicting = false) {α : Type}
    {ofArguments? : List String → Option α}
    (hargs : ∀ args, (ofArguments? args).isSome = true ↔
      f.minArgs ≤ args.length ∧ args.length ≤ f.maxArgs) :
    (c.arguments.records f ofArguments?).map some = (c.described f).map ofArguments? := by
  rw [Arguments.records_eq_of_not_conflicting h, occurrences_append h,
    Arguments.map_some_filterMap hargs, List.filter_map, List.filter_filter, described]
  refine congrArg _ (congrArg _ (List.filter_congr fun g _ => ?_))
  rw [Bool.eq_iff_iff, Bool.and_eq_true, decide_eq_true_iff, decide_eq_true_iff, and_comm]
  exact and_congr_right fun _ => decide_eq_true_iff

end CommandLine

theorem MonitorSpec.isSome_ofArguments?_iff (args : List String) :
    (ofArguments? args).isSome = true ↔
      Family.monitor.minArgs ≤ args.length ∧ args.length ≤ Family.monitor.maxArgs := by
  match args with
  | [] | [_] | [_, _] | [_, _, _] | [_, _, _, _] | [_, _, _, _, _] | [_, _, _, _, _, _]
  | _ :: _ :: _ :: _ :: _ :: _ :: _ :: _ =>
    simp [ofArguments?, Family.minArgs, Family.maxArgs]

theorem ListenSpec.isSome_ofArguments?_iff (args : List String) :
    (ofArguments? args).isSome = true ↔
      Family.listen.minArgs ≤ args.length ∧ args.length ≤ Family.listen.maxArgs := by
  match args with
  | [] | [_] | [_, _] | _ :: _ :: _ :: _ =>
    simp [ofArguments?, Family.minArgs, Family.maxArgs]

theorem Device.isSome_ofArguments?_iff (args : List String) :
    (ofArguments? args).isSome = true ↔
      Family.device.minArgs ≤ args.length ∧ args.length ≤ Family.device.maxArgs := by
  match args with
  | [] | [_] | [_, _] | [_, _, _] | [_, _, _, _] | _ :: _ :: _ :: _ :: _ :: _ =>
    simp [ofArguments?, Family.minArgs, Family.maxArgs]

/-- The records of a request are what the command line describes, in its order. -/
structure Request.Follows (r : Request) (c : CommandLine) : Prop where
  monitors : (r.count .monitor).conflicting = false →
    r.monitors.map some = (c.described .monitor).map MonitorSpec.ofArguments?
  listens : (r.count .listen).conflicting = false →
    r.listens.map some = (c.described .listen).map ListenSpec.ofArguments?
  devices : (r.count .device).conflicting = false →
    r.devices.map some = (c.described .device).map Device.ofArguments?

/-- The records of a command line come in the order in which they stand on it. -/
theorem CommandLine.follows (c : CommandLine) : (Request.ofArguments c.arguments).Follows c where
  monitors := fun h => map_some_records h MonitorSpec.isSome_ofArguments?_iff
  listens := fun h => map_some_records h ListenSpec.isSome_ofArguments?_iff
  devices := fun h => map_some_records h Device.isSome_ofArguments?_iff

/-! ## Runs -/

namespace Invocation

/-- A run depends on the words of its command line through the request only, but for its log. -/
theorem execute_eq_of_request (program : String) {words words' : List String}
    (h : Request.ofWords words' = Request.ofWords words) (env : Environment) (t : Tree) :
    (execute ⟨program, words', env⟩ t).answer = (execute ⟨program, words, env⟩ t).answer ∧
      (execute ⟨program, words', env⟩ t).tree = (execute ⟨program, words, env⟩ t).tree := by
  rw [tree_execute, tree_execute]
  rcases Job.yields_or_fails (job ⟨program, words, env⟩) t with ⟨answer, hrun⟩ | ⟨failure, hrun⟩
  · have hrun' : (job ⟨program, words', env⟩).Yields t answer
        ((job ⟨program, words, env⟩).run t).tree := by
      rw [yields_job_iff] at hrun ⊢
      rw [h]
      exact hrun
    exact ⟨(answer_execute_of_yields hrun').trans (answer_execute_of_yields hrun).symm, hrun'.2⟩
  · have hrun' : (job ⟨program, words', env⟩).Fails t failure
        ((job ⟨program, words, env⟩).run t).tree := by
      rw [fails_job_iff] at hrun ⊢
      rw [h]
      exact hrun
    exact ⟨(answer_execute_of_fails hrun').trans (answer_execute_of_fails hrun).symm, hrun'.2⟩

end Invocation

/-! ## The order of options -/

/-- **The order of options does not matter.** Whatever way the options of a command line without
separators are put in another order, as long as each keeps the order of its own occurrences, the
requests agree. A family that is not both replaced and added to has the same records, one for each
description on the command line, and a valid command line makes the same run. -/
theorem CommandLine.requests_agree_of_reorders {words : List String} (hwords : "--" ∉ words) :
    (∃ c : CommandLine, c.words = words) ∧
      ∀ c c' : CommandLine, c.words = words → c.Reorders c' →
        (Request.ofWords words).Agrees (Request.ofWords c'.words) ∧
        (Request.ofWords words).Follows c ∧
        ((Request.ofWords words).isValid = true → ∀ program env t,
          let run := fun words => Invocation.execute ⟨program, words, env⟩ t
          (run c'.words).answer = (run words).answer ∧ (run c'.words).tree = (run words).tree) := by
  refine ⟨exists_words_eq hwords, ?_⟩
  rintro c c' rfl h
  have hagrees := Request.agrees_of_sameOccurrences h.sameOccurrences
  rw [← ofWords_words, ← ofWords_words] at hagrees
  have hfollows := c.follows
  rw [← ofWords_words] at hfollows
  refine ⟨hagrees, hfollows, fun hvalid program env t => ?_⟩
  exact Invocation.execute_eq_of_request program (hagrees.eq_of_isValid hvalid) env t

/-- Two devices keep their order, and the mode moves in front of them. -/
theorem CommandLine.requests_agree_of_mode_first :
    let words := ["--add-device", "a", "drv", "p", "--add-device", "b", "drv", "q", "--mode",
      "none"]
    let words' := ["--mode", "none", "--add-device", "a", "drv", "p", "--add-device", "b", "drv",
      "q"]
    "--" ∉ words ∧ (Request.ofWords words).isValid = true ∧
      (Request.ofWords words').devices = [⟨"a", "drv", "p", ""⟩, ⟨"b", "drv", "q", ""⟩] ∧
      ∀ t, (Invocation.execute { words := words' } t).tree =
        (Invocation.execute { words } t).tree := by
  let a : OptionGroup := ⟨"--add-device", ["a", "drv", "p"], by decide, by decide⟩
  let b : OptionGroup := ⟨"--add-device", ["b", "drv", "q"], by decide, by decide⟩
  let mode : OptionGroup := ⟨"--mode", ["none"], by decide, by decide⟩
  let c : CommandLine := ⟨[], [a, b, mode], by simp⟩
  let c' : CommandLine := ⟨[], [mode, a, b], by simp⟩
  have hvalid : (Request.ofWords c.words).isValid = true := by decide
  have hreorders : c.Reorders c' := by
    refine ⟨rfl, ?_, fun token => ?_⟩
    · show ([mode] ++ [a, b]).Perm ([a, b] ++ [mode])
      exact List.perm_append_comm
    · show ([mode] ++ [a, b]).filter _ = ([a, b] ++ [mode]).filter _
      by_cases htoken : "--mode" = token
      · subst htoken
        rfl
      · have hmode : [mode].filter (·.token = token) = [] := by simp [mode, htoken]
        rw [List.filter_append, List.filter_append, hmode, List.nil_append, List.append_nil]
  have hrun := (requests_agree_of_reorders (by decide : "--" ∉ c.words)).2 c c' rfl hreorders
  refine ⟨by decide, hvalid, ?_, fun t => (hrun.2.2 hvalid _ _ t).2⟩
  exact (hrun.1.devices (by decide)).trans (by decide)

end UpsSetup
