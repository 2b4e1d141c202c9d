import Mathlib.Data.List.Perm.Basic
import UpsSetup.Proofs.OptionOrder

/-!
# Every problem is listed once

The check of a command line goes on after a problem, and it looks at the occurrences of one option
after those of another. So what it lists is counted option by option: the problems about an option
are those that its own occurrences have (`Arguments.filter_problems`). An occurrence that describes
a record either has one problem or makes one record (`Arguments.length_records_add_problems`), and
each occurrence of an option that does not exist is listed (`Arguments.unknownOptions_ofWords`).
-/

namespace UpsSetup

/-! ## One option -/

/-- The option that a problem is about. No single option is behind a family that is both replaced
and added to. -/
def OptionProblem.option? : OptionProblem → Option Descriptor
  | repeated d | takesNoArguments d | valueMissing d | oneValueOnly d | unknownChoice d _
  | argumentsMissing d | notExactly d | tooFew d | tooMany d => some d
  | exclusive _ => none

/-- As many arguments as describe a record of the family. -/
def Family.Takes (f : Family) (args : List String) : Prop :=
  f.minArgs ≤ args.length ∧ args.length ≤ f.maxArgs

instance (f : Family) : DecidablePred f.Takes := fun _ => inferInstanceAs (Decidable (_ ∧ _))

namespace Descriptor

variable {d : Descriptor} {args : List String} {occurrences : List (List String)}
  {p : OptionProblem}

theorem option?_valueProblem? (h : d.valueProblem? args = some p) : p.option? = some d := by
  match args with
  | [] =>
    cases h
    rfl
  | [value] =>
    rw [valueProblem?] at h
    split at h
    next => simp at h
    next =>
      cases h
      rfl
  | _ :: _ :: _ =>
    cases h
    rfl

theorem option?_recordProblem? (h : d.recordProblem? args = some p) : p.option? = some d := by
  unfold recordProblem? at h
  split_ifs at h <;> cases h <;> rfl

/-- All problems with an option are about it. -/
theorem option?_of_mem_problems (h : p ∈ d.problems occurrences) : p.option? = some d := by
  have hrepeated : p ∈ List.replicate (occurrences.length - 1) (.repeated d) →
      p.option? = some d := by
    intro hp
    rw [List.eq_of_mem_replicate hp]
    rfl
  unfold problems at h
  cases hkind : d.kind with
  | help =>
    rw [hkind] at h
    exact absurd h List.not_mem_nil
  | flag =>
    rw [hkind] at h
    rcases List.mem_append.mp h with h | h
    · exact hrepeated h
    · obtain ⟨args, -, rfl⟩ := List.mem_map.mp h
      rfl
  | value metavar choices =>
    rw [hkind] at h
    rcases List.mem_append.mp h with h | h
    · exact hrepeated h
    · obtain ⟨args, -, hargs⟩ := Option.bind_eq_some_iff.mp (Option.mem_toList.mp h)
      exact option?_valueProblem? hargs
  | record family keeps =>
    rw [hkind] at h
    obtain ⟨args, -, hargs⟩ := List.mem_filterMap.mp h
    exact option?_recordProblem? hargs

/-- An occurrence that describes no record is without arguments or has the wrong number of them. -/
theorem map_kind_recordProblem? {f : Family} {keeps : Bool} (hkind : d.kind = .record f keeps)
    (args : List String) : (d.recordProblem? args).map OptionProblem.kind =
      if f.Takes args then none
      else some (if args = [] then .missingArgument else .arityMismatch) := by
  have hmin : d.minArgs = f.minArgs := by rw [minArgs, hkind]
  have hmax : d.maxArgs = f.maxArgs := by rw [maxArgs, hkind]
  have hnone : d.recordProblem? args = none ↔ f.Takes args := by
    rw [recordProblem?_eq_none_iff (hmin ▸ minArgs_pos f), hmin, hmax]
    rfl
  split_ifs with htakes hnil
  · rw [hnone.mpr htakes]
    rfl
  · rw [recordProblem?, if_pos hnil]
    rfl
  · cases hproblem : d.recordProblem? args with
    | none => exact absurd (hnone.mp hproblem) htakes
    | some p =>
      unfold recordProblem? at hproblem
      split_ifs at hproblem <;> cases hproblem <;> rfl

/-- A flag has a problem for each repetition, and one for each occurrence that has arguments. -/
theorem map_kind_problems_of_flag (hkind : d.kind = .flag)
    (occurrences : List (List String)) : (d.problems occurrences).map OptionProblem.kind =
      List.replicate (occurrences.length - 1) .duplicateScalarOption ++
        List.replicate (occurrences.countP (· ≠ [])) .arityMismatch := by
  rw [problems, hkind]
  dsimp only
  rw [List.map_append, List.map_replicate, List.map_map, List.countP_eq_length_filter,
    ← List.map_const']
  rfl

/-- Only the first occurrence of a value is checked for what it is. -/
theorem map_kind_problems_of_value {metavar : String} {choices : Option (List String)}
    (hkind : d.kind = .value metavar choices) (occurrences : List (List String)) :
    ∃ further : Option ProblemKind,
      (d.problems occurrences).map OptionProblem.kind =
        List.replicate (occurrences.length - 1) .duplicateScalarOption ++ further.toList ∧
      (further = none ↔ ∀ args ∈ occurrences.head?,
        ∃ value, args = [value] ∧ ∀ allowed ∈ choices, value ∈ allowed) := by
  refine ⟨(occurrences.head?.bind d.valueProblem?).map OptionProblem.kind, ?_, ?_⟩
  · rw [problems, hkind]
    dsimp only
    rw [List.map_append, List.map_replicate, Option.toList_map]
    rfl
  · have hchoices : d.choices = choices := by rw [Descriptor.choices, hkind]
    rw [Option.map_eq_none_iff, ← hchoices]
    cases occurrences with
    | nil => simp
    | cons args occurrences => simpa using valueProblem?_eq_none_iff

/-- Each occurrence that describes no record is listed, and no other is. -/
theorem map_kind_problems_of_record {f : Family} {keeps : Bool} (hkind : d.kind = .record f keeps)
    (occurrences : List (List String)) : (d.problems occurrences).map OptionProblem.kind =
      (occurrences.filter (¬f.Takes ·)).map fun args =>
        if args = [] then .missingArgument else .arityMismatch := by
  rw [problems, hkind]
  dsimp only
  rw [List.map_filterMap, ← List.filterMap_eq_map', List.filterMap_filter]
  refine List.filterMap_congr fun args _ => ?_
  rw [map_kind_recordProblem? hkind]
  by_cases htakes : f.Takes args
  · simp [htakes]
  · simp [htakes]

end Descriptor

namespace Catalog

/-- The problems with the option of a name, if it exists, given the arguments of each of its
occurrences. -/
def problems (name : String) (occurrences : List (List String)) : List OptionProblem :=
  match find? name with
  | some d => d.problems occurrences
  | none => []

theorem problems_name {d : Descriptor} (hd : d ∈ all) (occurrences : List (List String)) :
    problems d.name occurrences = d.problems occurrences := by
  rw [problems, find?_name hd]

theorem filter_problems {d : Descriptor} (hd : d ∈ all) (name : String)
    (occurrences : List (List String)) :
    (problems name occurrences).filter (·.option? = some d) =
      if name = d.name then d.problems occurrences else [] := by
  split_ifs with hname
  · rw [hname, problems_name hd]
    exact List.filter_eq_self.mpr fun p hp =>
      decide_eq_true (Descriptor.option?_of_mem_problems hp)
  · rw [List.filter_eq_nil_iff]
    intro p hp habout
    unfold problems at hp
    split at hp
    next d' hfind =>
      -- the problem is about the option of the name only
      have hd' := Descriptor.option?_of_mem_problems hp
      rw [of_decide_eq_true habout, Option.some.injEq] at hd'
      exact hname (hd' ▸ (find?_eq_some_iff.mp hfind).2.symm)
    next => simp at hp

end Catalog

/-! ## All options -/

namespace Arguments

variable {a : Arguments}

theorem problems_eq (a : Arguments) : a.problems =
    (a.names .two).flatMap (fun name => Catalog.problems name (a.occurrences name)) ++
      ([.monitor, .listen, .device].filter fun f : Family =>
        0 < a.count ("set-" ++ f.name) ∧ 0 < a.count ("add-" ++ f.name)).map .exclusive := by
  unfold problems
  refine congr (congrArg _ rfl) (congrArg _ (List.filter_congr fun f _ => ?_))
  rw [FamilyCount.conflicting, Bool.decide_and]
  rfl

/-- What one option of the command line contributes, if it contributes nothing when it is not
given. -/
theorem flatMap_names_ite {β : Type} (contribution : List (List String) → List β)
    (hnil : contribution [] = []) (a : Arguments) (name : String) :
    (a.names .two).flatMap (fun name' => if name' = name then contribution (a.occurrences name')
      else []) = contribution (a.occurrences name) := by
  by_cases hmem : name ∈ a.names .two
  · rw [flatMap_eq_of_only (a.nodup_names .two) hmem fun name' _ hne => if_neg hne, if_pos rfl]
  · rw [occurrences_eq_nil_iff.mpr hmem, hnil, List.flatMap_eq_nil_iff]
    rintro name' hmem'
    refine if_neg ?_
    rintro rfl
    exact hmem hmem'

/-- **The problems about an option are those of its own occurrences.** -/
theorem filter_problems {d : Descriptor} (hd : d ∈ Catalog.all) (a : Arguments) :
    a.problems.filter (·.option? = some d) = d.problems (a.occurrences d.name) := by
  have hexclusive : ∀ families : List Family,
      (families.map OptionProblem.exclusive).filter (·.option? = some d) = [] := by
    intro families
    rw [List.filter_map, List.map_eq_nil_iff, List.filter_eq_nil_iff]
    simp [OptionProblem.option?]
  rw [problems_eq, List.filter_append, hexclusive, List.append_nil, List.filter_flatMap]
  simp only [Catalog.filter_problems hd]
  exact flatMap_names_ite d.problems (Descriptor.problems_eq_nil_iff.mpr d.accepts_nil) a d.name

/-! ## Records -/

/-- The arguments of each occurrence of the two options of a family, option by option in the order
in which they first occur. -/
def descriptions (a : Arguments) (f : Family) : List (List String) :=
  (a.names .two).flatMap fun name =>
    if name = "set-" ++ f.name ∨ name = "add-" ++ f.name then a.occurrences name else []

theorem descriptions_perm (a : Arguments) (f : Family) : (a.descriptions f).Perm
    (a.occurrences ("set-" ++ f.name) ++ a.occurrences ("add-" ++ f.name)) := by
  have hne : "set-" ++ f.name ≠ "add-" ++ f.name := by cases f <;> decide
  have hsplit : ∀ name, (if name = "set-" ++ f.name ∨ name = "add-" ++ f.name
      then a.occurrences name else []) =
      (if name = "set-" ++ f.name then a.occurrences name else []) ++
        if name = "add-" ++ f.name then a.occurrences name else [] := by
    intro name
    by_cases hset : name = "set-" ++ f.name
    · subst hset
      simp [hne]
    · simp [hset]
  unfold descriptions
  simp only [hsplit]
  have hperm := List.flatMap_append_perm (a.names .two)
    (fun name => if name = "set-" ++ f.name then a.occurrences name else [])
    (fun name => if name = "add-" ++ f.name then a.occurrences name else [])
  have honly : ∀ name, (a.names .two).flatMap (fun name' => if name' = name then a.occurrences name'
      else []) = a.occurrences name := flatMap_names_ite id rfl a
  rw [honly, honly] at hperm
  exact hperm.symm

theorem records_eq_filterMap_descriptions (a : Arguments) (f : Family) {α : Type}
    (ofArguments? : List String → Option α) :
    a.records f ofArguments? = (a.descriptions f).filterMap ofArguments? := by
  unfold records descriptions
  rw [List.filterMap_flatMap]
  refine List.flatMap_congr fun name _ => ?_
  simp only [Catalog.family?_find?_eq_some_iff]
  show (if name = "set-" ++ f.name ∨ name = "add-" ++ f.name then _ else _) = _
  split_ifs <;> rfl

/-- Each group of arguments that the family takes describes one record. -/
theorem map_some_records {f : Family} {α : Type} {ofArguments? : List String → Option α}
    (hargs : ∀ args, (ofArguments? args).isSome = true ↔ f.Takes args) (a : Arguments) :
    (a.records f ofArguments?).map some =
      ((a.descriptions f).filter (f.Takes ·)).map ofArguments? := by
  rw [records_eq_filterMap_descriptions]
  exact map_some_filterMap hargs _

/-- **An occurrence that describes a record has a problem or makes a record, and not both.** -/
theorem length_records_add_problems {f : Family} {α : Type} {ofArguments? : List String → Option α}
    (hargs : ∀ args, (ofArguments? args).isSome = true ↔ f.Takes args) (a : Arguments) :
    (a.records f ofArguments?).length +
        (f.setOption.problems (a.occurrences f.setOption.name)).length +
        (f.addOption.problems (a.occurrences f.addOption.name)).length =
      a.count f.setOption.name + a.count f.addOption.name := by
  have hrecords : (a.records f ofArguments?).length =
      (a.occurrences f.setOption.name).countP (f.Takes ·) +
        (a.occurrences f.addOption.name).countP (f.Takes ·) := by
    have hlength := congrArg List.length (map_some_records hargs a)
    rw [List.length_map, List.length_map, ← List.countP_eq_length_filter,
      (a.descriptions_perm f).countP_eq, List.countP_append] at hlength
    exact hlength
  have hproblems : ∀ (d : Descriptor) (keeps : Bool), d.kind = .record f keeps →
      (d.problems (a.occurrences d.name)).length =
        (a.occurrences d.name).countP fun args => ¬f.Takes args := by
    intro d keeps hkind
    have hlength := congrArg List.length
      (Descriptor.map_kind_problems_of_record hkind (a.occurrences d.name))
    rwa [List.length_map, List.length_map, ← List.countP_eq_length_filter] at hlength
  have hcount : ∀ name, a.count name = (a.occurrences name).countP (f.Takes ·) +
      (a.occurrences name).countP fun args => ¬f.Takes args := by
    intro name
    rw [count, List.length_eq_countP_add_countP (f.Takes ·)]
    simp only [decide_eq_true_eq]
  rw [hrecords, hproblems f.setOption false rfl, hproblems f.addOption true rfl, hcount, hcount]
  omega

/-- Looking an occurrence up by its number finds its own arguments. -/
theorem access_eq_setter_iff {name : String} {o : Occurrence} (h : o ∈ a.numbered name) :
    a.access name o.ordinal = .setter ↔ o.arguments ≠ [] := by
  obtain ⟨i, hi, rfl⟩ := List.mem_mapIdx.mp h
  have hfind : a.occurrence? name i = some (a.occurrences name)[i] := by
    rw [occurrence?, if_pos (Int.natCast_nonneg i), Int.toNat_natCast, List.getElem?_eq_getElem hi]
  show a.access name i = .setter ↔ (a.occurrences name)[i] ≠ []
  rw [access, hfind]
  cases (a.occurrences name)[i] with
  | nil => simp
  | cons text rest => simp

theorem map_arguments_numbered (a : Arguments) (name : String) :
    (a.numbered name).map (·.arguments) = a.occurrences name := by
  refine List.ext_getElem? fun i => ?_
  rw [List.getElem?_map, numbered, List.getElem?_mapIdx, Option.map_map]
  exact Option.map_id_apply

/-! ## Options that do not exist -/

/-- The words that stand for options of the given names, name by name. -/
def wordsNamed (words : List String) (dashes : Dashes) (names : List String) : List String :=
  names.flatMap fun name => words.filter (nameOf? dashes · = some name)

/-- Dashes and name of an option are the word that stood for it. -/
theorem map_occurrences_ofWords (words : List String) (name : String) (dashes : Dashes) :
    ((ofWords words).occurrences name dashes).map (fun _ => dashes.text ++ name) =
      words.filter (nameOf? dashes · = some name) := by
  induction words with
  | nil => rfl
  | cons word words ih =>
    rw [ofWords, occurrences_cons, List.map_append, ih, List.filter_cons]
    by_cases h : nameOf? dashes word = some name
    · have hword := Word.ofText_of_option? (nameOf?_eq_some_iff.mp h)
      have htext := Word.text_ofText word
      rw [hword] at htext
      rw [if_pos hword, if_pos (decide_eq_true h), ← htext]
      rfl
    · have hword : Word.ofText word ≠ .option dashes name := fun hword =>
        h (nameOf?_eq_some_iff.mpr (Word.ofText_eq_option_iff.mp hword))
      rw [if_neg hword, if_neg (by simpa using h)]
      rfl

theorem flatMap_filter_of_nil {α β : Type} {p : α → Bool} {f : α → List β} {l : List α}
    (h : ∀ x ∈ l, p x = false → f x = []) : (l.filter p).flatMap f = l.flatMap f := by
  induction l with
  | nil => rfl
  | cons x l ih =>
    rw [List.forall_mem_cons] at h
    rw [List.flatMap_cons, ← ih h.2]
    cases hx : p x with
    | true => rw [List.filter_cons_of_pos hx, List.flatMap_cons]
    | false =>
      rw [List.filter_cons_of_neg (Bool.eq_false_iff.mp hx), h.1 hx]
      rfl

/-- An option does not exist if its name is none of the list. -/
theorem find?_eq_none_iff {name : String} : Catalog.find? name = none ↔ name ∉ optionNames := by
  rw [← names_all, ← Catalog.find?_ne_none_iff, not_not]

/-- **Options that do not exist are listed as they stand on the command line**, those of one dash
first. -/
theorem unknownOptions_ofWords (words : List String) :
    (ofWords words).unknownOptions = wordsNamed words .one ((ofWords words).names .one) ++
      wordsNamed words .two (((ofWords words).names .two).filter (· ∉ optionNames)) := by
  unfold unknownOptions wordsNamed
  simp only [map_occurrences_ofWords]
  refine congrArg _ ?_
  rw [← flatMap_filter_of_nil (p := (· ∉ optionNames))]
  · refine List.flatMap_congr fun name hname => ?_
    rw [find?_eq_none_iff.mpr (of_decide_eq_true (List.mem_filter.mp hname).2)]
  · intro name _ hname
    cases hfind : Catalog.find? name with
    | some d => rfl
    | none => exact absurd (find?_eq_none_iff.mp hfind) (of_decide_eq_false hname)

/-- Collecting name by name takes each word once. -/
theorem wordsNamed_perm {names : List String} (hnodup : names.Nodup) (words : List String)
    (dashes : Dashes) : (wordsNamed words dashes names).Perm
      (words.filter fun word => (nameOf? dashes word).any (· ∈ names)) := by
  induction names with
  | nil =>
    have hnone : ∀ word ∈ words, ¬(nameOf? dashes word).any (· ∈ ([] : List String)) = true := by
      simp
    rw [List.filter_eq_nil_iff.mpr hnone]
    exact List.Perm.nil
  | cons name names ih =>
    obtain ⟨hname, hnodup⟩ := List.nodup_cons.mp hnodup
    -- the words of the first name are taken out of those that are left
    have hperm := List.filter_append_perm (nameOf? dashes · = some name)
      (words.filter fun word => (nameOf? dashes word).any (· ∈ name :: names))
    rw [List.filter_filter, List.filter_filter] at hperm
    refine List.Perm.trans ((ih hnodup).append_left _) (List.Perm.trans (List.Perm.of_eq ?_) hperm)
    refine congr (congrArg _ (List.filter_congr fun word _ => ?_))
      (List.filter_congr fun word _ => ?_)
    · by_cases h : nameOf? dashes word = some name
      · simp [h]
      · simp [h]
    · cases h : nameOf? dashes word with
      | none => simp
      | some name' =>
        by_cases hsame : name' = name
        · subst hsame
          simp [hname]
        · simp [hsame]

theorem mem_names_of_nameOf? {words : List String} {dashes : Dashes} {word name : String}
    (hword : word ∈ words) (h : nameOf? dashes word = some name) :
    name ∈ (ofWords words).names dashes := by
  rw [names_eq_eraseDups, List.mem_eraseDups, List.mem_filterMap]
  exact ⟨word, hword, h⟩

/-- Every option of one dash is listed. -/
theorem wordsNamed_one_perm (words : List String) :
    (wordsNamed words .one ((ofWords words).names .one)).Perm
      (words.filter fun word => (nameOf? .one word).isSome) := by
  refine (wordsNamed_perm (nodup_names _ _) words .one).trans (List.Perm.of_eq ?_)
  refine List.filter_congr fun word hword => ?_
  cases h : nameOf? .one word with
  | none => rfl
  | some name => exact decide_eq_true (mem_names_of_nameOf? hword h)

/-- Every option of two dashes that is not in the catalog is listed. -/
theorem wordsNamed_two_perm (words : List String) :
    (wordsNamed words .two (((ofWords words).names .two).filter (· ∉ optionNames))).Perm
      (words.filter fun word => (nameOf? .two word).any (· ∉ optionNames)) := by
  refine (wordsNamed_perm ((nodup_names _ _).filter _) words .two).trans (List.Perm.of_eq ?_)
  refine List.filter_congr fun word hword => ?_
  cases h : nameOf? .two word with
  | none => rfl
  | some name => simp [mem_names_of_nameOf? hword h]

end Arguments

/-! ## Requests -/

namespace Request

/-- The kinds of the problems about an option. -/
def kindsAbout (r : Request) (d : Descriptor) : List ProblemKind :=
  (r.problems.filter (·.option? = some d)).map OptionProblem.kind

/-- How many records of a family are described. -/
def recordCount (r : Request) : Family → Nat
  | .monitor => r.monitors.length
  | .listen => r.listens.length
  | .device => r.devices.length

/-- What the request lists about the options that exist, and the records that it takes from them,
read off the occurrences of each option. -/
structure ListsOnce (r : Request) (a : Arguments) : Prop where
  problems : r.problems =
    (a.names .two).flatMap (fun name => Catalog.problems name (a.occurrences name)) ++
      ([.monitor, .listen, .device].filter fun f : Family =>
        0 < a.count ("set-" ++ f.name) ∧ 0 < a.count ("add-" ++ f.name)).map .exclusive
  /-- No problem about an option is listed with another. -/
  about : ∀ d ∈ Catalog.all,
    r.problems.filter (·.option? = some d) = Catalog.problems d.name (a.occurrences d.name)
  help : r.kindsAbout Catalog.help = []
  flags : ∀ d ∈ [Catalog.autoconfigure, Catalog.isConfigured, Catalog.system],
    r.kindsAbout d = List.replicate (a.count d.name - 1) .duplicateScalarOption ++
      List.replicate ((a.occurrences d.name).countP (· ≠ [])) .arityMismatch
  /-- Only the first occurrence of a value is checked for what it is. -/
  values : ∀ d ∈ [Catalog.localDirectory, Catalog.mode], ∃ further : Option ProblemKind,
    r.kindsAbout d =
      List.replicate (a.count d.name - 1) .duplicateScalarOption ++ further.toList ∧
    (further = none ↔ ∀ args ∈ (a.occurrences d.name).head?,
      ∃ value, args = [value] ∧ ∀ allowed ∈ d.choices, value ∈ allowed)
  /-- An occurrence is looked up by its number to tell what is wrong with it. -/
  records : ∀ f : Family, ∀ d ∈ [f.setOption, f.addOption],
    r.kindsAbout d = ((a.numbered d.name).filter (¬f.Takes ·.arguments)).map fun o =>
      if a.access d.name o.ordinal = .setter then .arityMismatch else .missingArgument
  monitors : r.monitors.map some =
    ((a.descriptions .monitor).filter (Family.monitor.Takes ·)).map MonitorSpec.ofArguments?
  listens : r.listens.map some =
    ((a.descriptions .listen).filter (Family.listen.Takes ·)).map ListenSpec.ofArguments?
  devices : r.devices.map some =
    ((a.descriptions .device).filter (Family.device.Takes ·)).map Device.ofArguments?
  counts : ∀ f, r.recordCount f + (r.kindsAbout f.setOption).length +
    (r.kindsAbout f.addOption).length = a.count f.setOption.name + a.count f.addOption.name

theorem kindsAbout_eq {d : Descriptor} (hd : d ∈ Catalog.all) (a : Arguments) :
    (ofArguments a).kindsAbout d =
      (d.problems (a.occurrences d.name)).map OptionProblem.kind :=
  congrArg _ (Arguments.filter_problems hd a)

theorem setOption_mem_all (f : Family) : f.setOption ∈ Catalog.all := by
  cases f <;> decide

theorem addOption_mem_all (f : Family) : f.addOption ∈ Catalog.all := by
  cases f <;> decide

/-- The options of a family list each occurrence that describes no record, by its number. -/
theorem kindsAbout_of_record {d : Descriptor} {f : Family} {keeps : Bool} (hd : d ∈ Catalog.all)
    (hkind : d.kind = .record f keeps) (a : Arguments) : (ofArguments a).kindsAbout d =
      ((a.numbered d.name).filter (¬f.Takes ·.arguments)).map fun o =>
        if a.access d.name o.ordinal = .setter then .arityMismatch else .missingArgument := by
  rw [kindsAbout_eq hd, Descriptor.map_kind_problems_of_record hkind,
    ← a.map_arguments_numbered d.name, List.filter_map, List.map_map]
  refine List.map_congr_left fun o ho => ?_
  have haccess := Arguments.access_eq_setter_iff (List.mem_filter.mp ho).1
  simp only [haccess, ne_eq, ite_not]
  rfl

theorem listsOnce (a : Arguments) : (ofArguments a).ListsOnce a where
  problems := a.problems_eq
  about := fun d hd => (Arguments.filter_problems hd a).trans (Catalog.problems_name hd _).symm
  help := kindsAbout_eq (by decide) a
  flags := by
    have hflag : ∀ d ∈ [Catalog.autoconfigure, Catalog.isConfigured, Catalog.system],
        d ∈ Catalog.all ∧ d.kind = .flag := by decide
    intro d hd
    rw [kindsAbout_eq (hflag d hd).1, Descriptor.map_kind_problems_of_flag (hflag d hd).2]
    rfl
  values := by
    intro d hd
    obtain ⟨hall, metavar, hkind⟩ :
        d ∈ Catalog.all ∧ ∃ metavar, d.kind = .value metavar d.choices := by
      rcases List.mem_pair.mp hd with rfl | rfl
      · exact ⟨by decide, _, rfl⟩
      · exact ⟨by decide, _, rfl⟩
    rw [kindsAbout_eq hall]
    exact Descriptor.map_kind_problems_of_value hkind _
  records := by
    intro f d hd
    rcases List.mem_pair.mp hd with rfl | rfl
    · exact kindsAbout_of_record (setOption_mem_all f) rfl a
    · exact kindsAbout_of_record (addOption_mem_all f) rfl a
  monitors := Arguments.map_some_records MonitorSpec.isSome_ofArguments?_iff a
  listens := Arguments.map_some_records ListenSpec.isSome_ofArguments?_iff a
  devices := Arguments.map_some_records Device.isSome_ofArguments?_iff a
  counts := by
    intro f
    rw [kindsAbout_eq (setOption_mem_all f), kindsAbout_eq (addOption_mem_all f), List.length_map,
      List.length_map]
    cases f with
    | monitor => exact Arguments.length_records_add_problems MonitorSpec.isSome_ofArguments?_iff a
    | listen => exact Arguments.length_records_add_problems ListenSpec.isSome_ofArguments?_iff a
    | device => exact Arguments.length_records_add_problems Device.isSome_ofArguments?_iff a

/-- What the request lists about options that do not exist: the words that stand for them. -/
structure ListsUnknown (r : Request) (words : List String) (a : Arguments) : Prop where
  unknownOptions : r.unknownOptions = Arguments.wordsNamed words .one (a.names .one) ++
    Arguments.wordsNamed words .two ((a.names .two).filter (· ∉ Arguments.optionNames))
  one : (Arguments.wordsNamed words .one (a.names .one)).Perm
    (words.filter fun word => (Arguments.nameOf? .one word).isSome)
  two : (Arguments.wordsNamed words .two ((a.names .two).filter (· ∉ Arguments.optionNames))).Perm
    (words.filter fun word => (Arguments.nameOf? .two word).any (· ∉ Arguments.optionNames))

/-- An occurrence that describes nothing does not hide the next one. -/
example : let r := ofWords ["--add-device", "--mode", "--add-device", "a", "drv", "p", "--mode",
      "x", "-x"]
    r.problems.map OptionProblem.kind =
        [.missingArgument, .duplicateScalarOption, .missingArgument] ∧
      r.devices = [⟨"a", "drv", "p", ""⟩] ∧ r.unknownOptions = ["-x"] := by decide

end Request

end UpsSetup
