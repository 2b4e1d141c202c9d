import UpsSetup.Proofs.TouchedFiles

/-!
# Runs for one file

A command line can be cut down to the options for one file and the choice of the directory
(`Arguments.only`). What is left stands on a command line again (`Arguments.ofWords_only`), it is
valid if the whole is (`Arguments.isValid_only`), and it asks for what the whole asks of this file
and for nothing else (`Request.edits_only`). So a run with it makes the edits that the whole run
makes of the file (`Invocation.Starts.execute_only_iff`).
-/

namespace UpsSetup

/-! ## Grouped arguments on a command line -/

namespace Segment

/-- The option or separator that starts the segment. -/
def head (s : Segment) : Word :=
  match s.option with
  | some (dashes, name) => .option dashes name
  | none => .separator

/-- The segment as it stands on the command line. -/
def words (s : Segment) : List String := s.head.text :: s.arguments

/-- The words of the segment are what they are meant to be. -/
structure IsWritten (s : Segment) : Prop where
  head : Word.ofText s.head.text = s.head
  arguments : ∀ text ∈ s.arguments, Word.ofText text = .literal text

end Segment

namespace Arguments

variable {a : Arguments} {kind : DocumentKind}

/-- Segments that are written down are grouped into the same segments again. -/
theorem ofWords_flatMap_words {segments : List Segment} (h : ∀ s ∈ segments, s.IsWritten) :
    ofWords (segments.flatMap Segment.words) = ⟨[], segments⟩ := by
  induction segments with
  | nil => rfl
  | cons s segments ih =>
    obtain ⟨hhead, hliteral⟩ := h s List.mem_cons_self
    rw [List.flatMap_cons]
    show cons (Word.ofText s.head.text) (ofWords (s.arguments ++ _)) = _
    rw [hhead, ofWords_literals hliteral, ih fun s' hs' => h s' (List.mem_cons_of_mem _ hs'),
      List.append_nil]
    obtain ⟨option, arguments⟩ := s
    cases option <;> rfl

/-- Whatever words are grouped, the groups can be written again. -/
theorem isWritten_ofWords (words : List String) :
    (∀ text ∈ (ofWords words).leading, Word.ofText text = .literal text) ∧
      ∀ s ∈ (ofWords words).segments, s.IsWritten := by
  induction words with
  | nil => exact ⟨by simp [ofWords], by simp [ofWords]⟩
  | cons word words ih =>
    obtain ⟨hleading, hsegments⟩ := ih
    have hword : Word.ofText (Word.ofText word).text = Word.ofText word := by
      rw [Word.text_ofText]
    rw [ofWords]
    -- an option or a separator takes what was leading behind it
    cases h : Word.ofText word with
    | literal text =>
      rw [h] at hword
      exact ⟨List.forall_mem_cons.mpr ⟨hword, hleading⟩, hsegments⟩
    | option dashes name =>
      rw [h] at hword
      exact ⟨fun _ hnil => absurd hnil List.not_mem_nil,
        List.forall_mem_cons.mpr ⟨⟨hword, hleading⟩, hsegments⟩⟩
    | separator =>
      rw [h] at hword
      exact ⟨fun _ hnil => absurd hnil List.not_mem_nil,
        List.forall_mem_cons.mpr ⟨⟨hword, hleading⟩, hsegments⟩⟩

end Arguments

/-! ## The options for one file -/

/-- The names of the options that matter for a file: the one that chooses the directory, and those
for the file itself. -/
def DocumentKind.neededNames (kind : DocumentKind) : List String :=
  Catalog.localDirectory.name :: kind.optionNames

/-- The segment is an option that matters for the file. -/
def Segment.isFor (s : Segment) (kind : DocumentKind) : Bool :=
  kind.neededNames.any fun name => s.option = some (.two, name)

/-- The options that matter for a file, with their arguments. -/
def Arguments.only (a : Arguments) (kind : DocumentKind) : Arguments :=
  ⟨[], a.segments.filter (·.isFor kind)⟩

/-- The run with the options that matter for a file, in the order in which they were given. -/
def Invocation.only (i : Invocation) (kind : DocumentKind) : Invocation :=
  { i with words := ((Arguments.ofWords i.words).only kind).segments.flatMap Segment.words }

namespace Arguments

variable {a : Arguments} {kind : DocumentKind}

theorem ofWords_only (i : Invocation) (kind : DocumentKind) :
    ofWords (i.only kind).words = (ofWords i.words).only kind :=
  ofWords_flatMap_words fun s hs => (isWritten_ofWords i.words).2 s (List.mem_filter.mp hs).1

example :
    ({ words := ["--add-listen", "::1", "--mode", "none", "--local", "etc", "--", "--add-listen",
        "a", "1"] } : Invocation).only .upsd =
      { words := ["--add-listen", "::1", "--local", "etc", "--add-listen", "a", "1"] } := by
  decide

/-- The options for a file are those that it needs, with two dashes. -/
theorem isFor_iff {s : Segment} :
    s.isFor kind = true ↔ ∃ name ∈ kind.neededNames, s.option = some (.two, name) := by
  simp [Segment.isFor]

/-- Of an option, either all occurrences are left or none. -/
theorem occurrences_only (a : Arguments) (kind : DocumentKind) (name : String) :
    (a.only kind).occurrences name =
      if name ∈ kind.neededNames then a.occurrences name else [] := by
  unfold occurrences only
  rw [List.filter_filter]
  split
  next hname =>
    refine congrArg _ (List.filter_congr fun s _ => ?_)
    by_cases ho : s.option = some (Dashes.two, name)
    · rw [isFor_iff.mpr ⟨name, hname, ho⟩, Bool.and_true]
    · rw [decide_eq_false ho, Bool.false_and]
  next hname =>
    rw [List.map_eq_nil_iff, List.filter_eq_nil_iff]
    intro s _ hs
    rw [Bool.and_eq_true, decide_eq_true_iff] at hs
    obtain ⟨ho, hfor⟩ := hs
    obtain ⟨name', hname', ho'⟩ := isFor_iff.mp hfor
    obtain ⟨-, rfl⟩ := Prod.mk.inj (Option.some.inj (ho.symm.trans ho'))
    exact hname hname'

theorem count_only (a : Arguments) (kind : DocumentKind) (name : String) :
    (a.only kind).count name = if name ∈ kind.neededNames then a.count name else 0 := by
  unfold count
  rw [occurrences_only]
  split
  next => rfl
  next => rfl

theorem value?_only (a : Arguments) (kind : DocumentKind) (d : Descriptor) :
    (a.only kind).value? d = if d.name ∈ kind.neededNames then a.value? d else none := by
  unfold value? occurrence?
  rw [occurrences_only]
  by_cases hname : d.name ∈ kind.neededNames
  · rw [if_pos hname, if_pos hname]
  · rw [if_neg hname, if_neg hname]
    rfl

/-- **What is left of a valid command line is valid.** -/
theorem isValid_only (h : (Request.ofArguments a).isValid = true) (kind : DocumentKind) :
    (Request.ofArguments (a.only kind)).isValid = true := by
  have hmem : ∀ s ∈ (a.only kind).segments, s ∈ a.segments := fun s hs => (List.mem_filter.mp hs).1
  obtain ⟨hoptions, haccepts, hexclusive, htop⟩ := isValid_iff_accepts.mp h
  refine isValid_iff_accepts.mpr ⟨fun s hs => hoptions s (hmem s hs), fun d hd => ?_,
    fun f => conflicting_eq_false_iff.mpr ?_, topLevel_eq_nil_iff.mpr ⟨rfl, fun s hs => ?_⟩⟩
  · rw [occurrences_only]
    split
    next => exact haccepts d hd
    next => exact d.accepts_nil
  · rw [occurrences_only, occurrences_only]
    rcases conflicting_eq_false_iff.mp (hexclusive f) with hset | hadd
    · exact Or.inl (by rw [hset, ite_self])
    · exact Or.inr (by rw [hadd, ite_self])
  · exact (topLevel_eq_nil_iff.mp htop).2 s (hmem s hs)

/-! ## Records of one file -/

theorem optionNames_document (f : Family) :
    f.document.optionNames = [f.setOption.name, f.addOption.name] := by
  cases f <;> decide

/-- The options of a family matter for its own file only. -/
theorem mem_neededNames_iff {f : Family} {name : String} (h : name ∈ f.document.optionNames) :
    name ∈ kind.neededNames ↔ f.document = kind := by
  rw [optionNames_document] at h
  rcases List.mem_pair.mp h with rfl | rfl
  · cases f <;> cases kind <;> decide
  · cases f <;> cases kind <;> decide

/-- Since a family is either replaced or added to, its records come in the order of the
occurrences. -/
theorem records_eq_of_not_conflicting {f : Family} (h : (a.familyCount f).conflicting = false)
    {α : Type} (ofArguments? : List String → Option α) :
    a.records f ofArguments? =
      (a.occurrences f.setOption.name ++ a.occurrences f.addOption.name).filterMap
        ofArguments? := by
  have hnames : ∀ {name}, (Catalog.find? name).bind Descriptor.family? = some f ↔
      name = f.setOption.name ∨ name = f.addOption.name := Catalog.family?_find?_eq_some_iff
  rcases conflicting_eq_false_iff.mp h with hset | hadd
  · rw [hset, List.nil_append]
    refine records_eq_of_only (hnames.mpr (Or.inr rfl)) (fun name hmem hname => ?_) ofArguments?
    refine (hnames.mp hname).resolve_left fun heq => ?_
    exact occurrences_eq_nil_iff.mp hset (heq ▸ hmem)
  · rw [hadd, List.append_nil]
    refine records_eq_of_only (hnames.mpr (Or.inl rfl)) (fun name hmem hname => ?_) ofArguments?
    refine (hnames.mp hname).resolve_right fun heq => ?_
    exact occurrences_eq_nil_iff.mp hadd (heq ▸ hmem)

/-- A file keeps the records of its own family and loses those of the others. -/
theorem records_only (h : (Request.ofArguments a).isValid = true) (kind : DocumentKind)
    (f : Family) {α : Type} (ofArguments? : List String → Option α) :
    (a.only kind).records f ofArguments? =
      if f.document = kind then a.records f ofArguments? else [] := by
  have hset : f.setOption.name ∈ kind.neededNames ↔ f.document = kind :=
    mem_neededNames_iff (by rw [optionNames_document]; exact List.mem_cons_self)
  have hadd : f.addOption.name ∈ kind.neededNames ↔ f.document = kind :=
    mem_neededNames_iff (by
      rw [optionNames_document]
      exact List.mem_cons_of_mem _ List.mem_cons_self)
  rw [records_eq_of_not_conflicting ((isValid_iff_accepts.mp h).2.2.1 f),
    records_eq_of_not_conflicting ((isValid_iff_accepts.mp (isValid_only h kind)).2.2.1 f),
    occurrences_only, occurrences_only]
  simp only [hset, hadd]
  split
  next => rfl
  next => rfl

end Arguments

/-- The records that are put into one file. -/
def Records.only (records : Records) (kind : DocumentKind) : Records where
  monitors := if Family.document .monitor = kind then records.monitors else []
  listens := if Family.document .listen = kind then records.listens else []

namespace Request

variable {a : Arguments} {records : Records}

/-- If all records can be built, those for one file can. -/
theorem materialize_only (hvalid : (ofArguments a).isValid = true) (kind : DocumentKind)
    (h : (ofArguments a).materialize = .ok records) :
    (ofArguments (a.only kind)).materialize = .ok (records.only kind) := by
  obtain ⟨hmonitors, hlistens⟩ := materialize_eq_ok_iff.mp h
  have hleft : ∀ {α β : Type} {f : α → Except FieldFault β} {l : List α} {l' : List β}
      (family : Family), l.mapM f = .ok l' →
      (if family.document = kind then l else []).mapM f =
        .ok (if family.document = kind then l' else []) := by
    intro α β f l l' family hl
    split
    next => exact hl
    next => rfl
  refine materialize_eq_ok_iff.mpr ⟨?_, ?_⟩
  · show ((a.only kind).records .monitor MonitorSpec.ofArguments?).mapM _ = _
    rw [Arguments.records_only hvalid]
    exact hleft .monitor hmonitors
  · show ((a.only kind).records .listen ListenSpec.ofArguments?).mapM _ = _
    rw [Arguments.records_only hvalid]
    exact hleft .listen hlistens

theorem localDirectory_only (a : Arguments) (kind : DocumentKind) :
    (ofArguments (a.only kind)).localDirectory = (ofArguments a).localDirectory := by
  have hmem : Catalog.localDirectory.name ∈ kind.neededNames := List.mem_cons_self
  show (a.only kind).value? Catalog.localDirectory = _
  rw [Arguments.value?_only, if_pos hmem]
  rfl

theorem mode_only (a : Arguments) (kind : DocumentKind) :
    (ofArguments (a.only kind)).mode = if kind = .nut then (ofArguments a).mode else none := by
  have hmem : Catalog.mode.name ∈ kind.neededNames ↔ kind = .nut := by
    cases kind <;> decide
  show ((a.only kind).value? Catalog.mode).bind Mode.ofName? = _
  rw [Arguments.value?_only]
  by_cases hkind : kind = .nut
  · rw [if_pos (hmem.mpr hkind), if_pos hkind]
    rfl
  · rw [if_neg (mt hmem.mp hkind), if_neg hkind]
    rfl

theorem keepsExisting_only (a : Arguments) (f : Family) :
    (ofArguments (a.only f.document)).keepsExisting f = (ofArguments a).keepsExisting f := by
  have hmem : f.addOption.name ∈ f.document.neededNames := by
    cases f <;> decide
  show decide (0 < (a.only f.document).count f.addOption.name) =
    decide (0 < a.count f.addOption.name)
  rw [Arguments.count_only, if_pos hmem]

/-- Neither the usage text nor the state is asked for by an option for a file. -/
theorem help_isConfigured_only (a : Arguments) (kind : DocumentKind) :
    (ofArguments (a.only kind)).help = false ∧
      (ofArguments (a.only kind)).isConfigured = false := by
  have hmem : Catalog.help.name ∉ kind.neededNames ∧ Catalog.isConfigured.name ∉ kind.neededNames
      := by
    cases kind <;> decide
  constructor
  · rw [← Bool.not_eq_true]
    intro hhelp
    obtain ⟨s, hs, dashes, ho⟩ := Arguments.isGiven_iff.mp hhelp
    obtain ⟨name, hname, ho'⟩ := Arguments.isFor_iff.mp (List.mem_filter.mp hs).2
    obtain ⟨-, rfl⟩ := Prod.mk.inj (Option.some.inj (ho.symm.trans ho'))
    exact hmem.1 hname
  · show decide (0 < (a.only kind).count Catalog.isConfigured.name) = false
    rw [Arguments.count_only, if_neg hmem.2]
    rfl

/-- **What is left of a request are the edits of the one file.** -/
theorem edits_only (hvalid : (ofArguments a).isValid = true) (records : Records)
    (kind : DocumentKind) :
    (ofArguments (a.only kind)).edits (records.only kind) =
      (ofArguments a).editsOf records kind := by
  have hdevices : (ofArguments (a.only kind)).devices =
      if Family.document .device = kind then (ofArguments a).devices else [] :=
    Arguments.records_only hvalid kind .device Device.ofArguments?
  rw [edits_eq, Arguments.flatMap_eq_of_only (by decide) kind.mem_inOrder fun other _ hother => ?_]
  · have hkeeps := keepsExisting_only a
    cases kind with
    | upsmon => simp only [editsOf, ← hkeeps .monitor, Records.only, Family.document, if_true]
    | upsd => simp only [editsOf, ← hkeeps .listen, Records.only, Family.document, if_true]
    | ups => simp only [editsOf, ← hkeeps .device, hdevices, Family.document, if_true]
    | nut => simp only [editsOf, mode_only, if_true]
  · rw [editsOf_eq_nil_iff]
    cases other with
    | upsmon => exact fun h => h (if_neg hother)
    | upsd => exact fun h => h (if_neg hother)
    | ups => exact fun h => h (hdevices.trans (if_neg hother))
    | nut => exact fun h => h ((mode_only a kind).trans (if_neg hother.symm))

end Request

/-! ## Runs -/

namespace Invocation

variable {i : Invocation} {t u : Tree} {loc : Location} {records : Records}

/-- The command line for one file works in the same directory. -/
theorem directory_only (i : Invocation) (kind : DocumentKind) :
    (i.only kind).directory = i.directory := by
  unfold directory Request.ofWords
  rw [Arguments.ofWords_only, Request.directory, Request.localDirectory_only]
  rfl

/-- If the whole run gets as far as the first file, so does the run for one file. -/
theorem Starts.only (h : i.Starts t loc records) (kind : DocumentKind) :
    (i.only kind).Starts t loc (records.only kind) := by
  have hwords : Request.ofWords (i.only kind).words =
      Request.ofArguments ((Arguments.ofWords i.words).only kind) := by
    rw [Request.ofWords, Arguments.ofWords_only]
  obtain ⟨hhelp, hask⟩ := Request.help_isConfigured_only (Arguments.ofWords i.words) kind
  refine ⟨?_, ?_, ?_, ?_, ?_⟩
  · rw [hwords]
    exact hhelp
  · rw [hwords]
    exact Arguments.isValid_only h.valid kind
  · rw [directory_only]
    exact h.directory
  · rw [hwords]
    exact hask
  · rw [hwords]
    exact Request.materialize_only h.valid kind h.built

/-- **A run for one file makes the edits that the whole run makes of this file.** -/
theorem Starts.execute_only_iff (h : i.Starts t loc records) (kind : DocumentKind) :
    ((i.only kind).execute t).answer.code = successCode ∧ ((i.only kind).execute t).tree = u ↔
      t.editAll i.directory ((Request.ofWords i.words).editsOf records kind) = some u := by
  rw [(h.only kind).success_iff, directory_only, Request.ofWords, Arguments.ofWords_only,
    Request.edits_only h.valid]
  rfl

end Invocation

end UpsSetup
