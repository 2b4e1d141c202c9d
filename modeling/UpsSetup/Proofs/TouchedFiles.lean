import UpsSetup.Proofs.Grammar
import UpsSetup.Proofs.Progress

/-!
# Files that a run touches

Whatever becomes of a run, it changes no file but those for which its command line holds an option
(`Invocation.only_requested_files_change`), as long as none of the four files is a link. A file that
is touched is one that an edit was made of (`Job.HasNoLinks.of_editAll`), there is an edit only
where there is something to put into the file (`Request.exists_mem_edits_iff`), and this comes from
an option (`Arguments.requests_of_fills`).
-/

namespace UpsSetup

/-! ## Trees without links -/

namespace Job

variable {t t' : Tree} {directory : Path} {loc : Location} {kind : DocumentKind} {e : Edit}

/-- The path leads to the directory, and none of the configuration files in it is a link. -/
structure HasNoLinks (t : Tree) (directory : Path) (loc : Location) : Prop where
  directory : t.locate directory = .directory loc
  entries : ∀ (kind : DocumentKind) (target : String),
    t.get? (loc ++ [kind.fileName]) ≠ some (.link target)

/-- Where an edit is made there is a file, or nothing. -/
theorem HasNoLinks.takesFile (h : HasNoLinks t directory loc)
    (hedit : t.edit? (documentPath directory kind) e = some t') :
    t.TakesFile (loc ++ [kind.fileName]) := by
  obtain ⟨hname, hup, hshort⟩ := isName_fileName kind
  cases hget : t.get? (loc ++ [kind.fileName]) with
  | none => exact Or.inl hget
  | some entry =>
    cases entry with
    | file content => exact Or.inr ⟨content, hget⟩
    | link target => exact absurd hget (h.entries kind target)
    | directory =>
      -- a directory cannot be edited
      have hreach : Tree.Place.location? (t.locate (directory.child kind.fileName)) ≠ none := by
        intro hnone
        unfold Tree.edit? documentPath at hedit
        cases hplace : t.locate (directory.child kind.fileName) with
        | nowhere obstacle => simp [hplace] at hedit
        | _ => simp [hplace, Tree.Place.location?] at hnone
      have hplace := Tree.locate_child_of_directory h.directory hname hup hshort hget hreach
      unfold Tree.edit? documentPath at hedit
      rw [hplace] at hedit
      simp at hedit

/-- An edit puts a file at the place of its kind. -/
theorem HasNoLinks.exists_insert (h : HasNoLinks t directory loc)
    (hedit : t.edit? (documentPath directory kind) e = some t') :
    ∃ c, t' = t.insert (loc ++ [kind.fileName]) (.file c) := by
  have hfiles : HoldsFiles t directory loc [kind] :=
    ⟨h.directory, fun k hk => List.mem_singleton.mp hk ▸ h.takesFile hedit⟩
  obtain ⟨-, c, -, ht'⟩ := (hfiles.edit?_eq_some_iff (List.mem_singleton_self kind)).mp hedit
  exact ⟨c, ht'⟩

theorem HasNoLinks.edit? (h : HasNoLinks t directory loc)
    (hedit : t.edit? (documentPath directory kind) e = some t') : HasNoLinks t' directory loc := by
  obtain ⟨c, rfl⟩ := h.exists_insert hedit
  refine ⟨?_, fun k target => ?_⟩
  · have hafter := Tree.locate_insert (h.takesFile hedit) c directory
    rw [h.directory] at hafter
    exact hafter
  · rw [Tree.get?_insert]
    split
    · simp
    · exact h.entries k target

/-- **Edits change nothing but the files they are made of.** -/
theorem HasNoLinks.of_editAll (h : HasNoLinks t directory loc)
    {edits : List (DocumentKind × Edit)} (hedit : t.editAll directory edits = some t') :
    t'.workingDirectory = t.workingDirectory ∧
      ∀ l, t'.get? l ≠ t.get? l → ∃ e ∈ edits, l = loc ++ [e.1.fileName] := by
  induction edits generalizing t with
  | nil =>
    obtain rfl := Option.some.inj hedit
    exact ⟨rfl, fun l hl => absurd rfl hl⟩
  | cons e edits ih =>
    rw [Tree.editAll_cons] at hedit
    obtain ⟨u, hu, hrest⟩ := Option.bind_eq_some_iff.mp hedit
    obtain ⟨hworking, hlater⟩ := ih (h.edit? hu) hrest
    obtain ⟨c, rfl⟩ := h.exists_insert hu
    refine ⟨hworking, fun l hl => ?_⟩
    by_cases hself : l = loc ++ [e.1.fileName]
    · exact ⟨e, List.mem_cons_self, hself⟩
    · have hl' := hlater l
      rw [Tree.get?_insert, if_neg hself] at hl'
      obtain ⟨e', he', hl'⟩ := hl' hl
      exact ⟨e', List.mem_cons_of_mem _ he', hl'⟩

end Job

/-! ## What is put into a file -/

/-- The file of a family of records. -/
def Family.document : Family → DocumentKind
  | monitor => .upsmon
  | listen => .upsd
  | device => .ups

/-- The names of the options whose records or value are put into a file. -/
def DocumentKind.optionNames : DocumentKind → List String
  | upsmon => ["set-monitor", "add-monitor"]
  | upsd => ["set-listen", "add-listen"]
  | ups => ["set-device", "add-device"]
  | nut => ["mode"]

namespace Request

/-- There is something to put into a file. -/
def Fills (r : Request) (records : Records) : DocumentKind → Prop
  | .upsmon => records.monitors ≠ []
  | .upsd => records.listens ≠ []
  | .ups => r.devices ≠ []
  | .nut => r.mode ≠ none

/-- There is one edit of a file into which there is something to put, and otherwise none. -/
theorem editsOf_cases (r : Request) (records : Records) (kind : DocumentKind) :
    (¬r.Fills records kind ∧ r.editsOf records kind = []) ∨
      (r.Fills records kind ∧ ∃ edit, r.editsOf records kind = [(kind, edit)]) := by
  have hlist : ∀ {α : Type} [Document α] {ι : Type} (l : List ι) (change : α → α),
      (¬l ≠ [] ∧ Document.editIf (!l.isEmpty) change = []) ∨
        (l ≠ [] ∧ ∃ edit, Document.editIf (!l.isEmpty) change = [(Document.kind α, edit)]) := by
    intro α _ ι l change
    cases l with
    | nil => exact Or.inl ⟨fun h => h rfl, rfl⟩
    | cons a l => exact Or.inr ⟨List.cons_ne_nil a l, Document.edit change, rfl⟩
  cases kind with
  | nut =>
    unfold editsOf Fills
    cases r.mode with
    | none => exact Or.inl ⟨fun h => h rfl, rfl⟩
    | some mode => exact Or.inr ⟨Option.some_ne_none mode, _, rfl⟩
  | _ => exact hlist _ _

theorem editsOf_eq_nil_iff {r : Request} {records : Records} {kind : DocumentKind} :
    r.editsOf records kind = [] ↔ ¬r.Fills records kind := by
  rcases r.editsOf_cases records kind with ⟨hfills, hnil⟩ | ⟨hfills, edit, hone⟩
  · exact iff_of_true hnil hfills
  · exact iff_of_false (by simp [hone]) (not_not.mpr hfills)

theorem kind_of_mem_editsOf {r : Request} {records : Records} {kind : DocumentKind}
    {e : DocumentKind × Edit} (h : e ∈ r.editsOf records kind) : e.1 = kind := by
  rcases r.editsOf_cases records kind with ⟨-, hnil⟩ | ⟨-, edit, hone⟩
  · simp [hnil] at h
  · rw [hone] at h
    rw [List.mem_singleton.mp h]

theorem mem_edits_iff {r : Request} {records : Records} {e : DocumentKind × Edit} :
    e ∈ r.edits records ↔ e ∈ r.editsOf records e.1 := by
  rw [edits_eq, List.mem_flatMap]
  constructor
  · rintro ⟨kind, -, he⟩
    rwa [kind_of_mem_editsOf he]
  · intro he
    exact ⟨e.1, e.1.mem_inOrder, he⟩

/-- There is an edit of each file into which there is something to put. -/
theorem exists_mem_edits_iff {r : Request} {records : Records} {kind : DocumentKind} :
    (∃ e ∈ r.edits records, e.1 = kind) ↔ r.Fills records kind := by
  rw [← not_iff_not, ← editsOf_eq_nil_iff, List.eq_nil_iff_forall_not_mem]
  constructor
  · intro h e he
    have hkind := kind_of_mem_editsOf he
    exact h ⟨e, mem_edits_iff.mpr (hkind ▸ he), hkind⟩
  · rintro h ⟨e, he, rfl⟩
    exact h e (mem_edits_iff.mp he)

end Request

/-! ## What is asked for -/

namespace Arguments

/-- The command line holds an option for the file. -/
def Requests (a : Arguments) (kind : DocumentKind) : Prop :=
  ∃ s ∈ a.segments, ∃ name ∈ kind.optionNames, s.option = some (.two, name)

theorem requests_iff {a : Arguments} {kind : DocumentKind} :
    a.Requests kind ↔ ∃ name ∈ kind.optionNames, name ∈ a.names .two := by
  simp only [mem_names_iff]
  constructor
  · rintro ⟨s, hs, name, hname, ho⟩
    exact ⟨name, hname, s, hs, ho⟩
  · rintro ⟨name, hname, s, hs, ho⟩
    exact ⟨s, hs, name, hname, ho⟩

/-- The options of a family are those for its file. -/
theorem mem_optionNames_of_family? {name : String} {f : Family}
    (h : (Catalog.find? name).bind Descriptor.family? = some f) :
    name ∈ f.document.optionNames := by
  have hall : ∀ d ∈ Catalog.all, ∀ f ∈ d.family?, d.name ∈ f.document.optionNames := by decide
  obtain ⟨d, hfind, hf⟩ := Option.bind_eq_some_iff.mp h
  obtain ⟨hd, rfl⟩ := Catalog.find?_eq_some_iff.mp hfind
  exact hall d hd f hf

theorem requests_of_records {a : Arguments} {f : Family} {α : Type}
    {ofArguments? : List String → Option α} (h : a.records f ofArguments? ≠ []) :
    a.Requests f.document := by
  obtain ⟨r, hr⟩ := List.exists_mem_of_ne_nil _ h
  obtain ⟨name, hname, hr⟩ := List.mem_flatMap.mp hr
  split at hr
  next hf => exact requests_iff.mpr ⟨name, mem_optionNames_of_family? hf, hname⟩
  next => simp at hr

theorem requests_of_mode {a : Arguments} (h : (Request.ofArguments a).mode ≠ none) :
    a.Requests .nut := by
  refine requests_iff.mpr ⟨Catalog.mode.name, by decide, ?_⟩
  rw [← not_not (a := Catalog.mode.name ∈ _), ← occurrences_eq_nil_iff]
  intro hnone
  refine h ?_
  show (a.value? Catalog.mode).bind Mode.ofName? = none
  rw [value?, occurrence?, hnone]
  rfl

/-- **What is put into a file comes from an option for it.** -/
theorem requests_of_fills {a : Arguments} {records : Records} {kind : DocumentKind}
    (hbuilt : (Request.ofArguments a).materialize = .ok records)
    (h : (Request.ofArguments a).Fills records kind) : a.Requests kind := by
  obtain ⟨hmonitors, hlistens⟩ := Request.materialize_eq_ok_iff.mp hbuilt
  cases kind with
  | upsmon => exact requests_of_records (f := .monitor) (Result.ne_nil_of_mapM hmonitors h)
  | upsd => exact requests_of_records (f := .listen) (Result.ne_nil_of_mapM hlistens h)
  | ups => exact requests_of_records (f := .device) h
  | nut => exact requests_of_mode h

end Arguments

/-! ## Whatever becomes of a run -/

theorem Result.mapM_ne_ok {ε α β : Type} {f : α → Except ε β} {l : List α} {l' : List β} {a : α}
    (ha : a ∈ l) {e : ε} (he : f a = .error e) : l.mapM f ≠ .ok l' := by
  intro h
  have hall := Result.mapM_eq_ok_iff.mp h
  clear h
  induction hall with
  | nil => simp at ha
  | cons hab _ ih =>
    rcases List.mem_cons.mp ha with rfl | ha
    · rw [he] at hab
      simp at hab
    · exact ih ha

/-- **Nothing is changed before the command line is accepted as a whole, and afterwards only files
for which it holds an option**, whatever becomes of the run. -/
theorem Invocation.only_requested_files_change {i : Invocation} {t : Tree}
    (hlinks : ∀ loc, t.locate i.directory = .directory loc → ∀ (kind : DocumentKind) target,
      t.get? (loc ++ [kind.fileName]) ≠ some (.link target)) :
    ((Request.ofWords i.words).help = true ∨ (Request.ofWords i.words).isValid = false ∨
        (∀ loc, t.locate i.directory ≠ .directory loc) ∨
        (Request.ofWords i.words).isConfigured = true ∨
        (∃ spec ∈ (Request.ofWords i.words).monitors, ∃ fault, spec.toMonitor = .error fault) ∨
        (∃ spec ∈ (Request.ofWords i.words).listens, ∃ fault, spec.toListen = .error fault) →
      (i.execute t).tree = t) ∧
    (i.execute t).tree.workingDirectory = t.workingDirectory ∧
    ∀ l, (i.execute t).tree.get? l ≠ t.get? l → ∃ loc kind,
      t.locate i.directory = .directory loc ∧ l = loc ++ [kind.fileName] ∧
        (Arguments.ofWords i.words).Requests kind := by
  constructor
  · intro hstop
    refine tree_of_not_starts fun loc records h => ?_
    obtain ⟨hmonitors, hlistens⟩ := Request.materialize_eq_ok_iff.mp h.built
    rcases hstop with hhelp | hvalid | hdir | hask | ⟨spec, hmem, fault, hfault⟩ |
      ⟨spec, hmem, fault, hfault⟩
    · exact absurd h.help (by simp [hhelp])
    · exact absurd h.valid (by simp [hvalid])
    · exact hdir loc h.directory
    · exact absurd h.ask (by simp [hask])
    · exact Result.mapM_ne_ok hmem hfault hmonitors
    · exact Result.mapM_ne_ok hmem hfault hlistens
  · by_cases hstarts : ∃ loc records, i.Starts t loc records
    · obtain ⟨loc, records, h⟩ := hstarts
      have hnolinks : Job.HasNoLinks t i.directory loc := ⟨h.directory, hlinks loc h.directory⟩
      have hfills : ∀ e ∈ (Request.ofWords i.words).edits records,
          (Arguments.ofWords i.words).Requests e.1 := fun e he =>
        Arguments.requests_of_fills h.built (Request.exists_mem_edits_iff.mp ⟨e, he, rfl⟩)
      -- the edits that were made, be they all or the first of them
      obtain ⟨made, hmade, hedit⟩ : ∃ made,
          (∀ e ∈ made, e ∈ (Request.ofWords i.words).edits records) ∧
            t.editAll i.directory made = some (i.execute t).tree := by
        rcases h.run with ⟨-, hedit⟩ | ⟨before, e, after, failure, hedits, hedit, -, -⟩
        · exact ⟨_, fun e he => he, hedit⟩
        · exact ⟨before, fun e he => hedits ▸ List.mem_append_left _ he, hedit⟩
      obtain ⟨hworking, hchanged⟩ := hnolinks.of_editAll hedit
      refine ⟨hworking, fun l hl => ?_⟩
      obtain ⟨e, he, hloc⟩ := hchanged l hl
      exact ⟨loc, e.1, h.directory, hloc, hfills e (hmade e he)⟩
    · have htree : (i.execute t).tree = t :=
        tree_of_not_starts fun loc records h => hstarts ⟨loc, records, h⟩
      rw [htree]
      exact ⟨rfl, fun l hl => absurd rfl hl⟩

/-- A run that adds a monitor and a listen address, where the file of the listen addresses cannot be
read, leaves the monitor behind and no other change. -/
theorem Invocation.only_requested_files_change_of_bad_listens :
    let i : Invocation := { words := ["--local", "etc", "--add-monitor", "ups", "host", "1", "me",
      "pw", "master", "--add-listen", "::1"] }
    let t : Tree := ⟨⟨[(["etc"], .directory),
      (["etc", "upsd.conf"], .file "LISTEN\n".toUTF8)], by decide⟩, []⟩
    (∀ loc, t.locate i.directory = .directory loc → ∀ (kind : DocumentKind) target,
        t.get? (loc ++ [kind.fileName]) ≠ some (.link target)) ∧
      (i.execute t).answer.code = failureCode ∧
      (i.execute t).tree.get? ["etc", "upsmon.conf"] ≠ t.get? ["etc", "upsmon.conf"] ∧
      ∀ l, (i.execute t).tree.get? l ≠ t.get? l → ∃ loc kind,
        t.locate i.directory = .directory loc ∧ l = loc ++ [kind.fileName] ∧
          (Arguments.ofWords i.words).Requests kind := by
  intro i t
  have hdirectory : t.locate i.directory = .directory ["etc"] := by decide +kernel
  have hlinks : ∀ loc, t.locate i.directory = .directory loc → ∀ (kind : DocumentKind) target,
      t.get? (loc ++ [kind.fileName]) ≠ some (.link target) := by
    intro loc hloc kind target
    obtain rfl : ["etc"] = loc := by simpa [hdirectory] using hloc
    cases kind <;>
      simp [t, Tree.get?, OrderedMap.get?, OrderedMap.lookupPairs, DocumentKind.fileName]
  exact ⟨hlinks, by decide +kernel, by decide +kernel, (only_requested_files_change hlinks).2.2⟩

end UpsSetup
