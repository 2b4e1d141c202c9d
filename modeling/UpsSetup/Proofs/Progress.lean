import UpsSetup.Proofs.Editing
import UpsSetup.Proofs.Failures

/-!
# How far a run gets

A run that changes files makes its edits one after the other. If one of them cannot be made the run
ends there: the edits before it stay, and nothing else was done (`Job.Performs`). So whatever
becomes of a run, it leaves either the tree it found or the tree after the first of its edits
(`Invocation.Starts.run`, `Invocation.tree_of_not_starts`).
-/

namespace UpsSetup

/-! ## An edit that cannot be made -/

namespace Tree

/-- Why the file at a path cannot be edited. -/
def refusal? (t : Tree) (p : Path) (e : Edit) : Option Failure :=
  let unreadable : Failure := .storage { step := .parse, path := p.text }
  match t.locate p with
  | .file _ content => if (e (some content)).isSome then none else some unreadable
  | .vacant _ => if (e none).isSome then none else some unreadable
  | .directory _ => some unreadable
  | .nowhere .nameTooLong => some (.nameTooLong p.text)
  | .nowhere .nulCharacter => some .nulCharacter
  | .nowhere _ => some (.storage { step := .write, path := p.text })

variable {t : Tree} {p : Path} {e : Edit} {failure : Failure}

theorem refusal?_eq_none_iff : t.refusal? p e = none ↔ ∃ t', t.edit? p e = some t' := by
  unfold refusal? edit?
  dsimp only
  cases t.locate p with
  | file l content => cases h : e (some content) <;> simp [h]
  | vacant l => cases e none <;> simp
  | directory l => simp
  | nowhere o => cases o <;> simp

theorem isAbout_of_refusal? (h : t.refusal? p e = some failure) : failure.IsAbout p := by
  unfold refusal? at h
  dsimp only at h
  split at h
  next =>
    split at h
    · simp at h
    · exact Option.some.inj h ▸ rfl
  next =>
    split at h
    · simp at h
    · exact Option.some.inj h ▸ rfl
  next => exact Option.some.inj h ▸ rfl
  next => exact Option.some.inj h ▸ rfl
  next => exact Option.some.inj h ▸ trivial
  next => exact Option.some.inj h ▸ rfl

end Tree

namespace Job

/-! ## Jobs that are edits -/

/-- The job makes the edits in a directory one after the other. It fails at the first that cannot be
made, when the edits before it are made, and for the reason why this one cannot. -/
structure Performs (job : Job Unit) (directory : Path) (edits : List (DocumentKind × Edit)) :
    Prop where
  yields_iff : ∀ {t t'}, job.Yields t () t' ↔ t.editAll directory edits = some t'
  fails_iff : ∀ {t failure t'}, job.Fails t failure t' ↔ ∃ before e after,
    edits = before ++ e :: after ∧ t.editAll directory before = some t' ∧
      t'.refusal? (documentPath directory e.1) e.2 = some failure

theorem performs_nil (directory : Path) : (Pure.pure () : Job Unit).Performs directory [] where
  yields_iff {t t'} := by
    rw [yields_pure_iff, and_iff_right rfl, eq_comm]
    exact (Option.some_inj (a := t)).symm
  fails_iff := iff_of_false not_fails_pure (by simp)

theorem Performs.bind {job : Job Unit} {next : Unit → Job Unit} {directory : Path}
    {edits edits' : List (DocumentKind × Edit)} (h : job.Performs directory edits)
    (h' : (next ()).Performs directory edits') :
    (job >>= next).Performs directory (edits ++ edits') where
  yields_iff {t t'} := by
    rw [yields_unit_bind_iff, Tree.editAll_append, Option.bind_eq_some_iff]
    simp only [h.yields_iff, h'.yields_iff]
  fails_iff {t failure t'} := by
    rw [fails_unit_bind_iff, h.fails_iff]
    simp only [h.yields_iff, h'.fails_iff]
    constructor
    · rintro (⟨before, e, after, rfl, hmade, he⟩ |
        ⟨u, hu, before, e, after, rfl, hmade, he⟩)
      · exact ⟨before, e, after ++ edits', List.append_assoc .., hmade, he⟩
      · refine ⟨edits ++ before, e, after, (List.append_assoc ..).symm, ?_, he⟩
        rw [Tree.editAll_append, hu]
        exact hmade
    · rintro ⟨before, e, after, hedits, hmade, he⟩
      -- the edit that cannot be made is one of the first job or one of the second
      rcases List.append_eq_append_iff.mp hedits with ⟨between, rfl, hrest⟩ | ⟨between, rfl, hrest⟩
      · rw [Tree.editAll_append, Option.bind_eq_some_iff] at hmade
        obtain ⟨u, hu, hmade⟩ := hmade
        exact Or.inr ⟨u, hu, between, e, after, hrest, hmade, he⟩
      · cases between with
        | nil =>
          rw [List.append_nil]
          exact Or.inr ⟨t', hmade, [], e, after, hrest.symm, rfl, he⟩
        | cons first between =>
          obtain ⟨rfl, rfl⟩ := List.cons.inj hrest
          exact Or.inl ⟨before, e, between, rfl, hmade, he⟩

variable {α : Type} [Document α]

theorem refusal?_of_fails_updateDocument {directory : Path} {event : Option Event} {change : α → α}
    {t t' : Tree} {failure : Failure}
    (h : (updateDocument directory event change).Fails t failure t') :
    t' = t ∧ t.refusal? (documentPath directory (Document.kind α)) (Document.edit change) =
      some failure := by
  unfold Tree.refusal? Document.edit
  dsimp only
  rcases fails_updateDocument h with hsource | ⟨found, hsource, hstore⟩
  · obtain ⟨htree, hplace⟩ := fails_source hsource
    refine ⟨htree, ?_⟩
    rcases hplace with ⟨rfl, hlong⟩ | ⟨rfl, ⟨l, hl⟩ | ⟨l, content, hl, hread⟩⟩
    · rw [hlong]
    · rw [hl]
    · rw [hl]
      show (if (Option.map _ (Document.ofBytes? content)).isSome = true then none else _) = _
      rw [hread]
      rfl
  · obtain ⟨htree, hwrite, rfl⟩ := fails_store hstore
    refine ⟨htree, ?_⟩
    -- there is no file, and none can be made
    cases hplace : t.locate (documentPath directory (Document.kind α)) with
    | file l content => simp [Tree.write?, hplace] at hwrite
    | vacant l => simp [Tree.write?, hplace] at hwrite
    | directory l =>
      cases found with
      | none => simp [yields_source_none_iff, hplace] at hsource
      | some d => simp [yields_source_some_iff, hplace] at hsource
    | nowhere o =>
      cases found with
      | none =>
        have ho : o ≠ .nameTooLong := by simpa [yields_source_none_iff, hplace] using hsource
        cases o <;> simp at ho ⊢
      | some d => simp [yields_source_some_iff, hplace] at hsource

/-- **To change a document is one edit**, which fails before anything is changed. -/
theorem performs_updateDocument (directory : Path) (event : Option Event) (change : α → α) :
    (updateDocument directory event change).Performs directory
      [(Document.kind α, Document.edit change)] where
  yields_iff {t t'} := by
    rw [yields_updateDocument_iff, exists_stores_iff, Tree.editAll_cons]
    exact (congrArg (· = some t') (Option.bind_fun_some _)).symm ▸ Iff.rfl
  fails_iff {t failure t'} := by
    constructor
    · intro h
      obtain ⟨rfl, hrefusal⟩ := refusal?_of_fails_updateDocument h
      exact ⟨[], _, [], rfl, rfl, hrefusal⟩
    · rintro ⟨before, e, after, hedits, hmade, he⟩
      obtain ⟨rfl, rfl, rfl⟩ : before = [] ∧ e = (Document.kind α, Document.edit change) ∧
          after = [] := by
        cases before with
        | nil => simpa [eq_comm] using hedits
        | cons first before => simp at hedits
      obtain rfl := Option.some.inj hmade
      -- a job that does not fail would have made the edit
      rcases yields_or_fails (updateDocument directory event change) t with ⟨⟨⟩, h⟩ | ⟨failure', h⟩
      · rw [yields_updateDocument_iff, exists_stores_iff] at h
        rw [Tree.refusal?_eq_none_iff.mpr ⟨_, h⟩] at he
        simp at he
      · obtain ⟨htree, hrefusal⟩ := refusal?_of_fails_updateDocument h
        rw [htree] at h
        rwa [Option.some.inj (hrefusal.symm.trans he)] at h

theorem performs_onlyIf (needed : Bool) (directory : Path) (event : Option Event) (change : α → α) :
    (onlyIf needed (updateDocument directory event change)).Performs directory
      (Document.editIf needed change) := by
  cases needed with
  | false => exact performs_nil directory
  | true => exact performs_updateDocument directory event change

end Job

/-- The files in the order in which a run changes them. -/
def DocumentKind.inOrder : List DocumentKind := [.upsmon, .upsd, .ups, .nut]

theorem DocumentKind.mem_inOrder (kind : DocumentKind) : kind ∈ inOrder := by
  cases kind <;> decide

namespace Request

/-- The edit of one file, if there is something to put into it. -/
def editsOf (r : Request) (records : Records) : DocumentKind → List (DocumentKind × Edit)
  | .upsmon => Document.editIf (!records.monitors.isEmpty)
      (fun f : MonitorFile => f.setRecords records.monitors (r.keepsExisting .monitor))
  | .upsd => Document.editIf (!records.listens.isEmpty)
      (fun f : ListenFile => f.setRecords records.listens (r.keepsExisting .listen))
  | .ups => Document.editIf (!r.devices.isEmpty)
      (fun f : DeviceFile => f.setDevices r.devices (r.keepsExisting .device))
  | .nut =>
    match r.mode with
    | some mode => Document.editIf true (fun f : Assignments => f.setMode mode)
    | none => []

/-- A request is carried out file by file. -/
theorem edits_eq (r : Request) (records : Records) :
    r.edits records = DocumentKind.inOrder.flatMap (r.editsOf records) := by
  show r.editsOf records .upsmon ++ r.editsOf records .upsd ++ r.editsOf records .ups ++
    r.editsOf records .nut = _
  simp [DocumentKind.inOrder]

theorem performs_applyMode (r : Request) (records : Records) (directory : Path) :
    (r.applyMode directory).Performs directory (r.editsOf records .nut) := by
  unfold applyMode editsOf
  cases r.mode with
  | some mode => exact Job.performs_updateDocument directory none _
  | none => exact Job.performs_nil directory

/-- **Once its records are built, a request is carried out edit by edit.** -/
theorem performs_apply {r : Request} {records : Records} (h : r.materialize = .ok records)
    (directory : Path) : (r.apply directory).Performs directory (r.edits records) := by
  have happly : r.apply directory =
      (r.applyRecords .monitor records.monitors directory >>= fun _ =>
        r.applyRecords .listen records.listens directory >>= fun _ =>
          r.applyDevices directory >>= fun _ => r.applyMode directory) := by
    unfold apply
    rw [h]
    exact pure_bind records _
  have hedits : r.edits records = r.editsOf records .upsmon ++ (r.editsOf records .upsd ++
      (r.editsOf records .ups ++ r.editsOf records .nut)) := by
    rw [edits_eq]
    simp [DocumentKind.inOrder]
  rw [happly, hedits]
  refine Job.Performs.bind (Job.performs_onlyIf _ directory _ _) ?_
  refine Job.Performs.bind (Job.performs_onlyIf _ directory _ _) ?_
  refine Job.Performs.bind (Job.performs_onlyIf _ directory _ _) ?_
  exact r.performs_applyMode records directory

theorem fails_apply_of_error {r : Request} {fault : FieldFault} (h : r.materialize = .error fault)
    {directory : Path} {t t' : Tree} {failure : Failure} :
    (r.apply directory).Fails t failure t' ↔ failure = .field fault ∧ t' = t := by
  have happly : r.apply directory = Job.fail (.field fault) := by
    unfold apply
    rw [h]
    rfl
  rw [happly]
  exact Job.fails_fail_iff

end Request

namespace Invocation

/-! ## Runs that fail -/

theorem tree_execute (i : Invocation) (t : Tree) : (i.execute t).tree = (i.job.run t).tree := by
  unfold execute
  dsimp only
  split
  · rfl
  · split <;> rfl

/-- A failure is reported to the operator, unless it is an internal error. -/
theorem answer_execute_of_fails {i : Invocation} {t t' : Tree} {failure : Failure}
    (h : i.job.Fails t failure t') : (i.execute t).answer =
      if failure.isReported then
        { code := failureCode, errors := ["Error: " ++ failure.message] }
      else { code := internalErrorCode } := by
  unfold execute
  dsimp only
  rw [h.1]
  dsimp only
  split <;> rfl

/-- Only a run whose command line is accepted can fail. -/
theorem fails_job_iff {i : Invocation} {t t' : Tree} {failure : Failure} :
    i.job.Fails t failure t' ↔ (Request.ofWords i.words).help = false ∧
      (Request.ofWords i.words).isValid = true ∧
      (i.carryOut (Request.ofWords i.words)).Fails t failure t' := by
  unfold job
  dsimp only
  rw [show Request.ofArguments (Arguments.ofWords i.words) = Request.ofWords i.words from rfl,
    Job.fails_unit_bind_iff, or_iff_right Job.not_fails_forM_note]
  simp only [Job.yields_forM_note_iff, exists_eq_left]
  cases (Request.ofWords i.words).help with
  | true =>
    rw [if_pos rfl]
    exact iff_of_false Job.not_fails_pure (by simp)
  | false =>
    rw [if_neg (by simp), and_iff_right rfl]
    by_cases hvalid : (Request.ofWords i.words).isValid = true
    · rw [Request.report_of_isValid hvalid, and_iff_right hvalid]
    · cases hreport : (Request.ofWords i.words).report with
      | error nothing =>
        rw [Request.report, if_neg hvalid] at hreport
        simp at hreport
      | ok report =>
        refine iff_of_false ?_ fun h => hvalid h.1
        rw [Job.fails_note_bind_iff]
        exact Job.not_fails_pure

/-- Where a run that was asked for the state, or for changes, ends with a failure. -/
theorem fails_carryOut_iff {i : Invocation} {r : Request} {t t' : Tree} {failure : Failure} :
    (i.carryOut r).Fails t failure t' ↔
      (Job.checkDirectory (r.directory i.environment)).Fails t failure t' ∨
        ∃ directory, (Job.checkDirectory (r.directory i.environment)).Yields t directory t ∧
          ((r.isConfigured = true ∧ (Job.isConfigured directory).Fails t failure t') ∨
            (r.isConfigured = false ∧ (r.apply directory).Fails t failure t')) := by
  unfold carryOut
  rw [Job.fails_bind_iff]
  refine or_congr_right ⟨?_, ?_⟩
  · rintro ⟨directory, u, hdirectory, hrest⟩
    obtain rfl := (Job.yields_checkDirectory_iff.mp hdirectory).1
    refine ⟨directory, hdirectory, ?_⟩
    cases hask : r.isConfigured with
    | true =>
      rw [hask, if_pos rfl] at hrest
      rcases Job.fails_bind_iff.mp hrest with hstate | ⟨configured, v, -, hanswer⟩
      · exact Or.inl ⟨rfl, hstate⟩
      · exact absurd hanswer (by split <;> exact Job.not_fails_pure)
    | false =>
      rw [hask, if_neg (by simp)] at hrest
      rcases Job.fails_unit_bind_iff.mp hrest with hnote | ⟨v, hnote, hafter⟩
      · exact absurd hnote Job.not_fails_onlyIf_note
      · -- that a scan was asked for is only noted
        obtain rfl : v = u := by
          rcases Job.yields_onlyIf_iff.mp hnote with ⟨-, h⟩ | ⟨-, h⟩
          · exact h
          · exact Job.yields_note_iff.mp h
        rcases Job.fails_unit_bind_iff.mp hafter with happly | ⟨w, -, hanswer⟩
        · exact Or.inr ⟨rfl, happly⟩
        · exact absurd hanswer Job.not_fails_pure
  · rintro ⟨directory, hdirectory, ⟨hask, hstate⟩ | ⟨hask, happly⟩⟩
    · refine ⟨directory, t, hdirectory, ?_⟩
      rw [hask, if_pos rfl]
      exact Job.fails_bind_iff.mpr (Or.inl hstate)
    · refine ⟨directory, t, hdirectory, ?_⟩
      rw [hask, if_neg (by simp)]
      refine Job.fails_unit_bind_iff.mpr (Or.inr ⟨t, ?_, ?_⟩)
      swap
      · exact Job.fails_unit_bind_iff.mpr (Or.inl happly)
      rw [Job.yields_onlyIf_iff, Job.yields_note_iff]
      cases r.autoconfigure with
      | false => exact Or.inl ⟨rfl, rfl⟩
      | true => exact Or.inr ⟨rfl, rfl⟩

/-- A run that is asked for the state changes nothing. -/
theorem yields_carryOut_of_isConfigured {i : Invocation} {r : Request}
    (hask : r.isConfigured = true) {t t' : Tree} {answer : Answer}
    (h : (i.carryOut r).Yields t answer t') : t' = t := by
  unfold carryOut at h
  obtain ⟨directory, u, hdirectory, hrest⟩ := Job.yields_bind_iff.mp h
  obtain rfl := (Job.yields_checkDirectory_iff.mp hdirectory).1
  rw [hask, if_pos rfl] at hrest
  obtain ⟨configured, v, ⟨-, hv⟩, hanswer⟩ := Job.yields_bind_iff.mp hrest
  rw [Job.tree_isConfigured directory] at hv
  split at hanswer
  · rw [(Job.yields_pure_iff.mp hanswer).2, hv]
  · rw [(Job.yields_pure_iff.mp hanswer).2, hv]

/-! ## The first file -/

/-- The directory that a run works in. -/
def directory (i : Invocation) : Path :=
  Path.ofText ((Request.ofWords i.words).directory i.environment)

/-- The run gets as far as the first file: its command line is accepted and asks for changes, the
directory is there, and all records can be built. -/
structure Starts (i : Invocation) (t : Tree) (loc : Location) (records : Records) : Prop where
  help : (Request.ofWords i.words).help = false
  valid : (Request.ofWords i.words).isValid = true
  directory : t.locate i.directory = .directory loc
  ask : (Request.ofWords i.words).isConfigured = false
  built : (Request.ofWords i.words).materialize = .ok records

/-- **A run that gets as far as the first file makes its edits**, up to the first that cannot be
made. -/
theorem Starts.run {i : Invocation} {t : Tree} {loc : Location} {records : Records}
    (h : i.Starts t loc records) :
    (i.job.Yields t { code := successCode } (i.execute t).tree ∧
        t.editAll i.directory ((Request.ofWords i.words).edits records) =
          some (i.execute t).tree) ∨
      ∃ before e after failure, (Request.ofWords i.words).edits records = before ++ e :: after ∧
        t.editAll i.directory before = some (i.execute t).tree ∧
        i.job.Fails t failure (i.execute t).tree ∧
        failure.IsAbout (Job.documentPath i.directory e.1) := by
  have hdirectory : (Job.checkDirectory ((Request.ofWords i.words).directory
      i.environment)).Yields t i.directory t :=
    Job.yields_checkDirectory_iff.mpr ⟨rfl, rfl, loc, h.directory⟩
  have hperforms := Request.performs_apply h.built i.directory
  rcases Job.yields_or_fails ((Request.ofWords i.words).apply i.directory) t with
    ⟨⟨⟩, happly⟩ | ⟨failure, happly⟩
  · have hedits := hperforms.yields_iff.mp happly
    generalize (((Request.ofWords i.words).apply i.directory).run t).tree = t' at happly hedits
    have hjob : i.job.Yields t { code := successCode } t' := by
      rw [yields_job_iff, if_neg (by simp [h.help]), if_pos h.valid, yields_carryOut_iff h.ask]
      exact ⟨rfl, i.directory, hdirectory, happly⟩
    obtain rfl : (i.execute t).tree = t' := (tree_execute i t).trans hjob.2
    exact Or.inl ⟨hjob, hedits⟩
  · obtain ⟨before, e, after, hedits, hmade, hrefusal⟩ := hperforms.fails_iff.mp happly
    have hjob : i.job.Fails t failure _ :=
      fails_job_iff.mpr ⟨h.help, h.valid,
        fails_carryOut_iff.mpr (Or.inr ⟨_, hdirectory, Or.inr ⟨h.ask, happly⟩⟩)⟩
    have htree := (tree_execute i t).trans hjob.2
    exact Or.inr ⟨before, e, after, failure, hedits, htree ▸ hmade, htree ▸ hjob,
      Tree.isAbout_of_refusal? hrefusal⟩

/-- A run that gets as far as the first file succeeds exactly if all its edits can be made. -/
theorem Starts.success_iff {i : Invocation} {t t' : Tree} {loc : Location} {records : Records}
    (h : i.Starts t loc records) :
    (i.execute t).answer.code = successCode ∧ (i.execute t).tree = t' ↔
      t.editAll i.directory ((Request.ofWords i.words).edits records) = some t' := by
  rw [execute_success_iff h.help h.valid h.ask]
  constructor
  · rintro ⟨p, hp, happly⟩
    obtain ⟨-, rfl, -⟩ := Job.yields_checkDirectory_iff.mp hp
    obtain ⟨built, hbuilt, hedits⟩ := Request.yields_apply_iff_editAll.mp happly
    obtain rfl := Except.ok.inj (h.built.symm.trans hbuilt)
    exact hedits
  · intro hedits
    exact ⟨i.directory, Job.yields_checkDirectory_iff.mpr ⟨rfl, rfl, loc, h.directory⟩,
      Request.yields_apply_iff_editAll.mpr ⟨records, h.built, hedits⟩⟩

/-- A run that fails got as far as the first file, or it changed nothing and found no fault with any
file. -/
theorem fails_job_cases {i : Invocation} {t t' : Tree} {failure : Failure}
    (h : i.job.Fails t failure t') :
    (t' = t ∧ ∀ error, failure = .storage error → error.step = .directory) ∨
      ∃ loc records, i.Starts t loc records := by
  obtain ⟨hhelp, hvalid, hcarry⟩ := fails_job_iff.mp h
  rcases fails_carryOut_iff.mp hcarry with
    hdirectory | ⟨directory, hdirectory, ⟨-, hstate⟩ | ⟨hask, happly⟩⟩
  · obtain ⟨htree, ⟨rfl, -⟩ | ⟨rfl, -⟩⟩ := Job.fails_checkDirectory_iff.mp hdirectory
    · exact Or.inl ⟨htree, by simp⟩
    · exact Or.inl ⟨htree, fun error he => by rw [← Failure.storage.inj he]⟩
  · obtain ⟨htree, rfl, -⟩ := Job.fails_isConfigured_iff.mp hstate
    exact Or.inl ⟨htree, by simp⟩
  · obtain ⟨-, rfl, loc, hloc⟩ := Job.yields_checkDirectory_iff.mp hdirectory
    cases hbuilt : (Request.ofWords i.words).materialize with
    | error fault =>
      obtain ⟨rfl, htree⟩ := (Request.fails_apply_of_error hbuilt).mp happly
      exact Or.inl ⟨htree, by simp⟩
    | ok records => exact Or.inr ⟨loc, records, hhelp, hvalid, hloc, hask, hbuilt⟩

/-- A run that ends with an answer got as far as the first file, or it changed nothing. -/
theorem yields_job_cases {i : Invocation} {t t' : Tree} {answer : Answer}
    (h : i.job.Yields t answer t') : t' = t ∨ ∃ loc records, i.Starts t loc records := by
  rw [yields_job_iff] at h
  split at h
  next => exact Or.inl h.2
  next hhelp =>
    split at h
    next hvalid =>
      cases hask : (Request.ofWords i.words).isConfigured with
      | true => exact Or.inl (yields_carryOut_of_isConfigured hask h)
      | false =>
        obtain ⟨-, directory, hdirectory, happly⟩ := (yields_carryOut_iff hask).mp h
        obtain ⟨-, rfl, loc, hloc⟩ := Job.yields_checkDirectory_iff.mp hdirectory
        obtain ⟨records, hbuilt, -⟩ := Request.yields_apply_iff_editAll.mp happly
        exact Or.inr ⟨loc, records, Bool.eq_false_iff.mpr hhelp, hvalid, hloc, hask, hbuilt⟩
    next =>
      obtain ⟨report, -, -, htree⟩ := h
      exact Or.inl htree

/-- **A run that does not get as far as the first file changes nothing.** -/
theorem tree_of_not_starts {i : Invocation} {t : Tree}
    (h : ∀ loc records, ¬i.Starts t loc records) : (i.execute t).tree = t := by
  have hnot : ¬∃ loc records, i.Starts t loc records := by
    rintro ⟨loc, records, hstarts⟩
    exact h loc records hstarts
  rw [tree_execute]
  rcases Job.yields_or_fails i.job t with ⟨answer, hjob⟩ | ⟨failure, hjob⟩
  · exact (yields_job_cases hjob).resolve_right hnot
  · exact ((fails_job_cases hjob).resolve_right hnot).1

end Invocation

end UpsSetup
