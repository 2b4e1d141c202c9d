import UpsSetup.Command.Run
import UpsSetup.Proofs.Storage

/-!
# Runs that succeed

A run that is to change the files and exits with success finds the directory, builds all records,
and then changes the files one after the other. `yields_apply_iff` lists the steps; in each of them
a document is stored, or nothing happens because there is nothing to put into it (`StoresIf`).
`execute_success_iff` ties them to the exit code. -/

namespace UpsSetup

namespace Job

variable {α : Type} [Document α]

/-- If there is need to, the change is made and the document is stored; otherwise nothing happens.
-/
def StoresIf (needed : Bool) (directory : Path) (change : α → α) (t t' : Tree) : Prop :=
  (needed = false ∧ t' = t) ∨ (needed = true ∧ ∃ d, Stores directory change t d t')

theorem yields_onlyIf_updateDocument_iff {needed : Bool} {directory : Path} {event : Option Event}
    {change : α → α} {t t' : Tree} :
    (onlyIf needed (updateDocument directory event change)).Yields t () t' ↔
      StoresIf needed directory change t t' := by
  rw [yields_onlyIf_iff, yields_updateDocument_iff, StoresIf]

end Job

namespace Request

theorem report_of_isValid {r : Request} (h : r.isValid = true) : r.report = .error {} := by
  rw [report, if_pos h]

theorem materialize_eq_ok_iff {r : Request} {records : Records} :
    r.materialize = .ok records ↔ r.monitors.mapM MonitorSpec.toMonitor = .ok records.monitors ∧
      r.listens.mapM ListenSpec.toListen = .ok records.listens := by
  unfold materialize
  rw [Result.bind_eq_ok_iff]
  constructor
  · rintro ⟨monitors, hmonitors, h⟩
    obtain ⟨listens, hlistens, h⟩ := Result.bind_eq_ok_iff.mp h
    rw [← Except.ok.inj h]
    exact ⟨hmonitors, hlistens⟩
  · rintro ⟨hmonitors, hlistens⟩
    exact ⟨records.monitors, hmonitors, Result.bind_eq_ok_iff.mpr ⟨records.listens, hlistens, rfl⟩⟩

/-- The records of a family are put into their file. -/
def StoresRecords {ρ : Type} [Managed ρ] (r : Request) (family : Family) (records : List ρ)
    (directory : Path) (t t' : Tree) : Prop :=
  Job.StoresIf (!records.isEmpty) directory
    (fun f : DirectiveFile ρ => f.setRecords records (r.keepsExisting family)) t t'

/-- The devices are put into their file. -/
def StoresDevices (r : Request) (directory : Path) (t t' : Tree) : Prop :=
  Job.StoresIf (!r.devices.isEmpty) directory
    (fun f : DeviceFile => f.setDevices r.devices (r.keepsExisting .device)) t t'

/-- The mode is put into its file. -/
def StoresMode (r : Request) (directory : Path) (t t' : Tree) : Prop :=
  match r.mode with
  | some mode => ∃ d, Job.Stores directory (fun f : Assignments => f.setMode mode) t d t'
  | none => t' = t

theorem yields_applyMode_iff {r : Request} {directory : Path} {t t' : Tree} :
    (r.applyMode directory).Yields t () t' ↔ r.StoresMode directory t t' := by
  unfold applyMode StoresMode
  cases r.mode with
  | some mode => exact Job.yields_updateDocument_iff
  | none =>
    show (Pure.pure () : Job Unit).Yields t () t' ↔ t' = t
    rw [Job.yields_pure_iff]
    exact and_iff_right rfl

/-- **The steps in which a request is carried out.** -/
theorem yields_apply_iff {r : Request} {directory : Path} {t t' : Tree} :
    (r.apply directory).Yields t () t' ↔
      ∃ records t₁ t₂ t₃, r.materialize = .ok records ∧
        r.StoresRecords .monitor records.monitors directory t t₁ ∧
        r.StoresRecords .listen records.listens directory t₁ t₂ ∧
        r.StoresDevices directory t₂ t₃ ∧ r.StoresMode directory t₃ t' := by
  unfold apply
  rw [Job.yields_bind_iff]
  constructor
  · rintro ⟨records, u, hrecords, h⟩
    obtain ⟨hok, rfl⟩ := Job.yields_ofExcept_iff.mp hrecords
    obtain ⟨t₁, h₁, h⟩ := Job.yields_unit_bind_iff.mp h
    obtain ⟨t₂, h₂, h⟩ := Job.yields_unit_bind_iff.mp h
    obtain ⟨t₃, h₃, h⟩ := Job.yields_unit_bind_iff.mp h
    exact ⟨records, t₁, t₂, t₃, Result.mapError_eq_ok_iff.mp hok,
      Job.yields_onlyIf_updateDocument_iff.mp h₁, Job.yields_onlyIf_updateDocument_iff.mp h₂,
      Job.yields_onlyIf_updateDocument_iff.mp h₃, yields_applyMode_iff.mp h⟩
  · rintro ⟨records, t₁, t₂, t₃, hok, h₁, h₂, h₃, h⟩
    refine ⟨records, t, Job.yields_ofExcept_iff.mpr ⟨Result.mapError_eq_ok_iff.mpr hok, rfl⟩, ?_⟩
    refine Job.yields_unit_bind_iff.mpr ⟨t₁, Job.yields_onlyIf_updateDocument_iff.mpr h₁, ?_⟩
    refine Job.yields_unit_bind_iff.mpr ⟨t₂, Job.yields_onlyIf_updateDocument_iff.mpr h₂, ?_⟩
    refine Job.yields_unit_bind_iff.mpr ⟨t₃, Job.yields_onlyIf_updateDocument_iff.mpr h₃, ?_⟩
    exact yields_applyMode_iff.mpr h

end Request

namespace Invocation

/-! ## Exit codes -/

/-- A run ends with the answer of its job. -/
theorem answer_execute_of_yields {i : Invocation} {t t' : Tree} {answer : Answer}
    (h : i.job.Yields t answer t') : (i.execute t).answer = answer := by
  unfold execute
  dsimp only
  rw [h.1]

/-- A run succeeds if its job ends with an answer that says so. -/
theorem execute_eq_iff {i : Invocation} {t t' : Tree} :
    (i.execute t).answer.code = successCode ∧ (i.execute t).tree = t' ↔
      ∃ answer, i.job.Yields t answer t' ∧ answer.code = successCode := by
  unfold execute Job.Yields
  dsimp only
  cases h : (i.job.run t).result with
  | error failure =>
    constructor
    · -- every failure has a code of its own
      rintro ⟨hcode, -⟩
      dsimp only at hcode
      split at hcode
      · simp [failureCode, successCode] at hcode
      · simp [internalErrorCode, successCode] at hcode
    · rintro ⟨answer, ⟨hr, -⟩, -⟩
      simp at hr
  | ok answer =>
    constructor
    · rintro ⟨hcode, htree⟩
      exact ⟨answer, ⟨rfl, htree⟩, hcode⟩
    · rintro ⟨answer', ⟨hr, htree⟩, hcode⟩
      rw [Except.ok.injEq] at hr
      exact ⟨hr ▸ hcode, htree⟩

/-- What a run does after it has noted its command line. -/
theorem yields_job_iff {i : Invocation} {t t' : Tree} {answer : Answer} :
    i.job.Yields t answer t' ↔
      if (Request.ofWords i.words).help = true then
        answer = { code := successCode, errors := i.usage } ∧ t' = t
      else if (Request.ofWords i.words).isValid = true then
        (i.carryOut (Request.ofWords i.words)).Yields t answer t'
      else ∃ report, (Request.ofWords i.words).report = .ok report ∧
        answer = { code := failureCode, errors := report ++ i.usage } ∧ t' = t := by
  unfold job
  dsimp only
  rw [Job.yields_unit_bind_iff]
  simp only [Job.yields_forM_note_iff, exists_eq_left]
  rw [show Request.ofArguments (Arguments.ofWords i.words) = Request.ofWords i.words from rfl]
  by_cases hhelp : (Request.ofWords i.words).help = true
  · rw [if_pos hhelp, if_pos hhelp]
    exact Job.yields_pure_iff
  · rw [if_neg hhelp, if_neg hhelp]
    by_cases hvalid : (Request.ofWords i.words).isValid = true
    · rw [if_pos hvalid, Request.report_of_isValid hvalid]
    · rw [if_neg hvalid]
      cases h : (Request.ofWords i.words).report with
      | error nothing =>
        rw [Request.report, if_neg hvalid] at h
        simp at h
      | ok report =>
        dsimp only
        rw [Job.yields_note_bind_iff, Job.yields_pure_iff]
        simp

theorem yields_carryOut_iff {i : Invocation} {r : Request} (hask : r.isConfigured = false)
    {t t' : Tree} {answer : Answer} :
    (i.carryOut r).Yields t answer t' ↔
      answer = { code := successCode } ∧ ∃ directory,
        (Job.checkDirectory (r.directory i.environment)).Yields t directory t ∧
        (r.apply directory).Yields t () t' := by
  unfold carryOut
  rw [Job.yields_bind_iff]
  simp only [hask, Bool.false_eq_true, if_false]
  constructor
  · rintro ⟨directory, u, hdirectory, h⟩
    have hu : u = t := (Job.yields_checkDirectory_iff.mp hdirectory).1
    obtain ⟨u', hauto, h⟩ := Job.yields_unit_bind_iff.mp h
    -- that a scan was asked for is only noted
    have hu' : u' = u := by
      rcases Job.yields_onlyIf_iff.mp hauto with ⟨-, h⟩ | ⟨-, h⟩
      · exact h
      · exact Job.yields_note_iff.mp h
    obtain ⟨u'', happly, h⟩ := Job.yields_unit_bind_iff.mp h
    obtain ⟨hanswer, ht'⟩ := Job.yields_pure_iff.mp h
    rw [hu'] at happly
    rw [hu] at hdirectory happly
    exact ⟨hanswer, directory, hdirectory, ht' ▸ happly⟩
  · rintro ⟨hanswer, directory, hdirectory, happly⟩
    refine ⟨directory, t, hdirectory, Job.yields_unit_bind_iff.mpr ⟨t, ?_, ?_⟩⟩
    · rw [Job.yields_onlyIf_iff, Job.yields_note_iff]
      cases r.autoconfigure with
      | false => exact Or.inl ⟨rfl, rfl⟩
      | true => exact Or.inr ⟨rfl, rfl⟩
    · exact Job.yields_unit_bind_iff.mpr ⟨t', happly, Job.yields_pure_iff.mpr ⟨hanswer, rfl⟩⟩

/-- **A run that is to change the files succeeds exactly if it finds the directory and carries the
request out.** -/
theorem execute_success_iff {i : Invocation} {t t' : Tree}
    (hhelp : (Request.ofWords i.words).help = false)
    (hvalid : (Request.ofWords i.words).isValid = true)
    (hask : (Request.ofWords i.words).isConfigured = false) :
    (i.execute t).answer.code = successCode ∧ (i.execute t).tree = t' ↔
      ∃ directory,
        (Job.checkDirectory ((Request.ofWords i.words).directory i.environment)).Yields
          t directory t ∧
        ((Request.ofWords i.words).apply directory).Yields t () t' := by
  rw [execute_eq_iff]
  simp only [yields_job_iff, hhelp, hvalid, Bool.false_eq_true, if_false, if_true,
    yields_carryOut_iff hask]
  constructor
  · rintro ⟨answer, ⟨-, h⟩, -⟩
    exact h
  · intro h
    exact ⟨_, ⟨rfl, h⟩, rfl⟩

/-- A run that only shows the usage text succeeds and changes nothing. -/
theorem execute_help {i : Invocation} (hhelp : (Request.ofWords i.words).help = true) (t : Tree) :
    (i.execute t).answer.code = successCode ∧ (i.execute t).tree = t := by
  rw [execute_eq_iff]
  refine ⟨{ code := successCode, errors := i.usage }, ?_, rfl⟩
  rw [yields_job_iff, if_pos hhelp]
  exact ⟨rfl, rfl⟩

/-- A run with an invalid command line fails. -/
theorem isValid_of_execute {i : Invocation} (hhelp : (Request.ofWords i.words).help = false)
    {t : Tree} (h : (i.execute t).answer.code = successCode) :
    (Request.ofWords i.words).isValid = true := by
  obtain ⟨answer, hjob, hcode⟩ := execute_eq_iff.mp ⟨h, rfl⟩
  rw [yields_job_iff, if_neg (by simp [hhelp])] at hjob
  split at hjob
  next hvalid => exact hvalid
  next =>
    obtain ⟨report, -, rfl, -⟩ := hjob
    simp [failureCode, successCode] at hcode

end Invocation

end UpsSetup
