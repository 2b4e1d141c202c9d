import UpsSetup.Job

/-!
# Jobs that end with a value

`Job.Yields` relates the tree before a job, its value and the tree after it, and leaves out what
was noted. One lemma for each way to build a job, so that a job is taken apart by rewriting and
none has to be unfolded twice. -/

namespace UpsSetup.Job

variable {α β : Type}

/-- On the tree `t` the job ends with the value `a` and leaves the tree `t'`. -/
def Yields (job : Job α) (t : Tree) (a : α) (t' : Tree) : Prop :=
  (job.run t).result = .ok a ∧ (job.run t).tree = t'

theorem yields_pure_iff {a b : α} {t t' : Tree} :
    (Pure.pure a : Job α).Yields t b t' ↔ b = a ∧ t' = t := by
  unfold Yields
  rw [run_pure, Except.ok.injEq, eq_comm (a := a), eq_comm (a := t)]

/-- Two jobs end with a value when the first does, and the second does from where the first
ended. -/
theorem yields_bind_iff {job : Job α} {next : α → Job β} {t t' : Tree} {b : β} :
    (job >>= next).Yields t b t' ↔ ∃ a u, job.Yields t a u ∧ (next a).Yields u b t' := by
  unfold Yields
  cases h : (job.run t).result with
  | error failure =>
    rw [run_bind_of_error h]
    constructor
    · rintro ⟨hr, -⟩
      simp at hr
    · rintro ⟨a, u, ⟨ha, -⟩, -⟩
      simp at ha
  | ok a =>
    rw [run_bind_of_ok h]
    constructor
    · intro hb
      exact ⟨a, _, ⟨rfl, rfl⟩, hb⟩
    · rintro ⟨a', u, ⟨ha, rfl⟩, hb⟩
      rw [Except.ok.injEq] at ha
      exact ha ▸ hb

theorem yields_map_iff {f : α → β} {job : Job α} {t t' : Tree} {b : β} :
    (f <$> job).Yields t b t' ↔ ∃ a, job.Yields t a t' ∧ b = f a := by
  rw [← bind_pure_comp, yields_bind_iff]
  constructor
  · rintro ⟨a, u, ha, hb⟩
    obtain ⟨rfl, rfl⟩ := yields_pure_iff.mp hb
    exact ⟨a, ha, rfl⟩
  · rintro ⟨a, ha, rfl⟩
    exact ⟨a, t', ha, yields_pure_iff.mpr ⟨rfl, rfl⟩⟩

theorem not_yields_fail {failure : Failure} {a : α} {t t' : Tree} :
    ¬(fail failure : Job α).Yields t a t' := by
  rintro ⟨h, -⟩
  simp [fail, run] at h

/-- Writing to the log changes nothing in the tree. -/
theorem yields_note_iff {event : Event} {u : Unit} {t t' : Tree} :
    (note event).Yields t u t' ↔ t' = t := by
  unfold Yields
  show Except.ok () = Except.ok u ∧ t = t' ↔ _
  rw [eq_comm (a := t)]
  exact and_iff_right rfl

/-- To note an event first changes nothing. -/
theorem yields_note_bind_iff {event : Event} {next : Unit → Job β} {t t' : Tree} {b : β} :
    (note event >>= next).Yields t b t' ↔ (next ()).Yields t b t' := by
  rw [yields_bind_iff]
  constructor
  · rintro ⟨⟨⟩, u, hu, hb⟩
    rwa [yields_note_iff.mp hu] at hb
  · intro hb
    exact ⟨(), t, yields_note_iff.mpr rfl, hb⟩

theorem yields_ofExcept_iff {x : Except Failure α} {a : α} {t t' : Tree} :
    (ofExcept x).Yields t a t' ↔ x = .ok a ∧ t' = t := by
  cases x with
  | error failure =>
    constructor
    · intro h
      exact absurd h not_yields_fail
    · rintro ⟨h, -⟩
      simp at h
  | ok a' =>
    rw [Except.ok.injEq, eq_comm (a := a')]
    exact yields_pure_iff

/-- A job that is not needed changes nothing. -/
theorem yields_onlyIf_iff {condition : Bool} {job : Job Unit} {t t' : Tree} :
    (onlyIf condition job).Yields t () t' ↔
      (condition = false ∧ t' = t) ∨ (condition = true ∧ job.Yields t () t') := by
  cases condition with
  | false =>
    rw [onlyIf, if_neg (by simp)]
    show (Pure.pure () : Job Unit).Yields t () t' ↔ _
    simp [yields_pure_iff]
  | true => simp [onlyIf]

/-- Jobs one after the other, where the first has no value of interest. -/
theorem yields_unit_bind_iff {job : Job Unit} {next : Unit → Job β} {t t' : Tree} {b : β} :
    (job >>= next).Yields t b t' ↔ ∃ u, job.Yields t () u ∧ (next ()).Yields u b t' := by
  rw [yields_bind_iff]
  constructor
  · rintro ⟨⟨⟩, u, hu, hb⟩
    exact ⟨u, hu, hb⟩
  · rintro ⟨u, hu, hb⟩
    exact ⟨(), u, hu, hb⟩

/-- An event that there may be is noted without any change. -/
theorem yields_option_note_iff {event : Option Event} {t t' : Tree} :
    (event.forM note : Job Unit).Yields t () t' ↔ t' = t := by
  cases event with
  | none =>
    show (Pure.pure () : Job Unit).Yields t () t' ↔ _
    rw [yields_pure_iff]
    exact and_iff_right rfl
  | some event => exact yields_note_iff

/-- A list of events is noted without any change. -/
theorem yields_forM_note_iff {events : List Event} {t t' : Tree} :
    (events.forM note : Job Unit).Yields t () t' ↔ t' = t := by
  induction events with
  | nil =>
    show (Pure.pure () : Job Unit).Yields t () t' ↔ _
    rw [yields_pure_iff]
    exact and_iff_right rfl
  | cons event events ih =>
    show (note event >>= fun _ => events.forM note).Yields t () t' ↔ _
    rw [yields_note_bind_iff, ih]

end UpsSetup.Job
