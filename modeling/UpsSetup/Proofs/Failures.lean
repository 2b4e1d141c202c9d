import UpsSetup.Proofs.Storage

/-!
# Jobs that fail

`Job.Fails` is for failures what `Job.Yields` is for values: it relates the tree before a job, the
failure that ends it and the tree after it. A job does one or the other (`yields_or_fails`), and one
lemma for each way to build a job takes it apart.

What the second half says of the jobs on a directory is that a failure comes before any change: a
document that cannot be read (`fails_source`) or written (`fails_store`) leaves the tree as it is,
and where its path leads tells what the failure is.
-/

namespace UpsSetup

/-- The failure is about the file at a path, as far as it says so. -/
def Failure.IsAbout (p : Path) : Failure → Prop
  | .field _ => False
  | .storage error => error.path = p.text
  | .nulCharacter => True
  | .nameTooLong text => text = p.text

namespace Job

variable {α β : Type} {t t' : Tree} {failure : Failure}

/-- On the tree `t` the job ends with the failure and leaves the tree `t'`. -/
def Fails (job : Job α) (t : Tree) (failure : Failure) (t' : Tree) : Prop :=
  (job.run t).result = .error failure ∧ (job.run t).tree = t'

/-- A job ends with a value or with a failure. -/
theorem yields_or_fails (job : Job α) (t : Tree) :
    (∃ a, job.Yields t a (job.run t).tree) ∨ ∃ failure, job.Fails t failure (job.run t).tree := by
  cases h : (job.run t).result with
  | ok a => exact Or.inl ⟨a, h, rfl⟩
  | error failure => exact Or.inr ⟨failure, h, rfl⟩

/-- It does not end with both. -/
theorem Fails.not_yields {job : Job α} {a : α} {u : Tree} (h : job.Fails t failure t') :
    ¬job.Yields t a u := by
  rintro ⟨ha, -⟩
  rw [h.1] at ha
  simp at ha

/-! ## Building jobs -/

theorem not_fails_pure {a : α} : ¬(Pure.pure a : Job α).Fails t failure t' := by
  rintro ⟨h, -⟩
  rw [run_pure] at h
  simp at h

/-- Two jobs fail when the first does, or when the second does from where the first ended. -/
theorem fails_bind_iff {job : Job α} {next : α → Job β} :
    (job >>= next).Fails t failure t' ↔
      job.Fails t failure t' ∨ ∃ a u, job.Yields t a u ∧ (next a).Fails u failure t' := by
  unfold Fails Yields
  cases h : (job.run t).result with
  | error failure' =>
    rw [run_bind_of_error h]
    simp only [Except.error.injEq]
    constructor
    · intro hf
      exact Or.inl hf
    · rintro (hf | ⟨a, u, ⟨ha, -⟩, -⟩)
      · exact hf
      · simp at ha
  | ok a =>
    rw [run_bind_of_ok h]
    constructor
    · intro hf
      exact Or.inr ⟨a, _, ⟨rfl, rfl⟩, hf⟩
    · rintro (⟨hf, -⟩ | ⟨a', u, ⟨ha, rfl⟩, hf⟩)
      · simp at hf
      · rw [Except.ok.injEq] at ha
        exact ha ▸ hf

/-- Jobs one after the other, where the first has no value of interest. -/
theorem fails_unit_bind_iff {job : Job Unit} {next : Unit → Job β} :
    (job >>= next).Fails t failure t' ↔
      job.Fails t failure t' ∨ ∃ u, job.Yields t () u ∧ (next ()).Fails u failure t' := by
  rw [fails_bind_iff]
  refine or_congr_right ⟨?_, ?_⟩
  · rintro ⟨⟨⟩, u, hu, hf⟩
    exact ⟨u, hu, hf⟩
  · rintro ⟨u, hu, hf⟩
    exact ⟨(), u, hu, hf⟩

theorem fails_map_iff {f : α → β} {job : Job α} :
    (f <$> job).Fails t failure t' ↔ job.Fails t failure t' := by
  rw [← bind_pure_comp, fails_bind_iff]
  constructor
  · rintro (h | ⟨a, u, -, h⟩)
    · exact h
    · exact absurd h not_fails_pure
  · exact Or.inl

theorem fails_fail_iff {failure' : Failure} :
    (fail failure' : Job α).Fails t failure t' ↔ failure = failure' ∧ t' = t := by
  unfold Fails
  show Except.error failure' = Except.error failure ∧ t = t' ↔ _
  rw [Except.error.injEq, eq_comm (a := failure'), eq_comm (a := t)]

/-- Writing to the log never fails. -/
theorem not_fails_note {event : Event} : ¬(note event).Fails t failure t' := by
  rintro ⟨h, -⟩
  simp [note, run] at h

theorem fails_note_bind_iff {event : Event} {next : Unit → Job β} :
    (note event >>= next).Fails t failure t' ↔ (next ()).Fails t failure t' := by
  rw [fails_unit_bind_iff]
  constructor
  · rintro (h | ⟨u, hu, h⟩)
    · exact absurd h not_fails_note
    · rwa [yields_note_iff.mp hu] at h
  · intro h
    exact Or.inr ⟨t, yields_note_iff.mpr rfl, h⟩

theorem not_fails_forM_note {events : List Event} :
    ¬(events.forM note : Job Unit).Fails t failure t' := by
  induction events with
  | nil => exact not_fails_pure
  | cons event events ih =>
    show ¬(note event >>= fun _ => events.forM note).Fails t failure t'
    rw [fails_note_bind_iff]
    exact ih

theorem not_fails_option_note {event : Option Event} :
    ¬(event.forM note : Job Unit).Fails t failure t' := by
  cases event with
  | none => exact not_fails_pure
  | some event => exact not_fails_note

theorem not_fails_onlyIf_note {condition : Bool} {event : Event} :
    ¬(onlyIf condition (note event)).Fails t failure t' := by
  cases condition with
  | false => exact not_fails_pure
  | true => exact not_fails_note

/-! ## Reading -/

/-- Looking at a path fails only for a name that is too long. -/
theorem fails_look_iff {p : Path} :
    (look p).Fails t failure t' ↔
      failure = .nameTooLong p.text ∧ t.locate p = .nowhere .nameTooLong ∧ t' = t := by
  unfold Fails
  show (look p t).result = _ ∧ (look p t).tree = _ ↔ _
  unfold look
  split
  next h => simp [h, eq_comm]
  next h => exact iff_of_false (by simp) fun hf => h hf.2.1

/-- A directory is refused when its path leads to none, and a name that is too long is reported as
such. -/
theorem fails_checkDirectory_iff {text : String} :
    (checkDirectory text).Fails t failure t' ↔ t' = t ∧
      ((failure = .nameTooLong (Path.ofText text).text ∧
          t.locate (Path.ofText text) = .nowhere .nameTooLong) ∨
        (failure = .storage { step := .directory, path := text } ∧
          t.locate (Path.ofText text) ≠ .nowhere .nameTooLong ∧
            ∀ loc, t.locate (Path.ofText text) ≠ .directory loc)) := by
  unfold checkDirectory
  dsimp only
  rw [fails_bind_iff, fails_look_iff]
  constructor
  · rintro (⟨rfl, hlong, rfl⟩ | ⟨place, u, hlook, hplace⟩)
    · exact ⟨rfl, Or.inl ⟨rfl, hlong⟩⟩
    · obtain ⟨rfl, rfl, hlong⟩ := yields_look_iff.mp hlook
      split at hplace
      next => exact absurd hplace not_fails_pure
      next hnone =>
        obtain ⟨rfl, rfl⟩ := fails_fail_iff.mp hplace
        exact ⟨rfl, Or.inr ⟨rfl, hlong, hnone⟩⟩
  · rintro ⟨rfl, ⟨rfl, hlong⟩ | ⟨rfl, hlong, hnone⟩⟩
    · exact Or.inl ⟨rfl, hlong, rfl⟩
    · refine Or.inr ⟨_, t', yields_look_iff.mpr ⟨rfl, rfl, hlong⟩, ?_⟩
      split
      next loc hloc => exact absurd hloc (hnone loc)
      next => exact fails_fail_iff.mpr ⟨rfl, rfl⟩

variable [Document α]

/-- A file that cannot be read fails with its path, and nothing was changed. -/
theorem fails_readDocument {p : Path} {content : Text.Decoded}
    (h : (readDocument p content : Job α).Fails t failure t') :
    failure = .storage { step := .parse, path := p.text } ∧ t' = t := by
  unfold readDocument at h
  dsimp only at h
  split at h
  next =>
    rw [fails_note_bind_iff] at h
    exact fails_fail_iff.mp h
  next =>
    split at h
    next =>
      rw [fails_note_bind_iff] at h
      exact absurd h not_fails_pure
    next => exact fails_fail_iff.mp h

/-- A document cannot be read if its path is too long to ask about, or if what is there is no
document. -/
theorem fails_source {p : Path} (h : (source α p).Fails t failure t') :
    t' = t ∧
      ((failure = .nameTooLong p.text ∧ t.locate p = .nowhere .nameTooLong) ∨
        failure = .storage { step := .parse, path := p.text } ∧
          ((∃ l, t.locate p = .directory l) ∨
            ∃ l content, t.locate p = .file l content ∧
              (Document.ofBytes? content : Option α) = none)) := by
  unfold source at h
  rcases fails_bind_iff.mp h with hlook | ⟨place, u, hlook, hplace⟩
  · obtain ⟨rfl, hlong, rfl⟩ := fails_look_iff.mp hlook
    exact ⟨rfl, Or.inl ⟨rfl, hlong⟩⟩
  · obtain ⟨rfl, hplace', -⟩ := yields_look_iff.mp hlook
    split at hplace
    next l content =>
      have hread := fails_map_iff.mp hplace
      obtain ⟨rfl, rfl⟩ := fails_readDocument hread
      refine ⟨rfl, Or.inr ⟨rfl, Or.inr ⟨l, content, hplace'.symm, ?_⟩⟩⟩
      rw [Option.eq_none_iff_forall_ne_some]
      intro d hd
      exact hread.not_yields (yields_readDocument_iff.mpr
        ⟨rfl, Document.ofBytes?_eq_some_iff.mp hd⟩)
    next l =>
      obtain ⟨rfl, rfl⟩ := fails_fail_iff.mp hplace
      exact ⟨rfl, Or.inr ⟨rfl, Or.inl ⟨l, hplace'.symm⟩⟩⟩
    all_goals
      rw [fails_note_bind_iff] at hplace
      exact absurd hplace not_fails_pure

/-- Sourcing a document changes nothing, whether one is found or not. -/
theorem yields_source {p : Path} {found : Option α} (h : (source α p).Yields t found t') :
    t' = t := by
  cases found with
  | none => exact (yields_source_none_iff.mp h).1
  | some d => exact (yields_source_some_iff.mp h).1

/-- To look for a document changes nothing. -/
theorem tree_source (p : Path) : ((source α p).run t).tree = t := by
  rcases yields_or_fails (source α p) t with ⟨found, h⟩ | ⟨failure, h⟩
  · exact yields_source h
  · exact (fails_source h).1

theorem fails_source_of_long {p : Path} (h : t.locate p = .nowhere .nameTooLong) :
    (source α p).Fails t (.nameTooLong p.text) t :=
  fails_bind_iff.mpr (Or.inl (fails_look_iff.mpr ⟨rfl, h, rfl⟩))

omit [Document α] in
/-- To ask for the mode changes nothing. -/
theorem tree_isConfigured (directory : Path) : ((isConfigured directory).run t).tree = t := by
  have htree := tree_source (α := Assignments) (t := t) (documentPath directory .nut)
  show (isConfigured directory t).tree = t
  unfold isConfigured
  dsimp only
  split
  next => exact htree
  next => exact htree
  next => exact htree

omit [Document α] in
/-- To ask for the mode of a file that cannot be read is no failure, but of one whose path is too
long it is. -/
theorem fails_isConfigured_iff {directory : Path} :
    (isConfigured directory).Fails t failure t' ↔ t' = t ∧
      failure = .nameTooLong (documentPath directory .nut).text ∧
        t.locate (documentPath directory .nut) = .nowhere .nameTooLong := by
  have hresult : ((isConfigured directory).run t).result = .error failure ↔
      failure = .nameTooLong (documentPath directory .nut).text ∧
        t.locate (documentPath directory .nut) = .nowhere .nameTooLong := by
    show (isConfigured directory t).result = _ ↔ _
    unfold isConfigured
    dsimp only
    rcases yields_or_fails (source Assignments (documentPath directory .nut)) t with
      ⟨found, h⟩ | ⟨failure', h⟩
    · rw [h.1]
      refine iff_of_false (by simp) fun hlong => ?_
      exact (fails_source_of_long hlong.2).not_yields h
    · rw [h.1]
      rcases (fails_source h).2 with ⟨rfl, hlong⟩ | ⟨rfl, hplace⟩
      · simp [hlong, eq_comm]
      · refine iff_of_false (by simp) fun hlong => ?_
        rcases hplace with ⟨l, hl⟩ | ⟨l, content, hl, -⟩
        · rw [hl] at hlong
          simp at hlong
        · rw [hl] at hlong
          simp at hlong
  unfold Fails
  rw [tree_isConfigured, hresult, and_comm, eq_comm (a := t)]

/-! ## Writing -/

omit [Document α] in
/-- A file that cannot be written leaves the tree as it was. -/
theorem fails_writeFile {p : Path} {content : ByteArray}
    (h : (writeFile p content).Fails t failure t') :
    t' = t ∧ t.write? p content = none ∧
      failure = if t.locate p = .nowhere .nulCharacter then .nulCharacter
        else .storage { step := .write, path := p.text } := by
  obtain ⟨hresult, htree⟩ := h
  change (writeFile p content t).result = _ at hresult
  change (writeFile p content t).tree = _ at htree
  unfold writeFile at hresult htree
  split at hresult
  next hnul =>
    rw [hnul] at htree
    obtain rfl := Except.error.inj hresult
    refine ⟨htree.symm, ?_, (if_pos hnul).symm⟩
    rw [Tree.write?, hnul]
  next hnul =>
    split at htree
    next => contradiction
    next =>
      cases hw : t.write? p content with
      | some u =>
        rw [hw] at hresult
        simp at hresult
      | none =>
        rw [hw] at hresult htree
        obtain rfl := Except.error.inj hresult
        exact ⟨htree.symm, rfl, (if_neg hnul).symm⟩

/-- A document cannot be written if its path leads to a directory or nowhere. -/
theorem fails_store {p : Path} {d : α} (h : (store p d).Fails t failure t') :
    t' = t ∧ t.write? p (Document.bytes d) = none ∧
      failure = if t.locate p = .nowhere .nulCharacter then .nulCharacter
        else .storage { step := .write, path := p.text } := by
  have hcomplete : (Document.write d).isComplete = true := rfl
  rw [store, storeWritten, if_pos hcomplete] at h
  rcases fails_unit_bind_iff.mp h with hwrite | ⟨u, -, hnote⟩
  · exact fails_writeFile hwrite
  · exact absurd hnote not_fails_note

/-- A document that cannot be changed leaves the tree as it is: it cannot be read, or what was read
cannot be written back. -/
theorem fails_updateDocument {directory : Path} {event : Option Event} {change : α → α}
    (h : (updateDocument directory event change).Fails t failure t') :
    (source α (documentPath directory (Document.kind α))).Fails t failure t' ∨
      ∃ found, (source α (documentPath directory (Document.kind α))).Yields t found t ∧
        (store (documentPath directory (Document.kind α))
          (change (found.getD Document.empty))).Fails t failure t' := by
  unfold updateDocument at h
  dsimp only at h
  rcases fails_bind_iff.mp h with hsource | ⟨found, u, hsource, hstore⟩
  · exact Or.inl hsource
  · obtain rfl := yields_source hsource
    rcases fails_unit_bind_iff.mp hstore with hnote | ⟨u', hnote, hstore⟩
    · exact absurd hnote not_fails_option_note
    · rw [yields_option_note_iff.mp hnote] at hstore
      exact Or.inr ⟨found, hsource, hstore⟩

end Job

end UpsSetup
