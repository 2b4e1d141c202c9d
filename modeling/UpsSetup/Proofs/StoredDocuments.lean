import UpsSetup.Proofs.Changes
import UpsSetup.Proofs.Runs

/-!
# Stored documents are found again

What a run stores is found again exactly if it is clean. The condition is about the document alone:
where it is stored does not matter, and neither does what the run stores after it, unless a link
lets two of the files be the same (`Job.Separate`).

What keeps a document from being found is the name of a device that is not plain, a text with a line
end, an at sign in the name of a monitored device, or a host with a colon but without a port.
-/

namespace UpsSetup

namespace Job

variable {t t' : Tree}

/-- What a document that was stored is found as: its lines, read again. -/
theorem Stores.locate {α : Type} [Document α] {directory : Path} {change : α → α} {d : α}
    (h : Stores directory change t d t') : ∃ l,
      t'.locate (documentPath directory (Document.kind α)) = .file l (Document.bytes d) := by
  obtain ⟨l, old, hstart, -, rfl⟩ := stores_iff.mp h
  exact ⟨l, hstart.locate_insert _⟩

/-- What is stored was made from what a file gives, or from an empty document. -/
theorem Stores.exists_content {α : Type} [Document α] {directory : Path} {change : α → α} {d : α}
    (h : Stores directory change t d t') : ∃ content old,
      Document.ofContent? content = some old ∧ d = change old := by
  obtain ⟨l, old, hstart, hd, -⟩ := stores_iff.mp h
  obtain ⟨content, hcontent⟩ := hstart.exists_content
  exact ⟨content, old, hcontent, hd⟩

/-! ## Until the end of a run -/

/-- No two of the configuration files in the directory are the same, by a link. -/
def Separate (t : Tree) (directory : Path) : Prop :=
  ∀ k k' : DocumentKind, k ≠ k' → ∀ l,
    Tree.Place.location? (t.locate (documentPath directory k)) = some l →
    Tree.Place.location? (t.locate (documentPath directory k')) ≠ some l

/-- Without links the files are apart. -/
theorem HoldsFiles.separate {directory : Path} {loc : Location} {kinds : List DocumentKind}
    (h : HoldsFiles t directory loc kinds) (hall : ∀ kind, kind ∈ kinds) :
    Separate t directory := by
  intro k k' hne l hl hl'
  have hlocation := h.location_eq (hall k) hl
  rw [h.location_eq (hall k') hl', append_fileName_inj] at hlocation
  exact hne hlocation.symm

/-- From `t` to `t'` paths lead to the same locations, and the file of a kind stays as it is unless
it is the same as that of another kind. -/
structure Leaves (directory : Path) (kind : DocumentKind) (t t' : Tree) : Prop where
  location? : ∀ p, Tree.Place.location? (t'.locate p) = Tree.Place.location? (t.locate p)
  file : Separate t directory → ∀ l content,
    t.locate (documentPath directory kind) = .file l content →
    t'.locate (documentPath directory kind) = .file l content

theorem Leaves.refl (directory : Path) (kind : DocumentKind) (t : Tree) :
    Leaves directory kind t t :=
  ⟨fun _ => rfl, fun _ _ _ h => h⟩

theorem Leaves.separate {directory : Path} {kind : DocumentKind} (h : Leaves directory kind t t')
    (hs : Separate t directory) : Separate t' directory := by
  intro k k' hne l hl
  rw [h.location?] at hl ⊢
  exact hs k k' hne l hl

/-- What two steps leave alone one after the other is left alone by both. -/
theorem Leaves.trans {directory : Path} {kind : DocumentKind} {t'' : Tree}
    (h : Leaves directory kind t t') (h' : Leaves directory kind t' t'') :
    Leaves directory kind t t'' := by
  refine ⟨fun p => (h'.location? p).trans (h.location? p), fun hs l content hl => ?_⟩
  exact h'.file (h.separate hs) l content (h.file hs l content hl)

/-- Storing one document leaves the documents of the other kinds alone. -/
theorem Stores.leaves {α : Type} [Document α] {directory : Path} {change : α → α} {d : α}
    (h : Stores directory change t d t') {kind : DocumentKind} (hne : kind ≠ Document.kind α) :
    Leaves directory kind t t' := by
  obtain ⟨l, old, hstart, -, rfl⟩ := stores_iff.mp h
  have hinsert := Tree.locate_insert hstart.takesFile (Document.bytes d)
  refine ⟨fun p => (hinsert p).location?, fun hs l' content hl' => ?_⟩
  have hloc : Tree.Place.location? (t.locate (documentPath directory kind)) = some l' := by
    rw [hl']
    rfl
  -- the file that was put is another one
  have hother : l' ≠ l := by
    rintro rfl
    exact hs kind _ hne l' hloc hstart.location?
  rw [(hinsert _).eq_afterWrite hloc, hl']
  exact if_neg hother

theorem StoresIf.leaves {α : Type} [Document α] {needed : Bool} {directory : Path} {change : α → α}
    (h : StoresIf needed directory change t t') {kind : DocumentKind}
    (hne : kind ≠ Document.kind α) : Leaves directory kind t t' := by
  rcases h with ⟨-, rfl⟩ | ⟨-, d, hd⟩
  · exact Leaves.refl directory kind t'
  · exact hd.leaves hne

end Job

theorem Request.StoresMode.leaves {r : Request} {directory : Path} {t t' : Tree}
    (h : r.StoresMode directory t t') {kind : DocumentKind} (hne : kind ≠ .nut) :
    Job.Leaves directory kind t t' := by
  unfold StoresMode at h
  cases hmode : r.mode with
  | some mode =>
    rw [hmode] at h
    obtain ⟨d, hd⟩ := h
    exact hd.leaves hne
  | none =>
    rw [hmode] at h
    have ht : t' = t := h
    rw [ht]
    exact Job.Leaves.refl directory kind t

/-- Records that could be built are in range. -/
theorem Request.materialize_inRange {r : Request} {records : Records}
    (h : r.materialize = .ok records) :
    (∀ m ∈ records.monitors, m.InRange) ∧ ∀ l ∈ records.listens, l.InRange := by
  obtain ⟨hmonitors, hlistens⟩ := Request.materialize_eq_ok_iff.mp h
  constructor
  · intro m hm
    obtain ⟨spec, -, hspec⟩ := Result.exists_of_mem_mapM hmonitors hm
    exact MonitorSpec.inRange_of_toMonitor hspec
  · intro l hl
    obtain ⟨spec, -, hspec⟩ := Result.exists_of_mem_mapM hlistens hl
    exact ListenSpec.inRange_of_toListen hspec

namespace Job

variable {t t' : Tree}

/-- A document with the same `part` as `d` is found in the directory exactly if `d` is clean. -/
def FoundIff {α β : Type} [Document α] (part : α → β) (Clean : α → Prop) (directory : Path) (d : α)
    (t : Tree) : Prop :=
  (∃ f, Finds t directory f ∧ part f = part d) ↔ Clean d

/-- If there is need to, the change is made from `t` to `t'` and the document is stored. Exactly if
it is clean it is found there, and also at the end of a run from `first` to `last` in which the
files are apart. -/
def StoresFoundIff {α β : Type} [Document α] (part : α → β) (Clean : α → Prop) (needed : Bool)
    (directory : Path) (change : α → α) (first t t' last : Tree) : Prop :=
  (needed = false ∧ t' = t) ∨
    (needed = true ∧ ∃ d, Stores directory change t d t' ∧ FoundIff part Clean directory d t' ∧
      (Separate first directory → FoundIff part Clean directory d last))

/-- A document that is stored and left alone afterwards is found at the end exactly if it is
clean. -/
theorem StoresIf.storesFoundIff {α β : Type} [Document α] {part : α → β} {Clean : α → Prop}
    {needed : Bool} {directory : Path} {change : α → α} (h : StoresIf needed directory change t t')
    (hclean : ∀ d, Stores directory change t d t' → ((∃ f, Document.addLines Document.empty
      (Document.linesInFile d) = .ok f ∧ part f = part d) ↔ Clean d))
    {first last : Tree} (hfirst : Separate first directory → Separate t' directory)
    (hlast : Leaves directory (Document.kind α) t' last) :
    StoresFoundIff part Clean needed directory change first t t' last := by
  rcases h with h | ⟨hneeded, d, hd⟩
  · exact Or.inl h
  · obtain ⟨l, hl⟩ := hd.locate
    refine Or.inr ⟨hneeded, d, hd, ?_, fun hs => ?_⟩
    · simp only [FoundIff, finds_iff_of_locate hl]
      exact hclean d hd
    · have hl' := hlast.file (hfirst hs) l _ hl
      simp only [FoundIff, finds_iff_of_locate hl']
      exact hclean d hd

end Job

/-- **What a run stores is found again exactly if it is clean.** -/
theorem Invocation.stored_documents_found_iff {i : Invocation} {t : Tree}
    (hhelp : (Request.ofWords i.words).help = false)
    (hask : (Request.ofWords i.words).isConfigured = false)
    (hcode : (i.execute t).answer.code = successCode) :
    ∃ directory records t₁ t₂ t₃,
      directory = Path.ofText ((Request.ofWords i.words).directory i.environment) ∧
      (Request.ofWords i.words).materialize = .ok records ∧
      Job.StoresFoundIff id (fun d : DirectiveFile Monitor => ∀ m ∈ d.records, m.IsClean)
        (!records.monitors.isEmpty) directory
        (·.setRecords records.monitors ((Request.ofWords i.words).keepsExisting .monitor))
        t t t₁ (i.execute t).tree ∧
      Job.StoresFoundIff id (fun d : DirectiveFile Listen => ∀ l ∈ d.records, l.IsClean)
        (!records.listens.isEmpty) directory
        (·.setRecords records.listens ((Request.ofWords i.words).keepsExisting .listen))
        t t₁ t₂ (i.execute t).tree ∧
      Job.StoresFoundIff DeviceFile.sections DeviceFile.IsClean
        (!(Request.ofWords i.words).devices.isEmpty) directory
        (·.setDevices (Request.ofWords i.words).devices
          ((Request.ofWords i.words).keepsExisting .device))
        t t₂ t₃ (i.execute t).tree ∧
      (Request.ofWords i.words).StoresMode directory t₃ (i.execute t).tree := by
  obtain ⟨directory, hdirectory, happly⟩ :=
    (execute_success_iff hhelp (isValid_of_execute hhelp hcode) hask).mp ⟨hcode, rfl⟩
  obtain ⟨records, t₁, t₂, t₃, hrecords, hmonitors, hlistens, hdevices, hmode⟩ :=
    Request.yields_apply_iff.mp happly
  obtain ⟨hmrange, hlrange⟩ := Request.materialize_inRange hrecords
  have hafter : ∀ kind, kind ≠ .nut → Job.Leaves directory kind t₃ (i.execute t).tree :=
    fun kind hk => hmode.leaves hk
  -- storing one document moves no path, so files that are apart stay apart
  have happart₁ : Job.Separate t directory → Job.Separate t₁ directory :=
    Job.Leaves.separate (Job.StoresIf.leaves hmonitors (show DocumentKind.nut ≠ _ by decide))
  have happart₂ : Job.Separate t₁ directory → Job.Separate t₂ directory :=
    Job.Leaves.separate (Job.StoresIf.leaves hlistens (show DocumentKind.nut ≠ _ by decide))
  have happart₃ : Job.Separate t₂ directory → Job.Separate t₃ directory :=
    Job.Leaves.separate (Job.StoresIf.leaves hdevices (show DocumentKind.nut ≠ _ by decide))
  refine ⟨directory, records, t₁, t₂, t₃, (Job.yields_checkDirectory_iff.mp hdirectory).2.1,
    hrecords, Job.StoresIf.storesFoundIff hmonitors (fun d hd => ?_) happart₁ ?_,
    Job.StoresIf.storesFoundIff hlistens (fun d hd => ?_) (happart₂ ∘ happart₁) ?_,
    Job.StoresIf.storesFoundIff hdevices (fun d hd => ?_) (happart₃ ∘ happart₂ ∘ happart₁)
      (hafter _ (by decide)), hmode⟩
  · obtain ⟨content, old, hold, rfl⟩ := hd.exists_content
    simp only [id_eq, exists_eq_right]
    exact DirectiveFile.setRecords_reads_back_iff
      (fun _ _ h => (Monitor.inRange_of_ofArguments h).1) (fun _ => Monitor.isClean_iff) hmrange
      hold _
  · -- the file of the monitors is left alone by what is stored after it
    exact ((hlistens.leaves (by decide)).trans (hdevices.leaves (by decide))).trans
      (hafter _ (by decide))
  · obtain ⟨content, old, hold, rfl⟩ := hd.exists_content
    simp only [id_eq, exists_eq_right]
    exact DirectiveFile.setRecords_reads_back_iff (fun _ _ => Listen.inRange_of_ofArguments)
      (fun _ => Listen.isClean_iff) hlrange hold _
  · exact (hdevices.leaves (by decide)).trans (hafter _ (by decide))
  · obtain ⟨content, old, hold, rfl⟩ := hd.exists_content
    exact DeviceFile.setDevices_reads_back_iff hold _ _

/-- A device whose name holds a blank is stored, but it is not found. -/
theorem Invocation.stored_documents_found_iff_of_blank :
    let i : Invocation := { words := ["--local", "etc", "--add-device", "a b", "drv", "port"] }
    let t : Tree := ⟨⟨[(["etc"], .directory)], by decide⟩, []⟩
    (i.execute t).answer.code = successCode ∧
      ∃ directory t₂ t₃ d, Job.Stores directory
        (fun f : DeviceFile => f.setDevices (Request.ofWords i.words).devices true) t₂ d t₃ ∧
      ¬∃ f : DeviceFile, Job.Finds (i.execute t).tree directory f ∧ f.sections = d.sections := by
  intro i t
  have hcode : (i.execute t).answer.code = successCode := by decide +kernel
  refine ⟨hcode, ?_⟩
  obtain ⟨directory, records, t₁, t₂, t₃, rfl, -, -, -, hdevices, -⟩ :=
    stored_documents_found_iff (by decide +kernel) (by decide +kernel) hcode
  rcases hdevices with ⟨hnone, -⟩ | ⟨-, d, hd, -, hlast⟩
  · exact absurd hnone (by decide +kernel)
  · have hkeeps : (Request.ofWords i.words).keepsExisting .device = true := by decide +kernel
    rw [hkeeps] at hd
    have hseparate : Job.Separate t (Path.ofText "etc") := by
      have hfiles : Job.HoldsFiles t (Path.ofText "etc") ["etc"] [.nut, .upsmon, .upsd, .ups] :=
        ⟨by decide +kernel, fun kind _ => Or.inl (by cases kind <;> decide +kernel)⟩
      exact hfiles.separate fun kind => by cases kind <;> decide
    refine ⟨_, t₂, t₃, d, hd, fun hfound => ?_⟩
    obtain ⟨l, old, -, rfl, -⟩ := Job.stores_iff.mp hd
    have hplain := ((hlast hseparate).mp hfound).names "a b"
      (Sections.mem_keys_merge.mpr (Or.inr ⟨⟨"a b", "drv", "port", ""⟩, by decide +kernel, rfl⟩))
      (by decide)
    exact absurd hplain (by decide)

end UpsSetup
