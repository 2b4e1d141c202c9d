import UpsSetup.Proofs.FileRoundTrip
import UpsSetup.Proofs.Merging
import UpsSetup.Proofs.Storage

/-!
# Changed documents

What is left of an existing file never keeps a changed document from being read back, since it was
read from a file itself. So whether it is read back depends on what is put into it, together with
the records, names and values that it had before:

* `DirectiveFile.setRecords_reads_back_iff` for files of directives,
* `DeviceFile.setDevices_reads_back_iff` for the sections of files of devices.

A file of devices that is read back may keep its comments in another order, but it is written like
the file that was stored, also after further devices
(`DeviceFile.exists_addLines_render_setDevices`). -/

namespace UpsSetup

open Text Line

/-! ## What a change starts from -/

/-- The lines that are decoded hold no line end. -/
theorem holdsNoEnd_of_isWhole {content : ByteArray} (h : (decode content).isWhole = true) :
    ∀ line ∈ (decode content).lines, HoldsNoEnd line.toList := by
  intro line hl
  unfold decode at h hl
  split at hl
  · dsimp only at hl
    exact holdsNoEnd_of_mem_lines hl
  next hnone =>
    rw [hnone] at h
    simp at h

/-- A document in a file was read from lines without line ends; that of a missing file from none. -/
theorem Document.exists_lines_of_ofContent? {α : Type} [Document α] {content : Option ByteArray}
    {d : α} (h : ofContent? content = some d) : ∃ lines : List String,
      (∀ line ∈ lines, HoldsNoEnd line.toList) ∧ addLines empty lines = .ok d := by
  cases content with
  | none => exact ⟨[], fun line hl => absurd hl List.not_mem_nil, congrArg _ (Option.some.inj h)⟩
  | some bytes =>
    obtain ⟨hwhole, hlines⟩ := ofBytes?_eq_some_iff.mp h
    exact ⟨_, holdsNoEnd_of_isWhole hwhole, hlines⟩

/-! ## Files of directives -/

namespace DirectiveFile

/-- Each record was there before or is new. -/
theorem mem_records_setRecords {ρ : Type} {f : DirectiveFile ρ} {new : List ρ}
    {keepsExisting : Bool} {r : ρ} (h : r ∈ (f.setRecords new keepsExisting).records) :
    r ∈ f.records ∨ r ∈ new := by
  unfold setRecords mergeRecords at h
  cases keepsExisting with
  | true => exact List.mem_append.mp h
  | false => exact Or.inr h

/-- Records that are added in two steps can be added in one. -/
theorem setRecords_setRecords {ρ : Type} (f : DirectiveFile ρ) (records more : List ρ) :
    (f.setRecords records true).setRecords more true = f.setRecords (records ++ more) true := by
  unfold setRecords mergeRecords
  dsimp only
  rw [if_pos rfl, if_pos rfl, if_pos rfl, List.append_assoc]

variable {ρ : Type} [Managed ρ]

theorem of_ofContent? [LawfulManaged ρ] {P : ρ → Prop}
    (hP : ∀ (args : List String) (r : ρ), Managed.ofArguments args = .ok r → P r)
    {content : Option ByteArray} {f : DirectiveFile ρ} (h : Document.ofContent? content = some f) :
    f.WellFormed ∧ (∀ c, isTerminator c = true → f.Avoids c) ∧ ∀ r ∈ f.records, P r := by
  obtain ⟨lines, hends, hlines⟩ := Document.exists_lines_of_ofContent? h
  refine ⟨wellFormed_of_addLines hlines, fun c hc => ?_, records_of_addLines hP hlines⟩
  exact avoids_of_addLines hc (fun line hl => holdsNoEnd_iff.mp (hends line hl) c hc) hlines

theorem setRecords_wellFormed {f : DirectiveFile ρ} (hf : f.WellFormed) (new : List ρ)
    (keepsExisting : Bool) : (f.setRecords new keepsExisting).WellFormed :=
  ⟨hf.comments, hf.directives⟩

/-- The lines of records that were put into a file give them again exactly if each is clean, where
`Clean` is what its own lines ask of it. -/
theorem setRecords_reads_back_iff [LawfulManaged ρ] {InRange Clean : ρ → Prop}
    (hrange : ∀ (args : List String) (r : ρ), Managed.ofArguments args = .ok r → InRange r)
    (hclean : ∀ r : ρ, InRange r → (Clean r ↔ Managed.ofArguments (Managed.arguments r) = .ok r ∧
      ∀ a ∈ Managed.arguments r, HoldsNoEnd a.toList))
    {new : List ρ} (hnew : ∀ r ∈ new, InRange r) {content : Option ByteArray} {f : DirectiveFile ρ}
    (h : Document.ofContent? content = some f) (keeps : Bool) :
    Document.addLines Document.empty (Document.linesInFile (f.setRecords new keeps)) =
      .ok (f.setRecords new keeps) ↔ ∀ r ∈ (f.setRecords new keeps).records, Clean r := by
  obtain ⟨hf, havoids, hrecords⟩ := of_ofContent? hrange h
  have hunmanaged : ∀ u ∈ f.unmanaged, ∀ text ∈ u.texts, HoldsNoEnd text.toList :=
    fun u hu text ht => holdsNoEnd_iff.mpr fun c hc => (havoids c hc).unmanaged u hu text ht
  rw [reads_back_from_file_iff (setRecords_wellFormed hf new keeps) hunmanaged]
  refine forall₂_congr fun r hr => (hclean r ?_).symm
  rcases mem_records_setRecords hr with hr | hr
  · exact hrecords r hr
  · exact hnew r hr

end DirectiveFile

/-! ## Files of devices -/

namespace DeviceFile

theorem of_ofContent? {content : Option ByteArray} {f : DeviceFile}
    (h : Document.ofContent? content = some f) :
    f.Reached ∧ ∀ c, isTerminator c = true → f.Avoids c := by
  obtain ⟨lines, hends, hlines⟩ := Document.exists_lines_of_ofContent? h
  refine ⟨reached_of_addLines hlines, fun c hc => ?_⟩
  exact avoids_of_addLines (fun line hl => holdsNoEnd_iff.mp (hends line hl) c hc) hlines

/-- Devices that are put into a file leave everything in it well-formed that is not theirs. -/
theorem setDevices_wellFormed {f : DeviceFile} (hf : f.Reached) (devices : List Device)
    (keepsExisting : Bool) : (f.setDevices devices keepsExisting).WellFormed where
  global_first := Sections.head?_keys_merge f.sections devices keepsExisting
  flags name key h := by
    rcases Sections.lookup?_merge_cases h with h | ⟨d, -, -, h⟩
    · exact hf.flags name key h
    · simp at h
  comments := hf.comments
  trailing := hf.trailing

theorem holdsNoEnd_key {d : Device} {name key : String} {value : Option String}
    (h : d.Describes name key value) : HoldsNoEnd key.toList := by
  rcases h.2 with ⟨rfl, -⟩ | ⟨rfl, -⟩ | ⟨rfl, -⟩
  · decide
  · decide
  · decide

/-- Devices bring no line end into keys and comments. -/
theorem setDevices_keepsLines {f : DeviceFile} (hf : ∀ c, isTerminator c = true → f.Avoids c)
    (devices : List Device) (keepsExisting : Bool) :
    (f.setDevices devices keepsExisting).KeepsLines where
  keys name key value h := by
    rcases Sections.lookup?_merge_cases h with h | ⟨d, -, h⟩
    · exact holdsNoEnd_iff.mpr fun c hc => ((hf c hc).entries name key value h).1
    · exact holdsNoEnd_key h
  comments slot cs h text ht := holdsNoEnd_iff.mpr fun c hc => (hf c hc).comments slot cs h text ht
  trailing text ht := holdsNoEnd_iff.mpr fun c hc => (hf c hc).trailing text ht
  current := holdsNoEnd_iff.mpr fun c hc => (hf c hc).current

/-- The devices are found again exactly if the file is clean after the change. -/
theorem setDevices_reads_back_iff {content : Option ByteArray} {f : DeviceFile}
    (h : Document.ofContent? content = some f) (devices : List Device) (keeps : Bool) :
    (∃ again : DeviceFile, Document.addLines Document.empty
        (Document.linesInFile (f.setDevices devices keeps)) = .ok again ∧
      again.sections = (f.setDevices devices keeps).sections) ↔
      (f.setDevices devices keeps).IsClean := by
  obtain ⟨hf, havoids⟩ := of_ofContent? h
  exact reads_back_from_file_iff (setDevices_wellFormed hf devices keeps)
    (setDevices_keepsLines havoids devices keeps)

/-! ## Changed again -/

/-- The lines of a file do not depend on how its comments are kept. -/
theorem render_congr {f f' : DeviceFile} (hsections : f.sections = f'.sections)
    (htrailing : f.trailing = f'.trailing)
    (hcomments : ∀ name key, f.commentsOf name key = f'.commentsOf name key) :
    Document.render f = Document.render f' := by
  have hsection : ∀ name entries, f.sectionLines name entries = f'.sectionLines name entries := by
    intro name entries
    unfold sectionLines
    rw [hcomments]
    have hentry : f.entryLines name = f'.entryLines name := by
      funext entry
      unfold entryLines
      rw [hcomments]
    rw [hentry]
  have hlines : ∀ (ss : List (String × Section)) (started : Bool),
      f.renderSections started ss = f'.renderSections started ss := by
    intro ss
    induction ss with
    | nil => exact fun _ => rfl
    | cons p ss ih =>
      intro started
      unfold renderSections
      dsimp only
      rw [hsection, ih]
  show f.renderSections false f.sections.entries ++ f.trailing = _
  rw [hlines, hsections, htrailing]
  rfl

/-- Devices that are added in two steps can be added in one. -/
theorem setDevices_setDevices (f : DeviceFile) (devices more : List Device) :
    (f.setDevices devices true).setDevices more true = f.setDevices (devices ++ more) true := by
  unfold setDevices
  dsimp only
  rw [Sections.merge_merge]

theorem commentsOf_of_attached {f : DeviceFile} {name : String} {key : Option String}
    {cs : List String} (h : f.comments.get? (name, key) = attached cs) :
    f.commentsOf name key = cs := by
  rw [commentsOf, OrderedMap.getD, h]
  unfold attached
  split
  next hnil => exact hnil.symm
  next => rfl

/-- **A clean file is read back, and written after further devices as if it had been kept in
memory.** -/
theorem exists_addLines_render_setDevices {content : Option ByteArray} {f : DeviceFile}
    (h : Document.ofContent? content = some f) {devices : List Device}
    (hclean : (f.setDevices devices true).IsClean) :
    ∃ again : DeviceFile, Document.addLines Document.empty
        (Document.linesInFile (f.setDevices devices true)) = .ok again ∧
      ∀ more, Document.render (again.setDevices more true) =
        Document.render (f.setDevices (devices ++ more) true) := by
  obtain ⟨hf, havoids⟩ := of_ofContent? h
  obtain ⟨again, hlines, hsections, htrailing, hslots, hfresh⟩ :=
    addLines_render (setDevices_wellFormed hf devices true) hclean.names
  rw [hclean.linesInFile (setDevices_keepsLines havoids devices true)]
  refine ⟨again, hlines, fun more => ?_⟩
  rw [← setDevices_setDevices]
  refine render_congr ?_ htrailing fun name key => ?_
  · exact congrArg (Sections.merge · more true) hsections
  · by_cases hs : (f.setDevices devices true).sections.HasSlot (name, key)
    · exact commentsOf_of_attached (hslots name key hs)
    · -- comments never stand in front of what was not there before
      have hnone : f.comments.get? (name, key) = none :=
        hf.comments_of_not_hasSlot fun hslot => hs (hslot.merge devices)
      show again.comments.getD (name, key) [] = f.comments.getD (name, key) []
      rw [OrderedMap.getD, OrderedMap.getD, hfresh _ hs, hnone]

end DeviceFile

end UpsSetup
