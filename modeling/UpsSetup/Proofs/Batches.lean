import UpsSetup.Proofs.Additions
import UpsSetup.Proofs.Changes
import UpsSetup.Proofs.Editing

/-!
# Additions in one run or in two

Additions that are made in one run are made by two runs just as well. The second run reads what the
first one wrote, so what is added and what is there already has to be found again
(`Addition.AreClean`); the rest of the files does not matter.

On the way the runs are compared file by file: each makes a list of edits, and for each file the
edits of two runs are one (`Addition.onFile_edits_append`). -/

namespace UpsSetup

open Text Line

/-! ## Clean records -/

/-- A monitor that is described by texts without line ends holds none. -/
theorem MonitorSpec.isClean_of_toMonitor {args : List String} {spec : MonitorSpec} {m : Monitor}
    (hargs : MonitorSpec.ofArguments? args = some spec)
    (hends : ∀ text ∈ args, HoldsNoEnd text.toList) (h : spec.toMonitor = .ok m)
    (hname : '@' ∉ spec.upsId.toList) (hhost : m.HostIsClear) : m.IsClean := by
  obtain ⟨⟨host, port⟩, hsplit, hrest⟩ := Result.bind_eq_ok_iff.mp h
  obtain ⟨n, -, hm⟩ := Result.bind_eq_ok_iff.mp hrest
  simp only [pure, Except.pure, Except.ok.injEq] at hm
  subst hm
  refine ⟨hname, hhost, fun text ht => ?_⟩
  unfold ofArguments? at hargs
  split at hargs
  next upsId hostPort powerValue user password role =>
    rw [Option.some.injEq] at hargs
    subst hargs
    simp only [Monitor.texts, List.mem_cons, List.not_mem_nil, or_false] at ht
    rcases ht with rfl | rfl | rfl | rfl | rfl
    · exact hends _ (by simp)
    · exact fun c hc => hends hostPort (by simp) c (mem_of_splitHostPort hsplit hc)
    · exact hends _ (by simp)
    · exact hends _ (by simp)
    · split
      · exact (by decide : HoldsNoEnd masterRole.toList)
      · exact (by decide : HoldsNoEnd slaveRole.toList)
  next => simp at hargs

/-- A listen address without a line end is clean, whatever else is in it. -/
theorem ListenSpec.isClean_of_toListen {args : List String} {spec : ListenSpec} {l : Listen}
    (hargs : ListenSpec.ofArguments? args = some spec)
    (hends : ∀ text ∈ args, HoldsNoEnd text.toList) (h : spec.toListen = .ok l) : l.IsClean := by
  have hspec : spec.address ∈ args := by
    unfold ofArguments? at hargs
    split at hargs
    · simp [← Option.some.inj hargs]
    · simp [← Option.some.inj hargs]
    · simp at hargs
  have haddress : l.address = spec.address := by
    unfold toListen at h
    split at h
    · rw [← Except.ok.inj h]
    · split at h
      · rw [← Except.ok.inj h]
      · obtain ⟨port, -, hl⟩ := Result.bind_eq_ok_iff.mp h
        rw [← Except.ok.inj hl]
  rw [Listen.IsClean, haddress]
  exact hends spec.address hspec

/-- The texts of a device that it was described by hold no line end if these hold none. -/
theorem Device.holdsNoEnd_of_describes {args : List String} {d : Device}
    (hargs : Device.ofArguments? args = some d) (hends : ∀ text ∈ args, HoldsNoEnd text.toList)
    {name key value : String} (h : d.Describes name key (some value)) :
    HoldsNoEnd value.toList := by
  have hempty : HoldsNoEnd "".toList := fun c hc => by simp at hc
  have htexts : HoldsNoEnd d.driver.toList ∧ HoldsNoEnd d.port.toList ∧
      HoldsNoEnd d.description.toList := by
    unfold ofArguments? at hargs
    split at hargs
    next id driver port =>
      rw [← Option.some.inj hargs]
      exact ⟨hends driver (by simp), hends port (by simp), hempty⟩
    next id driver port description =>
      rw [← Option.some.inj hargs]
      exact ⟨hends driver (by simp), hends port (by simp), hends description (by simp)⟩
    next => simp at hargs
  rcases h.2 with ⟨-, hv⟩ | ⟨-, hv⟩ | ⟨-, hv⟩
  · exact Option.some.inj hv ▸ htexts.1
  · exact Option.some.inj hv ▸ htexts.2.1
  · exact Option.some.inj hv ▸ htexts.2.2

namespace Addition

/-- Nothing in the additions keeps what they add from being found again. -/
structure AreClean (additions : List Addition) : Prop where
  texts : ∀ a ∈ additions, ∀ text ∈ a.arguments, HoldsNoEnd text.toList
  monitors : ∀ spec ∈ records .monitor MonitorSpec.ofArguments? additions,
    '@' ∉ spec.upsId.toList ∧ ∀ m, spec.toMonitor = .ok m → m.HostIsClear
  devices : ∀ d ∈ records .device Device.ofArguments? additions, PlainName d.id

/-- The first part of clean additions is clean. -/
theorem AreClean.of_append {additions more : List Addition} (h : AreClean (additions ++ more)) :
    AreClean additions where
  texts a ha := h.texts a (List.mem_append_left _ ha)
  monitors spec hs := h.monitors spec (by rw [records_append]; exact List.mem_append_left _ hs)
  devices d hd := h.devices d (by rw [records_append]; exact List.mem_append_left _ hd)

/-- The additions describe the records. -/
def Build (additions : List Addition) (built : Records) : Prop :=
  (records .monitor MonitorSpec.ofArguments? additions).mapM MonitorSpec.toMonitor =
      .ok built.monitors ∧
    (records .listen ListenSpec.ofArguments? additions).mapM ListenSpec.toListen = .ok built.listens

/-- The records of two lists of additions can be built when those of each can. -/
theorem build_append_iff {additions more : List Addition} {built : Records} :
    Build (additions ++ more) built ↔ ∃ first second, Build additions first ∧ Build more second ∧
      built = ⟨first.monitors ++ second.monitors, first.listens ++ second.listens⟩ := by
  unfold Build
  rw [records_append, records_append, Result.mapM_append_eq_ok_iff, Result.mapM_append_eq_ok_iff]
  constructor
  · rintro ⟨⟨ms, ms', hms, hms', hm⟩, ⟨ls, ls', hls, hls', hl⟩⟩
    refine ⟨⟨ms, ls⟩, ⟨ms', ls'⟩, ⟨hms, hls⟩, ⟨hms', hls'⟩, ?_⟩
    rw [← hm, ← hl]
  · rintro ⟨first, second, ⟨hms, hls⟩, ⟨hms', hls'⟩, rfl⟩
    exact ⟨⟨_, _, hms, hms', rfl⟩, ⟨_, _, hls, hls', rfl⟩⟩

/-- The records that clean additions describe are clean and in range. -/
theorem AreClean.isClean_of_build {additions : List Addition} (h : AreClean additions)
    {built : Records} (hbuilt : Build additions built) :
    (∀ m ∈ built.monitors, m.InRange ∧ m.IsClean) ∧ ∀ l ∈ built.listens, l.InRange ∧ l.IsClean := by
  constructor
  · intro m hm
    obtain ⟨spec, hspec, htom⟩ := Result.exists_of_mem_mapM hbuilt.1 hm
    obtain ⟨a, ha, -, hargs⟩ := exists_of_mem_records hspec
    obtain ⟨hname, hhost⟩ := h.monitors spec hspec
    exact ⟨MonitorSpec.inRange_of_toMonitor htom,
      MonitorSpec.isClean_of_toMonitor hargs (h.texts a ha) htom hname (hhost m htom)⟩
  · intro l hl
    obtain ⟨spec, hspec, htol⟩ := Result.exists_of_mem_mapM hbuilt.2 hl
    obtain ⟨a, ha, -, hargs⟩ := exists_of_mem_records hspec
    exact ⟨ListenSpec.inRange_of_toListen htol,
      ListenSpec.isClean_of_toListen hargs (h.texts a ha) htol⟩

/-! ## Edits -/

/-- The edits that additions make. -/
def edits (built : Records) (devices : List Device) : List (DocumentKind × Edit) :=
  Document.editIf (!built.monitors.isEmpty)
      (fun f : MonitorFile => f.setRecords built.monitors true) ++
    (Document.editIf (!built.listens.isEmpty)
        (fun f : ListenFile => f.setRecords built.listens true) ++
      Document.editIf (!devices.isEmpty) (fun f : DeviceFile => f.setDevices devices true))

@[simp] theorem kind_monitorFile : Document.kind MonitorFile = .upsmon := rfl

@[simp] theorem kind_listenFile : Document.kind ListenFile = .upsd := rfl

@[simp] theorem kind_deviceFile : Document.kind DeviceFile = .ups := rfl

/-- **For each file, the edits of additions one after the other are those of all of them**, as long
as what the first ones write is read back and can be changed again. -/
theorem onFile_edits_append {first second : Records} {devices more : List Device}
    {content : Option ByteArray} {kind : DocumentKind}
    (hmonitors : kind = .upsmon → ∀ f : MonitorFile, Document.ofContent? content = some f →
      Document.addLines Document.empty (Document.linesInFile (f.setRecords first.monitors true)) =
        .ok (f.setRecords first.monitors true))
    (hlistens : kind = .upsd → ∀ f : ListenFile, Document.ofContent? content = some f →
      Document.addLines Document.empty (Document.linesInFile (f.setRecords first.listens true)) =
        .ok (f.setRecords first.listens true))
    (hdevices : kind = .ups → ∀ f : DeviceFile, Document.ofContent? content = some f →
      (f.setDevices devices true).IsClean) :
    Edit.onFile kind (edits ⟨first.monitors ++ second.monitors, first.listens ++ second.listens⟩
        (devices ++ more)) content =
      Edit.onFile kind (edits first devices ++ edits second more) content := by
  -- the edits of other files do not count, and what is left are two changes of one document
  cases kind with
  | upsmon =>
    have hboth := Document.onFile_editIf_append (fun rs (f : MonitorFile) => f.setRecords rs true)
      first.monitors second.monitors
      (fun f hf => ⟨_, hmonitors rfl f hf, by rw [DirectiveFile.setRecords_setRecords]⟩) .upsmon
    refine (Edit.onFile_congr ?_ content).trans (hboth.trans (Edit.onFile_congr ?_ content))
    · simp [edits]
    · simp [edits]
  | upsd =>
    have hboth := Document.onFile_editIf_append (fun rs (f : ListenFile) => f.setRecords rs true)
      first.listens second.listens
      (fun f hf => ⟨_, hlistens rfl f hf, by rw [DirectiveFile.setRecords_setRecords]⟩) .upsd
    refine (Edit.onFile_congr ?_ content).trans (hboth.trans (Edit.onFile_congr ?_ content))
    · simp [edits]
    · simp [edits]
  | ups =>
    have hagain : ∀ f : DeviceFile, Document.ofContent? content = some f → ∃ again : DeviceFile,
        Document.addLines Document.empty (Document.linesInFile (f.setDevices devices true)) =
          .ok again ∧ Document.render (again.setDevices more true) =
            Document.render (f.setDevices (devices ++ more) true) := by
      intro f hf
      obtain ⟨again, hlines, hrender⟩ :=
        DeviceFile.exists_addLines_render_setDevices hf (hdevices rfl f hf)
      exact ⟨again, hlines, hrender more⟩
    have hboth := Document.onFile_editIf_append (fun ds (f : DeviceFile) => f.setDevices ds true)
      devices more hagain .ups
    refine (Edit.onFile_congr ?_ content).trans (hboth.trans (Edit.onFile_congr ?_ content))
    · simp [edits]
    · simp [edits]
  | nut =>
    refine Edit.onFile_congr ?_ content
    simp [edits]

/-! ## Files that are found again -/

/-- A file of monitors is found again after clean monitors were added. -/
theorem monitorFile_reads_back {content : Option ByteArray} {f : MonitorFile}
    (hf : Document.ofContent? content = some f) (hold : ∀ m ∈ f.records, m.HostIsClear)
    {new : List Monitor} (hnew : ∀ m ∈ new, m.InRange ∧ m.IsClean) :
    Document.addLines Document.empty (Document.linesInFile (f.setRecords new true)) =
      .ok (f.setRecords new true) := by
  obtain ⟨-, havoids, hrange⟩ :=
    DirectiveFile.of_ofContent? (fun _ _ => Monitor.inRange_of_ofArguments) hf
  refine (DirectiveFile.setRecords_reads_back_iff
    (fun _ _ h => (Monitor.inRange_of_ofArguments h).1) (fun _ => Monitor.isClean_iff)
    (fun m hm => (hnew m hm).1) hf true).mpr fun m hm => ?_
  rcases DirectiveFile.mem_records_setRecords hm with hm | hm
  · -- a monitor that was there came from a line of the file
    obtain ⟨hm', hname⟩ := hrange m hm
    refine (Monitor.isClean_iff hm').mpr ⟨?_, fun a ha => holdsNoEnd_iff.mpr fun c hc => ?_⟩
    · exact (Monitor.ofArguments_arguments_iff hm').mpr ⟨hname, hold m hm⟩
    · exact (havoids c hc).records m hm a ha
  · exact (hnew m hm).2

/-- A file of listen addresses is found again after clean ones were added. -/
theorem listenFile_reads_back {content : Option ByteArray} {f : ListenFile}
    (hf : Document.ofContent? content = some f) {new : List Listen}
    (hnew : ∀ l ∈ new, l.InRange ∧ l.IsClean) :
    Document.addLines Document.empty (Document.linesInFile (f.setRecords new true)) =
      .ok (f.setRecords new true) := by
  obtain ⟨-, havoids, -⟩ :=
    DirectiveFile.of_ofContent? (fun _ _ => Listen.inRange_of_ofArguments) hf
  refine (DirectiveFile.setRecords_reads_back_iff (fun _ _ => Listen.inRange_of_ofArguments)
    (fun _ => Listen.isClean_iff) (fun l hl => (hnew l hl).1) hf true).mpr fun l hl => ?_
  rcases DirectiveFile.mem_records_setRecords hl with hl | hl
  · exact holdsNoEnd_iff.mpr fun c hc => (havoids c hc).records l hl l.address List.mem_cons_self
  · exact (hnew l hl).2

/-- A file with plain names stays clean when clean devices are added. -/
theorem AreClean.deviceFile_isClean {additions : List Addition} (h : AreClean additions)
    {content : Option ByteArray} {f : DeviceFile} (hf : Document.ofContent? content = some f)
    (hold : ∀ name ∈ f.sections.keys, PlainName name) :
    (f.setDevices (records .device Device.ofArguments? additions) true).IsClean := by
  obtain ⟨-, havoids⟩ := DeviceFile.of_ofContent? hf
  constructor
  · intro name hname hglobal
    rcases Sections.mem_keys_merge.mp hname with hname | ⟨d, hd, rfl⟩
    · exact hold name ((Sections.mem_keys_base hname).resolve_left hglobal)
    · exact h.devices d hd
  · intro name key value hvalue
    rcases Sections.lookup?_merge_cases hvalue with hvalue | ⟨d, hd, hdescribes⟩
    · exact holdsNoEnd_iff.mpr fun c hc => ((havoids c hc).entries name key _ hvalue).2 value rfl
    · obtain ⟨a, ha, -, hargs⟩ := exists_of_mem_records hd
      exact Device.holdsNoEnd_of_describes hargs (h.texts a ha) hdescribes

/-! ## Runs -/

theorem build_grouped_iff {directory : String} {additions : List Addition} {built : Records} :
    (Request.ofArguments (grouped directory additions)).materialize = .ok built ↔
      Build additions built := by
  have hmonitors : (Request.ofArguments (grouped directory additions)).monitors =
      records .monitor MonitorSpec.ofArguments? additions := records_grouped _ _
  have hlistens : (Request.ofArguments (grouped directory additions)).listens =
      records .listen ListenSpec.ofArguments? additions := records_grouped _ _
  rw [Request.materialize_eq_ok_iff, hmonitors, hlistens]
  rfl

/-- A command line of additions edits the files as the additions say. -/
theorem edits_grouped (directory : String) {additions : List Addition} {built : Records}
    (h : Build additions built) :
    (Request.ofArguments (grouped directory additions)).edits built =
      edits built (records .device Device.ofArguments? additions) := by
  have hrecords : (Request.ofArguments (grouped directory additions)).devices =
      records .device Device.ofArguments? additions := records_grouped _ _
  unfold Request.edits edits
  rw [(request_grouped directory additions).2.2.2, hrecords, List.append_nil, List.append_assoc]
  refine congrArg₂ _ ?_ (congrArg₂ _ ?_ ?_)
  · refine Document.editIf_congr fun hne => ?_
    rw [keepsExisting_grouped (Result.ne_nil_of_mapM h.1 (by simpa using hne))]
  · refine Document.editIf_congr fun hne => ?_
    rw [keepsExisting_grouped (Result.ne_nil_of_mapM h.2 (by simpa using hne))]
  · refine Document.editIf_congr fun hne => ?_
    rw [keepsExisting_grouped (by simpa using hne)]

/-- A file is edited only if something is added to it. -/
theorem exists_edits_iff {built : Records} {devices : List Device} {kind : DocumentKind} :
    (∃ e ∈ edits built devices, e.1 = kind) ↔
      (kind = .upsmon ∧ built.monitors ≠ []) ∨ (kind = .upsd ∧ built.listens ≠ []) ∨
        (kind = .ups ∧ devices ≠ []) := by
  unfold edits
  simp only [List.mem_append, Document.mem_editIf, Bool.not_eq_true', List.isEmpty_eq_false_iff]
  constructor
  · rintro ⟨e, ⟨h, rfl⟩ | ⟨h, rfl⟩ | ⟨h, rfl⟩, rfl⟩
    · exact Or.inl ⟨rfl, h⟩
    · exact Or.inr (Or.inl ⟨rfl, h⟩)
    · exact Or.inr (Or.inr ⟨rfl, h⟩)
  · rintro (⟨rfl, h⟩ | ⟨rfl, h⟩ | ⟨rfl, h⟩)
    · exact ⟨_, Or.inl ⟨h, rfl⟩, rfl⟩
    · exact ⟨_, Or.inr (Or.inl ⟨h, rfl⟩), rfl⟩
    · exact ⟨_, Or.inr (Or.inr ⟨h, rfl⟩), rfl⟩

/-- Additions one after the other edit the same files as all of them at once. -/
theorem exists_edits_append_iff {first second : Records} {devices more : List Device}
    {kind : DocumentKind} :
    (∃ e ∈ edits first devices ++ edits second more, e.1 = kind) ↔
      ∃ e ∈ edits ⟨first.monitors ++ second.monitors, first.listens ++ second.listens⟩
        (devices ++ more), e.1 = kind := by
  have hmem : (∃ e ∈ edits first devices ++ edits second more, e.1 = kind) ↔
      (∃ e ∈ edits first devices, e.1 = kind) ∨ ∃ e ∈ edits second more, e.1 = kind := by
    simp only [List.mem_append, or_and_right, exists_or]
  rw [hmem, exists_edits_iff, exists_edits_iff, exists_edits_iff]
  simp only [ne_eq, List.append_eq_nil_iff, not_and_or]
  -- for one kind, only the records of its own file are left on both sides
  cases kind <;> simp

theorem kind_mem_of_mem_edits {built : Records} {devices : List Device} {e : DocumentKind × Edit}
    (h : e ∈ edits built devices) : e.1 ∈ [DocumentKind.upsmon, .upsd, .ups] := by
  rcases exists_edits_iff.mp ⟨e, h, rfl⟩ with ⟨hk, -⟩ | ⟨hk, -⟩ | ⟨hk, -⟩
  · simp [hk]
  · simp [hk]
  · simp [hk]

/-- What the files of a directory hold already is found again. -/
structure StartsClean (t : Tree) (loc : Location) : Prop where
  monitors : ∀ f : MonitorFile,
    Document.ofContent? (t.content? (loc ++ [DocumentKind.upsmon.fileName])) = some f →
    ∀ m ∈ f.records, m.HostIsClear
  sections : ∀ f : DeviceFile,
    Document.ofContent? (t.content? (loc ++ [DocumentKind.ups.fileName])) = some f →
    ∀ name ∈ f.sections.keys, PlainName name

/-- The edits of additions can be made one after the other, and leave the same files. -/
theorem exists_editAll_append {directory : Path} {loc : Location} {t t' : Tree}
    (hfiles : Job.HoldsFiles t directory loc [.upsmon, .upsd, .ups]) (hstart : StartsClean t loc)
    {X Y : List Addition} (hclean : AreClean X) {first second : Records} (hfirst : Build X first)
    (hedit : t.editAll directory
      (edits ⟨first.monitors ++ second.monitors, first.listens ++ second.listens⟩
        (records .device Device.ofArguments? X ++ records .device Device.ofArguments? Y)) =
          some t') :
    ∃ u, t.editAll directory (edits first (records .device Device.ofArguments? X) ++
        edits second (records .device Device.ofArguments? Y)) = some u ∧
      ∀ kind ∈ [DocumentKind.upsmon, .upsd, .ups],
        u.get? (loc ++ [kind.fileName]) = t'.get? (loc ++ [kind.fileName]) := by
  obtain ⟨hms, hls⟩ := hclean.isClean_of_build hfirst
  refine hfiles.editAll_congr (fun _ => kind_mem_of_mem_edits)
    (fun e he => exists_edits_append_iff.mp ⟨e, he, rfl⟩) (fun kind content hcontent => ?_) hedit
  rw [← onFile_edits_append]
  · exact hcontent
  · rintro rfl f hf
    exact monitorFile_reads_back hf (hstart.monitors f hf) hms
  · rintro rfl f hf
    exact listenFile_reads_back hf hls
  · rintro rfl f hf
    exact hclean.deviceFile_isClean hf (hstart.sections f hf)

/-- A run of additions succeeds if their records can be built and their edits can be made. -/
theorem execute_commandLine_iff {i : Invocation} {directory : String} {additions : List Addition}
    (hwords : i.words = commandLine directory additions) (hne : directory ≠ "")
    (hliteral : Word.ofText directory = .literal directory)
    (hvalid : ∀ a ∈ additions, a.family.addOption.recordProblem? a.arguments = none) {t t' : Tree}
    {loc : Location} (hdir : t.locate (Path.ofText directory) = .directory loc) :
    (i.execute t).answer.code = successCode ∧ (i.execute t).tree = t' ↔
      ∃ built, Build additions built ∧ t.editAll (Path.ofText directory)
        (edits built (records .device Device.ofArguments? additions)) = some t' := by
  obtain ⟨hhelp, hask, hlocal, -⟩ := request_grouped directory additions
  have hrequest : Request.ofWords i.words = Request.ofArguments (grouped directory additions) := by
    rw [hwords, Request.ofWords, ofWords_commandLine hliteral]
  have htext : (Request.ofWords i.words).directory i.environment = directory := by
    rw [hrequest, Request.directory, hlocal, nonempty?, Option.filter_some_pos (by simpa using hne)]
    rfl
  rw [Invocation.execute_success_iff (hrequest ▸ hhelp) (hrequest ▸ isValid_iff.mpr hvalid)
    (hrequest ▸ hask), htext]
  constructor
  · rintro ⟨path, hpath, happly⟩
    obtain ⟨-, rfl, -⟩ := Job.yields_checkDirectory_iff.mp hpath
    rw [hrequest] at happly
    obtain ⟨built, hbuilt, hedit⟩ := Request.yields_apply_iff_editAll.mp happly
    rw [build_grouped_iff] at hbuilt
    rw [edits_grouped directory hbuilt] at hedit
    exact ⟨built, hbuilt, hedit⟩
  · rintro ⟨built, hbuilt, hedit⟩
    refine ⟨_, Job.yields_checkDirectory_iff.mpr ⟨rfl, rfl, loc, hdir⟩, ?_⟩
    rw [← edits_grouped directory hbuilt] at hedit
    rw [hrequest]
    exact Request.yields_apply_iff_editAll.mpr ⟨built, build_grouped_iff.mpr hbuilt, hedit⟩

end Addition

namespace Invocation

open Addition

variable {once first second : Invocation} {directory : String} {X Y : List Addition} {t : Tree}
  {loc : Location}

/-- Where the directory does not look like an option, the two runs leave what the one run leaves. -/
theorem batch_of_literal (honce : once.words = commandLine directory (X ++ Y))
    (hfirst : first.words = commandLine directory X)
    (hsecond : second.words = commandLine directory Y) (hne : directory ≠ "")
    (hliteral : Word.ofText directory = .literal directory) (hclean : AreClean X)
    (hfiles : Job.HoldsFiles t (Path.ofText directory) loc [.upsmon, .upsd, .ups])
    (hstart : StartsClean t loc) (hcode : (once.execute t).answer.code = successCode) :
    (first.execute t).answer.code = successCode ∧
      (second.execute (first.execute t).tree).answer.code = successCode ∧
      ∀ kind ∈ [DocumentKind.upsmon, .upsd, .ups],
        (second.execute (first.execute t).tree).tree.get? (loc ++ [kind.fileName]) =
          (once.execute t).tree.get? (loc ++ [kind.fileName]) := by
  have hvalid : ∀ a ∈ X ++ Y, a.family.addOption.recordProblem? a.arguments = none := by
    have hrequest : Request.ofWords once.words =
        Request.ofArguments (grouped directory (X ++ Y)) := by
      rw [honce, Request.ofWords, ofWords_commandLine hliteral]
    have hhelp := (request_grouped directory (X ++ Y)).1
    rw [← hrequest] at hhelp
    exact isValid_iff.mp (hrequest ▸ isValid_of_execute hhelp hcode)
  have hdir := hfiles.directory
  obtain ⟨built, hbuilt, hedit⟩ :=
    (execute_commandLine_iff honce hne hliteral hvalid hdir).mp ⟨hcode, rfl⟩
  -- the records of the run are those of the two runs, and so are its edits
  obtain ⟨builtX, builtY, hX, hY, rfl⟩ := build_append_iff.mp hbuilt
  rw [records_append] at hedit
  obtain ⟨u, hu, hsame⟩ := exists_editAll_append hfiles hstart hclean hX hedit
  rw [Tree.editAll_append] at hu
  obtain ⟨v, hv, hu⟩ := Option.bind_eq_some_iff.mp hu
  -- the directory is still there for the second run
  have hdir' := (hfiles.edited_of_editAll (fun _ => kind_mem_of_mem_edits) hv).holds.directory
  obtain ⟨hcode₁, htree₁⟩ := (execute_commandLine_iff hfirst hne hliteral
    (fun a ha => hvalid a (List.mem_append_left _ ha)) hdir).mpr ⟨builtX, hX, hv⟩
  rw [htree₁]
  obtain ⟨hcode₂, htree₂⟩ := (execute_commandLine_iff hsecond hne hliteral
    (fun a ha => hvalid a (List.mem_append_right _ ha)) hdir').mpr ⟨builtY, hY, hu⟩
  refine ⟨hcode₁, hcode₂, fun kind hk => ?_⟩
  rw [htree₂]
  exact hsame kind hk

/-- **Additions that are made in one run are made by two runs, one after the other.** Both succeed
if the one does, and they leave the same files. -/
theorem batch_eq_sequence (honce : once.words = commandLine directory (X ++ Y))
    (hfirst : first.words = commandLine directory X)
    (hsecond : second.words = commandLine directory Y) (hne : directory ≠ "")
    (hclean : AreClean (X ++ Y))
    (hfiles : Job.HoldsFiles t (Path.ofText directory) loc [.upsmon, .upsd, .ups])
    (hstart : StartsClean t loc) (hcode : (once.execute t).answer.code = successCode) :
    (first.execute t).answer.code = successCode ∧
      (second.execute (first.execute t).tree).answer.code = successCode ∧
      ∀ kind ∈ [DocumentKind.upsmon, .upsd, .ups],
        (second.execute (first.execute t).tree).tree.get? (loc ++ [kind.fileName]) =
          (once.execute t).tree.get? (loc ++ [kind.fileName]) := by
  by_cases hliteral : Word.ofText directory = .literal directory
  · exact batch_of_literal honce hfirst hsecond hne hliteral hclean.of_append hfiles hstart hcode
  · -- the directory looks like an option: only a run that shows the usage text succeeds
    have hhelp : (Request.ofWords once.words).help = true := by
      rw [← Bool.not_eq_false]
      intro hnot
      have hvalid := isValid_of_execute hnot hcode
      rw [honce, not_isValid_of_not_literal hliteral] at hvalid
      exact Bool.false_ne_true hvalid
    have hhelp' : ∀ {i : Invocation} {additions : List Addition},
        i.words = commandLine directory additions → (Request.ofWords i.words).help = true := by
      intro i additions hi
      rw [honce] at hhelp
      rw [hi]
      exact help_of_not_literal hliteral _ additions hhelp
    obtain ⟨hcode₁, htree₁⟩ := execute_help (hhelp' hfirst) t
    obtain ⟨hcode₂, htree₂⟩ := execute_help (hhelp' hsecond) t
    rw [htree₁]
    refine ⟨hcode₁, hcode₂, fun kind _ => ?_⟩
    rw [htree₂, (execute_help hhelp t).2]

/-- The monitor of the first half has no port, and `ups.conf` holds a comment and a section before
the run. -/
theorem batch_eq_sequence_of_existing_section :
    let X : List Addition := [⟨.monitor, ["ups", "host", "1", "me", "x y", "master"], by decide⟩]
    let Y : List Addition := [⟨.device, ["ups", "drv", "auto"], by decide⟩,
      ⟨.monitor, ["ups", "host:1", "1", "me", "", "slave"], by decide⟩]
    let t : Tree := ⟨⟨[(["etc"], .directory),
      (["etc", "ups.conf"], .file "# all\n[old]\nlock\n".toUTF8)], by decide⟩, []⟩
    let once : Invocation := { words := commandLine "etc" (X ++ Y) }
    let first : Invocation := { words := commandLine "etc" X }
    let second : Invocation := { words := commandLine "etc" Y }
    (once.execute t).answer.code = successCode ∧ (first.execute t).answer.code = successCode ∧
      (second.execute (first.execute t).tree).answer.code = successCode ∧
      ∀ kind ∈ [DocumentKind.upsmon, .upsd, .ups],
        (second.execute (first.execute t).tree).tree.get? (["etc"] ++ [kind.fileName]) =
          (once.execute t).tree.get? (["etc"] ++ [kind.fileName]) := by
  intro X Y t once first second
  have hcode : (once.execute t).answer.code = successCode := by decide +kernel
  have hspecs : ∀ spec ∈ records .monitor MonitorSpec.ofArguments? (X ++ Y),
      '@' ∉ spec.upsId.toList ∧ ∀ m ∈ spec.toMonitor.toOption, m.HostIsClear := by decide +kernel
  have hclean : AreClean (X ++ Y) := by
    refine ⟨by decide +kernel, fun spec hs => ⟨(hspecs spec hs).1, fun m hm => ?_⟩,
      by decide +kernel⟩
    exact (hspecs spec hs).2 m (by rw [hm]; rfl)
  have hfiles : Job.HoldsFiles t (Path.ofText "etc") ["etc"] [.upsmon, .upsd, .ups] := by
    refine ⟨by decide +kernel, fun kind hk => ?_⟩
    by_cases hups : kind = .ups
    · exact Or.inr ⟨_, by rw [hups]; rfl⟩
    · refine Or.inl ?_
      revert kind
      decide +kernel
  have hmonitors :
      ∀ f ∈ (Document.ofContent? (t.content? ["etc", "upsmon.conf"]) : Option MonitorFile),
        ∀ m ∈ f.records, m.HostIsClear := by decide +kernel
  have hsections : ∀ f ∈ (Document.ofContent? (t.content? ["etc", "ups.conf"]) : Option DeviceFile),
      ∀ name ∈ f.sections.keys, PlainName name := by decide +kernel
  have hstart : StartsClean t ["etc"] := ⟨hmonitors, hsections⟩
  exact ⟨hcode, batch_eq_sequence rfl rfl rfl (by decide) hclean hfiles hstart hcode⟩

end Invocation

end UpsSetup
