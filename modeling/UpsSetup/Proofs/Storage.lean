import UpsSetup.Proofs.Jobs
import UpsSetup.Proofs.Reading
import UpsSetup.Proofs.Trees
import UpsSetup.Storage

/-!
# Storing a document

What the jobs on a directory do when they end with a value. A file is read as the bytes in it are
(`Document.ofBytes?`); a document is stored by putting its bytes where its path leads, and nowhere
else. What is read from these bytes depends on nothing but the written lines (`ofBytes?_bytes`), so
whether a stored document is found again is a question about documents and not about trees
(`finds_iff_of_locate`). -/

namespace UpsSetup

namespace Document

variable {α : Type} [Document α]

/-! ## Bytes -/

/-- The document that the bytes of a file give, if they are read to their end. -/
def ofBytes? (content : ByteArray) : Option α :=
  if (Text.decode content).isWhole then (addLines empty (Text.decode content).lines).toOption
  else none

/-- The document that the content of a file gives. A missing file gives the empty one. -/
def ofContent? (content : Option ByteArray) : Option α := content.elim (some empty) ofBytes?

/-- The bytes of the file to which a document is written. -/
def bytes (d : α) : ByteArray := (write d).text.toUTF8

/-- The lines of the file to which a document is written. -/
def linesInFile (d : α) : List String :=
  (render d).flatMap fun line => (Text.fileLines line.toList).map String.ofList

theorem ofBytes?_eq_some_iff {content : ByteArray} {d : α} :
    ofBytes? content = some d ↔
      (Text.decode content).isWhole = true ∧
        addLines empty (Text.decode content).lines = .ok d := by
  unfold ofBytes?
  split
  next h =>
    rw [and_iff_right h]
    cases addLines (empty : α) (Text.decode content).lines <;> simp [Except.toOption]
  next h => simp [h]

/-- The bytes of a document are text to their end. -/
theorem decode_bytes (d : α) : Text.decode (bytes d) = ⟨linesInFile d, true⟩ := by
  rw [bytes, Text.decode_toUTF8]
  exact congrArg (Text.Decoded.mk · true) (Text.lines_unifyEnds_unlines (render d))

/-- **What is read from the bytes of a document depends on its lines only.** -/
theorem ofBytes?_bytes {d d' : α} :
    ofBytes? (bytes d) = some d' ↔ addLines empty (linesInFile d) = .ok d' := by
  rw [ofBytes?_eq_some_iff, decode_bytes]
  exact and_iff_right rfl

/-- Lines that hold no line end are the lines of the file. -/
theorem linesInFile_of_holdsNoEnd {d : α} (h : ∀ line ∈ render d, Text.HoldsNoEnd line.toList) :
    linesInFile d = render d := by
  have hline : ∀ line ∈ render d, (Text.fileLines line.toList).map String.ofList = [line] := by
    intro line hl
    rw [Text.fileLines_of_holdsNoEnd (h line hl), List.map_singleton, String.ofList_toList]
  rw [linesInFile, List.flatMap_congr hline]
  exact List.flatMap_pure_eq_map _ _ |>.trans (List.map_id _)

end Document

namespace Job

variable {α : Type} [Document α] {t t' : Tree}

/-! ## Reading -/

/-- Looking at a path gives what is there, unless a name in it is too long. -/
theorem yields_look_iff {p : Path} {place : Place} :
    (look p).Yields t place t' ↔
      t' = t ∧ place = t.locate p ∧ t.locate p ≠ .nowhere .nameTooLong := by
  unfold Yields
  show (look p t).result = _ ∧ (look p t).tree = _ ↔ _
  unfold look
  split
  next h => simp [h]
  next h =>
    rw [Except.ok.injEq, eq_comm (a := t.locate p), eq_comm (a := t)]
    constructor
    · rintro ⟨hp, ht⟩
      exact ⟨ht, hp, h⟩
    · rintro ⟨ht, hp, -⟩
      exact ⟨hp, ht⟩

/-- The path is accepted exactly if it leads to a directory. -/
theorem yields_checkDirectory_iff {text : String} {p : Path} :
    (checkDirectory text).Yields t p t' ↔
      t' = t ∧ p = Path.ofText text ∧ ∃ loc, t.locate p = .directory loc := by
  unfold checkDirectory
  rw [yields_bind_iff]
  constructor
  · rintro ⟨place, u, hlook, hp⟩
    obtain ⟨rfl, hplace, -⟩ := yields_look_iff.mp hlook
    cases place with
    | directory loc =>
      obtain ⟨rfl, rfl⟩ := yields_pure_iff.mp hp
      exact ⟨rfl, rfl, loc, hplace.symm⟩
    | _ => exact absurd hp not_yields_fail
  · rintro ⟨rfl, rfl, loc, hloc⟩
    refine ⟨.directory loc, t', yields_look_iff.mpr ⟨rfl, hloc.symm, ?_⟩,
      yields_pure_iff.mpr ⟨rfl, rfl⟩⟩
    rw [hloc]
    simp

/-- A document is read if all lines are accepted and all bytes are text. -/
theorem yields_readDocument_iff {p : Path} {content : Text.Decoded} {d : α} :
    (readDocument p content).Yields t d t' ↔
      t' = t ∧ content.isWhole = true ∧
        Document.addLines (Document.empty : α) content.lines = .ok d := by
  unfold readDocument
  dsimp only
  split
  next error he =>
    -- the lines are rejected
    rw [yields_note_bind_iff]
    constructor
    · intro h
      exact absurd h not_yields_fail
    · rintro ⟨-, -, hread⟩
      rw [Reading.ofLines_eq_iff.mpr hread] at he
      simp at he
  next he =>
    have hread : Document.addLines (Document.empty : α) content.lines =
        .ok (Reading.ofLines α content.lines).document := by
      refine Reading.isComplete_ofLines_iff.mp ?_
      rw [Reading.isComplete, he]
      rfl
    rw [hread, Except.ok.injEq]
    split
    next hwhole =>
      rw [yields_note_bind_iff]
      constructor
      · intro h
        obtain ⟨rfl, rfl⟩ := yields_pure_iff.mp h
        exact ⟨rfl, hwhole, rfl⟩
      · rintro ⟨rfl, -, rfl⟩
        exact yields_pure_iff.mpr ⟨rfl, rfl⟩
    next hwhole =>
      -- the lines are fine, but the bytes behind them are no text
      constructor
      · intro h
        exact absurd h not_yields_fail
      · rintro ⟨-, h, -⟩
        exact absurd h hwhole

/-- A document is found where the path leads to a file that can be read. -/
theorem yields_source_some_iff {p : Path} {d : α} :
    (source α p).Yields t (some d) t' ↔
      t' = t ∧ ∃ l content, t.locate p = .file l content ∧ Document.ofBytes? content = some d := by
  unfold source
  rw [yields_bind_iff]
  constructor
  · rintro ⟨place, u, hlook, h⟩
    obtain ⟨rfl, rfl, -⟩ := yields_look_iff.mp hlook
    split at h
    next l content hplace =>
      obtain ⟨d', hread, hd⟩ := yields_map_iff.mp h
      obtain ⟨rfl, hok⟩ := yields_readDocument_iff.mp hread
      rw [Option.some.injEq] at hd
      subst hd
      exact ⟨rfl, l, content, hplace, Document.ofBytes?_eq_some_iff.mpr hok⟩
    next => exact absurd h not_yields_fail
    all_goals
      rw [yields_note_bind_iff] at h
      simp [yields_pure_iff] at h
  · rintro ⟨rfl, l, content, hplace, hd⟩
    have hlook : (look p).Yields t' (.file l content) t' :=
      yields_look_iff.mpr ⟨rfl, hplace.symm, by simp [hplace]⟩
    refine ⟨_, t', hlook, yields_map_iff.mpr ⟨d, ?_, rfl⟩⟩
    exact yields_readDocument_iff.mpr ⟨rfl, Document.ofBytes?_eq_some_iff.mp hd⟩

/-- No document is found where nothing is, or where the path leads nowhere for another reason than a
name that is too long. -/
theorem yields_source_none_iff {p : Path} :
    (source α p).Yields t none t' ↔
      t' = t ∧ ((∃ l, t.locate p = .vacant l) ∨
        ∃ obstacle, t.locate p = .nowhere obstacle ∧ obstacle ≠ .nameTooLong) := by
  unfold source
  rw [yields_bind_iff]
  constructor
  · rintro ⟨place, u, hlook, h⟩
    obtain ⟨rfl, rfl, hlong⟩ := yields_look_iff.mp hlook
    split at h
    next =>
      obtain ⟨d', -, hd⟩ := yields_map_iff.mp h
      simp at hd
    next => exact absurd h not_yields_fail
    next l hplace =>
      rw [yields_note_bind_iff, yields_pure_iff] at h
      exact ⟨h.2, Or.inl ⟨l, hplace⟩⟩
    next obstacle hplace =>
      rw [yields_note_bind_iff, yields_pure_iff] at h
      rw [hplace] at hlong
      exact ⟨h.2, Or.inr ⟨obstacle, hplace, fun he => hlong (he ▸ rfl)⟩⟩
  · rintro ⟨rfl, ⟨l, hplace⟩ | ⟨obstacle, hplace, hne⟩⟩
    · refine ⟨_, t', yields_look_iff.mpr ⟨rfl, hplace.symm, by simp [hplace]⟩, ?_⟩
      exact yields_note_bind_iff.mpr (yields_pure_iff.mpr ⟨rfl, rfl⟩)
    · refine ⟨_, t', yields_look_iff.mpr ⟨rfl, hplace.symm, by simpa [hplace] using hne⟩, ?_⟩
      exact yields_note_bind_iff.mpr (yields_pure_iff.mpr ⟨rfl, rfl⟩)

/-! ## Writing -/

/-- A file is written where there is none yet or where one is replaced. -/
theorem yields_writeFile_iff {p : Path} {content : ByteArray} :
    (writeFile p content).Yields t () t' ↔
      ∃ l, (t.locate p = .vacant l ∨ ∃ old, t.locate p = .file l old) ∧
        t' = t.insert l (.file content) := by
  unfold Yields
  show (writeFile p content t).result = _ ∧ (writeFile p content t).tree = _ ↔ _
  unfold writeFile Tree.write?
  cases h : t.locate p with
  | file l old =>
    constructor
    · rintro ⟨-, rfl⟩
      exact ⟨l, Or.inr ⟨old, rfl⟩, rfl⟩
    · rintro ⟨l', hl | ⟨old', hl⟩, rfl⟩
      · simp at hl
      · rw [Place.file.injEq] at hl
        rw [hl.1]
        exact ⟨rfl, rfl⟩
  | vacant l =>
    constructor
    · rintro ⟨-, rfl⟩
      exact ⟨l, Or.inl rfl, rfl⟩
    · rintro ⟨l', hl | ⟨old', hl⟩, rfl⟩
      · rw [Place.vacant.injEq] at hl
        rw [hl]
        exact ⟨rfl, rfl⟩
      · simp at hl
  | directory l => simp
  | nowhere obstacle => cases obstacle <;> simp

/-- A document is stored by its bytes, and nothing else in the tree changes. -/
theorem yields_store_iff {p : Path} {d : α} :
    (store p d).Yields t () t' ↔
      ∃ l, (t.locate p = .vacant l ∨ ∃ old, t.locate p = .file l old) ∧
        t' = t.insert l (.file (Document.bytes d)) := by
  have hcomplete : (Document.write d).isComplete = true := rfl
  rw [store, storeWritten, yields_unit_bind_iff, ← yields_writeFile_iff, if_pos hcomplete]
  constructor
  · rintro ⟨u, hwrite, hnote⟩
    exact yields_note_iff.mp hnote ▸ hwrite
  · intro hwrite
    exact ⟨t', hwrite, yields_note_iff.mpr rfl⟩

/-! ## Paths of documents -/

/-- The path leads to the directory, and none of the files of these kinds in it is a link or a
directory itself. -/
structure HoldsFiles (t : Tree) (directory : Path) (loc : Location) (kinds : List DocumentKind) :
    Prop where
  directory : t.locate directory = .directory loc
  entries : ∀ kind ∈ kinds, t.TakesFile (loc ++ [kind.fileName])

/-- The names of the files are names in a directory. -/
theorem isName_fileName (kind : DocumentKind) :
    Path.isName kind.fileName = true ∧ kind.fileName ≠ ".." ∧
      kind.fileName.utf8ByteSize ≤ maxNameBytes := by
  cases kind <;> decide

/-- The document is where the directory is, under the name of its file. -/
theorem HoldsFiles.locate {directory : Path} {loc : Location} {kinds : List DocumentKind}
    (h : HoldsFiles t directory loc kinds) {kind : DocumentKind} (hk : kind ∈ kinds)
    (hp : Tree.Place.location? (t.locate (documentPath directory kind)) ≠ none) :
    t.locate (documentPath directory kind) =
      (t.content? (loc ++ [kind.fileName])).elim (.vacant (loc ++ [kind.fileName]))
        (.file (loc ++ [kind.fileName])) := by
  obtain ⟨hname, hup, hshort⟩ := isName_fileName kind
  exact Tree.locate_child h.directory hname hup hshort (h.entries kind hk) hp

theorem HoldsFiles.location_eq {directory : Path} {loc : Location} {kinds : List DocumentKind}
    (h : HoldsFiles t directory loc kinds) {kind : DocumentKind} (hk : kind ∈ kinds) {l : Location}
    (hl : Tree.Place.location? (t.locate (documentPath directory kind)) = some l) :
    l = loc ++ [kind.fileName] := by
  rw [h.locate hk (by simp [hl])] at hl
  cases hc : t.content? (loc ++ [kind.fileName]) with
  | none =>
    rw [hc] at hl
    exact (Option.some.inj hl).symm
  | some c =>
    rw [hc] at hl
    exact (Option.some.inj hl).symm

/-- A file that is written leaves the directory and the other files as they were. -/
theorem HoldsFiles.insert {directory : Path} {loc : Location} {kinds : List DocumentKind}
    (h : HoldsFiles t directory loc kinds) {kind : DocumentKind}
    (hk : kind ∈ kinds) (c : ByteArray) :
    HoldsFiles (t.insert (loc ++ [kind.fileName]) (.file c)) directory loc kinds where
  directory := by
    have hafter := Tree.locate_insert (h.entries kind hk) c directory
    rw [h.directory] at hafter
    exact hafter
  entries k hk' := (h.entries k hk').insert _ c

/-- Files of different kinds are at different locations. -/
theorem append_fileName_inj {loc : Location} {kind kind' : DocumentKind} :
    loc ++ [kind.fileName] = loc ++ [kind'.fileName] ↔ kind = kind' := by
  rw [List.append_cancel_left_eq, List.singleton_inj]
  cases kind <;> cases kind' <;> simp [DocumentKind.fileName]

/-! ## Changing a document -/

/-- The change makes `d` of the document in the directory, or of an empty one if there is none, and
storing it leaves the tree `t'`. -/
def Stores (directory : Path) (change : α → α) (t : Tree) (d : α) (t' : Tree) : Prop :=
  ∃ found, (source α (documentPath directory (Document.kind α))).Yields t found t ∧
    d = change (found.getD Document.empty) ∧
    (store (documentPath directory (Document.kind α)) d).Yields t () t'

/-- A document is updated when what is found is changed and stored. -/
theorem yields_updateDocument_iff {directory : Path} {event : Option Event} {change : α → α} :
    (updateDocument directory event change).Yields t () t' ↔
      ∃ d, Stores directory change t d t' := by
  unfold updateDocument
  dsimp only
  rw [yields_bind_iff]
  constructor
  · rintro ⟨found, u, hsource, h⟩
    obtain ⟨u', hu', hstore⟩ := yields_unit_bind_iff.mp h
    rw [yields_option_note_iff.mp hu'] at hstore
    have hu : u = t := by
      cases found with
      | none => exact (yields_source_none_iff.mp hsource).1
      | some d => exact (yields_source_some_iff.mp hsource).1
    rw [hu] at hsource hstore
    exact ⟨_, found, hsource, rfl, hstore⟩
  · rintro ⟨d, found, hsource, rfl, hstore⟩
    exact ⟨found, t, hsource, yields_unit_bind_iff.mpr ⟨t, yields_option_note_iff.mpr rfl, hstore⟩⟩

/-- The document at a path that is to be changed, and where it is. -/
def StartsFrom (t : Tree) (p : Path) (l : Location) (old : α) : Prop :=
  (t.locate p = .vacant l ∧ old = Document.empty) ∨
    ∃ content, t.locate p = .file l content ∧ Document.ofBytes? content = some old

/-- The document that is stored comes from the one at its location, or from an empty one. -/
theorem stores_iff {directory : Path} {change : α → α} {d : α} :
    Stores directory change t d t' ↔
      ∃ l old, StartsFrom t (documentPath directory (Document.kind α)) l old ∧ d = change old ∧
        t' = t.insert l (.file (Document.bytes d)) := by
  unfold Stores
  constructor
  · rintro ⟨found, hsource, hd, hstore⟩
    obtain ⟨l, hl, ht'⟩ := yields_store_iff.mp hstore
    cases found with
    | none =>
      refine ⟨l, Document.empty, Or.inl ⟨?_, rfl⟩, hd, ht'⟩
      obtain ⟨-, ⟨l', hv⟩ | ⟨obstacle, hn, -⟩⟩ := yields_source_none_iff.mp hsource
      · rcases hl with hl | ⟨old, hl⟩
        · exact hl
        · simp [hv] at hl
      · simp [hn] at hl
    | some old =>
      obtain ⟨-, l', content, hfile, hold⟩ := yields_source_some_iff.mp hsource
      rw [hfile] at hl
      simp only [reduceCtorEq, Place.file.injEq, false_or] at hl
      obtain ⟨-, rfl, -⟩ := hl
      exact ⟨l', old, Or.inr ⟨content, hfile, hold⟩, hd, ht'⟩
  · rintro ⟨l, old, ⟨hv, rfl⟩ | ⟨content, hfile, hold⟩, hd, ht'⟩
    · exact ⟨none, yields_source_none_iff.mpr ⟨rfl, Or.inl ⟨l, hv⟩⟩, hd,
        yields_store_iff.mpr ⟨l, Or.inl hv, ht'⟩⟩
    · exact ⟨some old, yields_source_some_iff.mpr ⟨rfl, l, content, hfile, hold⟩, hd,
        yields_store_iff.mpr ⟨l, Or.inr ⟨content, hfile⟩, ht'⟩⟩

theorem StartsFrom.takesFile {p : Path} {l : Location} {old : α} (h : StartsFrom t p l old) :
    t.TakesFile l := by
  have hfits := t.locate_fits p
  rcases h with ⟨hv, -⟩ | ⟨content, hfile, -⟩
  · exact hfits.takesFile (Or.inr hv)
  · exact hfits.takesFile (Or.inl ⟨content, hfile⟩)

theorem StartsFrom.location? {p : Path} {l : Location} {old : α} (h : StartsFrom t p l old) :
    Tree.Place.location? (t.locate p) = some l := by
  rcases h with ⟨hv, -⟩ | ⟨content, hfile, -⟩
  · rw [hv]
    rfl
  · rw [hfile]
    rfl

/-- The document to change was in a file, or there was no file. -/
theorem StartsFrom.exists_content {p : Path} {l : Location} {old : α} (h : StartsFrom t p l old) :
    ∃ content, Document.ofContent? content = some old := by
  rcases h with ⟨-, rfl⟩ | ⟨content, -, hcontent⟩
  · exact ⟨none, rfl⟩
  · exact ⟨some content, hcontent⟩

theorem StartsFrom.eq_of_locate {p : Path} {l l' : Location} {old d : α}
    (h : StartsFrom t p l old) {content : ByteArray} (hl : t.locate p = .file l' content)
    (hd : Document.ofBytes? content = some d) : old = d := by
  rcases h with ⟨hvacant, -⟩ | ⟨content', hfile, hold⟩
  · simp [hl] at hvacant
  · rw [hl, Place.file.injEq] at hfile
    exact Option.some.inj (hold.symm.trans (hfile.2 ▸ hd))

/-- A file that is put where a path leads is found there. -/
theorem StartsFrom.locate_insert {p : Path} {l : Location} {old : α} (h : StartsFrom t p l old)
    (content : ByteArray) : (t.insert l (.file content)).locate p = .file l content := by
  rw [(Tree.locate_insert h.takesFile content p).eq_afterWrite h.location?]
  rcases h with ⟨hv, -⟩ | ⟨old', hfile, -⟩
  · rw [hv]
    exact if_pos rfl
  · rw [hfile]
    exact if_pos rfl

/-! ## Finding a stored document again -/

/-- Sourcing the document in the directory gives `d`. -/
def Finds (t : Tree) (directory : Path) (d : α) : Prop :=
  ((source α (documentPath directory (Document.kind α))).run t).result = .ok (some d)

theorem finds_iff {directory : Path} {d : α} :
    Finds t directory d ↔
      ∃ l content, t.locate (documentPath directory (Document.kind α)) = .file l content ∧
        Document.ofBytes? content = some d := by
  have hyields : Finds t directory d ↔
      ∃ u, (source α (documentPath directory (Document.kind α))).Yields t (some d) u := by
    constructor
    · intro h
      exact ⟨_, h, rfl⟩
    · rintro ⟨u, h, -⟩
      exact h
  rw [hyields]
  constructor
  · rintro ⟨u, h⟩
    exact (yields_source_some_iff.mp h).2
  · intro h
    exact ⟨t, yields_source_some_iff.mpr ⟨rfl, h⟩⟩

/-- **A document is found where it was stored if it is read back from its lines.** -/
theorem finds_iff_of_locate {directory : Path} {d d' : α} {l : Location}
    (h : t.locate (documentPath directory (Document.kind α)) = .file l (Document.bytes d)) :
    Finds t directory d' ↔
      Document.addLines Document.empty (Document.linesInFile d) = .ok d' := by
  rw [finds_iff, h, ← Document.ofBytes?_bytes]
  constructor
  · rintro ⟨l', content, hfile, hd⟩
    rw [Place.file.injEq] at hfile
    rwa [hfile.2]
  · intro hd
    exact ⟨l, Document.bytes d, rfl, hd⟩

end Job

end UpsSetup
