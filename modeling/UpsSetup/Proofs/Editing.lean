import UpsSetup.Proofs.Runs

/-!
# Files that are edited

A run that changes files is a list of edits, each of the content of one file
(`Request.yields_apply_iff_editAll`). In a directory whose files are no links, an edit of one file
leaves the others alone. So two lists of edits that make the same of each file are equally good, in
whatever order they edit the files (`HoldsFiles.editAll_congr`), and a file is left the same by the
edits of this file alone (`HoldsFiles.editAll_filter`). -/

namespace UpsSetup

/-- What is made of the content of a file, which may be missing before. A content that is rejected
is not edited. -/
abbrev Edit := Option ByteArray → Option ByteArray

/-! ## The edits of one file -/

namespace Edit

/-- What a list of edits makes of the content of the file of one kind: only those of this file
count. -/
def onFile (kind : DocumentKind) (edits : List (DocumentKind × Edit)) (content : Option ByteArray) :
    Option (Option ByteArray) :=
  (edits.filter (·.1 = kind)).foldlM (fun content e => (e.2 content).map some) content

theorem onFile_cons_self (kind : DocumentKind) (e : Edit) (edits : List (DocumentKind × Edit))
    (content : Option ByteArray) :
    onFile kind ((kind, e) :: edits) content =
      (e content).bind fun c => onFile kind edits (some c) := by
  unfold onFile
  rw [List.filter_cons_of_pos (by simp), List.foldlM_cons]
  exact Option.bind_map

/-- An edit of another file is passed over. -/
theorem onFile_cons_of_ne {kind kind' : DocumentKind} (h : kind' ≠ kind) (e : Edit)
    (edits : List (DocumentKind × Edit)) (content : Option ByteArray) :
    onFile kind ((kind', e) :: edits) content = onFile kind edits content := by
  unfold onFile
  rw [List.filter_cons_of_neg (by simpa using h)]

/-- Edits of one file can be made in two parts. -/
theorem onFile_append (kind : DocumentKind) (edits edits' : List (DocumentKind × Edit))
    (content : Option ByteArray) :
    onFile kind (edits ++ edits') content =
      (onFile kind edits content).bind (onFile kind edits') := by
  unfold onFile
  rw [List.filter_append]
  exact List.foldlM_append

/-- Only the edits of the file itself count. -/
theorem onFile_congr {kind : DocumentKind} {edits edits' : List (DocumentKind × Edit)}
    (h : edits.filter (·.1 = kind) = edits'.filter (·.1 = kind)) (content : Option ByteArray) :
    onFile kind edits content = onFile kind edits' content := by
  unfold onFile
  rw [h]

end Edit

namespace Document

variable {α : Type} [Document α]

/-- Changes the document in a file. -/
def edit (change : α → α) : Edit :=
  fun content => (ofContent? content).map fun d => bytes (change d)

/-- The edit that changes the document in its file, if there is need to. -/
def editIf (needed : Bool) (change : α → α) : List (DocumentKind × Edit) :=
  if needed then [(kind α, edit change)] else []

theorem mem_editIf {needed : Bool} {change : α → α} {e : DocumentKind × Edit} :
    e ∈ editIf needed change ↔ needed = true ∧ e = (kind α, edit change) := by
  cases needed with
  | false => simp [editIf]
  | true => simp [editIf]

theorem editIf_congr {needed : Bool} {change change' : α → α}
    (h : needed = true → change = change') : editIf needed change = editIf needed change' := by
  cases needed with
  | false => rfl
  | true => rw [h rfl]

@[simp] theorem filter_editIf (needed : Bool) (change : α → α) (k : DocumentKind) :
    (editIf needed change).filter (·.1 = k) = if kind α = k then editIf needed change else [] := by
  cases needed with
  | false => simp [editIf]
  | true => by_cases h : kind α = k <;> simp [editIf, h]

theorem onFile_editIf (needed : Bool) (change : α → α) (k : DocumentKind)
    (content : Option ByteArray) :
    Edit.onFile k (editIf needed change) content =
      if needed = true ∧ kind α = k then (edit change content).map some else some content := by
  unfold editIf
  cases needed with
  | false => rfl
  | true =>
    rw [if_pos rfl]
    by_cases h : kind α = k
    · subst h
      rw [Edit.onFile_cons_self, if_pos ⟨rfl, rfl⟩, Option.map_eq_bind]
      rfl
    · rw [Edit.onFile_cons_of_ne h, if_neg fun hk => h hk.2]
      rfl

/-- Two changes are as good as one if the document is read back in between. -/
theorem edit_edit {first second both : α → α} {content : Option ByteArray} {d again : α}
    (hd : ofContent? content = some d)
    (hagain : addLines empty (linesInFile (first d)) = .ok again)
    (hboth : render (second again) = render (both d)) :
    (edit first content).bind (fun c => edit second (some c)) = edit both content := by
  have hread : ofContent? (some (bytes (first d))) = some again := ofBytes?_bytes.mpr hagain
  have hbytes : bytes (second again) = bytes (both d) := by
    unfold bytes write
    rw [hboth]
  unfold edit
  rw [hd, Option.map_some, Option.bind_some, hread, Option.map_some, Option.map_some, hbytes]

/-- What is put into a file in two steps is put into it in one, if the file is read back in
between. -/
theorem onFile_editIf_append {ι : Type} (change : List ι → α → α) (first second : List ι)
    {content : Option ByteArray} (hagain : ∀ d, ofContent? content = some d → ∃ again,
      addLines empty (linesInFile (change first d)) = .ok again ∧
        render (change second again) = render (change (first ++ second) d)) (k : DocumentKind) :
    Edit.onFile k (editIf (!(first ++ second).isEmpty) (change (first ++ second))) content =
      Edit.onFile k (editIf (!first.isEmpty) (change first) ++
        editIf (!second.isEmpty) (change second)) content := by
  -- nothing to add means no edit at all, not even reading the file
  by_cases hfirst : first = []
  · rw [hfirst]
    rfl
  by_cases hsecond : second = []
  · rw [hsecond, List.append_nil, Edit.onFile_append]
    exact (Option.bind_fun_some _).symm
  have hneeded : ∀ {l : List ι}, l ≠ [] → (!l.isEmpty) = true := by
    intro l hl
    simpa using hl
  rw [Edit.onFile_append, onFile_editIf, onFile_editIf]
  by_cases hk : kind α = k
  · have hstep : Edit.onFile k (editIf (!second.isEmpty) (change second)) =
        fun c => (edit (change second) c).map some := by
      funext c
      rw [onFile_editIf, if_pos ⟨hneeded hsecond, hk⟩]
    rw [if_pos ⟨hneeded (by simp [hfirst]), hk⟩, if_pos ⟨hneeded hfirst, hk⟩, hstep]
    cases hd : (ofContent? content : Option α) with
    | none =>
      unfold edit
      rw [hd]
      rfl
    | some d =>
      obtain ⟨again, hlines, hrender⟩ := hagain d hd
      rw [← edit_edit hd hlines hrender, Option.map_bind, Option.bind_map]
      rfl
  · rw [if_neg fun h => hk h.2, if_neg fun h => hk h.2, Option.bind_some, onFile_editIf,
      if_neg fun h => hk h.2]

end Document

/-! ## The edits of a tree -/

namespace Tree

/-- Edits the file at a path. -/
def edit? (t : Tree) (p : Path) (e : Edit) : Option Tree :=
  match t.locate p with
  | .file l content => (e (some content)).map fun c => t.insert l (.file c)
  | .vacant l => (e none).map fun c => t.insert l (.file c)
  | .directory _ | .nowhere _ => none

/-- Edits files of a directory, one after the other. -/
def editAll (directory : Path) (edits : List (DocumentKind × Edit)) (t : Tree) : Option Tree :=
  edits.foldlM (fun t e => t.edit? (Job.documentPath directory e.1) e.2) t

/-- Edits of a tree can be made in two parts. -/
theorem editAll_append (directory : Path) (edits edits' : List (DocumentKind × Edit)) (t : Tree) :
    t.editAll directory (edits ++ edits') =
      (t.editAll directory edits).bind (editAll directory edits') :=
  List.foldlM_append

theorem editAll_cons (directory : Path) (e : DocumentKind × Edit)
    (edits : List (DocumentKind × Edit)) (t : Tree) :
    t.editAll directory (e :: edits) =
      (t.edit? (Job.documentPath directory e.1) e.2).bind (editAll directory edits) := rfl

end Tree

namespace Job

variable {t t' : Tree} {directory : Path} {loc : Location} {kinds : List DocumentKind}
  {edits edits' : List (DocumentKind × Edit)}

/-- Storing a changed document is one edit of its file. -/
theorem exists_stores_iff {α : Type} [Document α] {change : α → α} :
    (∃ d, Stores directory change t d t') ↔
      t.edit? (documentPath directory (Document.kind α)) (Document.edit change) = some t' := by
  simp only [stores_iff]
  unfold Tree.edit? Document.edit
  constructor
  · rintro ⟨d, l, old, ⟨hv, rfl⟩ | ⟨content, hf, hold⟩, rfl, rfl⟩
    · rw [hv]
      rfl
    · rw [hf]
      show ((Document.ofBytes? content).map _).map _ = _
      rw [hold]
      rfl
  · intro h
    cases hp : t.locate (documentPath directory (Document.kind α)) with
    | file l content =>
      rw [hp] at h
      obtain ⟨c, hc, rfl⟩ := Option.map_eq_some_iff.mp h
      obtain ⟨old, hold, rfl⟩ := Option.map_eq_some_iff.mp hc
      exact ⟨_, l, old, Or.inr ⟨content, hp, hold⟩, rfl, rfl⟩
    | vacant l =>
      rw [hp] at h
      obtain ⟨c, hc, rfl⟩ := Option.map_eq_some_iff.mp h
      obtain ⟨old, hold, rfl⟩ := Option.map_eq_some_iff.mp hc
      exact ⟨_, l, old, Or.inl ⟨hp, (Option.some.inj hold).symm⟩, rfl, rfl⟩
    | directory l =>
      rw [hp] at h
      simp at h
    | nowhere obstacle =>
      rw [hp] at h
      simp at h

theorem storesIf_iff {α : Type} [Document α] {needed : Bool} {change : α → α} :
    StoresIf needed directory change t t' ↔
      t.editAll directory (Document.editIf needed change) = some t' := by
  unfold StoresIf
  rw [exists_stores_iff, Document.editIf]
  cases needed with
  | false => simp [Tree.editAll, eq_comm]
  | true => simp [Tree.editAll]

/-- The file of a kind can be reached. -/
def Reaches (t : Tree) (directory : Path) (kind : DocumentKind) : Prop :=
  Tree.Place.location? (t.locate (documentPath directory kind)) ≠ none

namespace HoldsFiles

/-- An edit succeeds if its file can be reached and has what the edit takes, and it changes this file
only. -/
theorem edit?_eq_some_iff (h : HoldsFiles t directory loc kinds) {kind : DocumentKind}
    (hk : kind ∈ kinds) {e : Edit} :
    t.edit? (documentPath directory kind) e = some t' ↔
      Reaches t directory kind ∧ ∃ c, e (t.content? (loc ++ [kind.fileName])) = some c ∧
        t' = t.insert (loc ++ [kind.fileName]) (.file c) := by
  by_cases hp : Reaches t directory kind
  · rw [and_iff_right hp, Tree.edit?, h.locate hk hp]
    cases t.content? (loc ++ [kind.fileName]) <;>
      simp only [Option.elim_none, Option.elim_some, Option.map_eq_some_iff, eq_comm (a := t')]
  · have hnone : t.edit? (documentPath directory kind) e = none := by
      unfold Reaches at hp
      unfold Tree.edit?
      cases hplace : t.locate (documentPath directory kind) with
      | nowhere obstacle => rfl
      | _ => simp [hplace, Tree.Place.location?] at hp
    rw [hnone]
    simp [hp]

end HoldsFiles

/-- What is left by edits of files that are no links. -/
structure Edited (directory : Path) (loc : Location) (kinds : List DocumentKind)
    (edits : List (DocumentKind × Edit)) (t t' : Tree) : Prop where
  holds : HoldsFiles t' directory loc kinds
  location? : ∀ p, Tree.Place.location? (t'.locate p) = Tree.Place.location? (t.locate p)
  reaches : ∀ e ∈ edits, Reaches t directory e.1
  content? : ∀ kind : DocumentKind, Edit.onFile kind edits (t.content? (loc ++ [kind.fileName])) =
    some (t'.content? (loc ++ [kind.fileName]))

/-- A file of which two lists of edits make the same is left the same by both. -/
theorem Edited.get?_eq {u : Tree} (h : Edited directory loc kinds edits t t')
    (h' : Edited directory loc kinds edits' t u) {kind : DocumentKind} (hk : kind ∈ kinds)
    (hsame : Edit.onFile kind edits' (t.content? (loc ++ [kind.fileName])) =
      Edit.onFile kind edits (t.content? (loc ++ [kind.fileName]))) :
    u.get? (loc ++ [kind.fileName]) = t'.get? (loc ++ [kind.fileName]) := by
  rw [h'.content? kind, h.content? kind] at hsame
  rw [(h'.holds.entries kind hk).get?_eq, (h.holds.entries kind hk).get?_eq,
    Option.some.inj hsame]

namespace HoldsFiles

/-- **Edits make of each file what those of its own kind do.** -/
theorem edited_of_editAll (h : HoldsFiles t directory loc kinds) (hk : ∀ e ∈ edits, e.1 ∈ kinds)
    (hedit : t.editAll directory edits = some t') : Edited directory loc kinds edits t t' := by
  induction edits generalizing t with
  | nil =>
    obtain rfl := Option.some.inj hedit
    exact ⟨h, fun _ => rfl, fun e he => absurd he List.not_mem_nil, fun _ => rfl⟩
  | cons e edits ih =>
    obtain ⟨kind, e⟩ := e
    have hkind : kind ∈ kinds := hk (kind, e) List.mem_cons_self
    rw [Tree.editAll_cons] at hedit
    obtain ⟨u, hu, hedit⟩ := Option.bind_eq_some_iff.mp hedit
    obtain ⟨hreach, c, hc, rfl⟩ := (h.edit?_eq_some_iff (e := e) hkind).mp hu
    have hrest := ih (h.insert hkind c) (fun e' he' => hk e' (List.mem_cons_of_mem _ he')) hedit
    -- a file that is put into the tree moves no path, so later edits find their files where
    -- they were
    have hlocation : ∀ p, Tree.Place.location?
        ((t.insert (loc ++ [kind.fileName]) (.file c)).locate p) =
          Tree.Place.location? (t.locate p) :=
      fun p => (Tree.locate_insert (h.entries kind hkind) c p).location?
    refine ⟨hrest.holds, fun p => (hrest.location? p).trans (hlocation p), ?_, fun k => ?_⟩
    · intro e' he'
      rcases List.mem_cons.mp he' with rfl | he'
      · exact hreach
      · have hreach' := hrest.reaches e' he'
        rwa [Reaches, hlocation] at hreach'
    · have hcontent := hrest.content? k
      rw [Tree.content?_insert] at hcontent
      -- the edit is one of the file itself or leaves the file alone
      by_cases hkk : k = kind
      · subst hkk
        rw [if_pos rfl] at hcontent
        rw [Edit.onFile_cons_self, hc]
        exact hcontent
      · rw [if_neg fun hl => hkk (append_fileName_inj.mp hl)] at hcontent
        rw [Edit.onFile_cons_of_ne (Ne.symm hkk)]
        exact hcontent

/-- All edits can be made if each file can be reached and takes those that are its own. -/
theorem exists_editAll (h : HoldsFiles t directory loc kinds) (hk : ∀ e ∈ edits, e.1 ∈ kinds)
    (hreach : ∀ e ∈ edits, Reaches t directory e.1)
    (hcontent : ∀ kind : DocumentKind,
      Edit.onFile kind edits (t.content? (loc ++ [kind.fileName])) ≠ none) :
    ∃ t', t.editAll directory edits = some t' := by
  induction edits generalizing t with
  | nil => exact ⟨t, rfl⟩
  | cons e edits ih =>
    obtain ⟨kind, e⟩ := e
    have hkind : kind ∈ kinds := hk (kind, e) List.mem_cons_self
    -- if the edits of its file succeed together, so does the first of them
    have hself : e (t.content? (loc ++ [kind.fileName])) ≠ none := by
      intro hnone
      have hfirst := hcontent kind
      rw [Edit.onFile_cons_self, hnone] at hfirst
      exact hfirst rfl
    obtain ⟨c, hc⟩ := Option.ne_none_iff_exists'.mp hself
    have hu := (h.edit?_eq_some_iff hkind).mpr ⟨hreach (kind, e) List.mem_cons_self, c, hc, rfl⟩
    rw [Tree.editAll_cons, hu, Option.bind_some]
    refine ih (h.insert hkind c) (fun e' he' => hk e' (List.mem_cons_of_mem _ he')) ?_ fun k => ?_
    · intro e' he'
      rw [Reaches, (Tree.locate_insert (h.entries kind hkind) c _).location?]
      exact hreach e' (List.mem_cons_of_mem _ he')
    · have hk' := hcontent k
      rw [Tree.content?_insert]
      by_cases hkk : k = kind
      · subst hkk
        rw [Edit.onFile_cons_self, hc] at hk'
        rw [if_pos rfl]
        exact hk'
      · rw [Edit.onFile_cons_of_ne (Ne.symm hkk)] at hk'
        rw [if_neg fun hl => hkk (append_fileName_inj.mp hl)]
        exact hk'

/-- **Edits in another order, or in more steps, are as good if they make the same of each file.** -/
theorem editAll_congr (h : HoldsFiles t directory loc kinds) (hk : ∀ e ∈ edits, e.1 ∈ kinds)
    (hkinds : ∀ e' ∈ edits', ∃ e ∈ edits, e.1 = e'.1)
    (hsame : ∀ (kind : DocumentKind) (content : Option ByteArray),
      Edit.onFile kind edits (t.content? (loc ++ [kind.fileName])) = some content →
      Edit.onFile kind edits' (t.content? (loc ++ [kind.fileName])) = some content)
    (hedit : t.editAll directory edits = some t') :
    ∃ u, t.editAll directory edits' = some u ∧ ∀ kind ∈ kinds,
      u.get? (loc ++ [kind.fileName]) = t'.get? (loc ++ [kind.fileName]) := by
  have hedited := h.edited_of_editAll hk hedit
  have hk' : ∀ e' ∈ edits', e'.1 ∈ kinds := by
    intro e' he'
    obtain ⟨e, he, hkind⟩ := hkinds e' he'
    exact hkind ▸ hk e he
  -- the other edits can be made as well: they reach the same files and fail on none of them
  obtain ⟨u, hu⟩ := h.exists_editAll hk' (fun e' he' => by
    obtain ⟨e, he, hkind⟩ := hkinds e' he'
    exact hkind ▸ hedited.reaches e he) fun kind => by
    rw [hsame kind _ (hedited.content? kind)]
    exact Option.some_ne_none _
  refine ⟨u, hu, fun kind hkind => hedited.get?_eq (h.edited_of_editAll hk' hu) hkind ?_⟩
  rw [hsame kind _ (hedited.content? kind), hedited.content? kind]

/-- **The edits of one file alone leave it as all of them do.** -/
theorem editAll_filter (h : HoldsFiles t directory loc kinds) (hk : ∀ e ∈ edits, e.1 ∈ kinds)
    (hedit : t.editAll directory edits = some t') {kind : DocumentKind} (hkind : kind ∈ kinds) :
    ∃ u, t.editAll directory (edits.filter (·.1 = kind)) = some u ∧
      u.get? (loc ++ [kind.fileName]) = t'.get? (loc ++ [kind.fileName]) := by
  have hedited := h.edited_of_editAll hk hedit
  have hself : ∀ content, Edit.onFile kind (edits.filter (·.1 = kind)) content =
      Edit.onFile kind edits content :=
    Edit.onFile_congr (by simp only [List.filter_filter, Bool.and_self])
  have hother : ∀ {k : DocumentKind}, k ≠ kind → ∀ content,
      Edit.onFile k (edits.filter (·.1 = kind)) content = some content := by
    intro k hne content
    have hnone : (edits.filter (·.1 = kind)).filter (·.1 = k) = [] := by
      rw [List.filter_filter, List.filter_eq_nil_iff]
      intro e _ he
      simp only [Bool.and_eq_true, decide_eq_true_eq] at he
      exact hne (he.1.symm.trans he.2)
    rw [Edit.onFile, hnone]
    rfl
  have hmem : ∀ e ∈ edits.filter (·.1 = kind), e ∈ edits := fun e he => (List.mem_filter.mp he).1
  obtain ⟨u, hu⟩ := h.exists_editAll (fun e he => hk e (hmem e he))
    (fun e he => hedited.reaches e (hmem e he)) fun k => by
      by_cases hne : k = kind
      · rw [hne, hself, hedited.content? kind]
        exact Option.some_ne_none _
      · rw [hother hne]
        exact Option.some_ne_none _
  have halone := h.edited_of_editAll (fun e he => hk e (hmem e he)) hu
  exact ⟨u, hu, hedited.get?_eq halone hkind (hself _)⟩

end HoldsFiles

end Job

/-! ## The edits of a request -/

namespace Request

/-- The edits in which a request is carried out, once its records are built. -/
def edits (r : Request) (records : Records) : List (DocumentKind × Edit) :=
  Document.editIf (!records.monitors.isEmpty)
      (fun f : MonitorFile => f.setRecords records.monitors (r.keepsExisting .monitor)) ++
    Document.editIf (!records.listens.isEmpty)
      (fun f : ListenFile => f.setRecords records.listens (r.keepsExisting .listen)) ++
    Document.editIf (!r.devices.isEmpty)
      (fun f : DeviceFile => f.setDevices r.devices (r.keepsExisting .device)) ++
    match r.mode with
    | some mode => Document.editIf true (fun f : Assignments => f.setMode mode)
    | none => []

theorem storesMode_iff {r : Request} {directory : Path} {t t' : Tree} :
    r.StoresMode directory t t' ↔
      t.editAll directory (match r.mode with
        | some mode => Document.editIf true (fun f : Assignments => f.setMode mode)
        | none => []) = some t' := by
  unfold StoresMode
  cases r.mode with
  | some mode =>
    dsimp only
    rw [← Job.storesIf_iff, Job.StoresIf]
    simp
  | none => exact ⟨fun h => congrArg some h.symm, fun h => (Option.some.inj h).symm⟩

/-- **To carry a request out is to build its records and to make its edits.** -/
theorem yields_apply_iff_editAll {r : Request} {directory : Path} {t t' : Tree} :
    (r.apply directory).Yields t () t' ↔ ∃ records, r.materialize = .ok records ∧
      t.editAll directory (r.edits records) = some t' := by
  rw [yields_apply_iff]
  unfold edits
  simp only [Tree.editAll_append, Option.bind_eq_some_iff]
  constructor
  · rintro ⟨records, t₁, t₂, t₃, hrecords, h₁, h₂, h₃, h⟩
    exact ⟨records, hrecords, t₃, ⟨t₂, ⟨t₁, Job.storesIf_iff.mp h₁, Job.storesIf_iff.mp h₂⟩,
      Job.storesIf_iff.mp h₃⟩, storesMode_iff.mp h⟩
  · rintro ⟨records, hrecords, t₃, ⟨t₂, ⟨t₁, h₁, h₂⟩, h₃⟩, h⟩
    exact ⟨records, t₁, t₂, t₃, hrecords, Job.storesIf_iff.mpr h₁, Job.storesIf_iff.mpr h₂,
      Job.storesIf_iff.mpr h₃, storesMode_iff.mpr h⟩

end Request

end UpsSetup
