import Mathlib.Data.List.Nodup
import UpsSetup.Proofs.Assignments
import UpsSetup.Proofs.Changes

/-!
# Comments of a document

A document keeps every comment it reads, but each kind keeps them in another place: among the
directives, in the layout of the assignments, or with the header or entry that follows them. `kept`
lists the comments in a document. They are those of the lines that were read (`kept_of_addLines`),
and those of the lines that are written (`commentsIn_render`). In a file of devices a comment is
written in front of the header or entry it belongs to (`Sections.slots`), so none is lost as long as
no header and no entry is taken away (`DeviceFile.commentsIn_render_setDevices`). -/

namespace UpsSetup

open Text Line

/-! ## Comments among lines -/

/-- The comments among lines, trimmed. -/
def commentsIn (lines : List String) : List String := (lines.map trim).filter startsComment

@[simp] theorem commentsIn_nil : commentsIn [] = [] := rfl

theorem commentsIn_append (ls ms : List String) :
    commentsIn (ls ++ ms) = commentsIn ls ++ commentsIn ms := by
  rw [commentsIn, List.map_append, List.filter_append]
  rfl

theorem commentsIn_flatMap {α : Type} (l : List α) (f : α → List String) :
    commentsIn (l.flatMap f) = l.flatMap fun a => commentsIn (f a) := by
  rw [commentsIn, List.map_flatMap, List.filter_flatMap]
  rfl

/-- Lines that do not start as comments hold none. -/
theorem commentsIn_eq_nil {lines : List String}
    (h : ∀ line ∈ lines, startsComment (trim line) = false) : commentsIn lines = [] := by
  refine List.filter_eq_nil_iff.mpr fun text ht => ?_
  obtain ⟨line, hl, rfl⟩ := List.mem_map.mp ht
  exact Bool.eq_false_iff.mp (h line hl)

/-- Of lines that are all comments, none is lost or changed. -/
theorem commentsIn_of_isComment {lines : List String} (h : ∀ line ∈ lines, IsComment line) :
    commentsIn lines = lines := by
  have hmap : lines.map trim = lines := by
    rw [List.map_congr_left fun line hl => (h line hl).trimmed, List.map_id']
  rw [commentsIn, hmap]
  exact List.filter_eq_self.mpr fun line hl => (h line hl).sign

theorem startsComment_of_opens {line : String} (h : Opens line.toList) :
    startsComment (trim line) = false := by
  obtain ⟨c, rest, hline, -, hc⟩ := id h
  have hdrop : line.toList.dropWhile isBlank = c :: rest := by
    rw [Content.dropWhile_of_opens h, hline]
  rw [startsComment_trim hdrop]
  exact decide_eq_false hc

/-- The comment that the content of a line is. -/
def Content.comment? : Content → Option String
  | comment text => some text
  | blank | tokens _ _ => none

/-- A line is counted as a comment when it is read as one. -/
theorem commentsIn_singleton {line : String} {c : Content} (h : Content.ofLine line = .ok c) :
    commentsIn [line] = c.comment?.toList := by
  unfold Content.ofLine at h
  dsimp only at h
  split at h
  next hs =>
    cases h
    exact List.filter_cons_of_pos hs
  next hs =>
    obtain ⟨tokens, -, rfl⟩ := Result.map_eq_ok_iff.mp (Result.mapError_eq_ok_iff.mp h)
    rw [commentsIn_eq_nil (by simpa using hs)]
    cases tokens <;> rfl

/-- What holds of a document and of the comments that were read so far, if it stays true with one
more comment on both sides and with all other lines. -/
theorem Document.commentsIn_induction {α : Type} [Document α] {R : α → List String → Prop}
    (hcomment : ∀ d cs text, R d cs → R (addComment d text) (cs ++ [text]))
    (htokens : ∀ (d d' : α) cs first rest, R d cs → addTokens d first rest = .ok d' → R d' cs)
    {d d' : α} {cs lines : List String} (h0 : R d cs) (h : addLines d lines = .ok d') :
    R d' (cs ++ commentsIn lines) := by
  induction lines generalizing d cs with
  | nil =>
    cases h
    rwa [commentsIn_nil, List.append_nil]
  | cons line lines ih =>
    rw [addLines_cons] at h
    obtain ⟨d₁, hline, h⟩ := Result.bind_eq_ok_iff.mp h
    obtain ⟨c, hc, hd₁⟩ := addLine_eq_ok_iff.mp hline
    rw [← List.singleton_append, commentsIn_append, commentsIn_singleton hc, ← List.append_assoc]
    refine ih ?_ h
    cases c with
    | blank =>
      cases hd₁
      rwa [Content.comment?, Option.toList_none, List.append_nil]
    | comment text =>
      cases hd₁
      exact hcomment d cs text h0
    | tokens first rest =>
      rw [Content.comment?, Option.toList_none, List.append_nil]
      exact htokens d d₁ cs first rest h0 hd₁

/-- Lines that are written one for one, some of them comments. -/
theorem commentsIn_map {α : Type} {f : α → String} {comment? : α → Option String} {l : List α}
    (h : ∀ a ∈ l, commentsIn [f a] = (comment? a).toList) :
    commentsIn (l.map f) = l.filterMap comment? := by
  induction l with
  | nil => rfl
  | cons a l ih =>
    rw [List.map_cons, ← List.singleton_append, commentsIn_append, h a List.mem_cons_self,
      ih fun b hb => h b (List.mem_cons_of_mem _ hb), List.filterMap_cons]
    cases comment? a <;> rfl

/-! ## Files of directives -/

/-- The comment on a line that is kept as it is. -/
def Unmanaged.comment? : Unmanaged → Option String
  | comment text => some text
  | directive _ _ => none

namespace DirectiveFile

variable {ρ : Type} [Managed ρ] {f : DirectiveFile ρ} {lines : List String}

/-- The comments in the file. -/
def kept (f : DirectiveFile ρ) : List String := f.unmanaged.filterMap Unmanaged.comment?

theorem kept_of_addLines (h : Document.addLines Document.empty lines = .ok f) :
    f.kept = commentsIn lines := by
  have h0 : (Document.empty : DirectiveFile ρ).kept = [] := rfl
  refine Document.commentsIn_induction (R := fun f cs => f.kept = cs) ?_ ?_ h0 h
  · rintro f cs text rfl
    exact List.filterMap_append
  · rintro f f' cs first rest rfl hf
    rcases addTokens_eq_ok hf with ⟨-, r, -, rfl⟩ | ⟨-, rfl⟩
    · rfl
    · exact List.filterMap_append.trans (List.append_nil _)

theorem commentsIn_render (hf : f.WellFormed) : commentsIn (Document.render f) = f.kept := by
  have hencode : ∀ first rest, startsComment (trim (encode (first :: rest))) = false :=
    fun first rest => startsComment_of_opens (opens_encode first rest)
  have hrecords : commentsIn (f.records.map recordLine) = [] := by
    refine commentsIn_eq_nil fun line hl => ?_
    obtain ⟨r, -, rfl⟩ := List.mem_map.mp hl
    exact hencode _ _
  have hunmanaged : commentsIn (f.unmanaged.map Unmanaged.render) = f.kept := by
    refine commentsIn_map fun u hu => ?_
    cases u with
    | comment text =>
      exact commentsIn_of_isComment (List.forall_mem_singleton.mpr (hf.comments text hu))
    | directive first rest =>
      exact commentsIn_eq_nil (List.forall_mem_singleton.mpr (hencode first rest))
  show commentsIn (f.unmanaged.map Unmanaged.render ++ f.records.map recordLine) = _
  rw [commentsIn_append, hunmanaged, hrecords, List.append_nil]

/-- Records that are put into a file leave its comments as they are. -/
theorem commentsIn_render_setRecords (h : Reading.ofLines (DirectiveFile ρ) lines = ⟨f, none⟩)
    (new : List ρ) (keepsExisting : Bool) :
    commentsIn (Document.render (f.setRecords new keepsExisting)) = commentsIn lines := by
  have hread := Reading.ofLines_eq_iff.mp h
  rw [commentsIn_render (setRecords_wellFormed (wellFormed_of_addLines hread) new keepsExisting)]
  show f.kept = commentsIn lines
  exact kept_of_addLines hread

end DirectiveFile

/-! ## Files of assignments -/

/-- The comment on a line. -/
def AssignmentLine.comment? : AssignmentLine → Option String
  | comment text => some text
  | key _ => none

namespace Assignments

variable {f : Assignments} {lines : List String}

/-- The comments in the file. -/
def kept (f : Assignments) : List String := f.layout.filterMap AssignmentLine.comment?

theorem kept_of_addLines (h : Document.addLines Document.empty lines = .ok f) :
    f.kept = commentsIn lines := by
  have h0 : (Document.empty : Assignments).kept = [] := rfl
  refine Document.commentsIn_induction (R := fun f cs => f.kept = cs) ?_ ?_ h0 h
  · rintro f cs text rfl
    exact List.filterMap_append
  · rintro f f' cs first rest rfl hf
    change addTokens f first rest = .ok f' at hf
    unfold addTokens at hf
    split at hf
    next =>
      cases hf
      exact List.filterMap_append.trans (List.append_nil _)
    next => simp at hf

/-- All comments are written, and at their places. -/
theorem filterMap_comment?_placed (values : OrderedMap String String) (earlier : List String)
    (layout : List AssignmentLine) :
    (placed values earlier layout).filterMap AssignmentLine.comment? =
      layout.filterMap AssignmentLine.comment? := by
  fun_induction placed values earlier layout with
  | case1 => rfl
  | case2 earlier text rest ih => exact congrArg (text :: ·) ih
  | case3 earlier k rest hk ih => exact ih
  | case4 earlier k rest hk ih => exact ih

/-- Whatever happens to the values, the comments are written in the order of the layout. -/
theorem filterMap_comment?_written (f : Assignments) :
    f.written.filterMap AssignmentLine.comment? = f.kept := by
  have hunplaced : (f.unplaced.map fun p => AssignmentLine.key p.1).filterMap
      AssignmentLine.comment? = [] := by
    rw [List.filterMap_map]
    exact List.filterMap_eq_nil_iff.mpr fun _ _ => rfl
  rw [written, List.filterMap_append, filterMap_comment?_placed, hunplaced, List.append_nil]
  rfl

/-- A line of a key looks like a comment only if the key does. -/
theorem startsComment_assign {k : String} (hk : startsComment (trim k) = false) (v : String) :
    startsComment (trim (assign k v)) = false := by
  have hline : (assign k v).toList.dropWhile isBlank =
      if (k.toList.dropWhile isBlank).isEmpty then '=' :: (quote v).toList
      else k.toList.dropWhile isBlank ++ '=' :: (quote v).toList := by
    rw [toList_assign, List.dropWhile_append, List.dropWhile_cons_of_neg (by decide)]
  cases hd : k.toList.dropWhile isBlank with
  | nil =>
    rw [hd, List.isEmpty_nil, if_pos rfl] at hline
    rw [startsComment_trim hline]
    decide
  | cons c rest =>
    rw [hd, List.isEmpty_cons, if_neg Bool.false_ne_true, List.cons_append] at hline
    rw [startsComment_trim hline, ← startsComment_trim hd]
    exact hk

/-- A key that gets a value leaves the comments as they are, if no key looks like one. -/
theorem commentsIn_render_set (h : Reading.ofLines Assignments lines = ⟨f, none⟩)
    (hkeys : ∀ k ∈ f.values.keys, startsComment (trim k) = false) {k : String}
    (hk : startsComment (trim k) = false) (v : String) :
    commentsIn (Document.render (f.set k v)) = commentsIn lines := by
  have hread := Reading.ofLines_eq_iff.mp h
  have hf := reached_of_addLines hread
  have hwritten : ∀ l ∈ (f.set k v).written,
      commentsIn [renderLine (f.set k v).values l] = l.comment?.toList := by
    intro l hl
    cases l with
    | comment text =>
      exact commentsIn_of_isComment
        (List.forall_mem_singleton.mpr (isComment_of_mem_written hf hl))
    | key k' =>
      have hmem : k' ∈ (f.set k v).values.keys := by
        rw [← filterMap_written_set hf]
        exact List.mem_filterMap.mpr ⟨_, hl, rfl⟩
      have hk' : startsComment (trim k') = false := by
        rcases OrderedMap.mem_keys_insert.mp hmem with rfl | hmem
        · exact hk
        · exact hkeys k' hmem
      exact commentsIn_eq_nil (List.forall_mem_singleton.mpr (startsComment_assign hk' _))
  rw [render_eq, commentsIn_map hwritten, filterMap_comment?_written]
  show f.kept = commentsIn lines
  exact kept_of_addLines hread

end Assignments

/-! ## Comments in a map -/

namespace OrderedMap

variable {α γ : Type} [DecidableEq α]

theorem flatMap_insertPairs_perm (k : α) (more : List γ) (ps : List (α × List γ)) :
    ((insertPairs k ((lookupPairs k ps).getD [] ++ more) ps).flatMap (·.2)).Perm
      (ps.flatMap (·.2) ++ more) := by
  induction ps with
  | nil => simp [insertPairs, lookupPairs]
  | cons p ps ih =>
    rw [insertPairs, lookupPairs]
    by_cases hk : p.1 = k
    · rw [if_pos hk, if_pos hk, Option.getD_some, List.flatMap_cons, List.flatMap_cons,
        List.append_assoc, List.append_assoc]
      exact List.perm_append_comm.append_left p.2
    · rw [if_neg hk, if_neg hk, List.flatMap_cons, List.flatMap_cons, List.append_assoc]
      exact ih.append_left p.2

/-- More values for one key are more values in all. -/
theorem flatMap_insert_perm (m : OrderedMap α (List γ)) (k : α) (more : List γ) :
    ((m.insert k (m.getD k [] ++ more)).entries.flatMap (·.2)).Perm
      (m.entries.flatMap (·.2) ++ more) :=
  flatMap_insertPairs_perm k more m.entries

/-- The values of all keys are found by looking them up, in any order in which every key comes
once. -/
theorem flatMap_getD_perm {m : OrderedMap α (List γ)} {l : List α} (hl : l.Nodup)
    (h : ∀ k ∈ m.keys, k ∈ l) :
    (l.flatMap (m.getD · [])).Perm (m.entries.flatMap (·.2)) := by
  have hvalues : m.entries.flatMap (·.2) = m.keys.flatMap (m.getD · []) := by
    rw [keys, List.flatMap_map]
    exact List.flatMap_congr fun p hp => (getD_of_mem hp []).symm
  have hrest : (l.filter (· ∉ m.keys)).flatMap (m.getD · []) = [] := by
    refine List.flatMap_eq_nil_iff.mpr fun k hk => getD_of_not_mem ?_ []
    simpa using (List.mem_filter.mp hk).2
  have hperm : l.Perm (m.keys ++ l.filter (· ∉ m.keys)) := by
    have hdisjoint : m.keys.Disjoint (l.filter (· ∉ m.keys)) := fun k hk hk' => by
      simpa [hk] using (List.mem_filter.mp hk').2
    have hnodup := m.keys_nodup.append (hl.filter _) hdisjoint
    refine (List.perm_ext_iff_of_nodup hl hnodup).mpr fun k => ?_
    rw [List.mem_append, List.mem_filter]
    by_cases hk : k ∈ m.keys
    · exact iff_of_true (h k hk) (Or.inl hk)
    · simp [hk]
  rw [hvalues]
  have hall := hperm.flatMap_right (m.getD · [])
  rwa [List.flatMap_append, hrest, List.append_nil] at hall

end OrderedMap

/-! ## Files of devices -/

namespace Sections

/-- The headers and entries of the sections, as they are written. -/
def slots (s : Sections) : List (String × Option String) :=
  s.entries.flatMap fun p =>
    (if p.1 = globalSection then [] else [(p.1, none)]) ++ p.2.keys.map fun key => (p.1, some key)

/-- The headers and entries are found by looking the sections up. -/
theorem slots_eq (s : Sections) : s.slots = s.keys.flatMap fun name =>
    (if name = globalSection then [] else [(name, none)]) ++
      (OrderedMap.getD s name ∅).keys.map fun key => (name, some key) := by
  rw [slots, OrderedMap.keys, List.flatMap_map]
  refine List.flatMap_congr fun p hp => ?_
  rw [OrderedMap.getD_of_mem hp ∅]

theorem mem_slots_of_hasSlot {s : Sections} {slot : String × Option String} (h : s.HasSlot slot) :
    slot ∈ s.slots := by
  obtain ⟨name, key⟩ := slot
  rw [slots_eq]
  refine List.mem_flatMap.mpr ?_
  cases key with
  | none =>
    refine ⟨name, h.2, List.mem_append_left _ ?_⟩
    rw [if_neg h.1]
    exact List.mem_singleton_self _
  | some key =>
    obtain ⟨value, hvalue⟩ := h
    obtain ⟨hname, hkey⟩ := mem_keys_of_lookup? hvalue
    exact ⟨name, hname, List.mem_append_right _ (List.mem_map_of_mem hkey)⟩

/-- No place for comments comes twice. -/
theorem nodup_slots (s : Sections) : s.slots.Nodup := by
  refine List.nodup_flatMap.mpr ⟨fun p _ => ?_, ?_⟩
  · have hkeys : (p.2.keys.map fun key => (p.1, some key)).Nodup := by
      refine p.2.keys_nodup.map fun key key' h => ?_
      simpa using h
    split
    · exact hkeys
    · refine List.nodup_cons.mpr ⟨?_, hkeys⟩
      simp
  · have hname : ∀ (p : String × Section) (slot : String × Option String),
        slot ∈ (if p.1 = globalSection then [] else [(p.1, none)]) ++
          (p.2.keys.map fun key => (p.1, some key)) → slot.1 = p.1 := by
      intro p slot h
      rcases List.mem_append.mp h with h | h
      · split at h
        · simp at h
        · rw [List.mem_singleton.mp h]
      · obtain ⟨key, -, rfl⟩ := List.mem_map.mp h
        rfl
    refine (List.pairwise_map.mp s.nodup_keys).imp fun hne slot h h' => hne ?_
    rw [← hname _ _ h, ← hname _ _ h']

end Sections

namespace DeviceFile

variable {f : DeviceFile} {lines : List String}

/-- The comments in the file. -/
def kept (f : DeviceFile) : List String := f.comments.entries.flatMap (·.2) ++ f.trailing

/-- Attaching comments to what follows them loses none. -/
theorem kept_attachComments (f : DeviceFile) (name : String) (key : Option String) :
    (f.attachComments name key).kept.Perm f.kept := by
  unfold attachComments
  split
  next => exact List.Perm.refl _
  next =>
    unfold kept
    rw [List.append_nil]
    exact f.comments.flatMap_insert_perm (name, key) f.trailing

theorem kept_of_addLines (h : Document.addLines Document.empty lines = .ok f) :
    f.kept.Perm (commentsIn lines) := by
  have h0 : (Document.empty : DeviceFile).kept.Perm [] := List.Perm.refl _
  refine Document.commentsIn_induction (R := fun (f : DeviceFile) cs => f.kept.Perm cs) ?_ ?_ h0 h
  · intro f cs text hf
    show (f.comments.entries.flatMap (·.2) ++ (f.trailing ++ [text])).Perm _
    rw [← List.append_assoc]
    exact hf.append_right [text]
  · intro f f' cs first rest hf hadd
    change addTokens f first rest = .ok f' at hadd
    unfold addTokens at hadd
    split at hadd
    next =>
      split at hadd
      next => simp at hadd
      next =>
        cases hadd
        exact (kept_attachComments _ _ _).trans hf
    next =>
      split at hadd
      next =>
        cases hadd
        exact (kept_attachComments _ _ _).trans hf
      next => simp at hadd

theorem trim_indent (name line : String) : trim (indent name ++ line) = trim line := by
  unfold indent
  split
  · rw [String.empty_append]
  · exact trim_tab line

theorem commentsIn_indent (name : String) (lines : List String) :
    commentsIn (lines.map (indent name ++ ·)) = commentsIn lines := by
  rw [commentsIn, List.map_map, commentsIn]
  exact congrArg _ (List.map_congr_left fun line _ => trim_indent name line)

/-- The comments in front of a line that is none. -/
theorem commentsIn_commentsOf (hf : f.WellFormed) (name : String) (key : Option String)
    {line : String} (hline : Opens line.toList) :
    commentsIn (f.commentsOf name key ++ [line]) = f.commentsOf name key := by
  have hnone : commentsIn [line] = [] :=
    commentsIn_eq_nil (List.forall_mem_singleton.mpr (startsComment_of_opens hline))
  rw [commentsIn_append, commentsIn_of_isComment (hf.commentsOf name key), hnone, List.append_nil]

/-- The entry itself is no comment, so its lines hold what was attached to it. -/
theorem commentsIn_entryLines (hf : f.WellFormed) (name : String)
    (entry : String × Option String) :
    commentsIn (f.entryLines name entry) = f.commentsOf name (some entry.1) := by
  show commentsIn ((f.commentsOf name (some entry.1) ++ [_]).map (indent name ++ ·)) = _
  rw [commentsIn_indent, commentsIn_commentsOf hf _ _ (opens_entryLine entry.1 entry.2)]

theorem commentsIn_sectionLines (hf : f.WellFormed) (name : String) (entries : Section) :
    commentsIn (f.sectionLines name entries) =
      ((if name = globalSection then [] else [(name, none)]) ++
        entries.keys.map fun key => (name, some key)).flatMap (f.comments.getD · []) := by
  rw [sectionLines, commentsIn_append, commentsIn_flatMap, List.flatMap_append]
  refine congr (congrArg _ ?_) ?_
  · split
    · rfl
    · rw [commentsIn_commentsOf hf name none (opens_sectionHeader name), List.flatMap_singleton]
      rfl
  · rw [OrderedMap.keys, List.map_map, List.flatMap_map]
    exact List.flatMap_congr fun entry _ => commentsIn_entryLines hf name entry

/-- The comments that are written are those in front of the headers and entries, and those at the
end. -/
theorem commentsIn_render (hf : f.WellFormed) : commentsIn (Document.render f) =
    f.sections.slots.flatMap (f.comments.getD · []) ++ f.trailing := by
  have hsections : ∀ (started : Bool) (l : List (String × Section)),
      commentsIn (f.renderSections started l) =
        l.flatMap fun p => commentsIn (f.sectionLines p.1 p.2) := by
    intro started l
    induction l generalizing started with
    | nil => rfl
    | cons p l ih =>
      obtain ⟨name, entries⟩ := p
      have hblank : commentsIn (if name ≠ globalSection ∧ started then [""] else []) = [] := by
        split <;> rfl
      rw [renderSections, commentsIn_append, commentsIn_append, hblank, ih, List.nil_append]
      rfl
  show commentsIn (f.renderSections false f.sections.entries ++ f.trailing) = _
  rw [commentsIn_append, hsections, commentsIn_of_isComment hf.trailing, Sections.slots,
    List.flatMap_assoc]
  refine congrArg (· ++ f.trailing) (List.flatMap_congr fun p _ => ?_)
  exact commentsIn_sectionLines hf p.1 p.2

/-- Devices that are added to a file leave its comments as they are, up to their order. -/
theorem commentsIn_render_setDevices (h : Reading.ofLines DeviceFile lines = ⟨f, none⟩)
    (new : List Device) :
    (commentsIn (Document.render (f.setDevices new true))).Perm (commentsIn lines) := by
  have hread := Reading.ofLines_eq_iff.mp h
  have hf := reached_of_addLines hread
  have hslots : ∀ slot ∈ f.comments.keys, slot ∈ (f.sections.merge new true).slots := by
    intro slot hslot
    obtain ⟨cs, hcs⟩ := OrderedMap.exists_get?_of_mem_keys hslot
    exact Sections.mem_slots_of_hasSlot ((hf.slots slot cs hcs).1.merge new)
  rw [commentsIn_render (setDevices_wellFormed hf new true)]
  refine List.Perm.trans ?_ (kept_of_addLines hread)
  exact (OrderedMap.flatMap_getD_perm (Sections.nodup_slots _) hslots).append_right f.trailing

end DeviceFile

/-! ## Comments and edits -/

/-- **Comments survive every edit that takes no section away.** The lines that are written hold the
comments of the lines that were read, each as often as before. Records and the mode leave them in
their order as well, the mode only if no key that was read looks like a comment. -/
theorem comments_survive (lines : List String) :
    (∀ f : MonitorFile, Reading.ofLines MonitorFile lines = ⟨f, none⟩ →
      ∀ new keepsExisting,
        commentsIn (Document.render (f.setRecords new keepsExisting)) = commentsIn lines) ∧
    (∀ f : ListenFile, Reading.ofLines ListenFile lines = ⟨f, none⟩ →
      ∀ new keepsExisting,
        commentsIn (Document.render (f.setRecords new keepsExisting)) = commentsIn lines) ∧
    (∀ f : Assignments, Reading.ofLines Assignments lines = ⟨f, none⟩ →
      (∀ k ∈ f.values.keys, startsComment (trim k) = false) →
        ∀ mode, commentsIn (Document.render (f.setMode mode)) = commentsIn lines) ∧
    ∀ f : DeviceFile, Reading.ofLines DeviceFile lines = ⟨f, none⟩ →
      ∀ new, (commentsIn (Document.render (f.setDevices new true))).Perm (commentsIn lines) := by
  have hmode : startsComment (trim Assignments.modeKey) = false := by decide
  exact ⟨fun f hf => DirectiveFile.commentsIn_render_setRecords hf,
    fun f hf => DirectiveFile.commentsIn_render_setRecords hf,
    fun f hf hkeys mode => Assignments.commentsIn_render_set hf hkeys hmode mode.name,
    fun f hf => DeviceFile.commentsIn_render_setDevices hf⟩

/-- Every kind of file accepts these lines, in which a key stands twice. -/
theorem comments_survive_of_repeated_key :
    let lines := ["# first", "a = b", "  # second", "a = c", "# last"]
    commentsIn lines = ["# first", "# second", "# last"] ∧
    (∀ new keepsExisting, commentsIn (Document.render
      ((Reading.ofLines MonitorFile lines).document.setRecords new keepsExisting)) =
        commentsIn lines) ∧
    (∀ new keepsExisting, commentsIn (Document.render
      ((Reading.ofLines ListenFile lines).document.setRecords new keepsExisting)) =
        commentsIn lines) ∧
    (∀ mode, commentsIn (Document.render
      ((Reading.ofLines Assignments lines).document.setMode mode)) = commentsIn lines) ∧
    ∀ new, (commentsIn (Document.render
      ((Reading.ofLines DeviceFile lines).document.setDevices new true))).Perm
        (commentsIn lines) := by
  intro lines
  obtain ⟨hmonitors, hlistens, hmode, hdevices⟩ := comments_survive lines
  refine ⟨by decide, hmonitors _ ?_, hlistens _ ?_, hmode _ ?_ (by decide), hdevices _ ?_⟩
  · exact Reading.isComplete_iff.mp (by decide)
  · exact Reading.isComplete_iff.mp (by decide)
  · exact Reading.isComplete_iff.mp (by decide)
  · exact Reading.isComplete_iff.mp (by decide)

end UpsSetup
