import Mathlib.Algebra.GroupWithZero.Nat
import Mathlib.Algebra.Order.BigOperators.Group.List
import Mathlib.Algebra.Order.Group.Nat
import UpsSetup.Proofs.DeviceRoundTrip

/-!
# Names that are lost

If the name of a section is not plain, the sections are not read back: reading adds no more to the
names than the headers hold (`namesLength_le_of_addLines`), each header holds at most its name, and
the header of such a name holds less. Since only the sum over all names counts, no combination of
changed headers can make up for it (`plainName_of_addLines`).

**`device_file_round_trip`**: a file that was read from a text is read back from what is written
exactly if all its names are plain. -/

namespace UpsSetup

open Text Line

namespace DeviceFile

/-! ## The lines of a file -/

/-- The lines of an entry are its comments and the entry itself, indented alike. -/
theorem mem_entryLines {d : DeviceFile} {name line : String} {entry : String × Option String}
    (h : line ∈ d.entryLines name entry) :
    ∃ text, line = indent name ++ text ∧
      (text ∈ d.commentsOf name (some entry.1) ∨ text = entryLine entry.1 entry.2) := by
  change line ∈
    (d.commentsOf name (some entry.1) ++ [entryLine entry.1 entry.2]).map (indent name ++ ·) at h
  obtain ⟨text, ht, rfl⟩ := List.mem_map.mp h
  exact ⟨text, rfl, by simpa using ht⟩

/-- A line is blank, a header, a comment or an entry. -/
theorem mem_render {d : DeviceFile} {line : String} (h : line ∈ Document.render d) :
    line = "" ∨ (∃ name ∈ d.sections.keys, line = sectionHeader name) ∨
    (∃ name text, (line = text ∨ line = indent name ++ text) ∧
      (text ∈ d.trailing ∨ ∃ key, text ∈ d.commentsOf name key)) ∨
    ∃ name key value, d.sections.lookup? name key = some value ∧
      line = indent name ++ entryLine key value := by
  -- the sections are written one behind the other, with blank lines between them
  have hsection : ∀ (started : Bool) (ss : List (String × Section)),
      line ∈ d.renderSections started ss →
        line = "" ∨ ∃ p ∈ ss, line ∈ d.sectionLines p.1 p.2 := by
    intro started ss hl
    induction ss generalizing started with
    | nil => exact absurd hl List.not_mem_nil
    | cons p ss ih =>
      rw [renderSections, List.mem_append, List.mem_append] at hl
      rcases hl with (hl | hl) | hl
      · split at hl
        · exact Or.inl (List.mem_singleton.mp hl)
        · exact absurd hl List.not_mem_nil
      · exact Or.inr ⟨p, List.mem_cons_self, hl⟩
      · rcases ih _ hl with hl | ⟨q, hq, hl⟩
        · exact Or.inl hl
        · exact Or.inr ⟨q, List.mem_cons_of_mem _ hq, hl⟩
  rcases List.mem_append.mp h with h | h
  · rcases hsection _ _ h with h | ⟨p, hp, h⟩
    · exact Or.inl h
    · rw [sectionLines, List.mem_append] at h
      rcases h with h | h
      · split at h
        · exact absurd h List.not_mem_nil
        · rcases List.mem_append.mp h with h | h
          · exact Or.inr (Or.inr (Or.inl ⟨p.1, line, Or.inl rfl, Or.inr ⟨none, h⟩⟩))
          · exact Or.inr (Or.inl ⟨p.1, List.mem_map_of_mem hp, List.mem_singleton.mp h⟩)
      · obtain ⟨entry, hentry, h⟩ := List.mem_flatMap.mp h
        obtain ⟨text, rfl, ht | rfl⟩ := mem_entryLines h
        · exact Or.inr (Or.inr (Or.inl ⟨p.1, text, Or.inr rfl, Or.inr ⟨_, ht⟩⟩))
        · exact Or.inr (Or.inr (Or.inr
            ⟨p.1, entry.1, entry.2, Sections.lookup?_of_mem hp hentry, rfl⟩))
  · exact Or.inr (Or.inr (Or.inl ⟨"", line, Or.inl rfl, Or.inl h⟩))

/-- A line end that is in no text of the file is on no line of it. -/
theorem not_mem_render_of_avoids {c : Char} (ht : isTerminator c = true) {d : DeviceFile}
    (hd : d.Avoids c) {line : String} (hl : line ∈ Document.render d) : c ∉ line.toList := by
  -- the characters with which a line is put together are no line ends
  have hne : ∀ e, isTerminator e = false → c ≠ e := by
    rintro e he rfl
    rw [ht] at he
    exact absurd he (by simp)
  have hindent : ∀ name : String, c ∉ (indent name).toList := by
    intro name hc
    unfold indent at hc
    split at hc
    · simp at hc
    · exact hne '\t' (by decide) (by simpa using hc)
  have hquote : ∀ token : String, c ∉ token.toList → c ∉ (quote token).toList := by
    intro token hnot hc
    rcases mem_quote hc with rfl | rfl | hc
    · exact hne '"' (by decide) rfl
    · exact hne '\\' (by decide) rfl
    · exact hnot hc
  rcases mem_render hl with rfl | ⟨name, hname, rfl⟩ | ⟨name, text, hline, hcomment⟩ |
    ⟨name, key, value, hentry, rfl⟩
  · simp
  · rw [toList_sectionHeader]
    simp [hd.names name hname, hne '[' (by decide), hne ']' (by decide)]
  · have htext : c ∉ text.toList := by
      rcases hcomment with h | ⟨key, h⟩
      · exact hd.trailing text h
      · obtain ⟨cs, hcs, hmem⟩ := mem_getD_comments h
        exact hd.comments _ cs hcs text hmem
    rcases hline with rfl | rfl
    · exact htext
    · simp [hindent, htext]
  · obtain ⟨hkey, hvalue⟩ := hd.entries name key value hentry
    cases value with
    | none => simp [entryLine, hindent, hquote key hkey]
    | some v =>
      have hv := hquote v (hvalue v rfl)
      simp [entryLine, hindent, hquote key hkey, hv, hne ' ' (by decide), hne '=' (by decide)]

/-! ## Names that are lost -/

/-- The number of characters in the names of all sections. -/
def namesLength (f : DeviceFile) : Nat := (f.sections.keys.map String.length).sum

/-- A line brings no more names into a file than its header says. -/
theorem namesLength_le_of_addLine {f f' : DeviceFile} {line : String}
    (hcur : f.current ∈ f.sections.keys) (h : Document.addLine f line = .ok f') :
    f'.current ∈ f'.sections.keys ∧ f'.namesLength ≤ f.namesLength + headerLength line := by
  rcases addLine_cases h with rfl | ⟨text, -, rfl⟩ | ⟨name, hc, -, rfl⟩ |
    ⟨key, rest, value, -, -, -, rfl⟩
  · exact ⟨hcur, by omega⟩
  · exact ⟨hcur, by simp only [namesLength]; omega⟩
  · -- only a header can add a name, and it adds its own
    have hheader : headerName? line = some name := by
      unfold headerName?
      rw [hc]
      exact sectionName?_eq_some_iff.mpr rfl
    rw [current_enter, headerLength_of_some hheader, namesLength, namesLength, sections_enter]
    split
    next hmem => exact ⟨hmem, by omega⟩
    next hmem =>
      refine ⟨OrderedMap.mem_keys_insert.mpr (Or.inl rfl), ?_⟩
      rw [OrderedMap.keys_insert, if_neg hmem, List.map_append, List.sum_append, List.map_singleton,
        List.sum_singleton]
  · have hkeys := Sections.keys_setValue_of_mem hcur key value
    rw [current_addEntry, namesLength, namesLength, sections_addEntry, hkeys]
    exact ⟨hcur, by omega⟩

/-- Reading adds no more to the names than the headers hold. -/
theorem namesLength_le_of_addLines {f f' : DeviceFile} {lines : List String}
    (hcur : f.current ∈ f.sections.keys) (h : Document.addLines f lines = .ok f') :
    f'.namesLength ≤ f.namesLength + (lines.map headerLength).sum := by
  induction lines generalizing f with
  | nil =>
    rw [Document.addLines_nil, Except.ok.injEq] at h
    rw [h, List.map_nil, List.sum_nil]
    omega
  | cons line lines ih =>
    obtain ⟨g, hg, hrest⟩ := Result.bind_eq_ok_iff.mp h
    obtain ⟨hcur', hle⟩ := namesLength_le_of_addLine hcur hg
    have hle' := ih hcur' hrest
    rw [List.map_cons, List.sum_cons]
    omega

/-- The weight is on no line but the headers. -/
structure WeighsHeaders (d : DeviceFile) (weight : String → Nat) : Prop where
  blank : weight "" = 0
  comment : ∀ name text, (text ∈ d.trailing ∨ ∃ key, text ∈ d.commentsOf name key) →
    weight text = 0 ∧ weight (indent name ++ text) = 0
  entry : ∀ name key value, d.sections.lookup? name key = some value →
    weight (indent name ++ entryLine key value) = 0

theorem sum_eq_zero_of_weight {weight : String → Nat} {lines : List String}
    (h : ∀ line ∈ lines, weight line = 0) : (lines.map weight).sum = 0 := by
  refine List.sum_eq_zero fun n hn => ?_
  obtain ⟨line, hl, rfl⟩ := List.mem_map.mp hn
  exact h line hl

/-- Of the lines of a section only the header has weight. -/
theorem WeighsHeaders.sum_sectionLines {d : DeviceFile} {weight : String → Nat}
    (h : d.WeighsHeaders weight) {name : String} {entries : Section}
    (hs : (name, entries) ∈ d.sections.entries) :
    ((d.sectionLines name entries).map weight).sum =
      if name = globalSection then 0 else weight (sectionHeader name) := by
  have hentries : ((entries.entries.flatMap (d.entryLines name)).map weight).sum = 0 := by
    refine sum_eq_zero_of_weight fun line hl => ?_
    obtain ⟨entry, hmem, hl⟩ := List.mem_flatMap.mp hl
    obtain ⟨text, rfl, ht | rfl⟩ := mem_entryLines hl
    · exact (h.comment name text (Or.inr ⟨_, ht⟩)).2
    · exact h.entry name entry.1 entry.2 (Sections.lookup?_of_mem hs hmem)
  rw [sectionLines, List.map_append, List.sum_append, hentries]
  split
  next => rfl
  next =>
    have hcs : ((d.commentsOf name none).map weight).sum = 0 :=
      sum_eq_zero_of_weight fun text ht => (h.comment name text (Or.inr ⟨none, ht⟩)).1
    rw [List.map_append, List.sum_append, hcs, List.map_singleton, List.sum_singleton]
    omega

/-- What the lines of a file weigh together is what its headers do. -/
theorem WeighsHeaders.sum_render {d : DeviceFile} {weight : String → Nat}
    (h : d.WeighsHeaders weight) :
    ((Document.render d).map weight).sum =
      (d.devices.map fun name => weight (sectionHeader name)).sum := by
  have hsections : ∀ (started : Bool) (ss : List (String × Section)),
      (∀ p ∈ ss, p ∈ d.sections.entries) → ((d.renderSections started ss).map weight).sum =
        (((ss.map (·.1)).filter (· ≠ globalSection)).map fun name =>
          weight (sectionHeader name)).sum := by
    intro started ss hss
    induction ss generalizing started with
    | nil => rfl
    | cons p ss ih =>
      have hstart : ((if p.1 ≠ globalSection ∧ started then [""] else []).map weight).sum = 0 := by
        split
        · rw [List.map_singleton, List.sum_singleton, h.blank]
        · rfl
      rw [renderSections, List.map_append, List.sum_append, List.map_append, List.sum_append,
        hstart, h.sum_sectionLines (hss p List.mem_cons_self),
        ih _ fun q hq => hss q (List.mem_cons_of_mem _ hq)]
      -- the global section has no header and is no device
      by_cases hg : p.1 = globalSection
      · simp [hg]
      · simp [hg]
  have htrailing : (d.trailing.map weight).sum = 0 :=
    sum_eq_zero_of_weight fun text ht => (h.comment "" text (Or.inl ht)).1
  show ((d.renderSections false d.sections.entries ++ d.trailing).map weight).sum = _
  rw [List.map_append, List.sum_append, htrailing, hsections false _ fun p hp => hp]
  rfl

/-- **Sections whose names do not weigh what their headers weigh are not read back.** -/
theorem plainName_of_addLines {d f : DeviceFile} {lines : List String} {weight : String → Nat}
    (hlines : Document.addLines Document.empty lines = .ok f) (hs : f.sections = d.sections)
    (hsum : (lines.map headerLength).sum = (d.devices.map weight).sum)
    (hle : ∀ name, weight name ≤ name.length)
    (hlt : ∀ name, ¬PlainName name → weight name < name.length) :
    ∀ name ∈ d.sections.keys, name ≠ globalSection → PlainName name := by
  intro name hname hne
  by_contra hplain
  have hmem : name ∈ d.devices := List.mem_filter.mpr ⟨hname, by simpa using hne⟩
  -- one name that loses something makes the sum too small, whatever the other headers become
  have hshort : (d.devices.map weight).sum < (d.devices.map String.length).sum :=
    List.sum_lt_sum _ _ (fun n _ => hle n) ⟨name, hmem, hlt name hplain⟩
  have hgrow := namesLength_le_of_addLines (List.mem_singleton_self globalSection) hlines
  have hfull : (d.devices.map String.length).sum ≤ f.namesLength := by
    rw [namesLength, hs]
    exact (List.Sublist.map String.length List.filter_sublist).sum_le_sum (by simp)
  have hstart : (Document.empty : DeviceFile).namesLength = 0 := rfl
  omega

/-! ## Round trip -/

theorem headerLength_indent (name line : String) :
    headerLength (indent name ++ line) = headerLength line := by
  rw [headerLength, headerLength, headerName?, headerName?, ofLine_indent]

theorem headerLength_comment {text : String} (h : IsComment text) : headerLength text = 0 := by
  refine headerLength_of_none ?_
  rw [headerName?, Content.ofLine_comment h]

/-- An entry is never taken for a header. -/
theorem headerLength_entryLine {key : String} {value : Option String}
    (hflag : value = none → IsFlag key) : headerLength (entryLine key value) = 0 := by
  refine headerLength_of_none ?_
  rw [headerName?, ofLine_entryLine]
  exact sectionName?_of_entry hflag

theorem WellFormed.isComment {d : DeviceFile} (hd : d.WellFormed) {name text : String}
    (h : text ∈ d.trailing ∨ ∃ key, text ∈ d.commentsOf name key) : IsComment text := by
  rcases h with h | ⟨key, h⟩
  · exact hd.trailing text h
  · exact hd.commentsOf name key text h

theorem WellFormed.isFlag {d : DeviceFile} (hd : d.WellFormed) {name key : String}
    {value : Option String} (h : d.sections.lookup? name key = some value) :
    value = none → IsFlag key := by
  rintro rfl
  exact hd.flags name key h

/-- What the written lines give in names is what their headers do. -/
theorem sum_headerLength_render {d : DeviceFile} (hd : d.WellFormed) :
    ((Document.render d).map headerLength).sum =
      (d.devices.map fun name => headerLength (sectionHeader name)).sum := by
  refine WeighsHeaders.sum_render ⟨rfl, fun name text h => ?_, fun name key value h => ?_⟩
  · rw [headerLength_indent]
    exact ⟨headerLength_comment (hd.isComment h), headerLength_comment (hd.isComment h)⟩
  · rw [headerLength_indent]
    exact headerLength_entryLine (hd.isFlag h)

/-- The comments of a file that was read are those in front of its headers and entries. -/
theorem Reached.attached_commentsOf {d : DeviceFile} (hd : d.Reached) (name : String)
    (key : Option String) : attached (d.commentsOf name key) = d.comments.get? (name, key) := by
  rw [commentsOf, OrderedMap.getD]
  cases h : d.comments.get? (name, key) with
  | none => rfl
  | some cs => exact attached_eq_some_iff.mpr ⟨rfl, (hd.slots _ cs h).2⟩

/-- There are no comments for what is not there. -/
theorem Reached.comments_of_not_hasSlot {d : DeviceFile} (hd : d.Reached)
    {slot : String × Option String} (h : ¬d.sections.HasSlot slot) :
    d.comments.get? slot = none := by
  cases hs : d.comments.get? slot with
  | none => rfl
  | some cs => exact absurd (hd.slots slot cs hs).1 h

end DeviceFile

/-- **A file of devices is read back from what is written, with all its comments, exactly if all its
names are plain.** -/
theorem device_file_round_trip (text : String)
    (h : (Reading.ofText DeviceFile text).isComplete = true) :
    let d := (Reading.ofText DeviceFile text).document
    let again := Reading.ofText DeviceFile (Document.write d).text
    (again.isComplete = true ∧ again.document.sections = d.sections ∧
      (∀ slot, again.document.comments.get? slot = d.comments.get? slot) ∧
      again.document.trailing = d.trailing) ↔
    ∀ name ∈ d.sections.keys, name ≠ globalSection → PlainName name := by
  intro d again
  have hread : Document.addLines Document.empty (lines text) = .ok d :=
    Reading.isComplete_ofLines_iff.mp h
  have hreached := DeviceFile.reached_of_addLines hread
  have havoids := DeviceFile.avoids_of_addLines (fun _ hl => newline_not_mem_of_mem_lines hl) hread
  have hagain : again = Reading.ofLines DeviceFile (Document.render d) :=
    Reading.ofText_text fun _ hl => DeviceFile.not_mem_render_of_avoids (by decide) havoids hl
  constructor
  · rintro ⟨hcomplete, hsections, -, -⟩
    rw [hagain] at hcomplete hsections
    exact DeviceFile.plainName_of_addLines (Reading.isComplete_ofLines_iff.mp hcomplete) hsections
      (DeviceFile.sum_headerLength_render hreached.toWellFormed) headerLength_sectionHeader_le
      fun _ => headerLength_sectionHeader_lt
  · intro hplain
    obtain ⟨f, hf, hsections, htrailing, hslots, hfresh⟩ :=
      DeviceFile.addLines_render hreached.toWellFormed hplain
    rw [hagain, Reading.ofLines_eq_iff.mpr hf]
    refine ⟨rfl, hsections, fun slot => ?_, htrailing⟩
    by_cases hs : d.sections.HasSlot slot
    · rw [hslots slot.1 slot.2 hs]
      exact hreached.attached_commentsOf slot.1 slot.2
    · rw [hfresh slot hs, hreached.comments_of_not_hasSlot hs]

/-- The text has a flag, a section that comes twice, a quoted value and comments at three places. -/
theorem device_file_round_trip_of_flag :
    let text := "# all\nmaxretry = 3\n[a]\n# of a\n\tdriver = \"x y\"\nlock\n[b]\n[a]\nport = =\n# end"
    let d := (Reading.ofText DeviceFile text).document
    let again := Reading.ofText DeviceFile (Document.write d).text
    (Reading.ofText DeviceFile text).isComplete = true ∧
    ((again.isComplete = true ∧ again.document.sections = d.sections ∧
      (∀ slot, again.document.comments.get? slot = d.comments.get? slot) ∧
      again.document.trailing = d.trailing) ↔
    ∀ name ∈ d.sections.keys, name ≠ globalSection → PlainName name) := by
  intro text
  have h : (Reading.ofText DeviceFile text).isComplete = true := by decide +kernel
  exact ⟨h, device_file_round_trip text h⟩

end UpsSetup
