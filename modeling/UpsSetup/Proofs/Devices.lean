import UpsSetup.Document.Devices
import UpsSetup.Proofs.Headers
import UpsSetup.Proofs.Sections

/-!
# What is read from a file of devices

Each line that is not rejected is blank, a comment, the header of a section, or an entry of the
section of the last header (`DeviceFile.addLine_cases`). From this follows what holds of a file
that was read, line by line: `Reached` collects what reading it again relies on, and `Avoids` says
that no text of it holds a character that was on no line. -/

namespace UpsSetup

open Text Line

/-- The key can stand on a line alone: it is taken neither for a separator nor for a header. -/
structure IsFlag (key : String) : Prop where
  ne_equals : key ≠ "="
  no_header : sectionName? [key] = none

namespace DeviceFile

/-! ## What a line does -/

/-- An entry keeps its first token as the key, and its value is a later token of the line or empty;
only a token alone that is no equals sign gives a flag. -/
theorem readEntry_eq_some {first key : String} {rest : List String} {value : Option String}
    (h : readEntry first rest = some (key, value)) :
    key = first ∧ (value = none → rest = [] ∧ key ≠ "=") ∧ ∀ v ∈ value, v ∈ rest ∨ v = "" := by
  unfold readEntry at h
  split at h
  · split at h
    · simp at h
    next hne =>
      rw [Option.some.injEq, Prod.mk.injEq] at h
      obtain ⟨rfl, rfl⟩ := h
      exact ⟨rfl, fun _ => ⟨rfl, hne⟩, by simp⟩
  · rw [Option.some.injEq, Prod.mk.injEq] at h
    obtain ⟨rfl, rfl⟩ := h
    exact ⟨rfl, by simp, by simp⟩
  · rw [Option.some.injEq, Prod.mk.injEq] at h
    obtain ⟨rfl, rfl⟩ := h
    exact ⟨rfl, by simp, by simp⟩
  · simp at h

/-- What a line does to a file, if it is not rejected. -/
theorem addLine_cases {f f' : DeviceFile} {line : String} (h : Document.addLine f line = .ok f') :
    f' = f ∨
    (∃ text, Content.ofLine line = .ok (.comment text) ∧
      f' = { f with trailing := f.trailing ++ [text] }) ∨
    (∃ name, Content.ofLine line = .ok (.tokens (sectionHeader name) []) ∧ name ≠ "" ∧
      f' = f.enter name) ∨
    (∃ key rest value, Content.ofLine line = .ok (.tokens key rest) ∧
      (value = none → IsFlag key) ∧ (∀ v ∈ value, v ∈ rest ∨ v = "") ∧
      f' = f.addEntry key value) := by
  obtain ⟨c, hc, hf⟩ := Document.addLine_eq_ok_iff.mp h
  cases c with
  | blank => exact Or.inl (Except.ok.inj hf).symm
  | comment text => exact Or.inr (Or.inl ⟨text, hc, (Except.ok.inj hf).symm⟩)
  | tokens first rest =>
    refine Or.inr (Or.inr ?_)
    change addTokens f first rest = .ok f' at hf
    unfold addTokens at hf
    split at hf
    next name hname =>
      split at hf
      · simp at hf
      next hne =>
        have htokens := sectionName?_eq_some_iff.mp hname
        rw [List.cons.injEq] at htokens
        rw [htokens.1, htokens.2] at hc
        exact Or.inl ⟨name, hc, hne, (Except.ok.inj hf).symm⟩
    next hname =>
      split at hf
      next key value hentry =>
        obtain ⟨rfl, hflag, hvalue⟩ := readEntry_eq_some hentry
        refine Or.inr ⟨key, rest, value, hc, fun hv => ?_, hvalue, (Except.ok.inj hf).symm⟩
        obtain ⟨rfl, hne⟩ := hflag hv
        exact ⟨hne, hname⟩
      next => simp at hf

/-! ## Comments and what they belong to -/

theorem sections_attachComments (f : DeviceFile) (name : String) (key : Option String) :
    (f.attachComments name key).sections = f.sections := by
  unfold attachComments
  split
  · rfl
  · rfl

theorem current_attachComments (f : DeviceFile) (name : String) (key : Option String) :
    (f.attachComments name key).current = f.current := by
  unfold attachComments
  split
  · rfl
  · rfl

theorem trailing_attachComments (f : DeviceFile) (name : String) (key : Option String) :
    (f.attachComments name key).trailing = [] := by
  unfold attachComments
  split
  next h => exact h
  next => rfl

/-- What a list of comments becomes in the map: nothing if it is empty. -/
def attached (comments : List String) : Option (List String) :=
  if comments = [] then none else some comments

/-- A list of comments that comes into the map is never empty. -/
theorem attached_eq_some_iff {comments cs : List String} :
    attached comments = some cs ↔ comments = cs ∧ cs ≠ [] := by
  unfold attached
  split
  next h =>
    subst h
    constructor
    · intro h
      simp at h
    · rintro ⟨rfl, h⟩
      exact absurd rfl h
  next h =>
    rw [Option.some.injEq]
    constructor
    · rintro rfl
      exact ⟨rfl, h⟩
    · exact And.left

/-- The comments that were waiting go to the end of what the slot had; all other slots keep
theirs. -/
theorem comments_attachComments (f : DeviceFile) (name : String) (key : Option String)
    (slot : String × Option String) :
    (f.attachComments name key).comments.get? slot =
      if slot = (name, key) ∧ f.trailing ≠ [] then
        some (f.comments.getD (name, key) [] ++ f.trailing)
      else f.comments.get? slot := by
  unfold attachComments
  split
  next h => rw [if_neg fun hn => hn.2 h]
  next h =>
    show (OrderedMap.insert _ _ _).get? slot = _
    rw [OrderedMap.get?_insert]
    by_cases hs : slot = (name, key)
    · rw [if_pos hs, if_pos ⟨hs, h⟩]
    · rw [if_neg hs, if_neg fun hn => hs hn.1]

/-- A header adds its section, empty and at the end, unless there is one of the same name. -/
theorem sections_enter (f : DeviceFile) (name : String) :
    (f.enter name).sections =
      if name ∈ f.sections.keys then f.sections else f.sections.insert name ∅ := by
  rw [enter, sections_attachComments]
  by_cases h : name ∈ f.sections.keys
  · rw [if_pos h, if_pos (OrderedMap.contains_iff.mpr h)]
  · rw [if_neg h, if_neg fun hc => h (OrderedMap.contains_iff.mp hc)]

theorem current_enter (f : DeviceFile) (name : String) : (f.enter name).current = name := by
  rw [enter, current_attachComments]

/-- An entry goes to the section of the last header. -/
theorem sections_addEntry (f : DeviceFile) (key : String) (value : Option String) :
    (f.addEntry key value).sections = f.sections.setValue f.current key value := by
  rw [addEntry, sections_attachComments]

theorem current_addEntry (f : DeviceFile) (key : String) (value : Option String) :
    (f.addEntry key value).current = f.current := by
  rw [addEntry, current_attachComments]

/-! ## What a reading gives -/

/-- The parts of the file, apart from the names, can be written so that they are read again. -/
structure WellFormed (f : DeviceFile) : Prop where
  global_first : f.sections.keys.head? = some globalSection
  flags : ∀ name key, f.sections.lookup? name key = some none → IsFlag key
  comments : ∀ slot cs, f.comments.get? slot = some cs → ∀ text ∈ cs, IsComment text
  trailing : ∀ text ∈ f.trailing, IsComment text

/-- What holds of a file that was read: besides, each comment belongs to something that is there. -/
structure Reached (f : DeviceFile) : Prop extends WellFormed f where
  current_mem : f.current ∈ f.sections.keys
  slots : ∀ slot cs, f.comments.get? slot = some cs → f.sections.HasSlot slot ∧ cs ≠ []

/-- The character is in no text of the file. -/
structure Avoids (c : Char) (f : DeviceFile) : Prop where
  names : ∀ name ∈ f.sections.keys, c ∉ name.toList
  entries : ∀ name key value, f.sections.lookup? name key = some value →
    c ∉ key.toList ∧ ∀ v ∈ value, c ∉ v.toList
  comments : ∀ slot cs, f.comments.get? slot = some cs → ∀ text ∈ cs, c ∉ text.toList
  trailing : ∀ text ∈ f.trailing, c ∉ text.toList
  current : c ∉ f.current.toList

/-- Before the first line there is no entry. -/
theorem lookup?_empty (name key : String) : empty.sections.lookup? name key = none := by
  have hget : empty.sections.getD name ∅ = ∅ := by
    show (OrderedMap.insert ∅ globalSection ∅).getD name ∅ = _
    rw [OrderedMap.getD_insert]
    split
    · rfl
    · rfl
  rw [Sections.lookup?, hget, OrderedMap.get?_empty]

theorem keys_empty : empty.sections.keys = [globalSection] := rfl

/-- The file before its first line can be written and read again. -/
theorem reached_empty : empty.Reached where
  global_first := rfl
  flags name key h := by simp [lookup?_empty] at h
  comments slot cs h := by simp [empty] at h
  trailing text h := by simp [empty] at h
  current_mem := List.mem_singleton_self globalSection
  slots slot cs h := by simp [empty] at h

theorem avoids_empty (c : Char) : empty.Avoids c where
  names name h := by
    rw [keys_empty, List.mem_singleton] at h
    simp [h, globalSection]
  entries name key value h := by simp [lookup?_empty] at h
  comments slot cs h := by simp [empty] at h
  trailing text h := by simp [empty] at h
  current := by simp [empty, globalSection]

theorem mem_getD_comments {f : DeviceFile} {slot : String × Option String} {text : String}
    (h : text ∈ f.comments.getD slot []) : ∃ cs, f.comments.get? slot = some cs ∧ text ∈ cs := by
  rw [OrderedMap.getD] at h
  cases hs : f.comments.get? slot with
  | none => simp [hs] at h
  | some cs =>
    rw [hs, Option.getD_some] at h
    exact ⟨cs, rfl, h⟩

/-- A comment of any slot was there before or was waiting for what comes next. -/
theorem mem_comments_attachComments {f : DeviceFile} {name : String} {key : Option String}
    {slot : String × Option String} {cs : List String} {text : String}
    (h : (f.attachComments name key).comments.get? slot = some cs) (ht : text ∈ cs) :
    (∃ old, f.comments.get? slot = some old ∧ text ∈ old) ∨ text ∈ f.trailing := by
  rw [comments_attachComments] at h
  split at h
  next hslot =>
    rw [Option.some.injEq] at h
    rw [← h, ← hslot.1] at ht
    exact (List.mem_append.mp ht).imp_left mem_getD_comments
  next => exact Or.inl ⟨cs, h, ht⟩

/-- Comments that wait may go to any slot that exists. -/
theorem Reached.attachComments {f : DeviceFile} (hf : f.Reached) {name : String}
    {key : Option String} (hs : f.sections.HasSlot (name, key)) :
    (f.attachComments name key).Reached where
  global_first := by
    rw [sections_attachComments]
    exact hf.global_first
  flags := by
    rw [sections_attachComments]
    exact hf.flags
  comments slot cs h text ht := by
    rcases mem_comments_attachComments h ht with ⟨old, hold, hmem⟩ | hmem
    · exact hf.comments slot old hold text hmem
    · exact hf.trailing text hmem
  trailing := by
    rw [trailing_attachComments]
    intro text ht
    exact absurd ht List.not_mem_nil
  current_mem := by
    rw [current_attachComments, sections_attachComments]
    exact hf.current_mem
  slots slot cs h := by
    rw [comments_attachComments] at h
    rw [sections_attachComments]
    split at h
    next hslot =>
      rw [Option.some.injEq] at h
      refine ⟨hslot.1 ▸ hs, ?_⟩
      rw [← h]
      exact List.append_ne_nil_of_right_ne_nil _ hslot.2
    next => exact hf.slots slot cs h

/-- Entering a section, new or old, keeps the file readable. -/
theorem Reached.enter {f : DeviceFile} (hf : f.Reached) {name : String}
    (hn : name ≠ globalSection) : (f.enter name).Reached := by
  by_cases hmem : name ∈ f.sections.keys
  · have hg : ({ f with current := name } : DeviceFile).Reached := { hf with current_mem := hmem }
    unfold DeviceFile.enter
    rw [if_pos (OrderedMap.contains_iff.mpr hmem)]
    exact hg.attachComments ⟨hn, hmem⟩
  · -- a new section holds nothing, and the global one stays the first
    have hself : name ∈ (f.sections.insert name ∅).keys :=
      OrderedMap.mem_keys_insert.mpr (Or.inl rfl)
    have hg :
        ({ f with sections := f.sections.insert name ∅, current := name } : DeviceFile).Reached :=
      { hf with
        global_first := OrderedMap.head?_keys_insert hf.global_first
        flags := fun name' key h =>
          hf.flags name' key (by rwa [Sections.lookup?_insert_empty hmem] at h)
        current_mem := hself
        slots := fun slot cs h =>
          ⟨(Sections.hasSlot_insert_empty hmem hn).mpr (Or.inl (hf.slots slot cs h).1),
            (hf.slots slot cs h).2⟩ }
    unfold DeviceFile.enter
    rw [if_neg fun hc => hmem (OrderedMap.contains_iff.mp hc)]
    exact hg.attachComments ⟨hn, hself⟩

/-- An entry keeps the file readable, as long as a key without a value is a flag. -/
theorem Reached.addEntry {f : DeviceFile} (hf : f.Reached) {key : String} {value : Option String}
    (hflag : value = none → IsFlag key) : (f.addEntry key value).Reached := by
  have hkeys := Sections.keys_setValue_of_mem hf.current_mem key value
  -- the entry first, then the comments that were waiting for it
  have hg : ({ f with sections := f.sections.setValue f.current key value } : DeviceFile).Reached :=
    { hf with
      global_first := by
        rw [hkeys]
        exact hf.global_first
      flags := by
        intro name' key' h
        rw [Sections.lookup?_setValue] at h
        split at h
        next heq =>
          rw [Option.some.injEq] at h
          exact heq.2 ▸ hflag h
        next => exact hf.flags name' key' h
      current_mem := by
        rw [hkeys]
        exact hf.current_mem
      slots := fun slot cs h =>
        ⟨(Sections.hasSlot_setValue hf.current_mem).mpr (Or.inl (hf.slots slot cs h).1),
          (hf.slots slot cs h).2⟩ }
  refine hg.attachComments ((Sections.hasSlot_setValue hf.current_mem).mpr (Or.inr rfl))

/-- One line that is not rejected keeps what reading the file again relies on. -/
theorem reached_of_addLine {f f' : DeviceFile} {line : String} (hf : f.Reached)
    (h : Document.addLine f line = .ok f') : f'.Reached := by
  rcases addLine_cases h with rfl | ⟨text, hc, rfl⟩ | ⟨name, -, hne, rfl⟩ |
    ⟨key, rest, value, -, hflag, -, rfl⟩
  · exact hf
  · refine { hf with trailing := fun t ht => ?_ }
    rcases List.mem_append.mp ht with ht | ht
    · exact hf.trailing t ht
    · exact List.mem_singleton.mp ht ▸ Content.isComment_of_ofLine hc
  · exact hf.enter hne
  · exact hf.addEntry hflag

/-- A file that was read to its end can be written and read again, apart from the names. -/
theorem reached_of_addLines {f : DeviceFile} {lines : List String}
    (h : Document.addLines Document.empty lines = .ok f) : f.Reached :=
  Document.addLines_induction reached_empty (fun _ _ _ _ hf => reached_of_addLine hf) h

theorem Avoids.attachComments {c : Char} {f : DeviceFile} (hf : f.Avoids c) (name : String)
    (key : Option String) : (f.attachComments name key).Avoids c where
  names := by
    rw [sections_attachComments]
    exact hf.names
  entries := by
    rw [sections_attachComments]
    exact hf.entries
  comments slot cs h text ht := by
    rcases mem_comments_attachComments h ht with ⟨old, hold, hmem⟩ | hmem
    · exact hf.comments slot old hold text hmem
    · exact hf.trailing text hmem
  trailing := by
    rw [trailing_attachComments]
    intro text ht
    exact absurd ht List.not_mem_nil
  current := by
    rw [current_attachComments]
    exact hf.current

theorem Avoids.enter {c : Char} {f : DeviceFile} (hf : f.Avoids c) {name : String}
    (hname : c ∉ name.toList) : (f.enter name).Avoids c := by
  unfold DeviceFile.enter
  refine Avoids.attachComments ?_ name none
  by_cases hmem : name ∈ f.sections.keys
  · rw [if_pos (OrderedMap.contains_iff.mpr hmem)]
    exact ⟨hf.names, hf.entries, hf.comments, hf.trailing, hname⟩
  · rw [if_neg fun hc => hmem (OrderedMap.contains_iff.mp hc)]
    refine ⟨fun name' hn => ?_, fun name' key value hv => ?_, hf.comments, hf.trailing, hname⟩
    · rcases OrderedMap.mem_keys_insert.mp hn with rfl | hn
      · exact hname
      · exact hf.names name' hn
    · rw [Sections.lookup?_insert_empty hmem] at hv
      exact hf.entries name' key value hv

theorem Avoids.addEntry {c : Char} {f : DeviceFile} (hf : f.Avoids c) {key : String}
    (hkey : c ∉ key.toList) {value : Option String} (hval : ∀ v ∈ value, c ∉ v.toList) :
    (f.addEntry key value).Avoids c := by
  unfold DeviceFile.addEntry
  refine Avoids.attachComments ?_ f.current (some key)
  refine ⟨fun name hn => ?_, fun name key' value' hv => ?_, hf.comments, hf.trailing, hf.current⟩
  · rcases Sections.mem_keys_setValue.mp hn with rfl | hn
    · exact hf.current
    · exact hf.names name hn
  · rw [Sections.lookup?_setValue] at hv
    split at hv
    next heq =>
      rw [Option.some.injEq] at hv
      exact ⟨heq.2 ▸ hkey, hv ▸ hval⟩
    next => exact hf.entries name key' value' hv

/-- A line brings no character into the file that is not on the line. -/
theorem avoids_of_addLine {c : Char} {f f' : DeviceFile} {line : String} (hline : c ∉ line.toList)
    (hf : f.Avoids c) (h : Document.addLine f line = .ok f') : f'.Avoids c := by
  rcases addLine_cases h with rfl | ⟨text, hc, rfl⟩ | ⟨name, hc, -, rfl⟩ |
    ⟨key, rest, value, hc, -, hvalue, rfl⟩
  · exact hf
  · refine { hf with trailing := fun t ht => ?_ }
    rcases List.mem_append.mp ht with ht | ht
    · exact hf.trailing t ht
    · intro hct
      exact hline (Content.mem_of_mem_comment hc (List.mem_singleton.mp ht ▸ hct))
  · have hname : c ∉ name.toList := by
      intro hcn
      refine hline (Content.mem_of_mem_token hc List.mem_cons_self ?_)
      rw [toList_sectionHeader]
      exact List.mem_cons_of_mem _ (List.mem_append_left _ hcn)
    exact hf.enter hname
  · have hkey : c ∉ key.toList := fun hck =>
      hline (Content.mem_of_mem_token hc List.mem_cons_self hck)
    have hval : ∀ v ∈ value, c ∉ v.toList := by
      intro v hv hcv
      rcases hvalue v hv with hmem | rfl
      · exact hline (Content.mem_of_mem_token hc (List.mem_cons_of_mem _ hmem) hcv)
      · -- without a token behind the equals sign the value is empty
        exact absurd hcv (by simp)
    exact hf.addEntry hkey hval

/-- A character that is on no line of a text is nowhere in the file that was read from it. -/
theorem avoids_of_addLines {c : Char} {f : DeviceFile} {lines : List String}
    (hl : ∀ line ∈ lines, c ∉ line.toList)
    (h : Document.addLines Document.empty lines = .ok f) : f.Avoids c :=
  Document.addLines_induction (avoids_empty c)
    (fun line hm _ _ hf => avoids_of_addLine (hl line hm) hf) h

end DeviceFile

end UpsSetup
