import Mathlib.Algebra.GroupWithZero.Nat
import UpsSetup.Proofs.DeviceNames
import UpsSetup.Proofs.Directives
import UpsSetup.Proofs.Storage

/-!
# What is read back from a file

In a file a line ends at each line end, also within quotes. So a document is read back from the
file to which it is written under two conditions: its parts are read back from their lines, and
none of the texts that are quoted holds a line end. A text that does leaves a line with an open
quote, which is rejected whatever follows (`ofLine_cut`).

This makes the conditions exact:

* `DirectiveFile.reads_back_from_file_iff` for files of directives,
* `DeviceFile.reads_back_from_file_iff` for files of devices.
-/

namespace UpsSetup

open Text Line

/-! ## Lines that are cut off -/

/-- A line up to its first line end. -/
def cutOff (line : String) : String :=
  String.ofList (line.toList.takeWhile fun c => !isTerminator c)

/-- What comes before the first line end holds none. -/
theorem holdsNoEnd_takeWhile (cs : List Char) :
    HoldsNoEnd (cs.takeWhile fun c => !isTerminator c) := by
  intro c hc
  simpa using List.mem_takeWhile_imp hc

theorem body_of_holdsNoEnd {cs : List Char} (h : HoldsNoEnd cs) : body cs = cs := by
  rw [body, dropEndWhile_eq, List.rdropWhile_eq_self_iff]
  intro hne
  simp [h _ (List.getLast_mem hne)]

/-- A line that is cut off within quotes is rejected. -/
theorem ofLine_cut {line : String} (hopens : Opens line.toList) {flaw : Flaw}
    (hscan : scan false (line.toList.takeWhile fun c => !isTerminator c) = .error flaw) :
    Content.ofLine (cutOff line) = .error (.flaw flaw) := by
  have hlist : (cutOff line).toList = line.toList.takeWhile fun c => !isTerminator c := by
    rw [cutOff, String.toList_ofList]
  have hcut : Opens (cutOff line).toList := by
    obtain ⟨c, rest, hline, hb, hc⟩ := hopens
    have ht : isTerminator c = false := isTerminator_eq_false hb
    rw [hlist, hline, List.takeWhile_cons_of_pos (by simp [ht])]
    exact ⟨c, _, rfl, hb, hc⟩
  have htokens : tokenize (cutOff line) = .error flaw := by
    rw [tokenize, hlist, body_of_holdsNoEnd (holdsNoEnd_takeWhile _), hscan]
    rfl
  rw [Content.ofLine_of_opens (by rwa [Content.dropWhile_of_opens hcut]), htokens]
  rfl

/-- The first line that a written line gives in a file is its start. -/
theorem cutOff_mem_linesInFile {α : Type} [Document α] {d : α} {line : String}
    (h : line ∈ Document.render d) : cutOff line ∈ Document.linesInFile d := by
  refine List.mem_flatMap.mpr ⟨line, h, List.mem_map.mpr ⟨_, ?_, rfl⟩⟩
  exact List.mem_of_mem_head? (head?_fileLines line.toList)

/-- A document is not read from a file in which a line is cut off within quotes. -/
theorem not_addLines_of_cut {α : Type} [Document α] {d d' : α} {line : String} {flaw : Flaw}
    (hl : line ∈ Document.render d) (hcut : Content.ofLine (cutOff line) = .error (.flaw flaw)) :
    Document.addLines Document.empty (Document.linesInFile d) ≠ .ok d' := by
  intro h
  obtain ⟨c, hc⟩ := Document.exists_content_of_addLines h (cutOff_mem_linesInFile hl)
  rw [hcut] at hc
  simp at hc

/-! ## Files of directives -/

namespace DirectiveFile

variable {ρ : Type} [Managed ρ] [LawfulManaged ρ]

/-- **Which files of directives are read back.** What is not managed is no obstacle, if it came
from a file itself. -/
theorem reads_back_from_file_iff {f : DirectiveFile ρ} (hf : f.WellFormed)
    (hunmanaged : ∀ u ∈ f.unmanaged, ∀ text ∈ u.texts, HoldsNoEnd text.toList) :
    Document.addLines Document.empty (Document.linesInFile f) = .ok f ↔
      ∀ r ∈ f.records, Managed.ofArguments (Managed.arguments r) = .ok r ∧
        ∀ a ∈ Managed.arguments r, HoldsNoEnd a.toList := by
  have hlines : (∀ r ∈ f.records, ∀ a ∈ Managed.arguments r, HoldsNoEnd a.toList) →
      Document.linesInFile f = Document.render f := by
    intro h
    refine Document.linesInFile_of_holdsNoEnd fun line hl => holdsNoEnd_iff.mpr fun c hc => ?_
    have havoids : f.Avoids c :=
      ⟨fun u hu text ht => holdsNoEnd_iff.mp (hunmanaged u hu text ht) c hc,
        fun r hr a ha => holdsNoEnd_iff.mp (h r hr a ha) c hc⟩
    exact not_mem_render_of_avoids hc havoids hl
  constructor
  · intro h
    -- an argument with a line end would leave a quote open at the end of its line
    have hends : ∀ r ∈ f.records, ∀ a ∈ Managed.arguments r, HoldsNoEnd a.toList := by
      intro r hr a ha
      by_contra hend
      have hl : recordLine r ∈ Document.render f :=
        List.mem_append_right _ (List.mem_map_of_mem hr)
      have hcut : Content.ofLine (cutOff (recordLine r)) = .error (.flaw .unterminatedQuote) :=
        ofLine_cut (opens_encode _ _) (scan_cut_encode ⟨a, List.mem_cons_of_mem _ ha, hend⟩)
      exact not_addLines_of_cut hl hcut h
    rw [hlines hends, reads_back_iff hf] at h
    exact fun r hr => ⟨h r hr, hends r hr⟩
  · intro h
    rw [hlines fun r hr => (h r hr).2, reads_back_iff hf]
    exact fun r hr => (h r hr).1

end DirectiveFile

/-- Nothing in the monitor keeps it from being read back from a file: device, host and port can be
told apart, and no text holds a line end. -/
structure Monitor.IsClean (m : Monitor) : Prop where
  name : '@' ∉ m.upsName.toList
  host : m.port = 0 → ':' ∉ m.hostname.toList
  texts : ∀ text ∈ m.texts, HoldsNoEnd text.toList

/-- A monitor is clean if its line is read back and holds no line end. -/
theorem Monitor.isClean_iff {m : Monitor} (hm : m.InRange) :
    m.IsClean ↔ Monitor.ofArguments m.arguments = .ok m ∧
      ∀ a ∈ m.arguments, HoldsNoEnd a.toList := by
  have htexts : (∀ text ∈ m.texts, HoldsNoEnd text.toList) ↔
      ∀ a ∈ m.arguments, HoldsNoEnd a.toList := by
    simp only [holdsNoEnd_iff]
    constructor
    · intro h a ha c hc hca
      obtain ⟨text, ht, hct⟩ := exists_text_of_mem_arguments hm ha hca hc
      exact h text ht c hc hct
    · intro h text ht c hc hct
      obtain ⟨a, ha, hca⟩ := exists_argument_of_mem_text ht hct
      exact h a ha c hc hca
  rw [ofArguments_arguments_iff hm, ← htexts]
  constructor
  · rintro ⟨hname, hhost, ht⟩
    exact ⟨⟨hname, hhost⟩, ht⟩
  · rintro ⟨⟨hname, hhost⟩, ht⟩
    exact ⟨hname, hhost, ht⟩

/-- Nothing in the listen address keeps it from being read back from a file. -/
def Listen.IsClean (l : Listen) : Prop := HoldsNoEnd l.address.toList

/-- A listen address is clean if its line is read back and holds no line end. -/
theorem Listen.isClean_iff {l : Listen} (hl : l.InRange) :
    l.IsClean ↔ Listen.ofArguments l.arguments = .ok l ∧
      ∀ a ∈ l.arguments, HoldsNoEnd a.toList := by
  rw [ofArguments_arguments hl, IsClean]
  constructor
  · intro h
    refine ⟨rfl, fun a ha => holdsNoEnd_iff.mpr fun c hc hca => ?_⟩
    exact holdsNoEnd_iff.mp h c hc (mem_address_of_mem_arguments hl ha hca hc)
  · rintro ⟨-, h⟩
    exact h l.address List.mem_cons_self

/-! ## Files of devices -/

namespace DeviceFile

/-- Nothing in the sections keeps them from being read back from a file: names are plain, and no
value holds a line end. -/
structure IsClean (f : DeviceFile) : Prop where
  names : ∀ name ∈ f.sections.keys, name ≠ globalSection → PlainName name
  values : ∀ name key value, f.sections.lookup? name key = some (some value) →
    HoldsNoEnd value.toList

/-- The keys and comments of the file, which are not those of a device, hold no line end. -/
structure KeepsLines (f : DeviceFile) : Prop where
  keys : ∀ name key value, f.sections.lookup? name key = some value → HoldsNoEnd key.toList
  comments : ∀ slot cs, f.comments.get? slot = some cs → ∀ text ∈ cs, HoldsNoEnd text.toList
  trailing : ∀ text ∈ f.trailing, HoldsNoEnd text.toList
  current : HoldsNoEnd f.current.toList

theorem entryLine_mem_render {d : DeviceFile} {name key : String} {value : Option String}
    (h : d.sections.lookup? name key = some value) :
    indent name ++ entryLine key value ∈ Document.render d := by
  have hsections : ∀ (started : Bool) (ss : List (String × Section)) (entries : Section),
      (name, entries) ∈ ss → (key, value) ∈ entries.entries →
        indent name ++ entryLine key value ∈ d.renderSections started ss := by
    intro started ss entries hs he
    have hline : indent name ++ entryLine key value ∈ d.sectionLines name entries := by
      refine List.mem_append_right _ (List.mem_flatMap.mpr ⟨(key, value), he, ?_⟩)
      exact List.mem_map.mpr ⟨entryLine key value, by simp, rfl⟩
    induction ss generalizing started with
    | nil => simp at hs
    | cons p ss ih =>
      rw [renderSections, List.mem_append, List.mem_append]
      rcases List.mem_cons.mp hs with rfl | hs
      · exact Or.inl (Or.inr hline)
      · exact Or.inr (ih _ hs)
  by_cases hname : name ∈ d.sections.keys
  · obtain ⟨entries, hentries⟩ := OrderedMap.exists_get?_of_mem_keys hname
    rw [Sections.lookup?, OrderedMap.getD, hentries, Option.getD_some,
      OrderedMap.get?_eq_some_iff] at h
    refine List.mem_append_left _ ?_
    exact hsections false _ entries (OrderedMap.get?_eq_some_iff.mp hentries) h
  · rw [Sections.lookup?_of_not_mem hname] at h
    simp at h

/-- An entry whose value holds a line end is cut off within its value. -/
theorem ofLine_cut_entryLine {name key value : String} (hkey : HoldsNoEnd key.toList)
    (hvalue : ¬HoldsNoEnd value.toList) :
    Content.ofLine (cutOff (indent name ++ entryLine key (some value))) =
      .error (.flaw .unterminatedQuote) := by
  have hindent : cutOff (indent name ++ entryLine key (some value)) =
      indent name ++ cutOff (entryLine key (some value)) := by
    unfold indent
    split
    · rw [String.empty_append, String.empty_append]
    · rw [← String.toList_inj, toList_tab, cutOff, cutOff, String.toList_ofList,
        String.toList_ofList, toList_tab, List.takeWhile_cons_of_pos (by decide)]
  have hlist : (entryLine key (some value)).toList =
      (quote key).toList ++ ' ' :: '=' :: ' ' :: ((quote value).toList ++ []) := by
    rw [entryLine, String.toList_append, String.toList_append, List.append_assoc, List.append_nil]
    rfl
  have hpos : ∀ c ∈ (quote key).toList, (!isTerminator c) = true := by
    intro c hc
    simp [holdsNoEnd_quote hkey c hc]
  rw [hindent, ofLine_indent]
  refine ofLine_cut (opens_entryLine key (some value)) ?_
  rw [hlist, List.takeWhile_append_of_pos hpos, List.takeWhile_cons_of_pos (by decide),
    List.takeWhile_cons_of_pos (by decide), List.takeWhile_cons_of_pos (by decide), scan_quote,
    scan_blank (by decide), scan_equals, scan_blank (by decide), scan_cut_quote hvalue]
  rfl

/-- How many characters of names a written line gives in a file. -/
def fileHeaderLength (line : String) : Nat :=
  (((fileLines line.toList).map String.ofList).map headerLength).sum

theorem fileHeaderLength_of_holdsNoEnd {line : String} (h : HoldsNoEnd line.toList) :
    fileHeaderLength line = headerLength line := by
  rw [fileHeaderLength, fileLines_of_holdsNoEnd h, List.map_singleton, String.ofList_toList,
    List.map_singleton, List.sum_singleton]

/-- A header gives at most the name that was written, even if it is cut off. -/
theorem fileHeaderLength_sectionHeader_le (name : String) :
    fileHeaderLength (sectionHeader name) ≤ name.length := by
  by_cases h : PlainName name
  · have hends : HoldsNoEnd (sectionHeader name).toList := by
      intro c hc
      rw [toList_sectionHeader] at hc
      rcases List.mem_cons.mp hc with rfl | hc
      · decide
      · rcases List.mem_append.mp hc with hc | hc
        · exact h.holdsNoEnd c hc
        · rw [List.mem_singleton.mp hc]
          decide
    rw [fileHeaderLength_of_holdsNoEnd hends]
    exact headerLength_sectionHeader_le name
  · exact Nat.le_of_lt (sum_headerLength_fileLines_lt h)

theorem holdsNoEnd_indent {name : String} {line : String} (h : HoldsNoEnd line.toList) :
    HoldsNoEnd (indent name ++ line).toList := by
  have hindent : HoldsNoEnd (indent name).toList := by
    unfold indent
    split
    · exact fun c hc => by simp at hc
    · decide
  rw [String.toList_append]
  exact hindent.append h

theorem holdsNoEnd_entryLine {key : String} {value : Option String} (hkey : HoldsNoEnd key.toList)
    (hvalue : ∀ v ∈ value, HoldsNoEnd v.toList) : HoldsNoEnd (entryLine key value).toList := by
  cases value with
  | none => exact holdsNoEnd_quote hkey
  | some v =>
    have hmid : HoldsNoEnd " = ".toList := by decide
    rw [entryLine, String.toList_append, String.toList_append]
    exact ((holdsNoEnd_quote hkey).append hmid).append (holdsNoEnd_quote (hvalue v rfl))

/-- In the file, only headers give names. -/
theorem sum_headerLength_linesInFile {d : DeviceFile} (hd : d.WellFormed) (hk : d.KeepsLines)
    (hvalues : ∀ name key value, d.sections.lookup? name key = some (some value) →
      HoldsNoEnd value.toList) :
    ((Document.linesInFile d).map headerLength).sum =
      (d.devices.map fun name => fileHeaderLength (sectionHeader name)).sum := by
  -- the lines in the file are counted by the written lines that they come from
  have hflat : ((Document.linesInFile d).map headerLength).sum =
      ((Document.render d).map fileHeaderLength).sum := by
    rw [Document.linesInFile, List.map_flatMap, List.flatMap_def, List.sum_flatten, List.map_map]
    rfl
  have hcomment : ∀ name text, (text ∈ d.trailing ∨ ∃ key, text ∈ d.commentsOf name key) →
      HoldsNoEnd text.toList := by
    intro name text h
    rcases h with h | ⟨key, h⟩
    · exact hk.trailing text h
    · obtain ⟨cs, hcs, hmem⟩ := mem_getD_comments h
      exact hk.comments _ cs hcs text hmem
  rw [hflat]
  refine WeighsHeaders.sum_render ⟨rfl, fun name text h => ?_, fun name key value h => ?_⟩
  · have hends := hcomment name text h
    rw [fileHeaderLength_of_holdsNoEnd hends,
      fileHeaderLength_of_holdsNoEnd (holdsNoEnd_indent hends), headerLength_indent]
    exact ⟨headerLength_comment (hd.isComment h), headerLength_comment (hd.isComment h)⟩
  · have hends : HoldsNoEnd (entryLine key value).toList :=
      holdsNoEnd_entryLine (hk.keys name key value h) fun v hv => hvalues name key v (hv ▸ h)
    rw [fileHeaderLength_of_holdsNoEnd (holdsNoEnd_indent hends), headerLength_indent]
    exact headerLength_entryLine (hd.isFlag h)

/-- The lines of a clean file hold no line end. -/
theorem IsClean.linesInFile {d : DeviceFile} (h : d.IsClean) (hk : d.KeepsLines) :
    Document.linesInFile d = Document.render d := by
  refine Document.linesInFile_of_holdsNoEnd fun line hl => holdsNoEnd_iff.mpr fun c hc => ?_
  have havoids : d.Avoids c := by
    refine ⟨fun name hn => ?_, fun name key value hv => ⟨?_, fun v hvmem => ?_⟩,
      fun slot cs hs text ht => holdsNoEnd_iff.mp (hk.comments slot cs hs text ht) c hc,
      fun text ht => holdsNoEnd_iff.mp (hk.trailing text ht) c hc,
      holdsNoEnd_iff.mp hk.current c hc⟩
    · by_cases hg : name = globalSection
      · rw [hg]
        simp [globalSection]
      · exact holdsNoEnd_iff.mp (h.names name hn hg).holdsNoEnd c hc
    · exact holdsNoEnd_iff.mp (hk.keys name key value hv) c hc
    · exact holdsNoEnd_iff.mp (h.values name key v (hvmem ▸ hv)) c hc
  exact not_mem_render_of_avoids hc havoids hl

/-- **Which files of devices have their sections read back.** -/
theorem reads_back_from_file_iff {d : DeviceFile} (hd : d.WellFormed) (hk : d.KeepsLines) :
    (∃ f : DeviceFile, Document.addLines Document.empty (Document.linesInFile d) = .ok f ∧
      f.sections = d.sections) ↔ d.IsClean := by
  constructor
  · rintro ⟨f, hf, hsections⟩
    have hvalues : ∀ name key value, d.sections.lookup? name key = some (some value) →
        HoldsNoEnd value.toList := by
      intro name key value hv
      by_contra hend
      exact not_addLines_of_cut (entryLine_mem_render hv)
        (ofLine_cut_entryLine (hk.keys name key _ hv) hend) hf
    refine ⟨?_, hvalues⟩
    exact plainName_of_addLines hf hsections (sum_headerLength_linesInFile hd hk hvalues)
      fileHeaderLength_sectionHeader_le fun _ => sum_headerLength_fileLines_lt
  · intro hclean
    obtain ⟨f, hf, hsections, -⟩ := addLines_render hd hclean.names
    rw [hclean.linesInFile hk]
    exact ⟨f, hf, hsections⟩

end DeviceFile

end UpsSetup
