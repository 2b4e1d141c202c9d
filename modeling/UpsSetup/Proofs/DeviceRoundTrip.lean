import UpsSetup.Proofs.Devices

/-!
# Files of devices are read back

A file of devices is written section by section, and each header and entry with its comments in
front of it. Reading puts them back one after the other: `Resumes` says what was read again so far,
and `addLines_entries` and `addLines_sections` are the two loops. Together they give
`addLines_render`: if all names are plain, the sections are read back, with the comments that stand
in front of something. -/

namespace UpsSetup

open Text Line

namespace DeviceFile

/-! ## Written lines -/

/-- The tokens of an entry after its key. -/
def valueTokens : Option String → List String
  | none => []
  | some value => ["=", value]

theorem opens_entryLine (key : String) (value : Option String) :
    Opens (entryLine key value).toList := by
  cases value with
  | none => exact opens_quote key
  | some value =>
    rw [entryLine, String.toList_append, String.toList_append, List.append_assoc]
    exact (opens_quote key).append _

theorem closes_entryLine (key : String) (value : Option String) :
    Closes (entryLine key value).toList := by
  cases value with
  | none => exact closes_quote key
  | some value =>
    rw [entryLine, String.toList_append]
    exact (closes_quote value).append _

/-- The line of an entry has the tokens of the entry. -/
theorem tokenize_entryLine (key : String) (value : Option String) :
    tokenize (entryLine key value) = .ok (key :: valueTokens value) := by
  cases value with
  | none =>
    rw [tokenize_of_scan (closes_entryLine key none) (scan_quote_self key), words_quotePieces]
    simp [valueTokens]
  | some value =>
    have hs : scan false (entryLine key (some value)).toList =
        .ok (quotePieces key ++ .gap :: .equals :: .gap :: quotePieces value) := by
      have hlist : (entryLine key (some value)).toList =
          (quote key).toList ++ ' ' :: '=' :: ' ' :: (quote value).toList := by
        rw [entryLine, String.toList_append, String.toList_append, List.append_assoc]
        rfl
      rw [hlist, scan_quote, scan_blank (by decide), scan_equals, scan_blank (by decide),
        scan_quote_self]
      rfl
    rw [tokenize_of_scan (closes_entryLine key (some value)) hs, words_quotePieces_gap,
      words_equals, words_gap, words_quotePieces]
    simp [valueTokens]

theorem ofLine_entryLine (key : String) (value : Option String) :
    Content.ofLine (entryLine key value) = .ok (.tokens key (valueTokens value)) := by
  refine Content.ofLine_of_tokenize ?_ (tokenize_entryLine key value)
  rw [Content.dropWhile_of_opens (opens_entryLine key value)]
  exact opens_entryLine key value

/-- An entry is no header: a flag by its key, and any other entry by its number of tokens. -/
theorem sectionName?_of_entry {key : String} {value : Option String}
    (hflag : value = none → IsFlag key) : sectionName? (key :: valueTokens value) = none := by
  cases value with
  | none => exact (hflag rfl).no_header
  | some value => rfl

/-- An entry is read from its tokens, a flag included. -/
theorem readEntry_valueTokens {key : String} {value : Option String}
    (hflag : value = none → IsFlag key) :
    readEntry key (valueTokens value) = some (key, value) := by
  cases value with
  | none => exact if_neg (hflag rfl).ne_equals
  | some value => rfl

/-- The line of an entry adds the entry. -/
theorem addLine_entryLine (f : DeviceFile) {key : String} {value : Option String}
    (hflag : value = none → IsFlag key) :
    Document.addLine f (entryLine key value) = .ok (f.addEntry key value) := by
  rw [Document.addLine_of_ofLine (ofLine_entryLine key value)]
  show addTokens f key (valueTokens value) = _
  rw [addTokens, sectionName?_of_entry hflag, readEntry_valueTokens hflag]

/-- The header of a plain name enters the section of that name. -/
theorem addLine_sectionHeader (f : DeviceFile) {name : String} (h : PlainName name)
    (hne : name ≠ globalSection) :
    Document.addLine f (sectionHeader name) = .ok (f.enter name) := by
  rw [Document.addLine_of_ofLine (ofLine_sectionHeader h)]
  show addTokens f (sectionHeader name) [] = _
  rw [addTokens, sectionName?_eq_some_iff.mpr rfl]
  exact if_neg hne

/-- How far the lines of a section are indented. -/
def indent (name : String) : String := if name = globalSection then "" else "\t"

theorem ofLine_indent (name line : String) :
    Content.ofLine (indent name ++ line) = Content.ofLine line := by
  unfold indent
  split
  · rw [String.empty_append]
  · exact Content.ofLine_tab line

theorem addLines_indent (f : DeviceFile) (name : String) (lines : List String) :
    Document.addLines f (lines.map (indent name ++ ·)) = Document.addLines f lines := by
  induction lines generalizing f with
  | nil => rfl
  | cons line lines ih =>
    rw [List.map_cons, Document.addLines_cons, Document.addLines_cons, Document.addLine,
      ofLine_indent, ← Document.addLine]
    exact bind_congr fun f' => ih f'

/-- Comments wait for what follows them. -/
theorem addLines_comments (f : DeviceFile) {cs : List String} (h : ∀ text ∈ cs, IsComment text) :
    Document.addLines f cs = .ok { f with trailing := f.trailing ++ cs } := by
  induction cs generalizing f with
  | nil => rw [List.append_nil, Document.addLines_nil]
  | cons text cs ih =>
    have ht := Document.addLine_of_ofLine (Content.ofLine_comment (h text List.mem_cons_self)) f
    rw [Document.addLines_cons, ht]
    show Document.addLines { f with trailing := f.trailing ++ [text] } cs = _
    rw [ih _ fun t hm => h t (List.mem_cons_of_mem _ hm), List.append_assoc, List.singleton_append]

theorem WellFormed.commentsOf {d : DeviceFile} (hd : d.WellFormed) (name : String)
    (key : Option String) : ∀ text ∈ d.commentsOf name key, IsComment text := by
  intro text ht
  obtain ⟨cs, hcs, hmem⟩ := mem_getD_comments ht
  exact hd.comments _ cs hcs text hmem

/-- An entry is read behind its comments. -/
theorem addLines_entryLines {d f : DeviceFile} (hd : d.WellFormed) (ht : f.trailing = [])
    (name : String) {key : String} {value : Option String} (hflag : value = none → IsFlag key) :
    Document.addLines f (d.entryLines name (key, value)) =
      .ok ({ f with trailing := d.commentsOf name (some key) }.addEntry key value) := by
  show Document.addLines f
    ((d.commentsOf name (some key) ++ [entryLine key value]).map (indent name ++ ·)) = _
  rw [addLines_indent, Document.addLines_append_of_ok (addLines_comments f (hd.commentsOf name _)),
    ht, List.nil_append, Document.addLines_cons, addLine_entryLine _ hflag]
  rfl

/-- A header is read behind its comments. -/
theorem addLines_header {d f : DeviceFile} (hd : d.WellFormed) (ht : f.trailing = [])
    {name : String} (hplain : PlainName name) (hne : name ≠ globalSection) :
    Document.addLines f (d.commentsOf name none ++ [sectionHeader name]) =
      .ok ({ f with trailing := d.commentsOf name none }.enter name) := by
  rw [Document.addLines_append_of_ok (addLines_comments f (hd.commentsOf name none)), ht,
    List.nil_append, Document.addLines_cons, addLine_sectionHeader _ hplain hne]
  rfl

/-! ## Reading on -/

/-- The sections of `f` were read from lines of `d`, each header and entry with its comments. -/
structure Resumes (d f : DeviceFile) : Prop where
  trailing : f.trailing = []
  comments : ∀ name key, f.sections.HasSlot (name, key) →
    f.comments.get? (name, key) = attached (d.commentsOf name key)
  fresh : ∀ slot, ¬f.sections.HasSlot slot → f.comments.get? slot = none

theorem resumes_empty (d : DeviceFile) : Resumes d empty where
  trailing := rfl
  comments name key h := by
    cases key with
    | none =>
      obtain ⟨hne, hmem⟩ := h
      rw [keys_empty, List.mem_singleton] at hmem
      exact absurd hmem hne
    | some key =>
      obtain ⟨value, hv⟩ := h
      simp [lookup?_empty] at hv
  fresh slot _ := by simp [empty]

/-- Comments that are put at a slot without comments. -/
theorem comments_attachComments_of_fresh {f : DeviceFile} {name : String} {key : Option String}
    (hfresh : f.comments.get? (name, key) = none) (slot : String × Option String) :
    (f.attachComments name key).comments.get? slot =
      if slot = (name, key) then attached f.trailing else f.comments.get? slot := by
  rw [comments_attachComments, OrderedMap.getD, hfresh, Option.getD_none, List.nil_append, attached]
  by_cases hs : slot = (name, key)
  · subst hs
    by_cases ht : f.trailing = []
    · simp [ht, hfresh]
    · simp [ht]
  · simp [hs]

/-- One more slot is read. -/
theorem Resumes.attachComments {d f g : DeviceFile} (hr : Resumes d f) {name : String}
    {key : Option String} (hnew : ¬f.sections.HasSlot (name, key))
    (hcomments : g.comments = f.comments) (htrailing : g.trailing = d.commentsOf name key)
    (hslots : ∀ slot, g.sections.HasSlot slot ↔ f.sections.HasSlot slot ∨ slot = (name, key)) :
    Resumes d (g.attachComments name key) := by
  have hfresh : g.comments.get? (name, key) = none := by
    rw [hcomments]
    exact hr.fresh _ hnew
  have hget := comments_attachComments_of_fresh hfresh
  refine ⟨trailing_attachComments g name key, fun name' key' h => ?_, fun slot h => ?_⟩
  · rw [sections_attachComments, hslots] at h
    rw [hget]
    by_cases hs : (name', key') = (name, key)
    · rw [if_pos hs, htrailing]
      rw [Prod.mk.injEq] at hs
      rw [hs.1, hs.2]
    · rw [if_neg hs, hcomments]
      exact hr.comments name' key' (h.resolve_right hs)
  · rw [sections_attachComments, hslots, not_or] at h
    rw [hget, if_neg h.2, hcomments]
    exact hr.fresh slot h.1

/-- Reading may go on with an entry that is new. -/
theorem Resumes.addEntry {d f : DeviceFile} (hr : Resumes d f)
    (hcur : f.current ∈ f.sections.keys) {key : String}
    (hnew : f.sections.lookup? f.current key = none) (value : Option String) :
    Resumes d ({ f with trailing := d.commentsOf f.current (some key) }.addEntry key value) := by
  refine hr.attachComments ?_ rfl rfl fun slot => Sections.hasSlot_setValue hcur
  rintro ⟨v, hv⟩
  rw [hnew] at hv
  exact absurd hv (by simp)

/-- Reading may go on with a section that is new. -/
theorem Resumes.enter {d f : DeviceFile} (hr : Resumes d f) {name : String}
    (hnew : name ∉ f.sections.keys) (hne : name ≠ globalSection) :
    Resumes d ({ f with trailing := d.commentsOf name none }.enter name) := by
  unfold DeviceFile.enter
  rw [if_neg fun hc => hnew (OrderedMap.contains_iff.mp hc)]
  refine hr.attachComments ?_ rfl rfl fun slot => Sections.hasSlot_insert_empty hnew hne
  exact fun h => hnew h.2

/-- The entries of a section are read into the last section. -/
theorem addLines_entries {d : DeviceFile} (hd : d.WellFormed) {before : List (String × Section)}
    {name : String} {entries : List (String × Option String)}
    (hflags : ∀ key, (key, none) ∈ entries → IsFlag key) {f : DeviceFile} {done : Section}
    (hr : Resumes d f) (hcur : f.current = name)
    (hs : f.sections.entries = before ++ [(name, done)])
    (hnodup : ((done.entries ++ entries).map (·.1)).Nodup) :
    ∃ f' filled, Document.addLines f (entries.flatMap (d.entryLines name)) = .ok f' ∧
      Resumes d f' ∧ f'.sections.entries = before ++ [(name, filled)] ∧
      filled.entries = done.entries ++ entries := by
  induction entries generalizing f done with
  | nil => exact ⟨f, done, rfl, hr, hs, (List.append_nil _).symm⟩
  | cons entry entries ih =>
    obtain ⟨key, value⟩ := entry
    subst hcur
    -- the key is new in its section, so it has no comments yet and is added at the end
    have hmem : (f.current, done) ∈ f.sections.entries := by simp [hs]
    have hcurrent : f.current ∈ f.sections.keys := List.mem_map_of_mem hmem
    have hkey : key ∉ done.keys := by
      rw [List.map_append, List.nodup_append] at hnodup
      intro hk
      exact hnodup.2.2 key hk key (by simp) rfl
    have hnew : f.sections.lookup? f.current key = none := by
      rw [Sections.lookup?, OrderedMap.getD_of_mem hmem]
      exact OrderedMap.get?_eq_none_iff.mpr hkey
    have hflag : value = none → IsFlag key := by
      rintro rfl
      exact hflags key List.mem_cons_self
    have hline := addLines_entryLines hd hr.trailing f.current hflag
    have hr' := hr.addEntry hcurrent hnew value
    have hs' : ({ f with trailing := d.commentsOf f.current (some key) }.addEntry key
        value).sections.entries = before ++ [(f.current, done.insert key value)] := by
      rw [sections_addEntry]
      exact Sections.entries_setValue_last hs key value
    have hdone : (done.insert key value).entries = done.entries ++ [(key, value)] :=
      OrderedMap.entries_insert_of_not_mem hkey value
    obtain ⟨f', filled, hlines, hrest, hsec, hfilled⟩ :=
      ih (fun k hk => hflags k (List.mem_cons_of_mem _ hk)) hr' (current_addEntry _ key value) hs'
        (by rw [hdone, List.append_assoc]; exact hnodup)
    refine ⟨f', filled, ?_, hrest, hsec, ?_⟩
    · rw [List.flatMap_cons, Document.addLines_append_of_ok hline]
      exact hlines
    · rw [hfilled, hdone, List.append_assoc, List.singleton_append]

/-- The sections are read one after the other. -/
theorem addLines_sections {d : DeviceFile} (hd : d.WellFormed) {rest : List (String × Section)}
    (hplain : ∀ p ∈ rest, p.1 ≠ globalSection ∧ PlainName p.1)
    {before : List (String × Section)} (hall : before ++ rest = d.sections.entries)
    {f : DeviceFile} (hr : Resumes d f) (hs : f.sections.entries = before) (started : Bool) :
    ∃ f', Document.addLines f (d.renderSections started rest) = .ok f' ∧
      Resumes d f' ∧ f'.sections.entries = d.sections.entries := by
  induction rest generalizing f before started with
  | nil =>
    rw [List.append_nil] at hall
    exact ⟨f, rfl, hr, hs.trans hall⟩
  | cons p rest ih =>
    obtain ⟨name, entries⟩ := p
    obtain ⟨hne, hname⟩ := hplain _ List.mem_cons_self
    have hnew : name ∉ f.sections.keys := by
      have hnodup := d.sections.nodup_keys
      rw [← hall, List.map_append, List.nodup_append] at hnodup
      intro hn
      rw [OrderedMap.keys, hs] at hn
      exact hnodup.2.2 name hn name (by simp) rfl
    have hflags : ∀ key, (key, none) ∈ entries.entries → IsFlag key := by
      intro key hk
      refine hd.flags name key (Sections.lookup?_of_mem ?_ hk)
      rw [← hall]
      simp
    -- the header opens an empty section at the end
    have hheader := addLines_header hd hr.trailing hname hne
    have hr' := hr.enter hnew hne
    have hs' : ({ f with trailing := d.commentsOf name none }.enter name).sections.entries =
        before ++ [(name, ∅)] := by
      rw [sections_enter, if_neg hnew, ← hs]
      exact OrderedMap.entries_insert_of_not_mem hnew ∅
    obtain ⟨g, filled, hentries, hg, hsec, hfilled⟩ :=
      addLines_entries hd hflags hr' (current_enter _ name) hs' entries.nodup_keys
    rw [OrderedMap.ext hfilled] at hsec
    obtain ⟨f', hlines, hf', hsections⟩ :=
      ih (fun p hp => hplain p (List.mem_cons_of_mem _ hp)) (by simpa using hall) hg hsec
        (started || !(d.sectionLines name entries).isEmpty)
    refine ⟨f', ?_, hf', hsections⟩
    have hblank :
        Document.addLines f (if name ≠ globalSection ∧ started then [""] else []) = .ok f := by
      split
      · exact Document.addLine_of_ofLine Content.ofLine_empty f
      · rfl
    have hsection : Document.addLines f (d.sectionLines name entries) = .ok g := by
      rw [sectionLines, if_neg hne, Document.addLines_append_of_ok hheader, hentries]
    rw [renderSections, List.append_assoc, Document.addLines_append_of_ok hblank,
      Document.addLines_append_of_ok hsection, hlines]

/-- The global section comes first, and no section behind it has its name. -/
theorem WellFormed.exists_entries_eq {d : DeviceFile} (hd : d.WellFormed) :
    ∃ rest, d.sections.entries = (globalSection, d.sections.getD globalSection ∅) :: rest ∧
      ∀ p ∈ rest, p.1 ≠ globalSection := by
  have hfirst := hd.global_first
  have hnodup := d.sections.nodup_keys
  rw [OrderedMap.keys] at hfirst
  cases hentries : d.sections.entries with
  | nil => simp [hentries] at hfirst
  | cons p rest =>
    rw [hentries, List.map_cons, List.head?_cons, Option.some.injEq] at hfirst
    have hp : (globalSection, p.2) ∈ d.sections.entries := by
      rw [hentries, ← hfirst]
      exact List.mem_cons_self
    rw [OrderedMap.getD_of_mem hp, ← hfirst]
    refine ⟨rest, rfl, fun q hq he => ?_⟩
    rw [hentries, List.map_cons, List.nodup_cons, ← he] at hnodup
    exact hnodup.1 (List.mem_map_of_mem hq)

/-- **A file is read back from its lines if all names are plain.** -/
theorem addLines_render {d : DeviceFile} (hd : d.WellFormed)
    (hplain : ∀ name ∈ d.sections.keys, name ≠ globalSection → PlainName name) :
    ∃ f : DeviceFile, Document.addLines Document.empty (Document.render d) = .ok f ∧
      f.sections = d.sections ∧ f.trailing = d.trailing ∧
      (∀ name key, d.sections.HasSlot (name, key) →
        f.comments.get? (name, key) = attached (d.commentsOf name key)) ∧
      ∀ slot, ¬d.sections.HasSlot slot → f.comments.get? slot = none := by
  obtain ⟨rest, hall, hnames⟩ := hd.exists_entries_eq
  have hrest : ∀ p ∈ rest, p.1 ≠ globalSection ∧ PlainName p.1 := by
    intro p hp
    refine ⟨hnames p hp, hplain p.1 ?_ (hnames p hp)⟩
    rw [OrderedMap.keys, hall]
    exact List.mem_cons_of_mem _ (List.mem_map_of_mem hp)
  have hflags : ∀ key, (key, none) ∈ (d.sections.getD globalSection ∅).entries → IsFlag key := by
    intro key hk
    refine hd.flags globalSection key (Sections.lookup?_of_mem ?_ hk)
    rw [hall]
    exact List.mem_cons_self
  -- the global section has no header: its entries are read into that of the empty file
  obtain ⟨g, filled, hentries, hg, hsec, hfilled⟩ :=
    addLines_entries hd hflags (resumes_empty d) (show empty.current = globalSection from rfl)
      (List.nil_append _).symm
      (d.sections.getD globalSection ∅).nodup_keys
  rw [OrderedMap.ext hfilled, List.nil_append] at hsec
  obtain ⟨f, hlines, hf, hsections⟩ :=
    addLines_sections hd hrest hall.symm hg hsec
      (false || !(d.sectionLines globalSection (d.sections.getD globalSection ∅)).isEmpty)
  have hrender : Document.addLines empty (d.renderSections false d.sections.entries) = .ok f := by
    have hglobal : d.sectionLines globalSection (d.sections.getD globalSection ∅) =
        (d.sections.getD globalSection ∅).entries.flatMap (d.entryLines globalSection) := by
      rw [sectionLines, if_pos rfl, List.nil_append]
    rw [hall, renderSections, if_neg (by simp), List.nil_append, hglobal,
      Document.addLines_append_of_ok hentries, ← hglobal]
    exact hlines
  -- what is left are the comments behind the last section, which wait for nothing
  have heq : f.sections = d.sections := OrderedMap.ext hsections
  refine ⟨{ f with trailing := d.trailing }, ?_, heq, rfl, fun name key h => ?_, fun slot h => ?_⟩
  · show Document.addLines empty (d.renderSections false d.sections.entries ++ d.trailing) = _
    rw [Document.addLines_append_of_ok hrender, addLines_comments f hd.trailing, hf.trailing,
      List.nil_append]
  · exact hf.comments name key (heq ▸ h)
  · exact hf.fresh slot (heq ▸ h)

end DeviceFile

end UpsSetup
