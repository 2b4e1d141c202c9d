import UpsSetup.Proofs.Assignments
import UpsSetup.Proofs.Headers

/-!
# What the lines of a file say about the mode

A key is written as it is, only its value is quoted. So what a file says about the mode when it is
read again is a question about its keys: each is read from its line, and the last line that is taken
for the mode counts (`Assignments.Shows`, `Assignments.shows_set_iff`). Where all other keys are
plain this is the mode that was set (`Assignments.shows_setMode_of_plain`).
-/

namespace UpsSetup

open Text Line

namespace Assignments

variable {f : Assignments}

/-! ## Words for the mode -/

/-- What a line says about the mode, if it is not rejected. -/
def modeWord (line : String) : Except LineFault (Option String) :=
  (·.values.get? modeKey) <$> Document.addLine (Document.empty : Assignments) line

/-- What lines say about the mode if the lines before them say `word`: the last word counts. -/
def modeWords (word : Option String) (lines : List String) : Except LineFault (Option String) :=
  lines.foldlM (fun word line => (·.or word) <$> modeWord line) word

theorem modeWords_cons (word : Option String) (line : String) (lines : List String) :
    modeWords word (line :: lines) =
      (·.or word) <$> modeWord line >>= fun word => modeWords word lines := rfl

/-- The lines can be gone through in two parts, and the later word counts. -/
theorem modeWords_append (word : Option String) (ls ms : List String) :
    modeWords word (ls ++ ms) = modeWords word ls >>= fun word => modeWords word ms :=
  List.foldlM_append

/-- A comment says nothing about the mode. -/
theorem modeWord_comment {text : String} (h : IsComment text) : modeWord text = .ok none := by
  rw [modeWord, Document.addLine_of_ofLine (Content.ofLine_comment h)]
  rfl

/-- A line that says something about the mode replaces what was found under its key. -/
theorem map_addLine (f : Assignments) (line : String) :
    (·.values.get? modeKey) <$> Document.addLine f line =
      (·.or (f.values.get? modeKey)) <$> modeWord line := by
  unfold modeWord Document.addLine
  cases Content.ofLine line with
  | error fault => rfl
  | ok c =>
    cases c with
    | blank => rfl
    | comment text => rfl
    | tokens first rest =>
      show _ <$> addTokens f first rest = _ <$> _ <$> addTokens Document.empty first rest
      unfold addTokens
      cases assignment? first rest with
      | none => rfl
      | some p =>
        show Except.ok ((f.values.insert p.1 p.2).get? modeKey) = Except.ok
          (((∅ : OrderedMap String String).insert p.1 p.2).get? modeKey |>.or _)
        rw [OrderedMap.get?_insert, OrderedMap.get?_insert]
        by_cases h : modeKey = p.1
        · rw [if_pos h, if_pos h, Option.some_or]
        · rw [if_neg h, if_neg h, OrderedMap.get?_empty, Option.none_or]

/-- **What a reading says about the mode is what its lines say.** -/
theorem map_addLines (f : Assignments) (lines : List String) :
    (·.values.get? modeKey) <$> Document.addLines f lines =
      modeWords (f.values.get? modeKey) lines := by
  induction lines generalizing f with
  | nil => rfl
  | cons line lines ih =>
    have hline := map_addLine f line
    rw [Document.addLines_cons, modeWords_cons, ← hline]
    cases Document.addLine f line with
    | error fault => rfl
    | ok g => exact ih g

/-- Comments say nothing. -/
theorem modeWords_written {values : OrderedMap String String} {ls : List AssignmentLine}
    (h : ∀ text, .comment text ∈ ls → IsComment text) (word : Option String) :
    modeWords word (ls.map (renderLine values)) = modeWords word
      ((ls.filterMap AssignmentLine.key?).map fun k => assign k (values.getD k "")) := by
  induction ls generalizing word with
  | nil => rfl
  | cons l ls ih =>
    have hrest := fun word => ih (fun text ht => h text (List.mem_cons_of_mem _ ht)) word
    cases l with
    | comment text =>
      rw [List.map_cons, modeWords_cons, renderLine, modeWord_comment (h text List.mem_cons_self)]
      exact hrest word
    | key k =>
      rw [List.filterMap_cons_some (AssignmentLine.key?_key k), List.map_cons, List.map_cons,
        modeWords_cons, modeWords_cons]
      exact bind_congr hrest

/-- The lines are accepted when each of them is. -/
theorem exists_modeWords_iff (word : Option String) {lines : List String} :
    (∃ word', modeWords word lines = .ok word') ↔ ∀ l ∈ lines, ∃ said, modeWord l = .ok said := by
  induction lines generalizing word with
  | nil => exact iff_of_true ⟨word, rfl⟩ fun l hl => absurd hl List.not_mem_nil
  | cons line lines ih =>
    rw [modeWords_cons, List.forall_mem_cons]
    cases h : modeWord line with
    | error fault =>
      refine iff_of_false ?_ ?_
      · rintro ⟨word', h'⟩
        obtain ⟨_, hline, -⟩ := Result.bind_eq_ok_iff.mp h'
        obtain ⟨_, hsaid, -⟩ := Result.map_eq_ok_iff.mp hline
        simp at hsaid
      · rintro ⟨⟨said, hsaid⟩, -⟩
        simp at hsaid
    | ok said => exact (ih _).trans (and_iff_right ⟨said, rfl⟩).symm

theorem modeWords_of_none {word : Option String} {lines : List String}
    (h : ∀ l ∈ lines, modeWord l = .ok none) : modeWords word lines = .ok word := by
  induction lines with
  | nil => rfl
  | cons line lines ih =>
    rw [List.forall_mem_cons] at h
    rw [modeWords_cons, h.1]
    exact ih h.2

/-- Lines say a word if none is rejected and it is that of the last line that says one. -/
theorem modeWords_eq_some_iff {lines : List String} {word : String} :
    modeWords none lines = .ok (some word) ↔ ∃ before line after, lines = before ++ line :: after ∧
      (∀ l ∈ before, ∃ said, modeWord l = .ok said) ∧ modeWord line = .ok (some word) ∧
        ∀ l ∈ after, modeWord l = .ok none := by
  constructor
  · intro h
    induction lines using List.reverseRecOn with
    | nil => simp [modeWords, pure, Except.pure] at h
    | append_singleton lines line ih =>
      rw [modeWords_append] at h
      obtain ⟨earlier, hearlier, hline⟩ := Result.bind_eq_ok_iff.mp h
      rw [modeWords_cons] at hline
      obtain ⟨word', hword, hend⟩ := Result.bind_eq_ok_iff.mp hline
      obtain ⟨said, hsaid, hor⟩ := Result.map_eq_ok_iff.mp hword
      obtain rfl : word' = some word := Except.ok.inj hend
      cases said with
      | none =>
        obtain rfl : earlier = some word := hor
        obtain ⟨before, l, after, rfl, hbefore, hl, hafter⟩ := ih hearlier
        refine ⟨before, l, after ++ [line], by simp, hbefore, hl, fun l' hl' => ?_⟩
        rcases List.mem_append.mp hl' with hl' | hl'
        · exact hafter l' hl'
        · rw [List.mem_singleton.mp hl', hsaid]
      | some said =>
        obtain rfl : said = word := Option.some.inj hor
        exact ⟨lines, line, [], rfl, (exists_modeWords_iff none).mp ⟨earlier, hearlier⟩, hsaid,
          fun l hl => absurd hl List.not_mem_nil⟩
  · rintro ⟨before, line, after, rfl, hbefore, hline, hafter⟩
    obtain ⟨earlier, hearlier⟩ := (exists_modeWords_iff none).mpr hbefore
    have hrest : modeWords earlier (line :: after) = .ok (some word) := by
      rw [modeWords_cons, hline]
      show modeWords ((some word).or earlier) after = _
      rw [Option.some_or, modeWords_of_none hafter]
    rw [modeWords_append]
    exact Result.bind_eq_ok_iff.mpr ⟨earlier, hearlier, hrest⟩

/-- The lines of the keys. -/
def keyLines (f : Assignments) : List String := f.values.entries.map fun p => assign p.1 p.2

theorem keyLines_eq (f : Assignments) :
    f.keyLines = f.values.keys.map fun k => assign k (f.values.getD k "") := by
  rw [OrderedMap.keys, List.map_map]
  refine List.map_congr_left fun p hp => ?_
  show assign p.1 p.2 = assign p.1 (f.values.getD p.1 "")
  rw [OrderedMap.getD_of_mem hp]

/-- When the lines of the keys are read again, none is rejected, and the last one that says a word
about the mode says this one. -/
def Shows (f : Assignments) (word : String) : Prop :=
  ∃ before line after, f.keyLines = before ++ line :: after ∧
    (∀ l ∈ before, ∃ said, modeWord l = .ok said) ∧ modeWord line = .ok (some word) ∧
      ∀ l ∈ after, modeWord l = .ok none

/-- A file shows one word for the mode. -/
theorem Shows.unique {word word' : String} (h : f.Shows word) (h' : f.Shows word') :
    word = word' := by
  rw [Shows, ← modeWords_eq_some_iff] at h h'
  exact Option.some.inj (Except.ok.inj (h.symm.trans h'))

/-- What a file that was changed says when it is read again is what the lines of its keys say. -/
theorem shows_set_iff (hf : f.Reached) {k v word : String} :
    (f.set k v).Shows word ↔ ∃ g : Assignments,
      Document.addLines Document.empty (Document.render (f.set k v)) = .ok g ∧
        g.values.get? modeKey = some word := by
  have hlines : modeWords none (Document.render (f.set k v)) =
      modeWords none (f.set k v).keyLines := by
    rw [render_eq, modeWords_written (fun text => isComment_of_mem_written hf),
      filterMap_written_set hf, keyLines_eq]
  have hempty : (Document.empty : Assignments).values.get? modeKey = none := rfl
  have hread := map_addLines Document.empty (Document.render (f.set k v))
  rw [hempty] at hread
  rw [Shows, ← modeWords_eq_some_iff, ← hlines, ← hread, Result.map_eq_ok_iff]

/-! ## Plain keys -/

/-- A key that is read back as it is written, without quotes. -/
def PlainKey (key : String) : Prop := key = "=" ∨ key ≠ "" ∧ PlainName key

instance (key : String) : Decidable (PlainKey key) :=
  inferInstanceAs (Decidable (key = "=" ∨ key ≠ "" ∧ PlainName key))

theorem words_quotePieces_of_equals (v : String) :
    words (.equals :: quotePieces v) = [['='], v.toList] := by
  rw [words_equals, words_quotePieces]

theorem tokenize_assign {k : String} (h : PlainKey k) (v : String) :
    tokenize (assign k v) = .ok [k, "=", v] := by
  have hcloses : Closes (assign k v).toList := by
    rw [toList_assign, List.append_cons]
    exact (closes_quote v).append _
  rcases h with rfl | ⟨hne, hplain⟩
  · have hscan : scan false (assign "=" v).toList = .ok (.equals :: .equals :: quotePieces v) := by
      rw [toList_assign]
      show scan false ('=' :: '=' :: (quote v).toList) = _
      rw [scan_equals, scan_equals, scan_quote_self]
      rfl
    rw [tokenize_of_scan hcloses hscan, words_equals, words_quotePieces_of_equals]
    simp
  · have hscan : scan false (assign k v).toList =
        .ok (charParts k.toList ++ .equals :: quotePieces v) := by
      rw [toList_assign, scan_plain_append hplain, scan_equals, scan_quote_self]
      rfl
    have hwords : words (charParts k.toList ++ .equals :: quotePieces v) =
        [k.toList, ['='], v.toList] := by
      rw [words, join_charParts fun h => hne (String.toList_eq_nil_iff.mp h)]
      have hrest := words_quotePieces_of_equals v
      rw [words] at hrest
      simpa [join] using hrest
    rw [tokenize_of_scan hcloses hscan, hwords]
    simp

/-- The line of a plain key is read as the key, an equals sign and its value. -/
theorem ofLine_assign {k : String} (h : PlainKey k) (v : String) :
    Content.ofLine (assign k v) = .ok (.tokens k ["=", v]) := by
  have hopens : Opens (assign k v).toList := by
    rw [toList_assign]
    rcases h with rfl | ⟨hne, hplain⟩
    · exact ⟨'=', _, rfl, by decide, by decide⟩
    · obtain ⟨c, cs, hk⟩ := List.exists_cons_of_ne_nil fun h => hne (String.toList_eq_nil_iff.mp h)
      obtain ⟨hb, -, hs, -⟩ := hplain c (by simp [hk])
      rw [hk]
      exact ⟨c, _, rfl, hb, hs⟩
  refine Content.ofLine_of_tokenize ?_ (tokenize_assign h v)
  rwa [Content.dropWhile_of_opens hopens]

/-- The line of a plain key says something about the mode only if the key is that of the mode. -/
theorem modeWord_assign {k : String} (h : PlainKey k) (v : String) :
    modeWord (assign k v) = .ok (if k = modeKey then some v else none) := by
  rw [modeWord, Document.addLine_of_ofLine (ofLine_assign h v)]
  show Except.ok (((∅ : OrderedMap String String).insert k v).get? modeKey) = _
  rw [OrderedMap.get?_insert, OrderedMap.get?_empty]
  exact congrArg _ (if_congr eq_comm rfl rfl)

/-- **A mode that is set shows if the other keys are plain.** -/
theorem shows_setMode_of_plain {m : Mode}
    (h : ∀ k ∈ f.values.keys, k = modeKey ∨ PlainKey k) : (f.setMode m).Shows m.name := by
  have hmode : PlainKey modeKey := by decide
  have hplain : ∀ k ∈ (f.setMode m).values.keys, PlainKey k := by
    intro k hk
    rcases OrderedMap.mem_keys_insert.mp hk with rfl | hk
    · exact hmode
    · exact (h k hk).elim (fun he => he ▸ hmode) id
  have hmem : (modeKey, m.name) ∈ (f.setMode m).values.entries := by
    refine OrderedMap.get?_eq_some_iff.mp ?_
    show (f.values.insert modeKey m.name).get? modeKey = _
    rw [OrderedMap.get?_insert, if_pos rfl]
  obtain ⟨before, after, hsplit⟩ := List.append_of_mem hmem
  have hwords : ∀ p ∈ (f.setMode m).values.entries,
      modeWord (assign p.1 p.2) = .ok (if p.1 = modeKey then some p.2 else none) :=
    fun p hp => modeWord_assign (hplain p.1 (List.mem_map_of_mem hp)) p.2
  have hnodup := (f.setMode m).values.nodup_keys
  rw [hsplit, List.map_append, List.map_cons] at hnodup
  refine ⟨before.map fun p => assign p.1 p.2, assign modeKey m.name,
    after.map fun p => assign p.1 p.2, ?_, ?_, ?_, ?_⟩
  · rw [keyLines, hsplit, List.map_append, List.map_cons]
  · intro l hl
    obtain ⟨p, hp, rfl⟩ := List.mem_map.mp hl
    exact ⟨_, hwords p (by simp [hsplit, hp])⟩
  · rw [modeWord_assign hmode, if_pos rfl]
  · intro l hl
    obtain ⟨p, hp, rfl⟩ := List.mem_map.mp hl
    have hne : p.1 ≠ modeKey := fun he =>
      (List.nodup_cons.mp (List.nodup_append.mp hnodup).2.1).1 (List.mem_map.mpr ⟨p, hp, he⟩)
    rw [hwords p (by simp [hsplit, hp]), if_neg hne]

/-! ## Modes of a machine with configuration -/

/-- The word stands for the mode of a machine with configuration. -/
def Configures (word : String) : Prop :=
  ∃ mode, Mode.ofName? (trim word).toLower = some mode ∧ mode ≠ .none

/-- The word for a mode is read as this mode. -/
theorem ofName?_trim_name (m : Mode) : Mode.ofName? (trim m.name).toLower = some m := by
  cases m <;> decide +kernel

theorem configures_name_iff {m : Mode} : Configures m.name ↔ m ≠ .none := by
  simp [Configures, ofName?_trim_name]

/-- A machine counts as configured when the mode is known and not `none`. -/
theorem isConfigured_iff_mode? :
    f.isConfigured = true ↔ ∃ mode, f.mode? = some mode ∧ mode ≠ .none := by
  unfold isConfigured
  split
  next h => simp [h]
  next h => simp [h]
  next mode hne h => simpa [h] using hne

theorem isConfigured_iff : f.isConfigured = true ↔
    ∃ word, f.values.get? modeKey = some word ∧ Configures word := by
  rw [isConfigured_iff_mode?, mode?, OrderedMap.getD]
  cases f.values.get? modeKey with
  | none =>
    -- without a word there is no mode
    have hempty : Mode.ofName? (trim "").toLower = none := by decide +kernel
    simp [hempty]
  | some word => simp [Configures]

end Assignments

end UpsSetup
