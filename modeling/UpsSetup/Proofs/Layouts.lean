import UpsSetup.Proofs.Comments
import UpsSetup.Proofs.Places
import UpsSetup.Proofs.Prefixes

/-!
# The layout of a file of assignments

Values and layout of a file change independently: a reading replaces both, and every other change
touches the values alone. What is written after any changes is therefore said by two things, the
values and the lines that the last reading took (`Assignments.lastRead`). A line of these is written
again at its place if it is a comment, or if its key has a value and stands on no line before it
(`Assignments.shownAt?`); the other keys come last. The text of a line is the comment or the key
with its value (`Assignments.Renders`), and **`Assignments.render_run`** says that the file is the
texts of these lines, one after the other.
-/

namespace UpsSetup

open Text Line

/-! ## Single lines -/

theorem filterMap_singleton {α β : Type} (f : α → Option β) (a : α) :
    [a].filterMap f = (f a).toList := by
  rw [List.filterMap_cons]
  cases f a with
  | none => rfl
  | some b => rfl

namespace AssignmentLine

/-- What the content of a line is laid out as: a comment, the key of an assignment, or nothing. -/
def ofContent? : Content → Option AssignmentLine
  | .blank => none
  | .comment text => some (.comment text)
  | .tokens first rest => (Assignments.assignment? first rest).map fun p => .key p.1

/-- What a line is laid out as. -/
def ofLine? (line : String) : Option AssignmentLine :=
  (Content.ofLine line).toOption.bind ofContent?

theorem ofLine?_of_ofLine {line : String} {c : Content} (h : Content.ofLine line = .ok c) :
    ofLine? line = ofContent? c := by
  rw [ofLine?, h]
  rfl

theorem comment?_ofContent? (c : Content) : (ofContent? c).bind comment? = c.comment? := by
  cases c with
  | blank => rfl
  | comment text => rfl
  | tokens first rest =>
    rw [ofContent?]
    cases Assignments.assignment? first rest <;> rfl

end AssignmentLine

namespace Assignments

variable {f f' : Assignments} {line : String} {lines : List String}

/-- The line is not rejected. What the file holds does not matter for that. -/
def accepts (line : String) : Bool := (Document.addLine (Document.empty : Assignments) line).isOk

/-- Whether a line is accepted does not depend on what was read before. -/
theorem accepts_of_addLine (h : Document.addLine f line = .ok f') : accepts line = true := by
  unfold accepts
  cases hempty : Document.addLine (Document.empty : Assignments) line with
  | ok g => rfl
  | error fault =>
    rw [Document.rejects_of_addLine hempty f] at h
    simp at h

theorem not_accepts_of_addLine {fault : LineFault} (h : Document.addLine f line = .error fault) :
    ¬accepts line = true := by
  unfold accepts
  rw [Document.rejects_of_addLine h Document.empty]
  simp [Except.isOk, Except.toBool]

/-- A line that is accepted comes last in the layout, unless it is blank. -/
theorem layout_of_addLine (h : Document.addLine f line = .ok f') :
    f'.layout = f.layout ++ (AssignmentLine.ofLine? line).toList := by
  obtain ⟨c, hc, hf⟩ := Document.addLine_eq_ok_iff.mp h
  rw [AssignmentLine.ofLine?_of_ofLine hc]
  cases c with
  | blank =>
    cases hf
    exact (List.append_nil _).symm
  | comment text =>
    cases hf
    rfl
  | tokens first rest =>
    change addTokens f first rest = .ok f' at hf
    unfold addTokens at hf
    split at hf
    next k v hkv =>
      cases hf
      rw [AssignmentLine.ofContent?, hkv]
      rfl
    next => simp at hf

/-- **A reading lays out the lines before the first that is rejected.** -/
theorem layout_extend (f : Assignments) (number : Nat) (lines : List String) :
    (Reading.extend f number lines).document.layout =
      f.layout ++ (lines.takeWhile accepts).filterMap AssignmentLine.ofLine? := by
  induction lines generalizing f number with
  | nil => exact (List.append_nil _).symm
  | cons line lines ih =>
    cases h : Document.addLine f line with
    | ok f' =>
      rw [Reading.extend_cons_of_ok h, ih, layout_of_addLine h,
        List.takeWhile_cons_of_pos (accepts_of_addLine h), List.append_assoc,
        ← filterMap_singleton, ← List.filterMap_append, List.singleton_append]
    | error fault =>
      rw [Reading.extend_cons_of_error h, List.takeWhile_cons_of_neg (not_accepts_of_addLine h)]
      exact (List.append_nil _).symm

/-- The layout is what the lines up to the first that is rejected say. -/
theorem layout_parse (f : Assignments) (lines : List String) :
    (Document.parse f lines).document.layout =
      (lines.takeWhile accepts).filterMap AssignmentLine.ofLine? :=
  layout_extend Document.empty 1 lines

/-! ## Places -/

/-- What stands at a place among the lines. -/
def lineAt? (lines : List String) (i : Nat) : Option AssignmentLine :=
  lines[i]?.bind AssignmentLine.ofLine?

/-- What is written for the line at a place: a comment, or a key that has a value and stands at no
place before it. -/
def shownAt? (values : OrderedMap String String) (lines : List String) (i : Nat) :
    Option AssignmentLine :=
  match lineAt? lines i with
  | none => none
  | some (.comment text) => some (.comment text)
  | some (.key k) =>
    if values.contains k ∧ ∀ j < i, lineAt? lines j ≠ some (.key k) then some (.key k) else none

/-- What is written for the lines, place by place. -/
def shown (values : OrderedMap String String) (lines : List String) : List AssignmentLine :=
  (List.range lines.length).filterMap (shownAt? values lines)

/-- The keys that have a value and stand on none of the lines. -/
def unread (values : OrderedMap String String) (lines : List String) : List String :=
  values.keys.filter fun k => ∀ j < lines.length, lineAt? lines j ≠ some (.key k)

theorem lineAt?_append {i : Nat} (h : i < lines.length) (more : List String) :
    lineAt? (lines ++ more) i = lineAt? lines i := by
  rw [lineAt?, List.getElem?_append_left h, lineAt?]

theorem lineAt?_length (lines : List String) (line : String) :
    lineAt? (lines ++ [line]) lines.length = AssignmentLine.ofLine? line := by
  rw [lineAt?, List.getElem?_concat_length, Option.bind_some]

/-- What a line holds stands at one of the places. -/
theorem exists_lineAt?_iff {l : AssignmentLine} :
    (∃ i < lines.length, lineAt? lines i = some l) ↔
      l ∈ lines.filterMap AssignmentLine.ofLine? := exists_place_iff

variable {values : OrderedMap String String}

/-- A line at the end changes nothing at the places before it. -/
theorem shownAt?_append {i : Nat} (h : i < lines.length) (line : String) :
    shownAt? values (lines ++ [line]) i = shownAt? values lines i := by
  have hbefore : ∀ k, (∀ j < i, lineAt? (lines ++ [line]) j ≠ some (.key k)) ↔
      ∀ j < i, lineAt? lines j ≠ some (.key k) := fun k =>
    forall₂_congr fun j hj => by rw [lineAt?_append (Nat.lt_trans hj h)]
  unfold shownAt?
  rw [lineAt?_append h]
  simp only [hbefore]

/-- One more line shows itself at the end, and changes nothing about the lines before it. -/
theorem shown_append (lines : List String) (line : String) :
    shown values (lines ++ [line]) =
      shown values lines ++ (shownAt? values (lines ++ [line]) lines.length).toList := by
  unfold shown
  rw [List.length_append, List.length_singleton, List.range_succ, List.filterMap_append,
    List.filterMap_congr fun i hi => shownAt?_append (List.mem_range.mp hi) line,
    filterMap_singleton]

/-- **What is placed is said by the places of the lines.** -/
theorem placed_eq_shown (values : OrderedMap String String) (lines : List String) :
    placed values [] (lines.filterMap AssignmentLine.ofLine?) = shown values lines := by
  induction lines using List.reverseRecOn with
  | nil => rfl
  | append_singleton lines line ih =>
    have hbefore : ∀ k, (∀ j < lines.length, lineAt? (lines ++ [line]) j ≠ some (.key k)) ↔
        .key k ∉ lines.filterMap AssignmentLine.ofLine? := by
      intro k
      rw [← exists_lineAt?_iff]
      simp only [not_exists, not_and]
      exact forall₂_congr fun j hj => by rw [lineAt?_append hj]
    rw [shown_append, List.filterMap_append, ← ih, shownAt?, lineAt?_length]
    cases hline : AssignmentLine.ofLine? line with
    | none => simp [hline]
    | some l =>
      rw [List.filterMap_cons_some hline, List.filterMap_nil]
      cases l with
      | comment text => exact placed_append_comment text
      | key k =>
        rw [placed_append_key]
        simp only [hbefore, List.not_mem_nil, not_false_eq_true, true_and]
        split <;> rfl

/-- A file that was laid out by lines is written by their places. -/
theorem written_eq_shown (h : f.layout = lines.filterMap AssignmentLine.ofLine?) :
    f.written = shown f.values lines ++ (unread f.values lines).map .key := by
  have hunread : f.unplaced.map (·.1) = unread f.values lines := by
    rw [map_fst_unplaced, unread, h]
    refine List.filter_congr fun k _ => decide_eq_decide.mpr ?_
    rw [← exists_lineAt?_iff]
    simp
  rw [written, h, placed_eq_shown, ← hunread, List.map_map]
  rfl

/-! ## One line for each key -/

/-- A key has a line if it has a value, was not written earlier and is in the layout. -/
theorem mem_keys_placed_iff {values : OrderedMap String String} {earlier : List String}
    {layout : List AssignmentLine} {k : String} :
    k ∈ (placed values earlier layout).filterMap AssignmentLine.key? ↔
      values.contains k = true ∧ k ∉ earlier ∧ .key k ∈ layout := by
  fun_induction placed values earlier layout with
  | case1 => simp
  | case2 earlier text rest ih =>
    rw [List.filterMap_cons_none (AssignmentLine.key?_comment text), ih]
    simp
  | case3 earlier k' rest hk ih =>
    rw [List.filterMap_cons_some (AssignmentLine.key?_key k'), List.mem_cons, ih]
    simp only [List.mem_cons, AssignmentLine.key.injEq, not_or]
    by_cases h : k = k'
    · simp [h, hk]
    · simp [h]
  | case4 earlier k' rest hk ih =>
    rw [ih, List.mem_cons, AssignmentLine.key.injEq]
    refine and_congr_right fun hv => and_congr_right fun he => ?_
    refine (or_iff_right ?_).symm
    rintro rfl
    exact hk ⟨hv, he⟩

/-- No key is written twice. -/
theorem nodup_keys_placed {values : OrderedMap String String} {earlier : List String}
    {layout : List AssignmentLine} :
    ((placed values earlier layout).filterMap AssignmentLine.key?).Nodup := by
  fun_induction placed values earlier layout with
  | case1 => exact List.nodup_nil
  | case2 earlier text rest ih => exact ih
  | case3 earlier k rest hk ih =>
    rw [List.filterMap_cons_some (AssignmentLine.key?_key k), List.nodup_cons]
    refine ⟨fun hmem => ?_, ih⟩
    exact (mem_keys_placed_iff.mp hmem).2.1 List.mem_cons_self
  | case4 earlier k rest hk ih => exact ih

/-- **Each key with a value is written on one line, and no other key is.** -/
theorem keys_written_perm (f : Assignments) :
    (f.written.filterMap AssignmentLine.key?).Perm f.values.keys := by
  rw [filterMap_key?_written]
  refine (List.perm_ext_iff_of_nodup ?_ f.values.keys_nodup).mpr fun k => ?_
  · refine List.nodup_append.mpr ⟨nodup_keys_placed, f.values.keys_nodup.filter _, ?_⟩
    rintro k hk _ hk' rfl
    exact of_decide_eq_true (List.mem_filter.mp hk').2 (mem_keys_placed_iff.mp hk).2.2
  · rw [List.mem_append, mem_keys_placed_iff, List.mem_filter, OrderedMap.contains_iff]
    by_cases h : .key k ∈ f.layout <;> simp [h]

/-! ## Changes -/

/-- A change to a file of assignments. -/
inductive Change where
  | parse (lines : List String)
  | clear
  | set (key value : String)
  | unset (key : String)
  /-- Sets the mode that the word names, if it names one. -/
  | setMode (word : String)

/-- The file after a change. -/
def Change.apply (f : Assignments) : Change → Assignments
  | parse lines => (Document.parse f lines).document
  | clear => Clearable.clear f
  | set key value => f.set key value
  | unset key => f.unset key
  | setMode word =>
    match f.setModeNamed word with
    | .ok g => g
    | .error _ => f

/-- The lines that the last reading has taken after a change: all up to the first that is rejected.
A cleared file is as if it had never been read. -/
def Change.taken (earlier : List String) : Change → List String
  | parse lines => lines.takeWhile accepts
  | clear => []
  | set _ _ | unset _ | setMode _ => earlier

/-- The file after changes to an empty file. -/
def run (changes : List Change) : Assignments := changes.foldl Change.apply Document.empty

/-- The lines that the last of all readings has taken. -/
def lastRead (changes : List Change) : List String := changes.foldl Change.taken []

theorem run_append (changes : List Change) (c : Change) :
    run (changes ++ [c]) = c.apply (run changes) := List.foldl_concat ..

theorem lastRead_append (changes : List Change) (c : Change) :
    lastRead (changes ++ [c]) = c.taken (lastRead changes) := List.foldl_concat ..

/-- A word is taken only if it is the name of a mode. -/
theorem setModeNamed_eq_ok_iff {word : String} : f.setModeNamed word = .ok f' ↔
    ∃ mode : Mode, word = mode.name ∧ f' = f.setMode mode := by
  simp only [← Mode.ofName?_eq_some_iff]
  unfold setModeNamed
  cases Mode.ofName? word with
  | none => simp
  | some mode => simp [eq_comm]

/-- Only a reading and clearing change the layout. -/
theorem layout_apply (h : f.layout = lines.filterMap AssignmentLine.ofLine?) (c : Change) :
    (c.apply f).layout = (c.taken lines).filterMap AssignmentLine.ofLine? := by
  cases c with
  | parse lines => exact layout_parse f lines
  | clear => rfl
  | set key value => exact h
  | unset key => exact h
  | setMode word =>
    unfold Change.apply
    dsimp only
    split
    next g hg =>
      obtain ⟨mode, -, rfl⟩ := setModeNamed_eq_ok_iff.mp hg
      exact h
    next => exact h

/-- **The layout is that of the lines that the last reading has taken**, whatever was changed since
then. -/
theorem layout_run (changes : List Change) :
    (run changes).layout = (lastRead changes).filterMap AssignmentLine.ofLine? := by
  induction changes using List.reverseRecOn with
  | nil => rfl
  | append_singleton changes c ih =>
    rw [run_append, lastRead_append]
    exact layout_apply ih c

theorem filterMap_comment?_ofLine? (lines : List String) :
    (lines.filterMap AssignmentLine.ofLine?).filterMap AssignmentLine.comment? =
      commentsIn lines := by
  rw [List.filterMap_filterMap]
  induction lines with
  | nil => rfl
  | cons line lines ih =>
    have hline : commentsIn [line] =
        ((AssignmentLine.ofLine? line).bind AssignmentLine.comment?).toList := by
      cases hc : Content.ofLine line with
      | ok c =>
        rw [commentsIn_singleton hc, AssignmentLine.ofLine?_of_ofLine hc,
          AssignmentLine.comment?_ofContent?]
      | error fault =>
        -- a comment is never rejected
        have hsign : startsComment (trim line) = false := by
          refine Bool.eq_false_iff.mpr fun hs => ?_
          rw [Content.ofLine_of_trim rfl hs] at hc
          simp at hc
        rw [commentsIn_eq_nil (List.forall_mem_singleton.mpr hsign), AssignmentLine.ofLine?, hc]
        rfl
    rw [← List.singleton_append, commentsIn_append, ← ih, hline, List.filterMap_append,
      filterMap_singleton]

/-! ## The text of the lines -/

/-- The text that stands for a line: a comment as it was read, and a key with the value that it
has. -/
inductive Renders (values : OrderedMap String String) : AssignmentLine → String → Prop where
  /-- A comment is its own text. -/
  | comment (text : String) : Renders values (.comment text) text
  /-- A key is followed by an equals sign and the written form of its value. -/
  | key {k v : String} (h : values.get? k = some v) :
    Renders values (.key k) (k ++ "=" ++ quote v)

/-- A key that is written has a value. -/
theorem exists_get?_of_mem_written {k : String} (h : .key k ∈ f.written) :
    ∃ v, f.values.get? k = some v := by
  have hkey : k ∈ f.written.filterMap AssignmentLine.key? := List.mem_filterMap.mpr ⟨_, h, rfl⟩
  exact OrderedMap.exists_get?_of_mem_keys ((keys_written_perm f).mem_iff.mp hkey)

/-- **The file holds the text of each line that is written, and nothing else.** -/
theorem forall₂_render (f : Assignments) :
    List.Forall₂ (Renders f.values) f.written (Document.render f) := by
  rw [render_eq, List.forall₂_map_right_iff, List.forall₂_same]
  intro l hl
  cases l with
  | comment text => exact .comment text
  | key k =>
    obtain ⟨v, hv⟩ := exists_get?_of_mem_written hl
    rw [renderLine, OrderedMap.getD_of_mem (OrderedMap.get?_eq_some_iff.mp hv)]
    exact .key hv

/-- **A file is written with each comment and each key once, whatever changes were made to it.** The
lines that the last reading has taken come first, at their places and without those whose key has
lost its value or stands on a line before; then come the keys that stand on none of these lines, in
the order in which they were given values. Each stands on one line of the file: a comment as it was
read, and a key with an equals sign and the written form of the value that it has now. So the
comments of the last reading are written in their order and none twice, and every key that has a
value is written on one line. -/
theorem render_run (changes : List Change) :
    let f := run changes
    let lines := lastRead changes
    let written := shown f.values lines ++ (unread f.values lines).map .key
    List.Forall₂ (Renders f.values) written (Document.render f) ∧
      written.filterMap AssignmentLine.comment? = commentsIn lines ∧
      (written.filterMap AssignmentLine.key?).Perm f.values.keys := by
  intro f lines written
  have hwritten : f.written = written := written_eq_shown (layout_run changes)
  rw [← hwritten]
  refine ⟨forall₂_render f, ?_, keys_written_perm f⟩
  rw [filterMap_comment?_written, kept, layout_run, filterMap_comment?_ofLine?]

/-- A key that was read twice, lost its value and got another stands where it was first read, and
nothing is left of what was set before the reading or stands behind the line that is rejected. -/
theorem render_run_of_reread :
    let changes : List Change :=
      [.set "z" "0", .parse ["a=1", "# c", "b=2", "m=7", "a=3", "x y", "# d"], .unset "a",
        .unset "b", .set "n" "x y", .set "a" "4", .setMode "Manual", .setMode "manual"]
    let f := run changes
    let written : List AssignmentLine :=
      [.key "a", .comment "# c", .key "m", .key "n", .key "MODE"]
    List.Forall₂ (Renders f.values) written (Document.render f) ∧
      written.filterMap AssignmentLine.comment? = commentsIn ["a=1", "# c", "b=2", "m=7", "a=3"] ∧
      (written.filterMap AssignmentLine.key?).Perm f.values.keys ∧
      Document.render f = ["a=4", "# c", "m=7", "n=\"x y\"", "MODE=manual"] := by
  intro changes f written
  have hlines : lastRead changes = ["a=1", "# c", "b=2", "m=7", "a=3"] := by decide
  have hwritten : shown f.values (lastRead changes) ++
      (unread f.values (lastRead changes)).map .key = written := by decide
  obtain ⟨htext, hcomments, hkeys⟩ := render_run changes
  rw [hwritten] at htext hcomments hkeys
  exact ⟨htext, hlines ▸ hcomments, hkeys, by decide⟩

end Assignments

end UpsSetup
