import Mathlib.Data.Nat.Find
import UpsSetup.Proofs.Layouts
import UpsSetup.Proofs.ModeLines

/-!
# Giving a key a value touches one line

A file with its layout given by lines is written anew after a key was given a value. Only the line
of this key differs: it stays where it was if the key had a value, and otherwise it is put where the
key was first read, or at the end if it was not (`Assignments.touchesOneLine_set`). Setting the mode
is the case of one key (`Assignments.setMode_touches_one_line`).
-/

namespace UpsSetup

namespace Assignments

variable {f : Assignments} {values : OrderedMap String String} {lines : List String} {k v : String}

/-! ## Places of a key -/

/-- The key stands at the place and nowhere before it. -/
def IsFirstPlace (lines : List String) (k : String) (i : Nat) : Prop :=
  lineAt? lines i = some (.key k) ∧ ∀ j < i, lineAt? lines j ≠ some (.key k)

theorem lt_of_lineAt? {i : Nat} {l : AssignmentLine} (h : lineAt? lines i = some l) :
    i < lines.length := by
  obtain ⟨line, hline, -⟩ := Option.bind_eq_some_iff.mp h
  exact (List.getElem?_eq_some_iff.mp hline).1

/-- A key stands nowhere, or there is a first place where it stands. -/
theorem not_stands_or_exists_first (lines : List String) (k : String) :
    (∀ i, lineAt? lines i ≠ some (.key k)) ∨ ∃ i, IsFirstPlace lines k i := by
  by_cases h : ∃ i, lineAt? lines i = some (.key k)
  · exact Or.inr ⟨Nat.find h, Nat.find_spec h, fun j hj => Nat.find_min h hj⟩
  · exact Or.inl (not_exists.mp h)

/-! ## What is written where the key stands -/

theorem contains_insert (m : OrderedMap String String) (k k' v : String) :
    (m.insert k v).contains k' = true ↔ k' = k ∨ m.contains k' = true := by
  rw [OrderedMap.contains_iff, OrderedMap.contains_iff, OrderedMap.mem_keys_insert]

theorem shownAt?_of_ne {i : Nat} (h : lineAt? lines i ≠ some (.key k)) :
    shownAt? (values.insert k v) lines i = shownAt? values lines i := by
  unfold shownAt?
  cases hline : lineAt? lines i with
  | none => rfl
  | some l =>
    cases l with
    | comment text => rfl
    | key k' =>
      have hne : k' ≠ k := by
        rintro rfl
        exact h hline
      simp only [contains_insert, hne, false_or]

/-- At a place where a key stands, the key is written only if it is the first. -/
theorem shownAt?_of_key {i : Nat} (h : lineAt? lines i = some (.key k)) :
    shownAt? values lines i =
      if values.contains k ∧ ∀ j < i, lineAt? lines j ≠ some (.key k) then some (.key k)
      else none := by
  rw [shownAt?, h]

/-- A key that had a value is written where it was. -/
theorem shown_insert_of_mem (h : k ∈ values.keys) :
    shown (values.insert k v) lines = shown values lines := by
  refine List.filterMap_congr fun i _ => ?_
  by_cases hline : lineAt? lines i = some (.key k)
  · rw [shownAt?_of_key hline, shownAt?_of_key hline]
    simp [contains_insert, OrderedMap.contains_iff.mpr h]
  · exact shownAt?_of_ne hline

/-- A key that stands nowhere is not written in its place. -/
theorem shown_insert_of_not_stands (h : ∀ i, lineAt? lines i ≠ some (.key k)) :
    shown (values.insert k v) lines = shown values lines :=
  List.filterMap_congr fun i _ => shownAt?_of_ne (h i)

/-- Behind a place where the key stands it is not written, with a value or without. -/
theorem shownAt?_of_lt {i j : Nat} (hj : lineAt? lines j = some (.key k)) (hlt : j < i) :
    shownAt? (values.insert k v) lines i = shownAt? values lines i := by
  by_cases hline : lineAt? lines i = some (.key k)
  · have hnot : ¬∀ j < i, lineAt? lines j ≠ some (.key k) := fun hall => hall j hlt hj
    rw [shownAt?_of_key hline, shownAt?_of_key hline, if_neg fun hc => hnot hc.2,
      if_neg fun hc => hnot hc.2]
  · exact shownAt?_of_ne hline

theorem range_eq_append_cons {i n : Nat} (h : i < n) :
    List.range n = List.range i ++ i :: (List.range (n - (i + 1))).map (i + 1 + ·) := by
  conv_lhs => rw [show n = i + 1 + (n - (i + 1)) by omega]
  rw [List.range_add, List.range_succ, List.append_assoc, List.singleton_append]

/-- A key that had no value is put in its first place, between what is written for the lines before
and behind. -/
theorem exists_shown_insert {i : Nat} (hfirst : IsFirstPlace lines k i)
    (h : k ∉ values.keys) : ∃ after,
      shown values lines = (List.range i).filterMap (shownAt? values lines) ++ after ∧
      shown (values.insert k v) lines =
        (List.range i).filterMap (shownAt? values lines) ++ .key k :: after := by
  have hbefore : (List.range i).filterMap (shownAt? (values.insert k v) lines) =
      (List.range i).filterMap (shownAt? values lines) :=
    List.filterMap_congr fun j hj => shownAt?_of_ne (hfirst.2 j (List.mem_range.mp hj))
  have hat : shownAt? values lines i = none := by
    rw [shownAt?_of_key hfirst.1]
    exact if_neg fun hc => h (OrderedMap.contains_iff.mp hc.1)
  have hat' : shownAt? (values.insert k v) lines i = some (.key k) := by
    rw [shownAt?_of_key hfirst.1]
    exact if_pos ⟨(contains_insert values k k v).mpr (Or.inl rfl), hfirst.2⟩
  let behind := (List.range (lines.length - (i + 1))).map (i + 1 + ·)
  have hafter : behind.filterMap (shownAt? (values.insert k v) lines) =
      behind.filterMap (shownAt? values lines) := by
    refine List.filterMap_congr fun j hj => ?_
    obtain ⟨d, -, rfl⟩ := List.mem_map.mp hj
    exact shownAt?_of_lt hfirst.1 (by omega)
  refine ⟨behind.filterMap (shownAt? values lines), ?_, ?_⟩
  · rw [shown, range_eq_append_cons (lt_of_lineAt? hfirst.1), List.filterMap_append,
      List.filterMap_cons_none hat]
  · rw [shown, range_eq_append_cons (lt_of_lineAt? hfirst.1), List.filterMap_append,
      List.filterMap_cons_some hat', hbefore, hafter]

/-- A key that had a value or was read does not come to stand among those that were not read. -/
theorem unread_insert_of_mem
    (h : k ∈ values.keys ∨ ∃ j < lines.length, lineAt? lines j = some (.key k)) :
    unread (values.insert k v) lines = unread values lines := by
  rw [unread, OrderedMap.keys_insert]
  split
  next => rfl
  next hk =>
    obtain ⟨j, hj, hline⟩ := h.resolve_left hk
    have hread : ¬∀ j < lines.length, lineAt? lines j ≠ some (.key k) := fun hall =>
      hall j hj hline
    rw [List.filter_append, List.filter_singleton, decide_eq_false hread]
    exact List.append_nil _

/-- A key that had no value and was not read comes last. -/
theorem unread_insert_of_not_mem (hk : k ∉ values.keys)
    (h : ∀ j < lines.length, lineAt? lines j ≠ some (.key k)) :
    unread (values.insert k v) lines = unread values lines ++ [k] := by
  rw [unread, OrderedMap.keys_insert, if_neg hk, List.filter_append, List.filter_singleton,
    decide_eq_true h]
  rfl

/-! ## The lines -/

/-- The file `g` is written as `f` is, but for the line of a key with its value. This line stays in
its place if the key had a value before. Otherwise it is put behind what is written for the lines
before the first that holds the key, or at the end if none does. -/
def TouchesOneLine (lines : List String) (f g : Assignments) (k v : String) : Prop :=
  ∃ before after : List AssignmentLine, .key k ∉ before ++ after ∧
    Document.render g =
      before.map (renderLine f.values) ++ assign k v :: after.map (renderLine f.values) ∧
    match f.values.get? k with
    | some old => Document.render f =
        before.map (renderLine f.values) ++ assign k old :: after.map (renderLine f.values)
    | none => Document.render f = (before ++ after).map (renderLine f.values) ∧
        ((∃ i, IsFirstPlace lines k i ∧
            before = (List.range i).filterMap (shownAt? f.values lines)) ∨
          (∀ i, lineAt? lines i ≠ some (.key k)) ∧ after = [])

theorem key_mem_written_iff {k : String} : .key k ∈ f.written ↔ k ∈ f.values.keys := by
  rw [← (keys_written_perm f).mem_iff, List.mem_filterMap]
  constructor
  · intro h
    exact ⟨_, h, rfl⟩
  · rintro ⟨l, hl, hk⟩
    cases l with
    | comment text => simp at hk
    | key k' =>
      rw [AssignmentLine.key?_key, Option.some.injEq] at hk
      rwa [← hk]

theorem map_renderLine_set {ls : List AssignmentLine} (h : .key k ∉ ls) :
    ls.map (renderLine (f.set k v).values) = ls.map (renderLine f.values) := by
  refine List.map_congr_left fun l hl => ?_
  cases l with
  | comment text => rfl
  | key k' =>
    have hne : k' ≠ k := by
      rintro rfl
      exact h hl
    rw [renderLine, renderLine]
    show assign k' ((f.values.insert k v).getD k' "") = _
    rw [OrderedMap.getD_insert, if_neg hne]

theorem render_set {before after : List AssignmentLine} (hnot : .key k ∉ before ++ after)
    (h : (f.set k v).written = before ++ .key k :: after) :
    Document.render (f.set k v) =
      before.map (renderLine f.values) ++ assign k v :: after.map (renderLine f.values) := by
  rw [List.mem_append, not_or] at hnot
  have hline : renderLine (f.set k v).values (.key k) = assign k v := by
    show assign k ((f.values.insert k v).getD k "") = _
    rw [OrderedMap.getD_insert, if_pos rfl]
  rw [render_eq, h, List.map_append, List.map_cons, hline, map_renderLine_set hnot.1,
    map_renderLine_set hnot.2]

/-- A file with its layout given by lines is written by their places, also after a key was given a
value. -/
theorem written_set_eq_shown (h : f.layout = lines.filterMap AssignmentLine.ofLine?)
    (k v : String) : (f.set k v).written = shown (f.values.insert k v) lines ++
      (unread (f.values.insert k v) lines).map .key :=
  written_eq_shown (f := f.set k v) h

theorem written_set_of_mem (h : f.layout = lines.filterMap AssignmentLine.ofLine?)
    (hk : k ∈ f.values.keys) : (f.set k v).written = f.written := by
  rw [written_set_eq_shown h, written_eq_shown h, shown_insert_of_mem hk,
    unread_insert_of_mem (Or.inl hk)]

theorem written_set_of_not_stands (h : f.layout = lines.filterMap AssignmentLine.ofLine?)
    (hk : k ∉ f.values.keys) (hstands : ∀ i, lineAt? lines i ≠ some (.key k)) :
    (f.set k v).written = f.written ++ [.key k] := by
  rw [written_set_eq_shown h, written_eq_shown h, shown_insert_of_not_stands hstands,
    unread_insert_of_not_mem hk fun j _ => hstands j, List.map_append, List.append_assoc]
  rfl

theorem exists_written_set (h : f.layout = lines.filterMap AssignmentLine.ofLine?)
    (hk : k ∉ f.values.keys) {i : Nat} (hfirst : IsFirstPlace lines k i) : ∃ after,
      f.written = (List.range i).filterMap (shownAt? f.values lines) ++ after ∧
      (f.set k v).written =
        (List.range i).filterMap (shownAt? f.values lines) ++ .key k :: after := by
  obtain ⟨after, hshown, hinsert⟩ := exists_shown_insert (v := v) hfirst hk
  have hunread : unread (f.values.insert k v) lines = unread f.values lines :=
    unread_insert_of_mem (Or.inr ⟨i, lt_of_lineAt? hfirst.1, hfirst.1⟩)
  refine ⟨after ++ (unread f.values lines).map .key, ?_, ?_⟩
  · rw [written_eq_shown h, hshown, List.append_assoc]
  · rw [written_set_eq_shown h, hinsert, hunread, List.append_assoc, List.cons_append]

/-- A key is written on one line only. -/
theorem not_mem_of_written_eq {before after : List AssignmentLine}
    (h : f.written = before ++ .key k :: after) : .key k ∉ before ++ after := by
  have hnodup := (keys_written_perm f).nodup_iff.mpr f.values.keys_nodup
  rw [h, List.filterMap_append, List.filterMap_cons_some (AssignmentLine.key?_key k),
    List.nodup_middle, List.nodup_cons, ← List.filterMap_append] at hnodup
  exact fun hmem => hnodup.1 (List.mem_filterMap.mpr ⟨_, hmem, rfl⟩)

/-- **Giving a key a value touches one line.** -/
theorem touchesOneLine_set (h : f.layout = lines.filterMap AssignmentLine.ofLine?)
    (k v : String) : TouchesOneLine lines f (f.set k v) k v := by
  unfold TouchesOneLine
  cases hvalue : f.values.get? k with
  | some old =>
    have hk : k ∈ f.values.keys := by
      rw [← OrderedMap.contains_iff, OrderedMap.contains, hvalue]
      rfl
    obtain ⟨before, after, hsplit⟩ := List.append_of_mem (key_mem_written_iff.mpr hk)
    have hnot := not_mem_of_written_eq hsplit
    refine ⟨before, after, hnot, render_set hnot ((written_set_of_mem h hk).trans hsplit), ?_⟩
    show Document.render f = _
    rw [render_eq, hsplit, List.map_append, List.map_cons, renderLine, OrderedMap.getD, hvalue]
    rfl
  | none =>
    have hk : k ∉ f.values.keys := OrderedMap.get?_eq_none_iff.mp hvalue
    have hnot : .key k ∉ f.written := mt key_mem_written_iff.mp hk
    rcases not_stands_or_exists_first lines k with hstands | ⟨i, hfirst⟩
    · rw [← List.append_nil f.written] at hnot
      refine ⟨f.written, [], hnot, render_set hnot (written_set_of_not_stands h hk hstands), ?_,
        Or.inr ⟨hstands, rfl⟩⟩
      rw [List.append_nil, render_eq]
    · obtain ⟨after, hwritten, hset⟩ := exists_written_set (v := v) h hk hfirst
      rw [hwritten] at hnot
      exact ⟨_, after, hnot, render_set hnot hset, by rw [render_eq, hwritten],
        Or.inl ⟨i, hfirst, rfl⟩⟩

/-! ## The mode -/

/-- The words for the modes. -/
def modeNames : List String :=
  ["standalone", "netserver", "netclient", "controlled", "manual", "none"]

theorem mem_modeNames_iff {word : String} : word ∈ modeNames ↔ ∃ mode : Mode, word = mode.name := by
  constructor
  · intro h
    simp only [modeNames, List.mem_cons, List.not_mem_nil, or_false] at h
    rcases h with rfl | rfl | rfl | rfl | rfl | rfl
    · exact ⟨.standalone, rfl⟩
    · exact ⟨.netserver, rfl⟩
    · exact ⟨.netclient, rfl⟩
    · exact ⟨.controlled, rfl⟩
    · exact ⟨.manual, rfl⟩
    · exact ⟨.none, rfl⟩
  · rintro ⟨mode, rfl⟩
    cases mode <;> decide

theorem setModeNamed_eq_error_iff {word : String} :
    f.setModeNamed word = .error ⟨word⟩ ↔ word ∉ modeNames := by
  rw [mem_modeNames_iff]
  cases h : f.setModeNamed word with
  | ok g =>
    obtain ⟨mode, hmode, -⟩ := setModeNamed_eq_ok_iff.mp h
    exact iff_of_false (by simp) fun hnot => hnot ⟨mode, hmode⟩
  | error u =>
    refine iff_of_true ?_ ?_
    · unfold setModeNamed at h
      split at h
      next => simp at h
      next => exact h.symm
    · rintro ⟨mode, hmode⟩
      rw [setModeNamed_eq_ok_iff.mpr ⟨mode, hmode, rfl⟩] at h
      simp at h

theorem mode?_setMode (f : Assignments) (mode : Mode) : (f.setMode mode).mode? = some mode := by
  show Mode.ofName? (Text.trim ((f.values.insert modeKey mode.name).getD modeKey "")).toLower = _
  rw [OrderedMap.getD_insert, if_pos rfl, ofName?_trim_name]

/-- Giving a key a value leaves the other keys in their order. -/
theorem filter_keys_insert (m : OrderedMap String String) (k v : String) :
    (m.insert k v).keys.filter (· ≠ k) = m.keys.filter (· ≠ k) := by
  rw [OrderedMap.keys_insert]
  split
  · rfl
  · rw [List.filter_append]
    simp

/-- **Setting the mode touches one line.** In every file that changes can lead to, a word that is
none of the six is refused and changes nothing. Each of the six sets the mode that is read back, all
other keys keep their values and their order, and only the line of the mode is touched: it stays in
its place if there was one, and otherwise is put where the mode was first read or, if it was not, at
the end. -/
theorem setMode_touches_one_line (changes : List Change) (word : String) :
    let f := run changes
    let g := run (changes ++ [.setMode word])
    (word ∉ modeNames → f.setModeNamed word = .error ⟨word⟩ ∧ g = f) ∧
    (word ∈ modeNames → f.setModeNamed word = .ok g ∧
      (∀ k, k ≠ modeKey → g.values.get? k = f.values.get? k) ∧
      g.values.keys.filter (· ≠ modeKey) = f.values.keys.filter (· ≠ modeKey) ∧
      (∃ mode : Mode, mode.name = word ∧ g.mode? = some mode) ∧
      (g.isConfigured = true ↔ word ≠ "none") ∧
      TouchesOneLine (lastRead changes) f g modeKey word) := by
  intro f g
  have hg : g = Change.apply f (.setMode word) := run_append changes _
  rw [Change.apply] at hg
  refine ⟨fun hword => ?_, fun hword => ?_⟩
  · have herror : f.setModeNamed word = .error ⟨word⟩ := setModeNamed_eq_error_iff.mpr hword
    rw [herror] at hg
    exact ⟨herror, hg⟩
  · obtain ⟨mode, rfl⟩ := mem_modeNames_iff.mp hword
    have hok : f.setModeNamed mode.name = .ok (f.setMode mode) :=
      setModeNamed_eq_ok_iff.mpr ⟨mode, rfl, rfl⟩
    rw [hok] at hg
    have hmode := mode?_setMode f mode
    rw [hg]
    refine ⟨hok, fun k hk => ?_, filter_keys_insert f.values modeKey mode.name, ⟨mode, rfl, hmode⟩,
      ?_, touchesOneLine_set (layout_run changes) modeKey mode.name⟩
    · show (f.values.insert modeKey mode.name).get? k = _
      rw [OrderedMap.get?_insert, if_neg hk]
    · rw [isConfigured_iff_mode?, hmode]
      cases mode <;> simp [Mode.name]

/-- The mode was read twice and has lost its value, so its line goes to the place of the first. -/
theorem setMode_touches_one_line_of_lost :
    let changes : List Change :=
      [.parse ["# x", "a=1", "MODE=netclient", "# y", "MODE=none"], .unset "MODE", .set "b" "2"]
    let f := run changes
    let g := run (changes ++ [.setMode "netserver"])
    f.setModeNamed "NetServer" = .error ⟨"NetServer"⟩ ∧ f.setModeNamed "netserver" = .ok g ∧
      TouchesOneLine (lastRead changes) f g modeKey "netserver" ∧
      Document.render f = ["# x", "a=1", "# y", "b=2"] ∧
      Document.render g = ["# x", "a=1", "MODE=netserver", "# y", "b=2"] := by
  intro changes f g
  have hrefused := (setMode_touches_one_line changes "NetServer").1 (by decide)
  have hset := (setMode_touches_one_line changes "netserver").2 (by decide)
  exact ⟨hrefused.1, hset.1, hset.2.2.2.2.2, by decide, by decide⟩

end Assignments

end UpsSetup
