import UpsSetup.Document.Assignments
import UpsSetup.Proofs.Reading
import UpsSetup.Proofs.Sections

/-!
# Files of assignments are written

A file that was read is written with one line for each key, in the order in which the keys were
first read, and its comments stay between them. So it is after a key was given a value
(`Assignments.Reached`, `Assignments.filterMap_written_set`). No line that is written holds a line
end if none was read (`Assignments.KeepsLines`).
-/

namespace UpsSetup

open Text Line

/-- The key on a line. -/
def AssignmentLine.key? : AssignmentLine → Option String
  | comment _ => none
  | key k => some k

@[simp] theorem AssignmentLine.key?_comment (text : String) : (comment text).key? = none := rfl

@[simp] theorem AssignmentLine.key?_key (k : String) : (key k).key? = some k := rfl

namespace Assignments

variable {f f' : Assignments}

/-! ## What a reading gives -/

theorem assignment?_eq_some_iff {first k v : String} {rest : List String} :
    assignment? first rest = some (k, v) ↔
      k = first ∧ (rest = ["="] ∧ v = "" ∨ rest = ["=", v]) := by
  unfold assignment?
  split
  next => simp [eq_comm]
  next => simp [eq_comm]
  next h1 h2 =>
    refine iff_of_false (by simp) ?_
    rintro ⟨-, ⟨rfl, -⟩ | rfl⟩
    · exact h1 rfl
    · exact h2 _ rfl

/-- What a line does to a file, if it is not rejected. -/
theorem addLine_cases {line : String} (h : Document.addLine f line = .ok f') :
    f' = f ∨
    (∃ text, Content.ofLine line = .ok (.comment text) ∧
      f' = { f with layout := f.layout ++ [.comment text] }) ∨
    ∃ first rest k v, Content.ofLine line = .ok (.tokens first rest) ∧
      assignment? first rest = some (k, v) ∧
      f' = ⟨f.values.insert k v, f.layout ++ [.key k]⟩ := by
  obtain ⟨c, hc, hf⟩ := Document.addLine_eq_ok_iff.mp h
  cases c with
  | blank => exact Or.inl (Except.ok.inj hf).symm
  | comment text => exact Or.inr (Or.inl ⟨text, hc, (Except.ok.inj hf).symm⟩)
  | tokens first rest =>
    change addTokens f first rest = .ok f' at hf
    unfold addTokens at hf
    split at hf
    next k v hkv => exact Or.inr (Or.inr ⟨first, rest, k, v, hc, hkv, (Except.ok.inj hf).symm⟩)
    next => simp at hf

/-! ## The order of the lines -/

/-- The layout of the lines that are written. -/
def written (f : Assignments) : List AssignmentLine :=
  placed f.values [] f.layout ++ f.unplaced.map fun p => .key p.1

/-- The file is written line by line in the order of `written`. -/
theorem render_eq (f : Assignments) :
    Document.render f = f.written.map (renderLine f.values) := by
  have hunplaced : f.unplaced.map (fun p => assign p.1 p.2) =
      (f.unplaced.map fun p => AssignmentLine.key p.1).map (renderLine f.values) := by
    rw [List.map_map]
    refine List.map_congr_left fun p hp => ?_
    have hmem : (p.1, p.2) ∈ f.values.entries := (List.mem_filter.mp hp).1
    show assign p.1 p.2 = assign p.1 (f.values.getD p.1 "")
    rw [OrderedMap.getD_of_mem hmem]
  show (placed f.values [] f.layout).map (renderLine f.values) ++
    f.unplaced.map (fun p => assign p.1 p.2) = _
  rw [hunplaced, ← List.map_append]
  rfl

/-- The keys that the layout does not place come in the order of the values. -/
theorem map_fst_unplaced (f : Assignments) :
    f.unplaced.map (·.1) = f.values.keys.filter fun k => .key k ∉ f.layout := by
  rw [unplaced, OrderedMap.keys, List.filter_map]
  rfl

/-- The keys are written in the order of the layout, and those that are not in it at the end. -/
theorem filterMap_key?_written (f : Assignments) : f.written.filterMap AssignmentLine.key? =
    (placed f.values [] f.layout).filterMap AssignmentLine.key? ++
      f.values.keys.filter fun k => .key k ∉ f.layout := by
  rw [written, List.filterMap_append, List.filterMap_map, ← map_fst_unplaced]
  exact congrArg _ (congrFun List.filterMap_eq_map _)

section Placed

variable {values values' : OrderedMap String String} {earlier : List String}
  {layout : List AssignmentLine}

/-- Every line that is placed is one of the layout. -/
theorem mem_of_mem_placed {l : AssignmentLine} (h : l ∈ placed values earlier layout) :
    l ∈ layout := by
  fun_induction placed values earlier layout with
  | case1 => exact h
  | case2 earlier text rest ih =>
    rcases List.mem_cons.mp h with rfl | h
    · exact List.mem_cons_self
    · exact List.mem_cons_of_mem _ (ih h)
  | case3 earlier k rest hk ih =>
    rcases List.mem_cons.mp h with rfl | h
    · exact List.mem_cons_self
    · exact List.mem_cons_of_mem _ (ih h)
  | case4 earlier k rest hk ih => exact List.mem_cons_of_mem _ (ih h)

/-- What is written depends on the values only in so far as keys have one. -/
theorem placed_congr
    (h : ∀ k, .key k ∈ layout → values'.contains k = values.contains k) :
    placed values' earlier layout = placed values earlier layout := by
  fun_induction placed values earlier layout with
  | case1 => rfl
  | case2 earlier text rest ih =>
    rw [placed, ih fun k hk => h k (List.mem_cons_of_mem _ hk)]
  | case3 earlier k rest hk ih =>
    rw [placed, h k List.mem_cons_self, if_pos hk,
      ih fun k hk => h k (List.mem_cons_of_mem _ hk)]
  | case4 earlier k rest hk ih =>
    rw [placed, h k List.mem_cons_self, if_neg hk,
      ih fun k hk => h k (List.mem_cons_of_mem _ hk)]

/-- A comment at the end of the layout is written last. -/
theorem placed_append_comment (text : String) :
    placed values earlier (layout ++ [.comment text]) =
      placed values earlier layout ++ [.comment text] := by
  fun_induction placed values earlier layout with
  | case1 => rfl
  | case2 earlier text' rest ih => rw [List.cons_append, placed, ih, List.cons_append]
  | case3 earlier k rest hk ih =>
    rw [List.cons_append, placed, if_pos hk, ih, List.cons_append]
  | case4 earlier k rest hk ih => rw [List.cons_append, placed, if_neg hk, ih]

/-- A key that comes last is written unless it was before. -/
theorem placed_append_key (k : String) :
    placed values earlier (layout ++ [.key k]) = placed values earlier layout ++
      if values.contains k ∧ k ∉ earlier ∧ .key k ∉ layout then [.key k] else [] := by
  fun_induction placed values earlier layout with
  | case1 => simp [placed]
  | case2 earlier text rest ih =>
    rw [List.cons_append, placed, ih, List.cons_append]
    simp
  | case3 earlier k' rest hk ih =>
    rw [List.cons_append, placed, if_pos hk, ih, List.cons_append]
    simp only [List.mem_cons, not_or, AssignmentLine.key.injEq, and_assoc]
    congr 3
    apply propext
    tauto
  | case4 earlier k' rest hk ih =>
    rw [List.cons_append, placed, if_neg hk, ih]
    congr 2
    simp only [List.mem_cons, not_or, AssignmentLine.key.injEq, eq_iff_iff]
    constructor
    · rintro ⟨hv, he, hl⟩
      refine ⟨hv, he, ?_, hl⟩
      rintro rfl
      exact hk ⟨hv, he⟩
    · rintro ⟨hv, he, -, hl⟩
      exact ⟨hv, he, hl⟩

end Placed

/-! ## Files that were read -/

/-- What holds of every file that was read. -/
structure Reached (f : Assignments) : Prop where
  comments : ∀ text, .comment text ∈ f.layout → IsComment text
  keys : ∀ k, .key k ∈ f.layout ↔ k ∈ f.values.keys
  /-- Each key is written once, where it was first read. -/
  order : (placed f.values [] f.layout).filterMap AssignmentLine.key? = f.values.keys

theorem reached_empty : (Document.empty : Assignments).Reached where
  comments _ h := absurd h List.not_mem_nil
  keys _ := iff_of_false List.not_mem_nil List.not_mem_nil
  order := rfl

theorem Reached.addComment (hf : f.Reached) {text : String} (htext : IsComment text) :
    Reached { f with layout := f.layout ++ [.comment text] } where
  comments t ht := by
    rcases List.mem_append.mp ht with ht | ht
    · exact hf.comments t ht
    · rw [List.mem_singleton, AssignmentLine.comment.injEq] at ht
      exact ht ▸ htext
  keys k := by
    rw [← hf.keys k]
    simp
  order := by
    rw [placed_append_comment, List.filterMap_append, hf.order]
    exact List.append_nil _

/-- A key that gets a value does not change where the others are written. -/
theorem Reached.placed_insert (hf : f.Reached) (k v : String) :
    placed (f.values.insert k v) [] f.layout = placed f.values [] f.layout := by
  refine placed_congr fun k' hk' => ?_
  have hmem : k' ∈ f.values.keys := (hf.keys k').mp hk'
  rw [OrderedMap.contains_iff.mpr hmem,
    OrderedMap.contains_iff.mpr (OrderedMap.mem_keys_insert.mpr (Or.inr hmem))]

theorem Reached.insert (hf : f.Reached) (k v : String) :
    Reached ⟨f.values.insert k v, f.layout ++ [.key k]⟩ where
  comments text h := hf.comments text (by simpa using h)
  keys k' := by
    show .key k' ∈ f.layout ++ [.key k] ↔ k' ∈ (f.values.insert k v).keys
    rw [OrderedMap.mem_keys_insert, List.mem_append, hf.keys k', List.mem_singleton,
      AssignmentLine.key.injEq, or_comm]
  order := by
    show (placed (f.values.insert k v) [] (f.layout ++ [.key k])).filterMap AssignmentLine.key? =
      (f.values.insert k v).keys
    rw [placed_append_key, hf.placed_insert, List.filterMap_append, hf.order,
      OrderedMap.keys_insert]
    by_cases hk : k ∈ f.values.keys
    · have hold : .key k ∈ f.layout := (hf.keys k).mpr hk
      rw [if_neg fun h => h.2.2 hold, if_pos hk]
      exact List.append_nil _
    · have hcontains : (f.values.insert k v).contains k = true :=
        OrderedMap.contains_iff.mpr (OrderedMap.mem_keys_insert.mpr (Or.inl rfl))
      rw [if_pos ⟨hcontains, List.not_mem_nil, fun h => hk ((hf.keys k).mp h)⟩, if_neg hk]
      rfl

/-- A file that was read writes each key once, where it was first read. -/
theorem reached_of_addLines {lines : List String}
    (h : Document.addLines Document.empty lines = .ok f) : f.Reached := by
  refine Document.addLines_induction reached_empty (fun line _ f f' hf hline => ?_) h
  rcases addLine_cases hline with rfl | ⟨text, hc, rfl⟩ | ⟨-, -, k, v, -, -, rfl⟩
  · exact hf
  · exact hf.addComment (Content.isComment_of_ofLine hc)
  · exact hf.insert k v

/-- **A file that was read is written with one line for each key, in the order of the keys**, and so
it is after a key was given a value. -/
theorem filterMap_written_set (hf : f.Reached) (k v : String) :
    (f.set k v).written.filterMap AssignmentLine.key? = (f.set k v).values.keys := by
  rw [filterMap_key?_written]
  show (placed (f.values.insert k v) [] f.layout).filterMap AssignmentLine.key? ++
    (f.values.insert k v).keys.filter (fun k' => decide (.key k' ∉ f.layout)) =
      (f.values.insert k v).keys
  have hnone : f.values.keys.filter (fun k' => decide (.key k' ∉ f.layout)) = [] := by
    refine List.filter_eq_nil_iff.mpr fun k' hk' => ?_
    simpa using (hf.keys k').mpr hk'
  rw [hf.placed_insert, hf.order, OrderedMap.keys_insert]
  by_cases hk : k ∈ f.values.keys
  · rw [if_pos hk, hnone, List.append_nil]
  · have hnew : .key k ∉ f.layout := fun h => hk ((hf.keys k).mp h)
    rw [if_neg hk, List.filter_append, hnone, List.nil_append]
    simp [hnew]

/-- A comment that is written was read as one. -/
theorem isComment_of_mem_written (hf : f.Reached) {k v text : String}
    (h : .comment text ∈ (f.set k v).written) : IsComment text := by
  rcases List.mem_append.mp h with h | h
  · exact hf.comments text (mem_of_mem_placed h)
  · simp at h

/-! ## Line ends -/

/-- No text in the file holds a line end. -/
structure KeepsLines (f : Assignments) : Prop where
  comments : ∀ text, .comment text ∈ f.layout → HoldsNoEnd text.toList
  entries : ∀ k v, (k, v) ∈ f.values.entries → HoldsNoEnd k.toList ∧ HoldsNoEnd v.toList

theorem KeepsLines.insert (hf : f.KeepsLines) {k v : String} (hk : HoldsNoEnd k.toList)
    (hv : HoldsNoEnd v.toList) {layout : List AssignmentLine}
    (hlayout : ∀ text, .comment text ∈ layout → .comment text ∈ f.layout) :
    KeepsLines ⟨f.values.insert k v, layout⟩ where
  comments text h := hf.comments text (hlayout text h)
  entries k' v' h := by
    change (k', v') ∈ (f.values.insert k v).entries at h
    rw [← OrderedMap.get?_eq_some_iff, OrderedMap.get?_insert] at h
    split at h
    next hkey =>
      rw [hkey, ← Option.some.inj h]
      exact ⟨hk, hv⟩
    next => exact hf.entries k' v' (OrderedMap.get?_eq_some_iff.mp h)

/-- What stands on a line without line ends holds none. -/
theorem keepsLines_of_addLine {line : String} (hline : HoldsNoEnd line.toList)
    (hf : f.KeepsLines) (h : Document.addLine f line = .ok f') : f'.KeepsLines := by
  rcases addLine_cases h with rfl | ⟨text, hc, rfl⟩ | ⟨first, rest, k, v, hc, hkv, rfl⟩
  · exact hf
  · refine ⟨fun t ht => ?_, hf.entries⟩
    rcases List.mem_append.mp ht with ht | ht
    · exact hf.comments t ht
    · rw [List.mem_singleton, AssignmentLine.comment.injEq] at ht
      exact fun c hct => hline c (Content.mem_of_mem_comment hc (ht ▸ hct))
  · have htoken : ∀ t ∈ first :: rest, HoldsNoEnd t.toList := fun t ht c hct =>
      hline c (Content.mem_of_mem_token hc ht hct)
    obtain ⟨rfl, hv⟩ := assignment?_eq_some_iff.mp hkv
    refine hf.insert (htoken k List.mem_cons_self) ?_ fun text ht => by simpa using ht
    rcases hv with ⟨-, rfl⟩ | rfl
    · exact fun c hc => absurd hc List.not_mem_nil
    · exact htoken v (by simp)

/-- A file that was read from lines without a line end holds none. -/
theorem keepsLines_of_addLines {lines : List String}
    (hlines : ∀ line ∈ lines, HoldsNoEnd line.toList)
    (h : Document.addLines Document.empty lines = .ok f) : f.KeepsLines :=
  Document.addLines_induction
    ⟨fun _ h => absurd h List.not_mem_nil, fun _ _ h => absurd h List.not_mem_nil⟩
    (fun line hm _ _ hf => keepsLines_of_addLine (hlines line hm) hf) h

theorem toList_assign (k v : String) :
    (assign k v).toList = k.toList ++ '=' :: (quote v).toList := by
  rw [assign, String.toList_append, String.toList_append, List.append_assoc]
  rfl

/-- The line of a key is one line if neither the key nor its value holds a line end. -/
theorem holdsNoEnd_assign {k v : String} (hk : HoldsNoEnd k.toList) (hv : HoldsNoEnd v.toList) :
    HoldsNoEnd (assign k v).toList := by
  rw [toList_assign]
  refine hk.append fun c hc => ?_
  rcases List.mem_cons.mp hc with rfl | hc
  · decide
  · exact holdsNoEnd_quote hv c hc

/-- If no text in a changed file holds a line end, no line of it does. -/
theorem KeepsLines.holdsNoEnd_of_mem_render {k v : String} (h : (f.set k v).KeepsLines)
    (hf : f.Reached) {line : String} (hl : line ∈ Document.render (f.set k v)) :
    HoldsNoEnd line.toList := by
  rw [render_eq] at hl
  obtain ⟨l, hwritten, rfl⟩ := List.mem_map.mp hl
  cases l with
  | comment text =>
    rcases List.mem_append.mp hwritten with hplaced | hunplaced
    · exact h.comments text (mem_of_mem_placed hplaced)
    · simp at hunplaced
  | key k' =>
    have hmem : k' ∈ (f.set k v).values.keys := by
      rw [← filterMap_written_set hf]
      exact List.mem_filterMap.mpr ⟨_, hwritten, rfl⟩
    obtain ⟨⟨_, v'⟩, hv, rfl⟩ := List.mem_map.mp hmem
    rw [renderLine, OrderedMap.getD_of_mem hv]
    exact holdsNoEnd_assign (h.entries _ v' hv).1 (h.entries _ v' hv).2

end Assignments

end UpsSetup
