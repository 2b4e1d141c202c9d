import UpsSetup.Document.Sections

/-!
# Sections entry by entry

`Sections.lookup?` is the view on sections by name and key, and `lookup?_setValue` says what giving
a key a value does to it. The order is seen in the list of pairs: a new name or key comes last
(`entries_insert_of_not_mem`), so sections that are filled one after the other grow at their end
(`entries_setValue_last`). -/

namespace UpsSetup

/-! ## Maps -/

namespace OrderedMap

variable {α β : Type} [DecidableEq α]

/-- Pairs with other keys in front stay as they are. -/
theorem insertPairs_append_of_not_mem {k : α} {ps : List (α × β)} (h : k ∉ ps.map (·.1)) (v : β)
    (qs : List (α × β)) : insertPairs k v (ps ++ qs) = ps ++ insertPairs k v qs := by
  induction ps with
  | nil => rfl
  | cons p ps ih =>
    rw [List.map_cons, List.mem_cons, not_or] at h
    rw [List.cons_append, insertPairs, if_neg (Ne.symm h.1), ih h.2, List.cons_append]

/-- A new key comes last. -/
theorem entries_insert_of_not_mem {m : OrderedMap α β} {k : α} (h : k ∉ m.keys) (v : β) :
    (m.insert k v).entries = m.entries ++ [(k, v)] := by
  have ha := insertPairs_append_of_not_mem h v []
  rwa [List.append_nil] at ha

/-- The keys are those before and the one that is given a value. -/
theorem mem_keys_insert {m : OrderedMap α β} {k k' : α} {v : β} :
    k' ∈ (m.insert k v).keys ↔ k' = k ∨ k' ∈ m.keys := by
  rw [keys_insert]
  split
  next h =>
    constructor
    · exact Or.inr
    · rintro (rfl | hk)
      · exact h
      · exact hk
  next => rw [List.mem_append, List.mem_singleton, or_comm]

/-- A first key stays the first. -/
theorem head?_keys_insert {m : OrderedMap α β} {k k' : α} {v : β} (h : m.keys.head? = some k') :
    (m.insert k v).keys.head? = some k' := by
  rw [keys_insert]
  split
  · exact h
  · rw [List.head?_append, h, Option.some_or]

theorem getD_insert (m : OrderedMap α β) (k k' : α) (v default : β) :
    (m.insert k v).getD k' default = if k' = k then v else m.getD k' default := by
  rw [getD, get?_insert]
  split
  · rfl
  · rfl

theorem getD_of_mem {m : OrderedMap α β} {k : α} {v : β} (h : (k, v) ∈ m.entries) (default : β) :
    m.getD k default = v := by
  rw [getD, get?_eq_some_iff.mpr h, Option.getD_some]

theorem getD_of_not_mem {m : OrderedMap α β} {k : α} (h : k ∉ m.keys) (default : β) :
    m.getD k default = default := by
  rw [getD, get?_eq_none_iff.mpr h, Option.getD_none]

theorem exists_get?_of_mem_keys {m : OrderedMap α β} {k : α} (h : k ∈ m.keys) :
    ∃ v, m.get? k = some v := by
  exact Option.isSome_iff_exists.mp (contains_iff.mpr h)

end OrderedMap

namespace Sections

/-! ## Entries -/

/-- The entry of a section under a key: no value for a flag. -/
def lookup? (s : Sections) (name key : String) : Option (Option String) :=
  (OrderedMap.getD s name ∅).get? key

theorem lookup?_of_mem {s : Sections} {name key : String} {entries : Section}
    {value : Option String} (hs : (name, entries) ∈ s.entries)
    (he : (key, value) ∈ entries.entries) : s.lookup? name key = some value := by
  rw [lookup?, OrderedMap.getD_of_mem hs, OrderedMap.get?_eq_some_iff]
  exact he

/-- A section that is not there has no entries. -/
theorem lookup?_of_not_mem {s : Sections} {name : String} (h : name ∉ s.keys) (key : String) :
    s.lookup? name key = none := by
  rw [lookup?, OrderedMap.getD_of_not_mem h, OrderedMap.get?_empty]

/-- An entry stands in a section that is there, under one of its keys. -/
theorem mem_keys_of_lookup? {s : Sections} {name key : String} {value : Option String}
    (h : s.lookup? name key = some value) :
    name ∈ s.keys ∧ key ∈ (OrderedMap.getD s name ∅).keys := by
  refine ⟨?_, OrderedMap.contains_iff.mp (Option.isSome_iff_exists.mpr ⟨value, h⟩)⟩
  refine Classical.byContradiction fun hnot => ?_
  simp [lookup?_of_not_mem hnot] at h

/-- Giving a key a value changes this one entry and no other. -/
theorem lookup?_setValue (s : Sections) (name key : String) (value : Option String)
    (name' key' : String) :
    (s.setValue name key value).lookup? name' key' =
      if name' = name ∧ key' = key then some value else s.lookup? name' key' := by
  rw [lookup?, setValue, OrderedMap.getD_insert]
  by_cases hn : name' = name
  · subst hn
    rw [if_pos rfl, OrderedMap.get?_insert]
    simp only [true_and]
    rfl
  · rw [if_neg hn, if_neg fun h => hn h.1]
    rfl

/-- A section that is added has no entries. -/
theorem lookup?_insert_empty {s : Sections} {name : String} (h : name ∉ s.keys)
    (name' key : String) :
    Sections.lookup? (OrderedMap.insert s name ∅) name' key = s.lookup? name' key := by
  rw [lookup?, OrderedMap.getD_insert]
  by_cases hn : name' = name
  · subst hn
    rw [if_pos rfl, lookup?_of_not_mem h, OrderedMap.get?_empty]
  · rw [if_neg hn]
    rfl

theorem mem_keys_setValue {s : Sections} {name key name' : String} {value : Option String} :
    name' ∈ (s.setValue name key value).keys ↔ name' = name ∨ name' ∈ s.keys :=
  OrderedMap.mem_keys_insert

theorem keys_setValue_of_mem {s : Sections} {name : String} (h : name ∈ s.keys) (key : String)
    (value : Option String) : (s.setValue name key value).keys = s.keys := by
  rw [setValue, OrderedMap.keys_insert, if_pos h]

/-- The last section takes its entries at the end of the sections. -/
theorem entries_setValue_last {s : Sections} {before : List (String × Section)} {name : String}
    {entries : Section} (h : s.entries = before ++ [(name, entries)]) (key : String)
    (value : Option String) :
    (s.setValue name key value).entries = before ++ [(name, entries.insert key value)] := by
  have hmem : (name, entries) ∈ s.entries := by simp [h]
  have hnot : name ∉ before.map (·.1) := by
    have hnodup := s.nodup_keys
    rw [h, List.map_append, List.nodup_append] at hnodup
    intro hn
    exact hnodup.2.2 name hn name (by simp) rfl
  rw [setValue, OrderedMap.getD_of_mem hmem]
  show OrderedMap.insertPairs name _ s.entries = _
  rw [h, OrderedMap.insertPairs_append_of_not_mem hnot]
  simp [OrderedMap.insertPairs]

/-! ## Lines

A slot is what a comment can stand in front of: the header of a section (no key) or one of its
entries. The global section has no header.
-/

/-- The sections have the header or the entry. -/
def HasSlot (s : Sections) : String × Option String → Prop
  | (name, none) => name ≠ globalSection ∧ name ∈ s.keys
  | (name, some key) => ∃ value, s.lookup? name key = some value

/-- An entry that is given a value is one more place where a comment can stand. -/
theorem hasSlot_setValue {s : Sections} {name : String} (hn : name ∈ s.keys) {key : String}
    {value : Option String} {slot : String × Option String} :
    (s.setValue name key value).HasSlot slot ↔ s.HasSlot slot ∨ slot = (name, some key) := by
  obtain ⟨name', key'⟩ := slot
  cases key' with
  | none => simp [HasSlot, keys_setValue_of_mem hn]
  | some key' =>
    simp only [HasSlot, lookup?_setValue, Prod.mk.injEq, Option.some.injEq]
    by_cases h : name' = name ∧ key' = key
    · simp [h]
    · simp [h]

/-- A new section brings its header, and nothing else, as a place for comments. -/
theorem hasSlot_insert_empty {s : Sections} {name : String} (hn : name ∉ s.keys)
    (hg : name ≠ globalSection) {slot : String × Option String} :
    Sections.HasSlot (OrderedMap.insert s name ∅) slot ↔ s.HasSlot slot ∨ slot = (name, none) := by
  obtain ⟨name', key'⟩ := slot
  cases key' with
  | none =>
    simp only [HasSlot, OrderedMap.mem_keys_insert, Prod.mk.injEq, and_true]
    constructor
    · rintro ⟨hg', rfl | hm⟩
      · exact Or.inr rfl
      · exact Or.inl ⟨hg', hm⟩
    · rintro (⟨hg', hm⟩ | rfl)
      · exact ⟨hg', Or.inr hm⟩
      · exact ⟨hg, Or.inl rfl⟩
  | some key' => simp [HasSlot, lookup?_insert_empty hn]

end Sections

end UpsSetup
