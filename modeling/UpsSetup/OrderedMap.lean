/-!
# Maps that keep the order of insertion

A finite map whose keys are listed in the order in which they were first inserted: giving a key a
new value keeps its place, and a key that was erased and inserted again comes last. That the keys
are distinct is part of the type, so a map is determined by its list of pairs.

The view is `get?`; `get?_insert` and `get?_erase` say what each operation does to it, and
`keys_insert` and `keys_erase` what it does to the order.
-/

namespace UpsSetup

/-- A map given by its pairs in order of insertion, with distinct keys. -/
structure OrderedMap (α β : Type) where
  /-- The pairs in order. -/
  entries : List (α × β)
  /-- No key occurs twice. -/
  nodup_keys : (entries.map (·.1)).Nodup

namespace OrderedMap

variable {α β : Type}

@[ext] theorem ext {m m' : OrderedMap α β} (h : m.entries = m'.entries) : m = m' := by
  cases m; cases m'; simp_all

instance [DecidableEq α] [DecidableEq β] : DecidableEq (OrderedMap α β) := fun _ _ =>
  decidable_of_iff _ ⟨ext, congrArg _⟩

/-- The keys in order. -/
def keys (m : OrderedMap α β) : List α := m.entries.map (·.1)

theorem keys_nodup (m : OrderedMap α β) : m.keys.Nodup := m.nodup_keys

/-- The map without any key. -/
def empty : OrderedMap α β := ⟨[], by simp⟩

instance : EmptyCollection (OrderedMap α β) := ⟨empty⟩

instance : Inhabited (OrderedMap α β) := ⟨∅⟩

@[simp] theorem entries_empty : (∅ : OrderedMap α β).entries = [] := rfl

@[simp] theorem keys_empty : (∅ : OrderedMap α β).keys = [] := rfl

variable [DecidableEq α]

/-! ## Looking up -/

/-- The value in the first pair whose key is `k`. -/
def lookupPairs (k : α) : List (α × β) → Option β
  | [] => none
  | p :: ps => if p.1 = k then some p.2 else lookupPairs k ps

/-- The value of a key. -/
def get? (m : OrderedMap α β) (k : α) : Option β := lookupPairs k m.entries

/-- The value of a key, or `default` if it has none. -/
def getD (m : OrderedMap α β) (k : α) (default : β) : β := (m.get? k).getD default

/-- Whether a key has a value. -/
def contains (m : OrderedMap α β) (k : α) : Bool := (m.get? k).isSome

@[simp] theorem get?_empty (k : α) : (∅ : OrderedMap α β).get? k = none := rfl

/-- Something is found under the keys that are there, and under no others. -/
theorem isSome_lookupPairs_iff {k : α} {ps : List (α × β)} :
    (lookupPairs k ps).isSome ↔ k ∈ ps.map (·.1) := by
  induction ps with
  | nil => simp [lookupPairs]
  | cons p ps ih => grind [lookupPairs]

theorem contains_iff {m : OrderedMap α β} {k : α} : m.contains k = true ↔ k ∈ m.keys :=
  isSome_lookupPairs_iff

theorem get?_eq_none_iff {m : OrderedMap α β} {k : α} : m.get? k = none ↔ k ∉ m.keys := by
  rw [← contains_iff, contains]
  cases m.get? k <;> simp

theorem lookupPairs_eq_some_iff {k : α} {v : β} {ps : List (α × β)}
    (h : (ps.map (·.1)).Nodup) : lookupPairs k ps = some v ↔ (k, v) ∈ ps := by
  induction ps with
  | nil => simp [lookupPairs]
  | cons p ps ih =>
    simp only [List.map_cons, List.nodup_cons] at h
    rw [lookupPairs]
    split
    next hk =>
      subst hk
      have : (p.1, v) ∉ ps := fun hm => h.1 (List.mem_map.mpr ⟨_, hm, rfl⟩)
      simp [this, Prod.ext_iff, eq_comm]
    next hk => simp [ih h.2, Prod.ext_iff, Ne.symm hk]

/-- Since no key comes twice, what is found under a key is its one pair. -/
theorem get?_eq_some_iff {m : OrderedMap α β} {k : α} {v : β} :
    m.get? k = some v ↔ (k, v) ∈ m.entries :=
  lookupPairs_eq_some_iff m.nodup_keys

/-! ## Inserting -/

/-- The pairs after giving `k` the value `v`. -/
def insertPairs (k : α) (v : β) : List (α × β) → List (α × β)
  | [] => [(k, v)]
  | p :: ps => if p.1 = k then (k, v) :: ps else p :: insertPairs k v ps

/-- A key that is there keeps its place, and a new one comes last. -/
theorem map_fst_insertPairs (k : α) (v : β) (ps : List (α × β)) :
    (insertPairs k v ps).map (·.1) =
      if k ∈ ps.map (·.1) then ps.map (·.1) else ps.map (·.1) ++ [k] := by
  induction ps with
  | nil => simp [insertPairs]
  | cons p ps ih =>
    rw [insertPairs]
    split
    next h => simp [h]
    next h =>
      simp only [List.map_cons, ih, List.mem_cons, Ne.symm h, false_or]
      split <;> simp

/-- Gives `k` the value `v`: in the place of `k` if it has one, at the end otherwise. -/
def insert (m : OrderedMap α β) (k : α) (v : β) : OrderedMap α β where
  entries := insertPairs k v m.entries
  nodup_keys := by
    rw [map_fst_insertPairs]
    split
    next => exact m.nodup_keys
    next h =>
      rw [List.nodup_append]
      exact ⟨m.nodup_keys, by simp, fun a ha b hb hab => h (by simp_all)⟩

/-- Inserting changes the keys at their end only. -/
theorem keys_insert (m : OrderedMap α β) (k : α) (v : β) :
    (m.insert k v).keys = if k ∈ m.keys then m.keys else m.keys ++ [k] :=
  map_fst_insertPairs k v m.entries

theorem lookupPairs_insertPairs (k k' : α) (v : β) (ps : List (α × β)) :
    lookupPairs k' (insertPairs k v ps) = if k' = k then some v else lookupPairs k' ps := by
  induction ps with
  | nil => simp [insertPairs, lookupPairs, eq_comm]
  | cons p ps ih => grind [insertPairs, lookupPairs]

/-- What was inserted is found under its key, and under the others what was there before. -/
theorem get?_insert (m : OrderedMap α β) (k k' : α) (v : β) :
    (m.insert k v).get? k' = if k' = k then some v else m.get? k' :=
  lookupPairs_insertPairs k k' v m.entries

/-! ## Erasing -/

/-- Takes away a key and its value. -/
def erase (m : OrderedMap α β) (k : α) : OrderedMap α β where
  entries := m.entries.filter (·.1 ≠ k)
  nodup_keys := m.nodup_keys.sublist (List.filter_sublist.map _)

/-- Erasing keeps the order of the other keys. -/
theorem keys_erase (m : OrderedMap α β) (k : α) : (m.erase k).keys = m.keys.filter (· ≠ k) := by
  simp [keys, erase, List.filter_map, Function.comp_def]

theorem lookupPairs_filter_ne (k k' : α) (ps : List (α × β)) :
    lookupPairs k' (ps.filter (·.1 ≠ k)) = if k' = k then none else lookupPairs k' ps := by
  induction ps with
  | nil => simp [lookupPairs]
  | cons p ps ih => grind [lookupPairs]

/-- Nothing is found under the key that was erased. -/
theorem get?_erase (m : OrderedMap α β) (k k' : α) :
    (m.erase k).get? k' = if k' = k then none else m.get? k' :=
  lookupPairs_filter_ne k k' m.entries

/-! ## From a list of pairs -/

/-- Inserts the pairs one after the other. -/
def insertAll (m : OrderedMap α β) (ps : List (α × β)) : OrderedMap α β :=
  ps.foldl (fun m p => m.insert p.1 p.2) m

/-- The map that the pairs give when they are inserted one after the other. -/
def ofList (ps : List (α × β)) : OrderedMap α β := insertAll ∅ ps

end OrderedMap

end UpsSetup
