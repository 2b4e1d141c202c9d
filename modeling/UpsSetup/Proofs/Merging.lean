import UpsSetup.Document.Devices
import UpsSetup.Proofs.Sections

/-!
# Merging devices into sections

What is in the sections after devices were put into them comes from the sections before or from one
of the devices (`lookup?_merge_cases`, `mem_keys_merge`). Devices that are added to a merge are
merged with those of it (`merge_merge`), since the global section is first already after the first
step. -/

namespace UpsSetup

/-- The device describes the entry. -/
def Device.Describes (d : Device) (name key : String) (value : Option String) : Prop :=
  name = d.id ∧ ((key = driverKey ∧ value = some d.driver) ∨ (key = portKey ∧ value = some d.port) ∨
    (key = descriptionKey ∧ value = some d.description))

namespace Sections

/-! ## The start of a merge -/

/-- A merge starts from the global section, and from the others too if they are kept. -/
theorem getD_base (s : Sections) (keepsExisting : Bool) (name : String) :
    (base s keepsExisting).getD name ∅ =
      if name = globalSection ∨ keepsExisting = true then s.getD name ∅ else ∅ := by
  unfold OrderedMap.getD OrderedMap.get? base
  simp only [OrderedMap.lookupPairs]
  by_cases hn : globalSection = name
  · rw [if_pos hn, if_pos (Or.inl hn.symm), ← hn]
    rfl
  · rw [if_neg hn]
    cases keepsExisting with
    | false =>
      have hnot : ¬(name = globalSection ∨ false = true) := by
        rintro (h | h)
        · exact hn h.symm
        · simp at h
      rw [if_neg hnot]
      rfl
    | true =>
      rw [if_pos (Or.inr rfl), if_pos rfl, OrderedMap.lookupPairs_filter_ne, if_neg (Ne.symm hn)]

/-- The global section is the first, also where there was none. -/
theorem head?_keys_base (s : Sections) (keepsExisting : Bool) :
    (base s keepsExisting).keys.head? = some globalSection := rfl

theorem mem_keys_base {s : Sections} {keepsExisting : Bool} {name : String}
    (h : name ∈ (base s keepsExisting).keys) : name = globalSection ∨ name ∈ s.keys := by
  rcases List.mem_cons.mp h with h | h
  · exact Or.inl h
  · cases keepsExisting with
    | false => simp at h
    | true => exact Or.inr ((List.filter_sublist.map _).mem h)

/-- The start of a merge has no entries of its own. -/
theorem lookup?_base {s : Sections} {keepsExisting : Bool} {name key : String}
    {value : Option String} (h : (base s keepsExisting).lookup? name key = some value) :
    s.lookup? name key = some value := by
  rw [lookup?, getD_base] at h
  split at h
  · exact h
  · simp at h

/-- Sections that start with the global one are a start already. -/
theorem base_of_head? {s : Sections} (h : s.keys.head? = some globalSection) : base s true = s := by
  refine OrderedMap.ext ?_
  obtain ⟨entries, hnodup⟩ := s
  cases entries with
  | nil => simp [OrderedMap.keys] at h
  | cons p rest =>
    obtain ⟨name, entries⟩ := p
    have hname : name = globalSection := by simpa [OrderedMap.keys] using h
    subst hname
    have hrest : rest.filter (·.1 ≠ globalSection) = rest := by
      refine List.filter_eq_self.mpr fun q hq => ?_
      rw [List.map_cons, List.nodup_cons] at hnodup
      have hmem : q.1 ∈ rest.map (·.1) := List.mem_map_of_mem hq
      have hne : q.1 ≠ globalSection := by
        intro he
        rw [he] at hmem
        exact hnodup.1 hmem
      simpa using hne
    unfold base
    dsimp only
    rw [if_pos rfl, OrderedMap.getD_of_mem List.mem_cons_self, List.filter_cons_of_neg (by simp),
      hrest]

/-! ## One device -/

/-- A device adds its section, at the end, unless there is one of its id. -/
theorem keys_upsert (s : Sections) (d : Device) :
    (s.upsert d).keys = if d.id ∈ s.keys then s.keys else s.keys ++ [d.id] := by
  have hset : ∀ (s' : Sections) key value, d.id ∈ s'.keys →
      (s'.setValue d.id key value).keys = s'.keys :=
    fun _ key value hmem => keys_setValue_of_mem hmem key value
  have hfirst : (s.setValue d.id driverKey (some d.driver)).keys =
      if d.id ∈ s.keys then s.keys else s.keys ++ [d.id] :=
    OrderedMap.keys_insert _ _ _
  have hmem : d.id ∈ (s.setValue d.id driverKey (some d.driver)).keys :=
    mem_keys_setValue.mpr (Or.inl rfl)
  have hsecond := hset _ portKey (some d.port) hmem
  unfold upsert
  dsimp only
  split
  · rw [hsecond, hfirst]
  · rw [hset _ _ _ (hsecond ▸ hmem), hsecond, hfirst]

/-- An entry of a section was there before or is described by the device. -/
theorem lookup?_upsert {s : Sections} {d : Device} {name key : String} {value : Option String}
    (h : (upsert s d).lookup? name key = some value) :
    s.lookup? name key = some value ∨ d.Describes name key value := by
  have hdriver : ∀ s' : Sections, (setValue s' d.id driverKey (some d.driver)).lookup? name key =
      some value → s'.lookup? name key = some value ∨ d.Describes name key value := by
    intro s' h
    rw [lookup?_setValue] at h
    split at h
    next he => exact Or.inr ⟨he.1, Or.inl ⟨he.2, (Option.some.inj h).symm⟩⟩
    next => exact Or.inl h
  have hport : ∀ s' : Sections, (setValue s' d.id portKey (some d.port)).lookup? name key =
      some value → s'.lookup? name key = some value ∨ d.Describes name key value := by
    intro s' h
    rw [lookup?_setValue] at h
    split at h
    next he => exact Or.inr ⟨he.1, Or.inr (Or.inl ⟨he.2, (Option.some.inj h).symm⟩)⟩
    next => exact Or.inl h
  have hboth : (setValue (setValue s d.id driverKey (some d.driver)) d.id portKey
      (some d.port)).lookup? name key = some value →
      s.lookup? name key = some value ∨ d.Describes name key value := by
    intro h
    rcases hport _ h with h | h
    · exact hdriver _ h
    · exact Or.inr h
  unfold upsert at h
  dsimp only at h
  split at h
  · exact hboth h
  · rw [lookup?_setValue] at h
    split at h
    next he => exact Or.inr ⟨he.1, Or.inr (Or.inr ⟨he.2, (Option.some.inj h).symm⟩)⟩
    next => exact hboth h

/-! ## All devices -/

/-- New sections come last, in the order in which their names appear first. -/
theorem keys_foldl_upsert (s : Sections) (devices : List Device) :
    (devices.foldl upsert s).keys =
      s.keys ++ ((devices.map (·.id)).filter (· ∉ s.keys)).eraseDups := by
  induction devices generalizing s with
  | nil => simp
  | cons d devices ih =>
    rw [List.foldl_cons, ih, keys_upsert, List.map_cons]
    split
    next hmem => rw [List.filter_cons_of_neg (by simpa using hmem)]
    next hmem =>
      rw [List.filter_cons_of_pos (by simpa using hmem), List.eraseDups_cons, List.append_assoc,
        List.singleton_append, List.filter_filter]
      congr 3
      refine List.filter_congr fun name _ => ?_
      by_cases hname : name = d.id
      · simp [hname]
      · simp [hname]

theorem keys_merge (s : Sections) (devices : List Device) (keepsExisting : Bool) :
    (merge s devices keepsExisting).keys = (base s keepsExisting).keys ++
      ((devices.map (·.id)).filter (· ∉ (base s keepsExisting).keys)).eraseDups :=
  keys_foldl_upsert _ _

theorem head?_keys_merge (s : Sections) (devices : List Device) (keepsExisting : Bool) :
    (merge s devices keepsExisting).keys.head? = some globalSection := by
  rw [keys_merge, List.head?_append, head?_keys_base, Option.some_or]

/-- The sections are those of the start and one for each device. -/
theorem mem_keys_merge {s : Sections} {devices : List Device}
    {keepsExisting : Bool} {name : String} :
    name ∈ (merge s devices keepsExisting).keys ↔
      name ∈ (base s keepsExisting).keys ∨ ∃ d ∈ devices, name = d.id := by
  have hid : name ∈ devices.map (·.id) ↔ ∃ d ∈ devices, name = d.id := by
    simp only [List.mem_map, eq_comm]
  rw [keys_merge, List.mem_append, List.mem_eraseDups, List.mem_filter, hid]
  by_cases hname : name ∈ (base s keepsExisting).keys
  · simp [hname]
  · simp [hname]

/-- An entry of a merge was there before or is described by one of the devices. -/
theorem lookup?_merge_cases {s : Sections} {devices : List Device} {keepsExisting : Bool}
    {name key : String} {value : Option String}
    (h : (merge s devices keepsExisting).lookup? name key = some value) :
    s.lookup? name key = some value ∨ ∃ d ∈ devices, d.Describes name key value := by
  have hfold : ∀ s' : Sections, (devices.foldl upsert s').lookup? name key = some value →
      s'.lookup? name key = some value ∨ ∃ d ∈ devices, d.Describes name key value := by
    clear h
    induction devices with
    | nil => exact fun _ h => Or.inl h
    | cons d devices ih =>
      intro s' h
      rcases ih _ h with h | ⟨d', hd', h⟩
      · rcases lookup?_upsert h with h | h
        · exact Or.inl h
        · exact Or.inr ⟨d, List.mem_cons_self, h⟩
      · exact Or.inr ⟨d', List.mem_cons_of_mem _ hd', h⟩
  rcases hfold _ h with h | h
  · exact Or.inl (lookup?_base h)
  · exact Or.inr h

/-! ## What stays -/

theorem HasSlot.setValue {s : Sections} {slot : String × Option String} (h : s.HasSlot slot)
    (name key : String) (value : Option String) : (s.setValue name key value).HasSlot slot := by
  obtain ⟨name', key'⟩ := slot
  cases key' with
  | none => exact ⟨h.1, mem_keys_setValue.mpr (Or.inr h.2)⟩
  | some key' =>
    obtain ⟨value', hvalue⟩ := h
    by_cases he : name' = name ∧ key' = key
    · exact ⟨value, by rw [lookup?_setValue, if_pos he]⟩
    · exact ⟨value', by rw [lookup?_setValue, if_neg he, hvalue]⟩

theorem HasSlot.upsert {s : Sections} {slot : String × Option String} (h : s.HasSlot slot)
    (d : Device) : (s.upsert d).HasSlot slot := by
  have hboth := (h.setValue d.id driverKey (some d.driver)).setValue d.id portKey (some d.port)
  unfold Sections.upsert
  dsimp only
  split
  · exact hboth
  · exact hboth.setValue d.id descriptionKey (some d.description)

theorem HasSlot.base {s : Sections} {slot : String × Option String} (h : s.HasSlot slot) :
    (s.base true).HasSlot slot := by
  obtain ⟨name, key⟩ := slot
  cases key with
  | none =>
    obtain ⟨hne, hmem⟩ := h
    obtain ⟨p, hp, rfl⟩ := List.mem_map.mp hmem
    refine ⟨hne, List.mem_cons_of_mem _ (List.mem_map_of_mem ?_)⟩
    exact List.mem_filter.mpr ⟨hp, by simpa using hne⟩
  | some key =>
    obtain ⟨value, hvalue⟩ := h
    refine ⟨value, ?_⟩
    rw [lookup?, getD_base, if_pos (Or.inr rfl)]
    exact hvalue

/-- Devices that are added take no header and no entry away. -/
theorem HasSlot.merge {s : Sections} {slot : String × Option String} (h : s.HasSlot slot)
    (devices : List Device) : (s.merge devices true).HasSlot slot := by
  have hfold : ∀ s' : Sections, s'.HasSlot slot →
      (devices.foldl Sections.upsert s').HasSlot slot := by
    induction devices with
    | nil => exact fun _ h' => h'
    | cons d devices ih => exact fun s' h' => ih _ (h'.upsert d)
  exact hfold _ h.base

/-- **Devices that are added to a merge are merged with those of it.** -/
theorem merge_merge (s : Sections) (devices more : List Device) (keepsExisting : Bool) :
    merge (merge s devices keepsExisting) more true = merge s (devices ++ more) keepsExisting := by
  have hstart : base (merge s devices keepsExisting) true = merge s devices keepsExisting :=
    base_of_head? (head?_keys_merge s devices keepsExisting)
  show more.foldl upsert (base (merge s devices keepsExisting) true) =
    (devices ++ more).foldl upsert _
  rw [hstart, List.foldl_append]
  rfl

end Sections

end UpsSetup
