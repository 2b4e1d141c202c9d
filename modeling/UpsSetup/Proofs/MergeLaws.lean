import UpsSetup.Proofs.MergedSections

/-!
# The laws of merging

What a merge makes of the sections is said twice here. `Sections.IsMerge` lists what has to be seen
in the result, with the order of its sections and of their entries, and nothing else is a merge
(`Sections.merge_eq_iff`): each section keeps what it had, driver and port are those of the last
device of its name, and the description is the last one that is not empty. `Sections.merge_composes`
speaks of merges only: a second merge adds its devices to those of the first, and the same devices
once more change nothing.

Sections are values here, so the ones that a merge starts from are what they were.
-/

namespace UpsSetup

/-! ## What devices say -/

/-- The last device decides a key about which every device says something. -/
theorem lastGiven?_of_forall {key : String} (f : Device → String)
    (h : ∀ d : Device, d.given? key = some (f d)) (devices : List Device) :
    lastGiven? devices key = devices.getLast?.map f := by
  rw [lastGiven?, List.filterMap_congr fun d _ => h d, List.filterMap_eq_map', List.getLast?_map]

theorem lastGiven?_descriptionKey (devices : List Device) :
    lastGiven? devices descriptionKey = lastDescription? devices := by
  have hgiven : ∀ d : Device, d.given? descriptionKey =
      if d.description ≠ "" then some d.description else none := by
    intro d
    simp [Device.given?, driverKey, portKey, descriptionKey]
  rw [lastGiven?, lastDescription?, List.filterMap_congr fun d _ => hgiven d,
    ← List.filterMap_eq_map', List.filterMap_filter]
  simp

theorem lastGiven?_of_other (devices : List Device) {key : String}
    (h : key ∉ [driverKey, portKey, descriptionKey]) : lastGiven? devices key = none := by
  have hgiven : ∀ d : Device, d.given? key = none := by
    intro d
    simp_all [Device.given?]
  rw [lastGiven?, List.filterMap_congr fun d _ => hgiven d]
  simp

/-! ## One section -/

namespace Section

/-- The same devices once more change nothing. -/
theorem foldl_describe_self (entries : Section) (devices : List Device) :
    devices.foldl describe (devices.foldl describe entries) = devices.foldl describe entries := by
  refine foldl_describe_eq_self_iff.mpr fun key value h => ?_
  rw [get?_foldl_describe, h]
  rfl

/-- The section `entries` is `base` with the driver and the port of `d` and with a description, if
there is one. -/
structure IsDescribed (base : Section) (d : Device) (description? : Option String)
    (entries : Section) : Prop where
  /-- The keys of `base` keep their places, and the missing ones follow in this order. -/
  keys : entries.keys = base.keys ++
    (driverKey :: portKey :: (description?.map fun _ => descriptionKey).toList).filter
      (· ∉ base.keys)
  driver : entries.get? driverKey = some (some d.driver)
  port : entries.get? portKey = some (some d.port)
  description :
    entries.get? descriptionKey = (description?.map some).or (base.get? descriptionKey)
  others : ∀ key, key ∉ [driverKey, portKey, descriptionKey] → entries.get? key = base.get? key

variable {base entries entries' : Section} {d : Device} {description? : Option String}

/-- Only one section is described so. -/
theorem IsDescribed.unique (h : IsDescribed base d description? entries)
    (h' : IsDescribed base d description? entries') : entries = entries' := by
  refine OrderedMap.eq_of_keys (h.keys.trans h'.keys.symm) fun key => ?_
  by_cases hkey : key ∈ [driverKey, portKey, descriptionKey]
  · simp only [List.mem_cons, List.not_mem_nil, or_false] at hkey
    rcases hkey with rfl | rfl | rfl
    · rw [h.driver, h'.driver]
    · rw [h.port, h'.port]
    · rw [h.description, h'.description]
  · rw [h.others key hkey, h'.others key hkey]

/-- The last of the devices and the last description describe the section. -/
theorem isDescribed_foldl_describe (base : Section) {devices : List Device}
    (h : devices.getLast? = some d) :
    IsDescribed base d (lastDescription? devices) (devices.foldl describe base) where
  keys := by
    refine keys_foldl_describe base ?_
    rintro rfl
    simp at h
  driver := by
    rw [get?_foldl_describe, lastGiven?_of_forall (·.driver) (fun _ => rfl), h]
    rfl
  port := by
    rw [get?_foldl_describe, lastGiven?_of_forall (·.port) (fun _ => rfl), h]
    rfl
  description := by rw [get?_foldl_describe, lastGiven?_descriptionKey]
  others key hkey := by
    rw [get?_foldl_describe, lastGiven?_of_other devices hkey]
    rfl

end Section

/-! ## All sections -/

namespace Sections

/-- What is kept of a section: everything in the global one, and in the others if they are kept. -/
def kept (s : Sections) (keepsExisting : Bool) (name : String) : Section :=
  if name = globalSection ∨ keepsExisting = true then OrderedMap.getD s name ∅ else ∅

/-- The names of the sections that are kept, the global one first. -/
def keptNames (s : Sections) (keepsExisting : Bool) : List String :=
  globalSection :: if keepsExisting then s.keys.filter (· ≠ globalSection) else []

theorem keys_base (s : Sections) (keepsExisting : Bool) :
    (base s keepsExisting).keys = keptNames s keepsExisting := by
  cases keepsExisting with
  | false => rfl
  | true =>
    show globalSection :: (s.entries.filter (·.1 ≠ globalSection)).map (·.1) = _
    rw [keptNames, if_pos rfl, OrderedMap.keys, List.filter_map]
    rfl

/-- What devices and a choice whether to keep the sections make of them: the sections `m`. -/
structure IsMerge (s : Sections) (devices : List Device) (keepsExisting : Bool) (m : Sections) :
    Prop where
  /-- The sections that are kept come first, and then the new ones in the order in which their
  names appear first. -/
  names : m.keys = keptNames s keepsExisting ++
    ((devices.map (·.id)).filter (· ∉ keptNames s keepsExisting)).eraseDups
  /-- A section of which there is no device is as it was kept. -/
  undescribed : ∀ name ∈ m.keys, (∀ d ∈ devices, d.id ≠ name) →
    m.get? name = some (kept s keepsExisting name)
  /-- Any other section is described by the last device of its name and the last description. -/
  described : ∀ name d, (devices.filter (·.id = name)).getLast? = some d →
    ∃ entries, m.get? name = some entries ∧
      Section.IsDescribed (kept s keepsExisting name) d
        (lastDescription? (devices.filter (·.id = name))) entries

variable {s m m' : Sections} {devices : List Device} {keepsExisting : Bool}

theorem isMerge_merge (s : Sections) (devices : List Device) (keepsExisting : Bool) :
    IsMerge s devices keepsExisting (s.merge devices keepsExisting) where
  names := by rw [keys_merge, keys_base]
  undescribed name hname hnone := by
    have hfilter : devices.filter (·.id = name) = [] :=
      List.filter_eq_nil_iff.mpr fun d hd => by simpa using hnone d hd
    rw [OrderedMap.get?_of_mem_keys hname ∅, getD_merge, hfilter, getD_base]
    rfl
  described name d hlast := by
    have hd := List.mem_filter.mp (List.mem_of_getLast? hlast)
    have hname : name ∈ (s.merge devices keepsExisting).keys :=
      mem_keys_merge.mpr (Or.inr ⟨d, hd.1, (of_decide_eq_true hd.2).symm⟩)
    refine ⟨_, OrderedMap.get?_of_mem_keys hname ∅, ?_⟩
    rw [getD_merge, getD_base]
    exact Section.isDescribed_foldl_describe _ hlast

/-- Only one map of sections is the merge. -/
theorem IsMerge.unique (h : IsMerge s devices keepsExisting m)
    (h' : IsMerge s devices keepsExisting m') : m = m' := by
  have hkeys := h.names.trans h'.names.symm
  refine OrderedMap.eq_of_keys hkeys fun name => ?_
  cases hlast : (devices.filter (·.id = name)).getLast? with
  | some d =>
    obtain ⟨entries, hget, hdescribed⟩ := h.described name d hlast
    obtain ⟨entries', hget', hdescribed'⟩ := h'.described name d hlast
    rw [hget, hget', hdescribed.unique hdescribed']
  | none =>
    have hnone : ∀ d ∈ devices, d.id ≠ name := by
      simpa using List.getLast?_eq_none_iff.mp hlast
    by_cases hname : name ∈ m.keys
    · rw [h.undescribed name hname hnone, h'.undescribed name (hkeys ▸ hname) hnone]
    · rw [OrderedMap.get?_eq_none_iff.mpr hname, OrderedMap.get?_eq_none_iff.mpr (hkeys ▸ hname)]

/-- **The full meaning of a merge.** The merge has the sections that are kept and those of the
devices, each with what its devices say last, in this order, and no other map has. -/
theorem merge_eq_iff : s.merge devices keepsExisting = m ↔ IsMerge s devices keepsExisting m := by
  constructor
  · rintro rfl
    exact isMerge_merge s devices keepsExisting
  · exact (isMerge_merge s devices keepsExisting).unique

example :
    merge (OrderedMap.ofList [("a", OrderedMap.ofList [(descriptionKey, some "old"), ("x", none)])])
      [⟨"b", "drv", "p", "new"⟩, ⟨"a", "drv", "p", ""⟩, ⟨"b", "drv2", "p", ""⟩] true =
    OrderedMap.ofList [(globalSection, ∅),
      ("a", OrderedMap.ofList [(descriptionKey, some "old"), ("x", none), (driverKey, some "drv"),
        (portKey, some "p")]),
      ("b", OrderedMap.ofList [(driverKey, some "drv2"), (portKey, some "p"),
        (descriptionKey, some "new")])] := by decide

/-! ## Merges of merges -/

theorem merge_append_self (s : Sections) (devices : List Device) (keepsExisting : Bool) :
    s.merge (devices ++ devices) keepsExisting = s.merge devices keepsExisting := by
  have hfold : s.merge (devices ++ devices) keepsExisting =
      devices.foldl upsert (s.merge devices keepsExisting) := List.foldl_append
  have hmem : ∀ name, name ∈ (s.merge (devices ++ devices) keepsExisting).keys ↔
      name ∈ (s.merge devices keepsExisting).keys := by
    intro name
    simp only [mem_keys_merge, List.mem_append, or_self]
  refine OrderedMap.eq_of_keys_prefix ?_ fun name => ?_
  · rw [hfold, keys_foldl_upsert]
    exact List.prefix_append _ _
  · by_cases hname : name ∈ (s.merge devices keepsExisting).keys
    · rw [OrderedMap.get?_of_mem_keys hname ∅, OrderedMap.get?_of_mem_keys ((hmem name).mpr hname) ∅,
        getD_merge, getD_merge, List.filter_append, List.foldl_append, Section.foldl_describe_self]
    · rw [OrderedMap.get?_eq_none_iff.mpr hname,
        OrderedMap.get?_eq_none_iff.mpr fun h => hname ((hmem name).mp h)]

/-- **Merges compose, and a merge that is made again changes nothing.** -/
theorem merge_composes (s : Sections) (devices more : List Device) (keepsExisting : Bool) :
    merge (merge s devices keepsExisting) more true = merge s (devices ++ more) keepsExisting ∧
      merge (merge s devices keepsExisting) devices true = merge s devices keepsExisting := by
  refine ⟨merge_merge s devices more keepsExisting, ?_⟩
  rw [merge_merge, merge_append_self]

end Sections

end UpsSetup
