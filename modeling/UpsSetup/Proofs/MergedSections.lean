import Mathlib.Data.List.Basic
import Mathlib.Data.List.Induction
import UpsSetup.Proofs.Merging

/-!
# Sections after a merge

A device that is put into the sections reaches one section only, the one under its identifier
(`Sections.getD_upsert`), so that each section after a merge is made by the devices of its own name
(`Sections.getD_merge`), and an entry of it by the last of these that says something about the key
(`get?_foldl_describe`). Keys keep their places, and missing ones come last (`keys_foldl_describe`).
The global section is no exception: it has the empty name, so a device whose identifier is empty is
put into it, and `Sections.getD_merge_globalSection_iff` says for which devices this can be seen. -/

namespace UpsSetup

/-! ## Maps with the same entries -/

namespace OrderedMap

variable {α β : Type} [DecidableEq α]

theorem keys_insert_eq_append (m : OrderedMap α β) (k : α) (v : β) :
    (m.insert k v).keys = m.keys ++ [k].filter (· ∉ m.keys) := by
  rw [keys_insert, List.filter_singleton]
  split
  next h => simp [h]
  next h => simp [h]

/-- Taking up what is new of a list and then what is new of another one. -/
theorem append_filter_append (keys l l' : List α) :
    keys ++ l.filter (· ∉ keys) ++ l'.filter (· ∉ keys ++ l.filter (· ∉ keys)) =
      keys ++ (l ++ l'.filter (· ∉ l)).filter (· ∉ keys) := by
  rw [List.append_assoc, List.filter_append, List.filter_filter]
  congr 2
  refine List.filter_congr fun k _ => ?_
  by_cases hk : k ∈ keys
  · simp [hk]
  · simp [hk]

/-- The keys and what they look up determine the pairs. -/
theorem entries_eq_filterMap (m : OrderedMap α β) :
    m.entries = m.keys.filterMap fun k => (m.get? k).map (k, ·) := by
  rw [keys, List.filterMap_map, List.filterMap_eq_map_iff_forall_eq_some.mpr, List.map_id]
  intro p hp
  rw [Function.comp_apply, get?_eq_some_iff.mpr hp]
  rfl

/-- A map that has grown at its end and looks up the same has not grown. -/
theorem eq_of_keys_prefix {m m' : OrderedMap α β} (hkeys : m.keys <+: m'.keys)
    (h : ∀ k, m'.get? k = m.get? k) : m' = m := by
  obtain ⟨more, hmore⟩ := hkeys
  have hnil : more = [] := by
    refine List.eq_nil_iff_forall_not_mem.mpr fun k hk => ?_
    have hk' : k ∈ m'.keys := by rw [← hmore]; exact List.mem_append_right _ hk
    have hkm : k ∈ m.keys := by rwa [← contains_iff, contains, ← h k, ← contains, contains_iff]
    have hnodup := m'.keys_nodup
    rw [← hmore, List.nodup_append] at hnodup
    exact hnodup.2.2 k hkm k hk rfl
  rw [hnil, List.append_nil] at hmore
  refine ext ?_
  rw [entries_eq_filterMap m', entries_eq_filterMap m, hmore]
  exact List.filterMap_congr fun k _ => by rw [h k]

theorem eq_of_keys {m m' : OrderedMap α β} (hkeys : m'.keys = m.keys)
    (h : ∀ k, m'.get? k = m.get? k) : m' = m :=
  eq_of_keys_prefix (hkeys ▸ List.prefix_rfl) h

theorem get?_of_mem_keys {m : OrderedMap α β} {k : α} (h : k ∈ m.keys) (default : β) :
    m.get? k = some (m.getD k default) := by
  obtain ⟨v, hv⟩ := exists_get?_of_mem_keys h
  rw [getD, hv, Option.getD_some]

end OrderedMap

/-! ## One section -/

/-- What a device says about a key of its section. It says nothing about a description that is
empty. -/
def Device.given? (d : Device) (key : String) : Option String :=
  if key = driverKey then some d.driver
  else if key = portKey then some d.port
  else if key = descriptionKey ∧ d.description ≠ "" then some d.description
  else none

/-- The last word of the devices on a key. -/
def lastGiven? (devices : List Device) (key : String) : Option String :=
  (devices.filterMap (·.given? key)).getLast?

/-- The last description that is not empty. -/
def lastDescription? (devices : List Device) : Option String :=
  ((devices.filter (·.description ≠ "")).map (·.description)).getLast?

/-- The keys of a section that devices give values, in the order in which they do so first. -/
def givenKeys (devices : List Device) : List String :=
  driverKey :: portKey :: ((lastDescription? devices).map fun _ => descriptionKey).toList

theorem lastDescription?_append (devices more : List Device) :
    lastDescription? (devices ++ more) = (lastDescription? more).or (lastDescription? devices) := by
  rw [lastDescription?, List.filter_append, List.map_append, List.getLast?_append]
  rfl

theorem givenKeys_append (devices more : List Device) :
    givenKeys (devices ++ more) =
      givenKeys devices ++ (givenKeys more).filter (· ∉ givenKeys devices) := by
  unfold givenKeys
  rw [lastDescription?_append]
  cases lastDescription? devices <;> cases lastDescription? more <;> rfl

namespace Section

/-- The section after a device was put into it. -/
def describe (entries : Section) (d : Device) : Section :=
  let entries : Section := (entries.insert driverKey (some d.driver)).insert portKey (some d.port)
  if d.description = "" then entries else entries.insert descriptionKey (some d.description)

theorem get?_describe (entries : Section) (d : Device) (key : String) :
    (describe entries d).get? key = ((d.given? key).map some).or (entries.get? key) := by
  have hdriver : driverKey ≠ portKey ∧ driverKey ≠ descriptionKey := by decide
  have hport : portKey ≠ descriptionKey := by decide
  unfold describe Device.given?
  by_cases hd : key = driverKey
  · subst hd
    split
    · simp [OrderedMap.get?_insert, hdriver.1]
    · simp [OrderedMap.get?_insert, hdriver.1, hdriver.2]
  by_cases hp : key = portKey
  · subst hp
    split
    · simp [OrderedMap.get?_insert]
    · simp [OrderedMap.get?_insert, hport]
  · split
    next he => simp [OrderedMap.get?_insert, hd, hp, he]
    next he =>
      by_cases hk : key = descriptionKey
      · subst hk
        simp [OrderedMap.get?_insert, he]
      · simp [OrderedMap.get?_insert, hd, hp, hk]

theorem keys_describe (entries : Section) (d : Device) :
    (describe entries d).keys =
      entries.keys ++ (givenKeys [d]).filter (· ∉ entries.keys) := by
  have hport : [driverKey] ++ [portKey].filter (· ∉ [driverKey]) = [driverKey, portKey] := by decide
  have hdescription : [driverKey, portKey] ++ [descriptionKey].filter (· ∉ [driverKey, portKey]) =
      [driverKey, portKey, descriptionKey] := by decide
  have hboth : ((entries.insert driverKey (some d.driver)).insert portKey (some d.port)).keys =
      entries.keys ++ [driverKey, portKey].filter (· ∉ entries.keys) := by
    rw [OrderedMap.keys_insert_eq_append, OrderedMap.keys_insert_eq_append,
      OrderedMap.append_filter_append, hport]
  unfold describe givenKeys lastDescription?
  dsimp only
  split
  next he =>
    rw [hboth]
    simp [he]
  next he =>
    rw [OrderedMap.keys_insert_eq_append, hboth, OrderedMap.append_filter_append, hdescription]
    simp [he]

/-- Keys that are missing come last, in the order in which they are given values. -/
theorem keys_foldl_describe (entries : Section) {devices : List Device} (h : devices ≠ []) :
    (devices.foldl describe entries).keys =
      entries.keys ++ (givenKeys devices).filter (· ∉ entries.keys) := by
  induction devices using List.reverseRecOn with
  | nil => exact absurd rfl h
  | append_singleton devices d ih =>
    rw [List.foldl_append, List.foldl_cons, List.foldl_nil, keys_describe]
    by_cases hd : devices = []
    · rw [hd, List.nil_append]
      rfl
    · rw [ih hd, OrderedMap.append_filter_append, givenKeys_append]

theorem keys_prefix_foldl_describe (entries : Section) (devices : List Device) :
    entries.keys <+: (devices.foldl describe entries).keys := by
  by_cases h : devices = []
  · rw [h]
    exact List.prefix_rfl
  · rw [keys_foldl_describe entries h]
    exact List.prefix_append _ _

/-- The last device that says something about a key decides it. -/
theorem get?_foldl_describe (entries : Section) (devices : List Device) (key : String) :
    (devices.foldl describe entries).get? key =
      ((lastGiven? devices key).map some).or (entries.get? key) := by
  induction devices using List.reverseRecOn with
  | nil => rfl
  | append_singleton devices d ih =>
    rw [List.foldl_append, List.foldl_cons, List.foldl_nil, get?_describe, ih, lastGiven?,
      lastGiven?, List.filterMap_append]
    cases hg : d.given? key with
    | none => simp [hg]
    | some value => simp [hg]

/-- Devices leave a section as it is if and only if it has their last words already. -/
theorem foldl_describe_eq_self_iff {entries : Section} {devices : List Device} :
    devices.foldl describe entries = entries ↔
      ∀ key value, lastGiven? devices key = some value → entries.get? key = some (some value) := by
  constructor
  · intro h key value hvalue
    have hkey := get?_foldl_describe entries devices key
    rwa [h, hvalue] at hkey
  · intro h
    refine OrderedMap.eq_of_keys_prefix (keys_prefix_foldl_describe entries devices) fun key => ?_
    rw [get?_foldl_describe]
    cases hlast : lastGiven? devices key with
    | none => rfl
    | some value => rw [h key value hlast]; rfl

end Section

/-! ## All sections -/

namespace Sections

theorem getD_setValue (s : Sections) (name key : String) (value : Option String) (name' : String) :
    (s.setValue name key value).getD name' ∅ =
      if name' = name then (OrderedMap.getD s name ∅).insert key value else s.getD name' ∅ :=
  OrderedMap.getD_insert s name name' _ ∅

/-- A device reaches the section under its identifier and no other. -/
theorem getD_upsert (s : Sections) (d : Device) (name : String) :
    (s.upsert d).getD name ∅ =
      if name = d.id then Section.describe (s.getD name ∅) d else s.getD name ∅ := by
  unfold upsert Section.describe
  by_cases hn : name = d.id
  · subst hn
    dsimp only
    split
    · simp only [getD_setValue, if_true]
    · simp only [getD_setValue, if_true]
  · dsimp only
    split
    · simp only [getD_setValue, if_neg hn]
    · simp only [getD_setValue, if_neg hn]

/-- Each section after a merge is made by the devices of its name. -/
theorem getD_merge (s : Sections) (devices : List Device) (keepsExisting : Bool) (name : String) :
    (s.merge devices keepsExisting).getD name ∅ =
      (devices.filter (·.id = name)).foldl Section.describe
        ((base s keepsExisting).getD name ∅) := by
  have hfold : ∀ s' : Sections, (devices.foldl upsert s').getD name ∅ =
      (devices.filter (·.id = name)).foldl Section.describe (s'.getD name ∅) := by
    induction devices with
    | nil => exact fun _ => rfl
    | cons d devices ih =>
      intro s'
      rw [List.foldl_cons, ih, getD_upsert]
      by_cases hn : d.id = name
      · rw [if_pos hn.symm, List.filter_cons_of_pos (by simpa using hn), List.foldl_cons]
      · rw [if_neg (Ne.symm hn), List.filter_cons_of_neg (by simpa using hn)]
  exact hfold _

/-- **The global section is no section of its own for devices: they change it if and only if one of
them has the empty identifier and the last words of those devices are not in it yet.** Whether the
other sections are kept makes no difference. -/
theorem getD_merge_globalSection_iff (s : Sections) (devices : List Device)
    (keepsExisting : Bool) :
    (s.merge devices keepsExisting).getD globalSection ∅ = s.getD globalSection ∅ ↔
      ∀ key value, lastGiven? (devices.filter (·.id = "")) key = some value →
        s.lookup? globalSection key = some (some value) := by
  rw [getD_merge, getD_base, if_pos (Or.inl rfl)]
  exact Section.foldl_describe_eq_self_iff

example : ((∅ : Sections).merge [⟨"", "drv", "port", ""⟩] true).getD globalSection ∅ =
    OrderedMap.ofList [(driverKey, some "drv"), (portKey, some "port")] := by decide

end Sections

end UpsSetup
