import UpsSetup.Proofs.Comments
import UpsSetup.Proofs.MergeLaws

/-!
# Comments of sections that are replaced

Devices that replace all sections take the headers and entries away that comments stand in front of.
The comments stay in the file under the name of their section and their key, though, and they are
written again with a device that gets this name: `comments_of_replaced` says which comments are
written, and that a section takes its comments with it exactly if no device returns to one of them.
-/

namespace UpsSetup

open Text Line

/-! ## Headers and entries after a merge -/

namespace Sections

variable {devices : List Device} {name : String}

/-- The devices that replace the sections name the new ones. -/
theorem keys_replace (s : Sections) (devices : List Device) :
    (s.merge devices false).keys =
      globalSection :: ((devices.map (·.id)).filter (· ≠ globalSection)).eraseDups := by
  have hglobal : ∀ name, decide (name ∉ [globalSection]) = decide (name ≠ globalSection) := by simp
  have hnames : keptNames s false = [globalSection] := rfl
  rw [keys_merge, keys_base, hnames, List.filter_congr fun name _ => hglobal name]
  rfl

/-- A section that replaces another one has the entries that its devices give it. -/
theorem keys_getD_replace (s : Sections) (hne : name ≠ globalSection)
    (hmem : ∃ d ∈ devices, d.id = name) :
    ((s.merge devices false).getD name ∅).keys =
      givenKeys (devices.filter (·.id = name)) := by
  have hnil : devices.filter (·.id = name) ≠ [] := by
    obtain ⟨d, hd, hid⟩ := hmem
    exact List.ne_nil_of_mem (List.mem_filter.mpr ⟨hd, decide_eq_true hid⟩)
  have hbase : (base s false).getD name ∅ = ∅ := by
    rw [getD_base, if_neg (by simpa using hne)]
  rw [getD_merge, hbase, Section.keys_foldl_describe ∅ hnil]
  simp

end Sections

/-! ## What is written again -/

namespace DeviceFile

variable {f : DeviceFile} {lines : List String}

/-- The comments in front of the entries of the global section. -/
def globalComments (f : DeviceFile) : List String :=
  (f.sections.getD globalSection ∅).keys.flatMap fun key => f.commentsOf globalSection (some key)

/-- The comments that were in front of the header of a section and of those of its entries to which
devices of its name give values. -/
def returningComments (f : DeviceFile) (devices : List Device) (name : String) : List String :=
  f.commentsOf name none ++
    (givenKeys (devices.filter (·.id = name))).flatMap fun key => f.commentsOf name (some key)

/-- Nothing stands in front of an entry that is not there. -/
theorem Reached.commentsOf_of_not_hasSlot (hf : f.Reached) {name : String} {key : Option String}
    (h : ¬f.sections.HasSlot (name, key)) : f.commentsOf name key = [] := by
  rw [commentsOf, OrderedMap.getD, hf.comments_of_not_hasSlot h]
  rfl

/-- Entries that devices add to the global section have no comments. -/
theorem Reached.flatMap_commentsOf_global (hf : f.Reached) {entries : Section}
    (h : (f.sections.getD globalSection ∅).keys <+: entries.keys) :
    entries.keys.flatMap (fun key => f.commentsOf globalSection (some key)) =
      f.globalComments := by
  obtain ⟨more, hmore⟩ := h
  have hnone : more.flatMap (fun key => f.commentsOf globalSection (some key)) = [] := by
    refine List.flatMap_eq_nil_iff.mpr fun key hkey => hf.commentsOf_of_not_hasSlot ?_
    rintro ⟨value, hvalue⟩
    have hmem := (Sections.mem_keys_of_lookup? hvalue).2
    have hnodup := entries.keys_nodup
    rw [← hmore, List.nodup_append] at hnodup
    exact hnodup.2.2 key hmem key hkey rfl
  rw [← hmore, List.flatMap_append, hnone, List.append_nil]
  rfl

/-- The comments that are written with devices in place of all sections. -/
theorem commentsIn_render_replace (hf : f.Reached) (new : List Device) :
    commentsIn (Document.render (f.setDevices new false)) = f.globalComments ++
      (((new.map (·.id)).filter (· ≠ globalSection)).eraseDups.flatMap (f.returningComments new) ++
        f.trailing) := by
  have hglobal : (f.sections.getD globalSection ∅).keys <+:
      ((f.sections.merge new false).getD globalSection ∅).keys := by
    rw [Sections.getD_merge, Sections.getD_base, if_pos (Or.inl rfl)]
    exact Section.keys_prefix_foldl_describe _ _
  have hslots : (f.sections.merge new false).slots.flatMap (f.comments.getD · []) =
      f.globalComments ++
        ((new.map (·.id)).filter (· ≠ globalSection)).eraseDups.flatMap
          (f.returningComments new) := by
    rw [Sections.slots_eq, Sections.keys_replace, List.flatMap_assoc, List.flatMap_cons, if_pos rfl,
      List.nil_append, List.flatMap_map]
    refine congr (congrArg _ (hf.flatMap_commentsOf_global hglobal)) ?_
    refine List.flatMap_congr fun name hname => ?_
    obtain ⟨hid, hne⟩ := List.mem_filter.mp (List.mem_eraseDups.mp hname)
    have hne : name ≠ globalSection := of_decide_eq_true hne
    rw [if_neg hne, Sections.keys_getD_replace _ hne (List.mem_map.mp hid), List.flatMap_append,
      List.flatMap_singleton, List.flatMap_map]
    rfl
  rw [commentsIn_render (setDevices_wellFormed hf new false)]
  show (f.sections.merge new false).slots.flatMap (f.comments.getD · []) ++ f.trailing = _
  rw [hslots, List.append_assoc]

/-- **Sections that are replaced take their comments with them, except those to which a device
returns.** Written are the comments of the global section, then for each device, once for each name,
the comments that the header of its name and its entries had before, and those at the end of the
file; so none is written that belonged to a section exactly if the devices find none. -/
theorem comments_of_replaced (h : Reading.ofLines DeviceFile lines = ⟨f, none⟩)
    (new : List Device) :
    commentsIn (Document.render (f.setDevices new false)) = f.globalComments ++
        (((new.map (·.id)).filter (· ≠ globalSection)).eraseDups.flatMap
          (f.returningComments new) ++ f.trailing) ∧
      (commentsIn (Document.render (f.setDevices new false)) = f.globalComments ++ f.trailing ↔
        ∀ d ∈ new, d.id ≠ globalSection → f.returningComments new d.id = []) := by
  have hrender := commentsIn_render_replace (reached_of_addLines (Reading.ofLines_eq_iff.mp h)) new
  refine ⟨hrender, ?_⟩
  rw [hrender, List.append_cancel_left_eq, List.append_left_eq_self, List.flatMap_eq_nil_iff]
  constructor
  · intro hnone d hd hne
    refine hnone d.id (List.mem_eraseDups.mpr (List.mem_filter.mpr ⟨?_, decide_eq_true hne⟩))
    exact List.mem_map_of_mem hd
  · intro hnone name hname
    obtain ⟨hid, hne⟩ := List.mem_filter.mp (List.mem_eraseDups.mp hname)
    obtain ⟨d, hd, rfl⟩ := List.mem_map.mp hid
    exact hnone d hd (of_decide_eq_true hne)

/-- The section `a` is replaced by one of the same name, which gets the comments of the header and
of the driver back, and `b` goes with its comments. -/
theorem comments_of_replaced_same_name :
    let lines := ["# all", "maxretry = 3", "# room", "[a]", "# usb", "driver = x", "# slow",
      "pollinterval = 9", "# door", "[b]", "# end"]
    let f := (Reading.ofLines DeviceFile lines).document
    Reading.ofLines DeviceFile lines = ⟨f, none⟩ ∧
    f.globalComments ++ f.trailing = ["# all", "# end"] ∧
    commentsIn (Document.render (f.setDevices [⟨"a", "drv", "port", ""⟩] false)) =
      ["# all", "# room", "# usb", "# end"] := by
  intro lines f
  have hread : Reading.ofLines DeviceFile lines = ⟨f, none⟩ := Reading.isComplete_iff.mp (by decide)
  refine ⟨hread, by decide, ?_⟩
  rw [(comments_of_replaced hread _).1]
  decide

end DeviceFile

end UpsSetup
