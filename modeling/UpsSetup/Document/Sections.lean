import UpsSetup.OrderedMap
import UpsSetup.Record.Device

/-!
# Sections

The entries of a file of devices, by section: each device has a section under its identifier, and
the entries before the first header form the global section, whose name is empty. An entry without a
value is a flag. Sections and entries keep their order.

`Sections.merge` puts described devices into the sections: the driver and the port of each device
replace those in its section, and so does a description that is not empty.
-/

namespace UpsSetup

/-- The entries of one section; a flag has no value. -/
abbrev Section := OrderedMap String (Option String)

/-- The sections of a file of devices. -/
abbrev Sections := OrderedMap String Section

/-- The name of the section that precedes all headers. -/
def globalSection : String := ""

/-- The key of the driver of a device. -/
def driverKey : String := "driver"

/-- The key of the port to which a device is attached. -/
def portKey : String := "port"

/-- The key of the description of a device. -/
def descriptionKey : String := "desc"

namespace Sections

/-- Gives a key of a section a value, or makes it a flag. A missing section is added. -/
def setValue (s : Sections) (device key : String) (value : Option String) : Sections :=
  OrderedMap.insert s device ((OrderedMap.getD s device ∅).insert key value)

/-- The value of a key of a section. -/
def value? (s : Sections) (device key : String) : Option String :=
  ((OrderedMap.getD s device ∅).get? key).join

/-- Puts a device into the sections. -/
def upsert (s : Sections) (d : Device) : Sections :=
  let s := setValue (setValue s d.id driverKey (some d.driver)) d.id portKey (some d.port)
  if d.description = "" then s else setValue s d.id descriptionKey (some d.description)

/-- The global section followed by the others, if these are kept. -/
def base (s : Sections) (keepsExisting : Bool) : Sections where
  entries :=
    (globalSection, OrderedMap.getD s globalSection ∅) ::
      if keepsExisting then s.entries.filter (·.1 ≠ globalSection) else []
  nodup_keys := by
    cases keepsExisting
    · simp
    · have h : ((s.entries.filter (·.1 ≠ globalSection)).map (·.1)).Nodup :=
        s.nodup_keys.sublist (List.filter_sublist.map _)
      simpa using h

/-- Puts devices into the sections, or replaces all device sections by them. The global section
stays in either case and comes first. -/
def merge (s : Sections) (devices : List Device) (keepsExisting : Bool) : Sections :=
  devices.foldl upsert (base s keepsExisting)

end Sections

end UpsSetup
