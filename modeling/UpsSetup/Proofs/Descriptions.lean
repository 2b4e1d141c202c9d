import UpsSetup.Proofs.Records

/-!
# Two descriptions of a record

A record is described on the command line by texts of its own, and in a file by the arguments of a
directive, where device and host of a monitor are one text. Each description is read by checks of
its own, and both come to the same end: the same record, or the same fault of the same field
(`descriptions_agree`). The device must hold no at sign, since the file is cut at the first one; and
an empty port, which is none on the command line, is an unreadable one in a file.
-/

namespace UpsSetup

/-! ## Monitors -/

namespace MonitorSpec

/-- The arguments of the directive that describes the same monitor. -/
def directiveArguments (spec : MonitorSpec) : List String :=
  [spec.upsId ++ "@" ++ spec.hostPort, spec.powerValue, spec.user, spec.password,
    if spec.role = masterRole then masterRole else slaveRole]

/-- Both descriptions of a monitor are read alike if its device holds no at sign. -/
theorem ofArguments_directiveArguments {spec : MonitorSpec} (h : '@' ∉ spec.upsId.toList) :
    Monitor.ofArguments spec.directiveArguments = spec.toMonitor.mapError .field := by
  have hcut : Text.cutFirst '@' (spec.upsId ++ "@" ++ spec.hostPort) =
      some (spec.upsId, spec.hostPort) := Monitor.cutFirst_eq_some h spec.hostPort
  rw [directiveArguments, Monitor.ofArguments, hcut, toMonitor, Result.mapError_bind]
  -- the host comes before the power value on both sides, so the same fault is met first
  refine bind_congr fun address => ?_
  obtain ⟨hostname, port⟩ := address
  rw [Result.mapError_bind]
  refine bind_congr fun powerValue => ?_
  simp only [isMaster, decide_eq_true_eq]
  rfl

/-- With an at sign in the device, the monitor described on the command line is never the one that
is read from a file. -/
theorem ofArguments_ne_of_mem {spec : MonitorSpec} {m : Monitor} (h : '@' ∈ spec.upsId.toList)
    (hm : spec.toMonitor = .ok m) (args : List String) : Monitor.ofArguments args ≠ .ok m := by
  intro hargs
  obtain ⟨⟨hostname, port⟩, -, hrest⟩ := Result.bind_eq_ok_iff.mp hm
  obtain ⟨powerValue, -, hm⟩ := Result.bind_eq_ok_iff.mp hrest
  have hname : m.upsName = spec.upsId := by rw [← Except.ok.inj hm]
  exact (Monitor.inRange_of_ofArguments hargs).2 (hname ▸ h)

end MonitorSpec

/-! ## Listen addresses -/

namespace ListenSpec

/-- The arguments of the directive that describes the same listen address. -/
def directiveArguments (spec : ListenSpec) : List String := spec.address :: spec.port.toList

/-- Both descriptions of a listen address are read alike, except if the port is empty. -/
theorem ofArguments_directiveArguments_iff {spec : ListenSpec} :
    Listen.ofArguments spec.directiveArguments = spec.toListen.mapError .field ↔
      spec.port ≠ some "" := by
  obtain ⟨address, port⟩ := spec
  cases port with
  | none => exact iff_of_true rfl (by simp)
  | some port =>
    by_cases hempty : port = ""
    · subst hempty
      -- the empty text is no number, and on the command line it is not looked at
      have hfile : Listen.ofArguments [address, ""] = .error (.field (.unreadable .port "")) := rfl
      refine iff_of_false ?_ (by simp)
      show Listen.ofArguments [address, ""] ≠ .ok { address }
      simp [hfile]
    · refine iff_of_true ?_ (by simpa using hempty)
      have hspec : toListen ⟨address, some port⟩ =
          readPort port >>= fun number => .ok { address, port := some (number : Int) } :=
        if_neg hempty
      rw [hspec, Result.mapError_bind]
      rfl

end ListenSpec

/-! ## Both kinds of records -/

/-- **The command line and a file are read alike.** A monitor whose device holds no at sign, and a
listen address whose port is not empty, give the same record in both descriptions, or are refused
for the same fault with the same wording. Neither condition can be left out: with an at sign in its
device no monitor is the same, and with an empty port no listen address. -/
theorem descriptions_agree :
    (∀ spec : MonitorSpec,
      ('@' ∉ spec.upsId.toList →
        Monitor.ofArguments spec.directiveArguments = spec.toMonitor.mapError .field) ∧
      ∀ m, spec.toMonitor = .ok m →
        (Monitor.ofArguments spec.directiveArguments = .ok m ↔ '@' ∉ spec.upsId.toList)) ∧
    (∀ spec : ListenSpec,
      Listen.ofArguments spec.directiveArguments = spec.toListen.mapError .field ↔
        spec.port ≠ some "") ∧
    ∀ fault : FieldFault, (DirectiveFault.field fault).message = fault.message := by
  refine ⟨fun spec => ⟨MonitorSpec.ofArguments_directiveArguments, fun m hm => ?_⟩,
    fun spec => ListenSpec.ofArguments_directiveArguments_iff, fun fault => rfl⟩
  constructor
  · intro hfile hat
    exact MonitorSpec.ofArguments_ne_of_mem hat hm _ hfile
  · intro hat
    rw [MonitorSpec.ofArguments_directiveArguments hat, hm]
    rfl

/-- Of a port beyond the limit and a power value that is no number, the port is the fault on both
sides. A digit that is not one of the ten is refused on both sides as well. -/
theorem descriptions_agree_of_two_faults :
    let spec : MonitorSpec := ⟨"ups", "fe80::1:65536", "one", "user", "", "MASTER"⟩
    let listen : ListenSpec := ⟨"::", some "٣"⟩
    '@' ∉ spec.upsId.toList ∧
      Monitor.ofArguments ["ups@fe80::1:65536", "one", "user", "", "slave"] =
        .error (.field (.unreadable .host "fe80::1:65536")) ∧
      spec.toMonitor = .error (.unreadable .host "fe80::1:65536") ∧
      Listen.ofArguments ["::", "٣"] = listen.toListen.mapError .field ∧
      listen.toListen = .error (.unreadable .port "٣") := by
  intro spec listen
  obtain ⟨hmonitor, hlisten, -⟩ := descriptions_agree
  have hspec : spec.toMonitor = .error (.unreadable .host "fe80::1:65536") := by decide
  refine ⟨by decide, ?_, hspec, (hlisten listen).mpr (by decide), by decide⟩
  have hagree := (hmonitor spec).1 (by decide)
  rwa [hspec] at hagree

end UpsSetup
