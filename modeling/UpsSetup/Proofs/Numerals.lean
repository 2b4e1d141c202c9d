import UpsSetup.Command.Run
import UpsSetup.Proofs.Records

/-!
# Numbers of a request

The records of a request are built from texts in which numbers stand: of each monitor the port, if
its host has one, and the power value, and then the port of each listen address that has one. They
are read in this order, and the first that cannot be read is why no record is built
(`Request.materialize_eq_error_iff`). So the records can be built, or some number does not have its
form or its range, unless a number with more digits than may be read comes first
(`Request.materialize_cases`).
-/

namespace UpsSetup

/-- A number in text: what it stands for, the text that is shown if it cannot be read, and the
greatest number that it may be, where there is one. -/
structure Numeral where
  field : Field
  shown : String
  limit : Option Nat
  text : String
  deriving DecidableEq

namespace Numeral

/-- The number. -/
def read (n : Numeral) : Except FieldFault Nat := readUnsigned n.field n.shown n.limit n.text

/-- Why there is no number. -/
def fault? (n : Numeral) : Option FieldFault :=
  match n.read with
  | .ok _ => none
  | .error fault => some fault

/-- The text has the form of a number, but is written with more digits than may be read. -/
structure IsOverlong (n : Numeral) : Prop where
  isUnsigned : isUnsigned n.text.toList = true
  length : maxDigits < n.text.toList.length

theorem fault?_eq_some_iff {n : Numeral} {fault : FieldFault} :
    n.fault? = some fault ↔ n.read = .error fault := by
  unfold fault?
  cases n.read <;> simp

theorem fault?_eq_none_iff {n : Numeral} : n.fault? = none ↔ ∃ number, n.read = .ok number := by
  unfold fault?
  cases n.read <;> simp

/-- Too many digits are an error only for a text that has the form of a number, and the error counts
its characters. -/
theorem read_eq_tooManyDigits_iff {n : Numeral} {digits : Nat} :
    n.read = .error (.tooManyDigits digits) ↔ n.IsOverlong ∧ n.text.toList.length = digits := by
  rw [read, readUnsigned_eq_tooManyDigits_iff, String.length_toList]
  constructor
  · rintro ⟨hform, hlong, hdigits⟩
    exact ⟨⟨hform, by rwa [String.length_toList]⟩, hdigits⟩
  · rintro ⟨⟨hform, hlong⟩, hdigits⟩
    exact ⟨hform, by rwa [String.length_toList] at hlong, hdigits⟩

end Numeral

/-! ## Reading numbers one after the other -/

namespace Result

variable {α β : Type}

/-- The computation fails exactly if one of the numbers cannot be read, and for the reason why the
first of these cannot. -/
def Reads (x : Except FieldFault α) (numerals : List Numeral) : Prop :=
  ∀ fault, x = .error fault ↔ numerals.findSome? Numeral.fault? = some fault

theorem reads_ok (a : α) : Reads (.ok a) [] := by
  intro fault
  simp

theorem reads_read (n : Numeral) : Reads n.read [n] := by
  intro fault
  rw [List.findSome?_singleton, Numeral.fault?_eq_some_iff]

/-- Where there is a result, all numbers could be read. -/
theorem Reads.findSome?_eq_none {x : Except FieldFault α} {numerals : List Numeral}
    (h : Reads x numerals) {a : α} (hx : x = .ok a) : numerals.findSome? Numeral.fault? = none := by
  rw [Option.eq_none_iff_forall_ne_some]
  intro fault hfault
  rw [(h fault).mpr hfault] at hx
  simp at hx

/-- What comes second is read only after the numbers of what comes first. -/
theorem Reads.bind {x : Except FieldFault α} {f : α → Except FieldFault β}
    {numerals more : List Numeral} (h : Reads x numerals) (hf : ∀ a, Reads (f a) more) :
    Reads (x >>= f) (numerals ++ more) := by
  intro fault
  rw [List.findSome?_append]
  cases hx : x with
  | error first =>
    rw [(h first).mp hx]
    simp [Bind.bind, Except.bind]
  | ok a =>
    rw [h.findSome?_eq_none hx, Option.none_or]
    exact hf a fault

theorem Reads.map {x : Except FieldFault α} {numerals : List Numeral} (h : Reads x numerals)
    (f : α → β) : Reads (f <$> x) numerals := by
  intro fault
  rw [← h fault]
  cases x <;> simp [Functor.map, Except.map]

/-- The numbers of a list are those of its elements in their order. -/
theorem Reads.mapM {f : α → Except FieldFault β} {numerals : α → List Numeral}
    (h : ∀ a, Reads (f a) (numerals a)) (l : List α) : Reads (l.mapM f) (l.flatMap numerals) := by
  induction l with
  | nil => exact reads_ok []
  | cons a l ih =>
    rw [List.mapM_cons, List.flatMap_cons]
    exact (h a).bind fun b => ih.map (b :: ·)

end Result

/-! ## The numbers of records -/

/-- The port of a host, if it has one. -/
def hostNumerals (text : String) : List Numeral :=
  match Text.cutLast ':' text with
  | none => []
  | some (_, port) => [⟨.host, text, some maxPort, port⟩]

/-- The numbers in the description of a monitor. -/
def MonitorSpec.numerals (spec : MonitorSpec) : List Numeral :=
  hostNumerals spec.hostPort ++ [⟨.powerValue, spec.powerValue, none, spec.powerValue⟩]

/-- The number in the description of a listen address, if it has a port. -/
def ListenSpec.numerals (spec : ListenSpec) : List Numeral :=
  match spec.port with
  | none => []
  | some port => if port = "" then [] else [⟨.port, port, some maxPort, port⟩]

/-- A host fails only through the port behind its last colon. -/
theorem splitHostPort_reads (text : String) :
    Result.Reads (splitHostPort text) (hostNumerals text) := by
  unfold splitHostPort hostNumerals
  cases Text.cutLast ':' text with
  | none => exact Result.reads_ok _
  | some parts => exact (Result.reads_read ⟨.host, text, some maxPort, parts.2⟩).map _

/-- A monitor fails through the port of its host before its power value. -/
theorem MonitorSpec.toMonitor_reads (spec : MonitorSpec) :
    Result.Reads spec.toMonitor spec.numerals :=
  (splitHostPort_reads spec.hostPort).bind fun _ =>
    (Result.reads_read ⟨.powerValue, spec.powerValue, none, spec.powerValue⟩).map _

/-- A listen address fails only through a port that is given and not empty. -/
theorem ListenSpec.toListen_reads (spec : ListenSpec) :
    Result.Reads spec.toListen spec.numerals := by
  unfold toListen numerals
  cases spec.port with
  | none => exact Result.reads_ok _
  | some port =>
    by_cases hempty : port = ""
    · dsimp only
      rw [if_pos hempty, if_pos hempty]
      exact Result.reads_ok _
    · dsimp only
      rw [if_neg hempty, if_neg hempty]
      exact (Result.reads_read ⟨.port, port, some maxPort, port⟩).map _

namespace Request

/-- The numbers of a request in the order in which they are read. -/
def numerals (r : Request) : List Numeral :=
  r.monitors.flatMap MonitorSpec.numerals ++ r.listens.flatMap ListenSpec.numerals

/-- **The first number that cannot be read is why no record is built.** -/
theorem materialize_eq_error_iff {r : Request} {fault : FieldFault} :
    r.materialize = .error fault ↔ r.numerals.findSome? Numeral.fault? = some fault :=
  ((Result.Reads.mapM MonitorSpec.toMonitor_reads r.monitors).bind fun monitors =>
    (Result.Reads.mapM ListenSpec.toListen_reads r.listens).map (Records.mk monitors)) fault

/-- A number with more digits than may be read comes first among those that cannot be read. -/
def MeetsOverlong (r : Request) : Prop :=
  ∃ before n after, r.numerals = before ++ n :: after ∧
    (∀ m ∈ before, ∃ number, m.read = .ok number) ∧ n.IsOverlong

theorem meetsOverlong_iff {r : Request} :
    r.MeetsOverlong ↔ ∃ digits, r.materialize = .error (.tooManyDigits digits) := by
  simp only [materialize_eq_error_iff, List.findSome?_eq_some_iff, Numeral.fault?_eq_some_iff,
    Numeral.read_eq_tooManyDigits_iff, Numeral.fault?_eq_none_iff]
  constructor
  · rintro ⟨before, n, after, heq, hbefore, hlong⟩
    exact ⟨_, before, n, after, heq, ⟨hlong, rfl⟩, hbefore⟩
  · rintro ⟨digits, before, n, after, heq, ⟨hlong, -⟩, hbefore⟩
    exact ⟨before, n, after, heq, hbefore, hlong⟩

/-- **Either all records can be built, or a number does not have its form or range**, unless the
first that cannot be read has too many digits. -/
theorem materialize_cases (r : Request) :
    ((∃ records, r.materialize = .ok records) ∨
        ∃ field text, r.materialize = .error (.unreadable field text)) ↔ ¬r.MeetsOverlong := by
  rw [meetsOverlong_iff]
  cases r.materialize with
  | ok records => simp
  | error fault => cases fault <;> simp

end Request

end UpsSetup
