import Mathlib.Data.Nat.Digits.Defs
import UpsSetup.Proofs.Records

/-!
# Hosts and their ports

Which texts name a host and its port, said without the reader: a host without a colon, whose port is
0, or any text, a colon and a port. A port is written with one to 4300 digits whose value is at most
65535, so it may start with zeros. Digits have their values by places, ones last (`decimalValue`).

* `readUnsigned_eq_ok_iff_of_decimal`: the reader takes exactly such numbers and gives their values.
* `readUnsigned_zeros`: zeros in front of a number do not change it.

**`splitHostPort_names_host`**: the reader of hosts takes exactly these texts, refuses a port with
more digits as too long whatever its value is, and shows every other text as a whole.
-/

namespace UpsSetup

/-! ## Decimal numbers -/

/-- The text is one or more of the digits 0 to 9, and nothing else. -/
def IsDecimal (text : String) : Prop := text ≠ "" ∧ ∀ c ∈ text.toList, '0' ≤ c ∧ c ≤ '9'

/-- The number that a text of digits stands for. -/
def decimalValue (text : String) : Nat :=
  Nat.ofDigits 10 (text.toList.reverse.map fun c => c.toNat - '0'.toNat)

theorem isUnsigned_iff_isDecimal {text : String} :
    isUnsigned text.toList = true ↔ IsDecimal text := by
  have hdigit : ∀ c : Char, c.isDigit = true ↔ '0' ≤ c ∧ c ≤ '9' := fun c => by
    simp [Char.isDigit, Char.le_def]
  simp only [isUnsigned_iff, IsDecimal, hdigit, ne_eq, String.toList_eq_nil_iff]

/-- Reading digits one after the other gives each its place. -/
theorem ofDigitChars_eq_ofDigits (cs : List Char) :
    Nat.ofDigitChars 10 cs 0 = Nat.ofDigits 10 (cs.reverse.map fun c => c.toNat - '0'.toNat) := by
  induction cs using List.reverseRecOn with
  | nil => rfl
  | append_singleton cs c ih =>
    rw [Nat.ofDigitChars_append, Nat.ofDigitChars_cons, Nat.ofDigitChars_nil, ih,
      List.reverse_append, List.reverse_singleton, List.singleton_append, List.map_cons,
      Nat.ofDigits_cons, Nat.add_comm]

theorem readUnsigned_eq_ok_iff_of_decimal {field : Field} {shown text : String}
    {limit : Option Nat} {n : Nat} :
    readUnsigned field shown limit text = .ok n ↔
      IsDecimal text ∧ text.length ≤ maxDigits ∧ decimalValue text = n ∧ WithinLimit limit n := by
  rw [readUnsigned_eq_ok_iff, isUnsigned_iff_isDecimal, ofDigitChars_eq_ofDigits, decimalValue]

theorem ofDigitChars_zeros (zeros : Nat) (cs : List Char) :
    Nat.ofDigitChars 10 (List.replicate zeros '0' ++ cs) 0 = Nat.ofDigitChars 10 cs 0 := by
  induction zeros with
  | zero => rfl
  | succ zeros ih =>
    rw [List.replicate_succ, List.cons_append, Nat.ofDigitChars_cons]
    exact ih

/-- Zeros in front of a number do not change it, as long as the digits can be read. -/
theorem readUnsigned_zeros (field : Field) (shown : String) {limit : Option Nat} {zeros n : Nat}
    (hlength : zeros + (toString n).length ≤ maxDigits) (hlimit : WithinLimit limit n) :
    readUnsigned field shown limit (String.ofList (List.replicate zeros '0') ++ toString n) =
      .ok n := by
  have hchars : (String.ofList (List.replicate zeros '0') ++ toString n).toList =
      List.replicate zeros '0' ++ Nat.toDigits 10 n := by
    rw [String.toList_append, String.toList_ofList, toList_toString]
  rw [readUnsigned_eq_ok_iff, hchars, ofDigitChars_zeros]
  refine ⟨?_, ?_, Nat.ofDigitChars_ten_toDigits, hlimit⟩
  · obtain ⟨hne, hdigits⟩ := isUnsigned_iff.mp (isUnsigned_toDigits n)
    refine isUnsigned_iff.mpr ⟨List.append_ne_nil_of_right_ne_nil _ hne, fun c hc => ?_⟩
    rcases List.mem_append.mp hc with hc | hc
    · rw [List.eq_of_mem_replicate hc]
      rfl
    · exact hdigits c hc
  · rw [String.length_append, String.length_ofList, List.length_replicate]
    exact hlength

/-! ## Hosts and ports -/

/-- The text is how a port is written. -/
structure IsPort (text : String) (port : Nat) : Prop where
  isDecimal : IsDecimal text
  length_le : text.length ≤ 4300
  value : decimalValue text = port
  le : port ≤ 65535

/-- The text names the host and its port. -/
def NamesHost (text host : String) (port : Nat) : Prop :=
  (':' ∉ text.toList ∧ host = text ∧ port = 0) ∨
    ∃ digits, text = host ++ ":" ++ digits ∧ IsPort digits port

/-- The text ends in a port with so many digits that it is not read. -/
def EndsOverlong (text : String) (length : Nat) : Prop :=
  ∃ host digits : String, text = host ++ ":" ++ digits ∧ IsDecimal digits ∧ 4300 < digits.length ∧
    digits.length = length

theorem splitHostPort_eq_ok_iff_namesHost {text host : String} {port : Nat} :
    splitHostPort text = .ok (host, port) ↔ NamesHost text host port := by
  have hport : ∀ digits, readUnsigned .host text (some maxPort) digits = .ok port ↔
      IsPort digits port := fun digits => by
    rw [readUnsigned_eq_ok_iff_of_decimal]
    constructor
    · rintro ⟨hdecimal, hlength, hvalue, hlimit⟩
      exact ⟨hdecimal, hlength, hvalue, withinLimit_some.mp hlimit⟩
    · rintro ⟨hdecimal, hlength, hvalue, hle⟩
      exact ⟨hdecimal, hlength, hvalue, withinLimit_some.mpr hle⟩
  simp only [splitHostPort_eq_ok_iff, NamesHost, hport]

theorem splitHostPort_eq_tooManyDigits_iff {text : String} {length : Nat} :
    splitHostPort text = .error (.tooManyDigits length) ↔ EndsOverlong text length := by
  constructor
  · intro h
    by_cases hcolon : ':' ∈ text.toList
    · obtain ⟨host, digits, rfl, hdigits⟩ := exists_eq_of_colon_mem hcolon
      rw [splitHostPort_of_cut host hdigits, Result.map_eq_error_iff,
        readUnsigned_eq_tooManyDigits_iff, isUnsigned_iff_isDecimal] at h
      exact ⟨host, digits, rfl, h⟩
    · rw [splitHostPort_of_not_mem hcolon] at h
      simp at h
  · rintro ⟨host, digits, rfl, hdecimal, hlong, hlength⟩
    have hform := isUnsigned_iff_isDecimal.mpr hdecimal
    rw [splitHostPort_of_cut host (colon_not_mem_of_isUnsigned hform), Result.map_eq_error_iff,
      readUnsigned_eq_tooManyDigits_iff]
    exact ⟨hform, hlong, hlength⟩

/-- A text that is not taken apart has a port that is too long, or it is shown as a whole. -/
theorem splitHostPort_cases (text : String) :
    (∃ host port, splitHostPort text = .ok (host, port)) ∨
      (∃ length, splitHostPort text = .error (.tooManyDigits length)) ∨
      splitHostPort text = .error (.unreadable .host text) := by
  by_cases hcolon : ':' ∈ text.toList
  · obtain ⟨host, port, heq, hport⟩ := exists_eq_of_colon_mem hcolon
    have hcut := splitHostPort_of_cut host hport
    rw [← heq] at hcut
    rw [hcut]
    rcases readUnsigned_cases .host text (some maxPort) port with ⟨n, h⟩ | ⟨length, h⟩ | h
    · exact Or.inl ⟨host, n, by rw [h]; rfl⟩
    · exact Or.inr (Or.inl ⟨length, by rw [h]; rfl⟩)
    · exact Or.inr (Or.inr (by rw [h]; rfl))
  · exact Or.inl ⟨text, 0, splitHostPort_of_not_mem hcolon⟩

/-- **Exactly the texts that name a host and its port are taken apart**, whatever number of zeros the
port starts with. A port with too many digits is refused as such, and every other text as a whole. -/
theorem splitHostPort_names_host :
    (∀ text host port, splitHostPort text = .ok (host, port) ↔ NamesHost text host port) ∧
    (∀ text length, splitHostPort text = .error (.tooManyDigits length) ↔
      EndsOverlong text length) ∧
    (∀ text, splitHostPort text = .error (.unreadable .host text) ↔
      (¬∃ host port, NamesHost text host port) ∧ ¬∃ length, EndsOverlong text length) ∧
    ∀ (host : String) (port zeros : Nat), port ≤ 65535 → zeros + (toString port).length ≤ 4300 →
      splitHostPort (host ++ ":" ++ (String.ofList (List.replicate zeros '0') ++ toString port)) =
        .ok (host, port) := by
  refine ⟨fun _ _ _ => splitHostPort_eq_ok_iff_namesHost,
    fun _ _ => splitHostPort_eq_tooManyDigits_iff, fun text => ?_, ?_⟩
  · simp only [← splitHostPort_eq_ok_iff_namesHost, ← splitHostPort_eq_tooManyDigits_iff]
    rcases splitHostPort_cases text with ⟨host, port, h⟩ | ⟨length, h⟩ | h
    · simp [h]
    · simp [h]
    · simp [h]
  · intro host port zeros hle hlength
    have hport := readUnsigned_zeros .host
      (host ++ ":" ++ (String.ofList (List.replicate zeros '0') ++ toString port)) hlength
      (withinLimit_some.mpr hle)
    exact splitHostPort_eq_ok_iff.mpr (Or.inr ⟨_, rfl, hport⟩)

/-- A host with colons and the greatest port, written with as many digits as can be read. -/
theorem splitHostPort_names_host_of_zeros :
    65535 ≤ 65535 ∧ 4295 + (toString 65535).length ≤ 4300 ∧
      splitHostPort
        ("fe80::1" ++ ":" ++ (String.ofList (List.replicate 4295 '0') ++ toString 65535)) =
        .ok ("fe80::1", 65535) :=
  ⟨by decide, by decide, splitHostPort_names_host.2.2.2 "fe80::1" 65535 4295 (by decide) (by decide)⟩

end UpsSetup
