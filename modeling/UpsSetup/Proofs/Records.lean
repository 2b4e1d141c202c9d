import Mathlib.Algebra.GroupWithZero.Nat
import UpsSetup.Proofs.Lines
import UpsSetup.Proofs.Results
import UpsSetup.Record.Listen
import UpsSetup.Record.Monitor

/-!
# Written records are read back

Numbers are written in decimal and read back within the number of digits that reading allows
(`readUnsigned_eq_ok_iff`), and a host is parted from its port at the last colon
(`splitHostPort_eq_ok_iff`). From this follows when the arguments that are written for a record give
that record again:

* for a listen address always (`Listen.ofArguments_arguments`),
* for a monitor exactly if `ups@host[:port]` can be taken apart in only one way
  (`Monitor.ofArguments_arguments_iff`): the device holds no at sign, and a host that holds a colon
  has a port after it.

Both speak of records whose numbers can be written at all (`InRange`), and every record that is read
from text is one.
-/

namespace UpsSetup

/-! ## Numbers -/

theorem isUnsigned_iff {cs : List Char} :
    isUnsigned cs = true ↔ cs ≠ [] ∧ ∀ c ∈ cs, c.isDigit = true := by
  simp [isUnsigned]

/-- A text of digits stands for a number below the power of ten of its length. -/
theorem ofDigitChars_lt : ∀ {cs : List Char}, (∀ c ∈ cs, c.isDigit = true) →
    Nat.ofDigitChars 10 cs 0 < 10 ^ cs.length
  | [], _ => by simp
  | c :: cs, h => by
    have ih := ofDigitChars_lt fun d hd => h d (List.mem_cons_of_mem _ hd)
    have hc : c.toNat - '0'.toNat ≤ 9 := by
      have := h c List.mem_cons_self
      simp only [Char.isDigit, Bool.and_eq_true, decide_eq_true_eq] at this
      have h9 : c.toNat ≤ 57 := this.2
      show c.toNat - 48 ≤ 9
      omega
    rw [Nat.ofDigitChars_cons, Nat.ofDigitChars_eq_ofDigitChars_zero, List.length_cons,
      Nat.pow_succ, Nat.mul_zero, Nat.zero_add]
    have hmul := Nat.mul_le_mul_left (10 ^ cs.length) hc
    omega

theorem toList_toString (n : Nat) : (toString n).toList = Nat.toDigits 10 n := Nat.toList_repr

theorem isUnsigned_toDigits (n : Nat) : isUnsigned (Nat.toDigits 10 n) = true :=
  isUnsigned_iff.mpr ⟨Nat.toDigits_ne_nil, fun _ h =>
    Nat.isDigit_of_mem_toDigits (by decide) (by decide) h⟩

theorem length_toDigits_le {n : Nat} (h : n < 10 ^ maxDigits) :
    (Nat.toDigits 10 n).length ≤ maxDigits :=
  (Nat.length_toDigits_le_iff (by decide) (by decide)).mpr h

theorem lt_of_length_toString {n : Nat} (h : (toString n).length ≤ maxDigits) :
    n < 10 ^ maxDigits := by
  rw [← String.length_toList, toList_toString] at h
  exact (Nat.length_toDigits_le_iff (by decide) (by decide)).mp h

theorem holdsNoEnd_toString (n : Nat) : Text.HoldsNoEnd (toString n).toList := by
  intro c hc
  rw [toList_toString] at hc
  have hd := Nat.isDigit_of_mem_toDigits (by decide) (by decide) hc
  cases ht : Line.isTerminator c with
  | false => rfl
  | true =>
    simp only [Line.isTerminator, Bool.or_eq_true, decide_eq_true_eq] at ht
    rcases ht with rfl | rfl <;> exact absurd hd (by decide)

/-- The number is at most the limit, where there is one. -/
def WithinLimit (limit : Option Nat) (n : Nat) : Prop := ∀ m ∈ limit, n ≤ m

theorem withinLimit_none (n : Nat) : WithinLimit none n := by simp [WithinLimit]

theorem withinLimit_some {m n : Nat} : WithinLimit (some m) n ↔ n ≤ m := by simp [WithinLimit]

/-- A number is within its limit unless there is one below it. -/
theorem not_any_lt_iff {limit : Option Nat} {n : Nat} :
    limit.any (· < n) = false ↔ WithinLimit limit n := by
  cases limit <;> simp [WithinLimit]

/-- What is read is a number that is not too long and within the limit. -/
theorem readUnsigned_eq_ok_iff {field : Field} {shown text : String} {limit : Option Nat} {n : Nat} :
    readUnsigned field shown limit text = .ok n ↔
      isUnsigned text.toList = true ∧ text.length ≤ maxDigits ∧
        Nat.ofDigitChars 10 text.toList 0 = n ∧ WithinLimit limit n := by
  unfold readUnsigned
  dsimp only
  rw [String.length_toList]
  split
  next hform => exact iff_of_false (by simp) fun h => by simp [h.1] at hform
  next hform =>
    split
    next hlong => exact iff_of_false (by simp) fun h => absurd h.2.1 (Nat.not_le.mpr hlong)
    next hlong =>
      split
      next hlimit =>
        refine iff_of_false (by simp) ?_
        rintro ⟨-, -, rfl, hwithin⟩
        rw [not_any_lt_iff.mpr hwithin] at hlimit
        exact absurd hlimit (by simp)
      next hlimit =>
        rw [Except.ok.injEq]
        constructor
        · rintro rfl
          exact ⟨by simpa using hform, Nat.not_lt.mp hlong, rfl,
            not_any_lt_iff.mp (by simpa using hlimit)⟩
        · exact fun h => h.2.2.1

/-- Only a text of digits alone can have too many of them. -/
theorem readUnsigned_eq_tooManyDigits_iff {field : Field} {shown text : String}
    {limit : Option Nat} {digits : Nat} :
    readUnsigned field shown limit text = .error (.tooManyDigits digits) ↔
      isUnsigned text.toList = true ∧ maxDigits < text.length ∧ text.length = digits := by
  unfold readUnsigned
  dsimp only
  rw [String.length_toList]
  split
  next hform => exact iff_of_false (by simp) fun h => by simp [h.1] at hform
  next hform =>
    split
    next hlong =>
      rw [Except.error.injEq, FieldFault.tooManyDigits.injEq]
      exact ⟨fun h => ⟨by simpa using hform, hlong, h⟩, fun h => h.2.2⟩
    next hlong =>
      refine iff_of_false ?_ fun h => hlong h.2.1
      split <;> simp

/-- A number that is not read is too long, or the field is shown that it stands for. -/
theorem readUnsigned_cases (field : Field) (shown : String) (limit : Option Nat) (text : String) :
    (∃ n, readUnsigned field shown limit text = .ok n) ∨
      (∃ digits, readUnsigned field shown limit text = .error (.tooManyDigits digits)) ∨
      readUnsigned field shown limit text = .error (.unreadable field shown) := by
  unfold readUnsigned
  dsimp only
  split
  · exact Or.inr (Or.inr rfl)
  · split
    · exact Or.inr (Or.inl ⟨_, rfl⟩)
    · split
      · exact Or.inr (Or.inr rfl)
      · exact Or.inl ⟨_, rfl⟩

/-- What is written in decimal is read back. -/
theorem readUnsigned_toString (field : Field) (shown : String) {limit : Option Nat} {n : Nat}
    (hn : n < 10 ^ maxDigits) (hl : WithinLimit limit n) :
    readUnsigned field shown limit (toString n) = .ok n := by
  rw [readUnsigned_eq_ok_iff, ← String.length_toList, toList_toString]
  exact ⟨isUnsigned_toDigits n, length_toDigits_le hn, Nat.ofDigitChars_ten_toDigits, hl⟩

/-- What is read is within the bounds. -/
theorem bounds_of_readUnsigned {field : Field} {shown text : String} {limit : Option Nat} {n : Nat}
    (h : readUnsigned field shown limit text = .ok n) :
    n < 10 ^ maxDigits ∧ WithinLimit limit n := by
  obtain ⟨hform, hlength, rfl, hlimit⟩ := readUnsigned_eq_ok_iff.mp h
  have hlt := ofDigitChars_lt (isUnsigned_iff.mp hform).2
  rw [String.length_toList] at hlt
  exact ⟨Nat.lt_of_lt_of_le hlt (Nat.pow_le_pow_right (by decide) hlength), hlimit⟩

/-! ## Hosts and ports -/

theorem cutLast_eq_none_iff {sep : Char} {s : String} :
    Text.cutLast sep s = none ↔ sep ∉ s.toList := by
  rw [Text.cutLast, Option.map_eq_none_iff, Text.cutLastChars_eq_none_iff]

theorem cutLast_eq_some_iff {sep : Char} {s before after : String} :
    Text.cutLast sep s = some (before, after) ↔
      s = before ++ String.ofList [sep] ++ after ∧ sep ∉ after.toList := by
  have hlist : s = before ++ String.ofList [sep] ++ after ↔
      s.toList = before.toList ++ sep :: after.toList := by
    rw [← String.toList_inj]
    simp
  rw [hlist, ← Text.cutLastChars_eq_some_iff, Text.cutLast, Option.map_eq_some_iff]
  constructor
  · rintro ⟨⟨b, a⟩, hcut, he⟩
    rw [Prod.mk.injEq] at he
    rw [hcut, ← he.1, ← he.2, String.toList_ofList, String.toList_ofList]
  · intro hcut
    exact ⟨_, hcut, by simp⟩

theorem colon_not_mem_of_isUnsigned {cs : List Char} (h : isUnsigned cs = true) : ':' ∉ cs :=
  fun hc => absurd ((isUnsigned_iff.mp h).2 _ hc) (by decide)

theorem maxPort_lt : maxPort < 10 ^ maxDigits :=
  Nat.lt_of_lt_of_le (show maxPort < 10 ^ 5 by decide)
    (Nat.pow_le_pow_right (by decide) (by decide))

/-- A host without a colon has no port. -/
theorem splitHostPort_of_not_mem {host : String} (h : ':' ∉ host.toList) :
    splitHostPort host = .ok (host, 0) := by
  rw [splitHostPort, cutLast_eq_none_iff.mpr h]

/-- What follows the last colon is the port. -/
theorem splitHostPort_of_cut (host : String) {port : String} (h : ':' ∉ port.toList) :
    splitHostPort (host ++ ":" ++ port) =
      (host, ·) <$> readUnsigned .host (host ++ ":" ++ port) (some maxPort) port := by
  have hcut : Text.cutLast ':' (host ++ ":" ++ port) = some (host, port) :=
    cutLast_eq_some_iff.mpr ⟨rfl, h⟩
  rw [splitHostPort, hcut]

/-- A text that holds a colon is cut at the last one. -/
theorem exists_eq_of_colon_mem {text : String} (h : ':' ∈ text.toList) :
    ∃ host port : String, text = host ++ ":" ++ port ∧ ':' ∉ port.toList := by
  cases hcut : Text.cutLast ':' text with
  | none => exact absurd h (cutLast_eq_none_iff.mp hcut)
  | some parts => exact ⟨parts.1, parts.2, cutLast_eq_some_iff.mp hcut⟩

/-- A text gives a host and a port if it has no colon, or if a port can be read behind its last
one. -/
theorem splitHostPort_eq_ok_iff {text host : String} {port : Nat} :
    splitHostPort text = .ok (host, port) ↔
      (':' ∉ text.toList ∧ host = text ∧ port = 0) ∨
        ∃ digits, text = host ++ ":" ++ digits ∧
          readUnsigned .host text (some maxPort) digits = .ok port := by
  constructor
  · intro h
    by_cases hcolon : ':' ∈ text.toList
    · obtain ⟨before, after, rfl, hafter⟩ := exists_eq_of_colon_mem hcolon
      rw [splitHostPort_of_cut before hafter] at h
      obtain ⟨n, hn, he⟩ := Result.map_eq_ok_iff.mp h
      rw [Prod.mk.injEq] at he
      obtain ⟨rfl, rfl⟩ := he
      exact Or.inr ⟨after, rfl, hn⟩
    · rw [splitHostPort_of_not_mem hcolon, Except.ok.injEq, Prod.mk.injEq] at h
      exact Or.inl ⟨hcolon, h.1.symm, h.2.symm⟩
  · rintro (⟨hcolon, rfl, rfl⟩ | ⟨digits, rfl, hport⟩)
    · exact splitHostPort_of_not_mem hcolon
    · have hdigits := colon_not_mem_of_isUnsigned (readUnsigned_eq_ok_iff.mp hport).1
      rw [splitHostPort_of_cut host hdigits, hport]
      rfl

/-- A host with a port behind it is read back, whatever colons the host has. -/
theorem splitHostPort_append (host : String) {port : Nat} (h : port ≤ maxPort) :
    splitHostPort (host ++ ":" ++ toString port) = .ok (host, port) :=
  splitHostPort_eq_ok_iff.mpr (Or.inr ⟨_, rfl, readUnsigned_toString _ _
    (Nat.lt_of_le_of_lt h maxPort_lt) (withinLimit_some.mpr h)⟩)

/-- A port that was read is within its range. -/
theorem port_le_of_splitHostPort {text host : String} {port : Nat}
    (h : splitHostPort text = .ok (host, port)) : port ≤ maxPort := by
  rcases splitHostPort_eq_ok_iff.mp h with ⟨-, -, rfl⟩ | ⟨digits, -, hport⟩
  · exact Nat.zero_le _
  · exact withinLimit_some.mp (bounds_of_readUnsigned hport).2

theorem mem_of_splitHostPort {text host : String} {port : Nat}
    (h : splitHostPort text = .ok (host, port)) {c : Char} (hc : c ∈ host.toList) :
    c ∈ text.toList := by
  rcases splitHostPort_eq_ok_iff.mp h with ⟨-, rfl, -⟩ | ⟨digits, rfl, -⟩
  · exact hc
  · simp [hc]

/-- A host that holds a colon is not read back when nothing follows it. -/
theorem splitHostPort_ne_of_mem {host : String} (h : ':' ∈ host.toList) (port : Nat) :
    splitHostPort host ≠ .ok (host, port) := by
  intro hs
  rcases splitHostPort_eq_ok_iff.mp hs with ⟨hcolon, -⟩ | ⟨digits, heq, -⟩
  · exact hcolon h
  · -- what stands before the last colon is shorter than the whole host
    have hlength := congrArg String.length heq
    rw [String.length_append, String.length_append] at hlength
    have hcolon : (":" : String).length = 1 := rfl
    omega

/-! ## Monitors -/

namespace Monitor

/-- The numbers of the monitor can be written so that they are read back. -/
structure InRange (m : Monitor) : Prop where
  port_nonneg : 0 ≤ m.port
  port_le : m.port ≤ maxPort
  powerValue_lt : m.powerValue < 10 ^ maxDigits

/-- A colon in the host is not taken for the one before the port: there is a port. -/
def HostIsClear (m : Monitor) : Prop := m.port = 0 → ':' ∉ m.hostname.toList

instance (m : Monitor) : Decidable m.HostIsClear := inferInstanceAs (Decidable (_ → _))

/-- The host as it is written, with its port if there is one. -/
def hostPort (m : Monitor) : String :=
  if m.port = 0 then m.hostname else m.hostname ++ ":" ++ toString m.port

theorem system_eq (m : Monitor) : m.system = m.upsName ++ "@" ++ m.hostPort := by
  simp only [system, hostPort]
  split
  · rfl
  · simp only [String.append_assoc]

/-- A port in range is a natural number. -/
theorem InRange.exists_port {m : Monitor} (h : m.InRange) :
    ∃ p : Nat, m.port = p ∧ p ≤ maxPort := by
  obtain ⟨p, hp⟩ := Int.eq_ofNat_of_zero_le h.port_nonneg
  have hle := h.port_le
  rw [hp] at hle
  exact ⟨p, hp, Int.ofNat_le.mp hle⟩

/-- A host is read back unless it has a colon and no port is written behind it. -/
theorem splitHostPort_hostPort_iff {m : Monitor} {p : Nat} (hp : m.port = p) (hle : p ≤ maxPort) :
    splitHostPort m.hostPort = .ok (m.hostname, p) ↔ m.HostIsClear := by
  rw [hostPort, HostIsClear]
  by_cases h0 : m.port = 0
  · have hp0 : p = 0 := by omega
    rw [if_pos h0, hp0]
    constructor
    · intro hs _ hm
      exact splitHostPort_ne_of_mem hm 0 hs
    · intro hc
      exact splitHostPort_of_not_mem (hc h0)
  · rw [if_neg h0, hp]
    constructor
    · intro _ h
      exact absurd h (by omega)
    · intro _
      exact splitHostPort_append m.hostname hle

/-- A text without the separator is cut off in front of it. -/
theorem cutFirst_eq_some {sep : Char} {before : String} (h : sep ∉ before.toList) (after : String) :
    Text.cutFirst sep (before ++ String.ofList [sep] ++ after) = some (before, after) := by
  have hl : (before ++ String.ofList [sep] ++ after).toList =
      before.toList ++ sep :: after.toList := by simp
  rw [Text.cutFirst, hl, Text.cutFirstChars_eq_some_iff.mpr ⟨rfl, h⟩]
  simp

theorem not_mem_of_cutFirst {sep : Char} {s before after : String}
    (h : Text.cutFirst sep s = some (before, after)) : sep ∉ before.toList := by
  obtain ⟨⟨b, a⟩, hc, he⟩ := Option.map_eq_some_iff.mp h
  rw [Prod.mk.injEq] at he
  rw [← he.1, String.toList_ofList]
  exact (Text.cutFirstChars_eq_some_iff.mp hc).2

theorem mem_of_cutFirst {sep : Char} {s before after : String}
    (h : Text.cutFirst sep s = some (before, after)) {c : Char}
    (hc : c ∈ before.toList ∨ c ∈ after.toList) : c ∈ s.toList := by
  obtain ⟨⟨b, a⟩, hcut, he⟩ := Option.map_eq_some_iff.mp h
  rw [Prod.mk.injEq] at he
  rw [← he.1, ← he.2, String.toList_ofList, String.toList_ofList] at hc
  rw [(Text.cutFirstChars_eq_some_iff.mp hcut).1]
  rcases hc with hc | hc
  · exact List.mem_append_left _ hc
  · exact List.mem_append_right _ (List.mem_cons_of_mem _ hc)

/-- What the arguments of a directive were if they gave a monitor. -/
theorem ofArguments_eq_ok_iff {system power username password role : String} {m : Monitor} :
    ofArguments [system, power, username, password, role] = .ok m ↔
      ∃ hostPort port, Text.cutFirst '@' system = some (m.upsName, hostPort) ∧
        splitHostPort hostPort = .ok (m.hostname, port) ∧ m.port = (port : Nat) ∧
        readPowerValue power = .ok m.powerValue ∧ m.username = username ∧
        m.password = password ∧ m.role = role := by
  simp only [ofArguments]
  cases hcut : Text.cutFirst '@' system with
  | none => simp
  | some parts =>
    obtain ⟨name, rest⟩ := parts
    simp only [Result.bind_eq_ok_iff, Result.mapError_eq_ok_iff, Option.some.injEq, Prod.mk.injEq]
    constructor
    · rintro ⟨⟨host, port⟩, hsplit, n, hn, hm⟩
      simp only [pure, Except.pure, Except.ok.injEq] at hm
      subst hm
      exact ⟨rest, port, ⟨rfl, rfl⟩, hsplit, rfl, hn, rfl, rfl, rfl⟩
    · rintro ⟨hostPort, port, ⟨hname, rfl⟩, hsplit, hport, hn, hu, hpw, hr⟩
      refine ⟨(m.hostname, port), hsplit, m.powerValue, hn, ?_⟩
      simp only [pure, Except.pure, Except.ok.injEq]
      rw [hname, ← hport, ← hu, ← hpw, ← hr]

/-- **The arguments that are written for a monitor give it again exactly if its device holds no at
sign and its host is clear.** -/
theorem ofArguments_arguments_iff {m : Monitor} (h : m.InRange) :
    ofArguments m.arguments = .ok m ↔ '@' ∉ m.upsName.toList ∧ m.HostIsClear := by
  obtain ⟨p, hp, hle⟩ := h.exists_port
  have hat : String.ofList ['@'] = "@" := rfl
  rw [arguments, ofArguments_eq_ok_iff, system_eq, ← hat]
  constructor
  · rintro ⟨hostPort, port, hcut, hsplit, hport, -⟩
    have hname := not_mem_of_cutFirst hcut
    rw [cutFirst_eq_some hname, Option.some.injEq, Prod.mk.injEq] at hcut
    have hpp : port = p := by omega
    rw [← hcut.2, hpp] at hsplit
    exact ⟨hname, (splitHostPort_hostPort_iff hp hle).mp hsplit⟩
  · rintro ⟨hname, hclear⟩
    refine ⟨m.hostPort, p, cutFirst_eq_some hname _, (splitHostPort_hostPort_iff hp hle).mpr hclear,
      hp, ?_, rfl, rfl, rfl⟩
    exact readUnsigned_toString _ _ h.powerValue_lt (withinLimit_none _)

/-- A monitor that was read is in range, and its device holds no at sign. -/
theorem inRange_of_ofArguments {args : List String} {m : Monitor} (h : ofArguments args = .ok m) :
    m.InRange ∧ '@' ∉ m.upsName.toList := by
  unfold ofArguments at h
  split at h
  next system power username password role =>
    have h' : ofArguments [system, power, username, password, role] = .ok m := h
    obtain ⟨hostPort, port, hcut, hsplit, hport, hpower, -⟩ := ofArguments_eq_ok_iff.mp h'
    have hle := port_le_of_splitHostPort hsplit
    refine ⟨⟨?_, ?_, (bounds_of_readUnsigned hpower).1⟩, not_mem_of_cutFirst hcut⟩
    · omega
    · omega
  next => simp at h

/-- The texts that a monitor holds. -/
def texts (m : Monitor) : List String := [m.upsName, m.hostname, m.username, m.password, m.role]

/-- A line end in the written arguments is one in a text of the monitor. -/
theorem exists_text_of_mem_arguments {m : Monitor} (h : m.InRange) {a : String}
    (ha : a ∈ m.arguments) {c : Char} (hc : c ∈ a.toList) (ht : Line.isTerminator c = true) :
    ∃ t ∈ m.texts, c ∈ t.toList := by
  obtain ⟨p, hp, -⟩ := h.exists_port
  -- digits are no line ends
  have hdigit : ∀ n : Nat, c ∉ (toString n).toList := by
    intro n hn
    rw [holdsNoEnd_toString n c hn] at ht
    exact absurd ht (by simp)
  -- neither are the characters between the texts
  have hat : c ≠ '@' := by
    rintro rfl
    exact absurd ht (by decide)
  have hcolon : c ≠ ':' := by
    rintro rfl
    exact absurd ht (by decide)
  simp only [arguments, List.mem_cons, List.not_mem_nil, or_false] at ha
  rcases ha with rfl | rfl | rfl | rfl | rfl
  · have hm : c ∈ m.upsName.toList ∨ c ∈ m.hostname.toList := by
      rw [system_eq, hostPort, hp] at hc
      split at hc
      · simpa [hat] using hc
      · have hs : c ∉ (toString (p : Int)).toList := hdigit p
        simp only [String.toList_append, List.mem_append, hs, or_false] at hc
        simpa [hat, hcolon] using hc
    rcases hm with hm | hm
    · exact ⟨_, by simp [texts], hm⟩
    · exact ⟨_, by simp [texts], hm⟩
  · exact absurd hc (hdigit _)
  · exact ⟨_, by simp [texts], hc⟩
  · exact ⟨_, by simp [texts], hc⟩
  · exact ⟨_, by simp [texts], hc⟩

/-- The texts of a monitor stand in its written arguments. -/
theorem exists_argument_of_mem_text {m : Monitor} {t : String} (ht : t ∈ m.texts) {c : Char}
    (hc : c ∈ t.toList) : ∃ a ∈ m.arguments, c ∈ a.toList := by
  simp only [texts, List.mem_cons, List.not_mem_nil, or_false] at ht
  rcases ht with rfl | rfl | rfl | rfl | rfl
  · exact ⟨m.system, by simp [arguments], by simp [system_eq, hc]⟩
  · refine ⟨m.system, by simp [arguments], ?_⟩
    rw [system_eq, hostPort]
    split <;> simp [hc]
  · exact ⟨_, by simp [arguments], hc⟩
  · exact ⟨_, by simp [arguments], hc⟩
  · exact ⟨_, by simp [arguments], hc⟩

/-- The texts of a monitor that was read stand in the arguments it was read from. -/
theorem exists_argument_of_ofArguments {args : List String} {m : Monitor}
    (h : ofArguments args = .ok m) {t : String} (ht : t ∈ m.texts) {c : Char} (hc : c ∈ t.toList) :
    ∃ a ∈ args, c ∈ a.toList := by
  unfold ofArguments at h
  split at h
  next system power username password role =>
    have h' : ofArguments [system, power, username, password, role] = .ok m := h
    obtain ⟨hostPort, port, hcut, hsplit, -, -, hu, hpw, hr⟩ := ofArguments_eq_ok_iff.mp h'
    simp only [texts, hu, hpw, hr, List.mem_cons, List.not_mem_nil, or_false] at ht
    rcases ht with rfl | rfl | rfl | rfl | rfl
    · exact ⟨system, by simp, mem_of_cutFirst hcut (Or.inl hc)⟩
    · exact ⟨system, by simp, mem_of_cutFirst hcut (Or.inr (mem_of_splitHostPort hsplit hc))⟩
    · exact ⟨_, by simp, hc⟩
    · exact ⟨_, by simp, hc⟩
    · exact ⟨_, by simp, hc⟩
  next => simp at h

end Monitor

/-- A monitor of a request is in range. -/
theorem MonitorSpec.inRange_of_toMonitor {spec : MonitorSpec} {m : Monitor}
    (h : spec.toMonitor = .ok m) : m.InRange := by
  obtain ⟨⟨host, port⟩, hsplit, hrest⟩ := Result.bind_eq_ok_iff.mp h
  obtain ⟨n, hn, hm⟩ := Result.bind_eq_ok_iff.mp hrest
  simp only [pure, Except.pure, Except.ok.injEq] at hm
  subst hm
  exact ⟨Int.natCast_nonneg port, Int.ofNat_le.mpr (port_le_of_splitHostPort hsplit),
    (bounds_of_readUnsigned hn).1⟩

/-! ## Listen addresses -/

namespace Listen

/-- The port, if there is one, can be written so that it is read back. -/
def InRange (l : Listen) : Prop := ∀ port ∈ l.port, 0 ≤ port ∧ port ≤ maxPort

theorem readPort_toString {port : Nat} (h : port ≤ maxPort) :
    readPort (toString port) = .ok port :=
  readUnsigned_toString _ _ (Nat.lt_of_le_of_lt h maxPort_lt) (withinLimit_some.mpr h)

theorem port_le_of_readPort {text : String} {port : Nat} (h : readPort text = .ok port) :
    port ≤ maxPort :=
  withinLimit_some.mp (bounds_of_readUnsigned h).2

/-- **The arguments that are written for a listen address give it again.** -/
theorem ofArguments_arguments {l : Listen} (h : l.InRange) : ofArguments l.arguments = .ok l := by
  obtain ⟨address, port⟩ := l
  cases port with
  | none => rfl
  | some port =>
    obtain ⟨h0, hle⟩ := h port rfl
    obtain ⟨p, rfl⟩ := Int.eq_ofNat_of_zero_le h0
    show (readPort (toString p)).mapError DirectiveFault.field >>= _ = _
    rw [readPort_toString (Int.ofNat_le.mp hle)]
    rfl

theorem inRange_of_ofArguments {args : List String} {l : Listen} (h : ofArguments args = .ok l) :
    l.InRange := by
  unfold ofArguments at h
  split at h
  · rw [Except.ok.injEq] at h
    subst h
    intro port hp
    simp at hp
  next address text =>
    obtain ⟨port, hport, hl⟩ := Result.bind_eq_ok_iff.mp h
    simp only [pure, Except.pure, Except.ok.injEq] at hl
    subst hl
    intro p hp
    simp only [Option.mem_def, Option.some.injEq] at hp
    have hle := port_le_of_readPort (Result.mapError_eq_ok_iff.mp hport)
    omega
  · simp at h

/-- A line end in the written arguments is one in the address. -/
theorem mem_address_of_mem_arguments {l : Listen} (h : l.InRange) {a : String}
    (ha : a ∈ l.arguments) {c : Char} (hc : c ∈ a.toList) (ht : Line.isTerminator c = true) :
    c ∈ l.address.toList := by
  obtain ⟨address, port⟩ := l
  rcases List.mem_cons.mp ha with rfl | ha
  · exact hc
  · cases port with
    | none => simp at ha
    | some port =>
      obtain ⟨h0, -⟩ := h port rfl
      obtain ⟨p, rfl⟩ := Int.eq_ofNat_of_zero_le h0
      rw [Option.map_some, Option.toList_some, List.mem_singleton] at ha
      subst ha
      exact absurd (holdsNoEnd_toString p c hc) (by simp [ht])

/-- The address that was read is one of the arguments it was read from. -/
theorem address_mem_of_ofArguments {args : List String} {l : Listen}
    (h : ofArguments args = .ok l) : l.address ∈ args := by
  unfold ofArguments at h
  split at h
  · rw [Except.ok.injEq] at h
    simp [← h]
  · obtain ⟨port, -, hl⟩ := Result.bind_eq_ok_iff.mp h
    simp only [pure, Except.pure, Except.ok.injEq] at hl
    simp [← hl]
  · simp at h

end Listen

/-- A listen address of a request is in range. -/
theorem ListenSpec.inRange_of_toListen {spec : ListenSpec} {l : Listen}
    (h : spec.toListen = .ok l) : l.InRange := by
  unfold toListen at h
  split at h
  · rw [Except.ok.injEq] at h
    subst h
    intro port hp
    simp at hp
  next text _ =>
    split at h
    · rw [Except.ok.injEq] at h
      subst h
      intro port hp
      simp at hp
    · obtain ⟨port, hport, hl⟩ := Result.bind_eq_ok_iff.mp h
      simp only [pure, Except.pure, Except.ok.injEq] at hl
      subst hl
      intro p hp
      simp only [Option.mem_def, Option.some.injEq] at hp
      have hle := Listen.port_le_of_readPort hport
      omega

/-! ## Both kinds of records -/

/-- **Exactly the unambiguous monitors are read back, and all listen addresses are.** A monitor is
ambiguous if its device holds an at sign, or its host a colon with no port after it. -/
theorem records_read_back :
    (∀ m : Monitor, 0 ≤ m.port → m.port ≤ maxPort → (toString m.powerValue).length ≤ maxDigits →
      (Monitor.ofArguments m.arguments = .ok m ↔
        '@' ∉ m.upsName.toList ∧ (m.port ≠ 0 ∨ ':' ∉ m.hostname.toList))) ∧
    ∀ l : Listen, (∀ port ∈ l.port, 0 ≤ port ∧ port ≤ maxPort) →
      Listen.ofArguments l.arguments = .ok l := by
  refine ⟨fun m hnonneg hle hdigits => ?_, fun l hl => Listen.ofArguments_arguments hl⟩
  have hrange : m.InRange := ⟨hnonneg, hle, lt_of_length_toString hdigits⟩
  have hclear : m.HostIsClear ↔ m.port ≠ 0 ∨ ':' ∉ m.hostname.toList := imp_iff_not_or
  rw [Monitor.ofArguments_arguments_iff hrange, hclear]

/-- With its port a host that holds colons is read back, and without it is not; a second at sign
belongs to the host. -/
theorem records_read_back_of_colons :
    let m : Monitor := { upsName := "ups", hostname := "a@fe80::1", port := 3493 }
    let l : Listen := { address := "fe80::1", port := some 0 }
    Monitor.ofArguments m.arguments = .ok m ∧
      Monitor.ofArguments { m with port := 0 }.arguments ≠ .ok { m with port := 0 } ∧
      Listen.ofArguments l.arguments = .ok l := by
  intro m l
  obtain ⟨hmonitor, hlisten⟩ := records_read_back
  refine ⟨(hmonitor m (by decide) (by decide) (by decide)).mpr (by decide), fun h => ?_,
    hlisten l (by decide)⟩
  have hunclear := (hmonitor _ (by decide) (by decide) (by decide)).mp h
  exact absurd hunclear (by decide)

end UpsSetup
