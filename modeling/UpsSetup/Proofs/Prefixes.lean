import UpsSetup.Document.Parsing
import UpsSetup.Proofs.Reading
import UpsSetup.Storage

/-!
# Readings that fail

Whether a line is rejected, and why, depends on the line alone and not on what the document holds
(`JudgesLines`). So a reading fails exactly if one of its lines is rejected, and what a failed
reading leaves is the reading of the lines before the first of these
(`Document.parse_of_first_rejected`). What the document held before is gone in either case.
-/

namespace UpsSetup

namespace Document

variable {α : Type} [Document α]

/-! ## Lines that are rejected -/

variable (α) in
/-- Whatever the document holds, the line is rejected with the fault. -/
def Rejects (line : String) (fault : LineFault) : Prop := ∀ d : α, addLine d line = .error fault

variable (α) in
/-- Whatever the document holds, the line is taken. -/
def Takes (line : String) : Prop := ∀ d : α, ∃ d', addLine d line = .ok d'

variable (α) in
/-- Documents that judge the tokens of a line without regard to what they hold. -/
class JudgesLines : Prop where
  addTokens_eq_error : ∀ {d : α} {first rest fault}, addTokens d first rest = .error fault →
    ∀ d' : α, addTokens d' first rest = .error fault

instance : JudgesLines Assignments where
  addTokens_eq_error {d first rest fault} h d' := by
    change Assignments.addTokens d first rest = .error fault at h
    show Assignments.addTokens d' first rest = .error fault
    unfold Assignments.addTokens at h ⊢
    split at h
    next => simp at h
    next => exact h

instance {ρ : Type} [Managed ρ] : JudgesLines (DirectiveFile ρ) where
  addTokens_eq_error {d first rest fault} h d' := by
    change DirectiveFile.addTokens d first rest = .error fault at h
    show DirectiveFile.addTokens d' first rest = .error fault
    unfold DirectiveFile.addTokens at h ⊢
    split at h
    next hkeyword =>
      rw [if_pos hkeyword]
      split at h
      next => simp at h
      next => exact h
    next => simp at h

instance : JudgesLines DeviceFile where
  addTokens_eq_error {d first rest fault} h d' := by
    change DeviceFile.addTokens d first rest = .error fault at h
    show DeviceFile.addTokens d' first rest = .error fault
    unfold DeviceFile.addTokens at h ⊢
    split at h
    next =>
      split at h
      next hname =>
        rw [if_pos hname]
        exact h
      next => simp at h
    next =>
      split at h
      next => simp at h
      next => exact h

instance : (kind : DocumentKind) → JudgesLines kind.File
  | .nut => inferInstanceAs (JudgesLines Assignments)
  | .upsmon => inferInstanceAs (JudgesLines MonitorFile)
  | .upsd => inferInstanceAs (JudgesLines ListenFile)
  | .ups => inferInstanceAs (JudgesLines DeviceFile)

variable [JudgesLines α]

/-- A line that one document rejects is rejected by every other. -/
theorem rejects_of_addLine {d : α} {line : String} {fault : LineFault}
    (h : addLine d line = .error fault) : Rejects α line fault := by
  intro d'
  unfold addLine at h ⊢
  cases hc : Content.ofLine line with
  | error fault' =>
    rw [hc] at h
    exact h
  | ok c =>
    rw [hc] at h
    cases c with
    | blank => exact absurd h (by simp [Bind.bind, Except.bind, addContent])
    | comment text => exact absurd h (by simp [Bind.bind, Except.bind, addContent])
    | tokens first rest => exact JudgesLines.addTokens_eq_error (d := d) h d'

theorem rejects_iff_exists {line : String} {fault : LineFault} :
    Rejects α line fault ↔ ∃ d : α, addLine d line = .error fault :=
  ⟨fun h => ⟨empty, h empty⟩, fun ⟨_, h⟩ => rejects_of_addLine h⟩

theorem takes_iff {line : String} : Takes α line ↔ ¬∃ fault, Rejects α line fault := by
  constructor
  · rintro h ⟨fault, hreject⟩
    obtain ⟨d', hd'⟩ := h empty
    rw [hreject empty] at hd'
    simp at hd'
  · intro h d
    cases hline : addLine d line with
    | ok d' => exact ⟨d', rfl⟩
    | error fault => exact absurd ⟨fault, rejects_of_addLine hline⟩ h

end Document

/-! ## Readings of a list of lines -/

namespace Reading

variable {α : Type} [Document α]

open Document

theorem extend_cons_of_ok {d d' : α} {line : String} (h : addLine d line = .ok d') (number : Nat)
    (lines : List String) : extend d number (line :: lines) = extend d' (number + 1) lines := by
  conv_lhs => unfold extend
  rw [h]

theorem extend_cons_of_error {d : α} {line : String} {fault : LineFault}
    (h : addLine d line = .error fault) (number : Nat) (lines : List String) :
    extend d number (line :: lines) = ⟨d, some ⟨number, fault⟩⟩ := by
  conv_lhs => unfold extend
  rw [h]

/-- Lines that are all taken are read to their end. -/
theorem error_extend_of_takes {lines : List String} (h : ∀ line ∈ lines, Takes α line) (d : α)
    (number : Nat) : (extend d number lines).error = none := by
  induction lines generalizing d number with
  | nil => rfl
  | cons line lines ih =>
    obtain ⟨d', hd'⟩ := h line List.mem_cons_self d
    rw [extend_cons_of_ok hd']
    exact ih (fun l hl => h l (List.mem_cons_of_mem _ hl)) d' (number + 1)

/-- **Reading ends at the first line that is rejected**, with the document that the lines before it
give. -/
theorem extend_of_first_rejected {before : List String} (hbefore : ∀ l ∈ before, Takes α l)
    {line : String} {fault : LineFault} (hline : Rejects α line fault) (after : List String) (d : α)
    (number : Nat) :
    extend d number (before ++ line :: after) =
      ⟨(extend d number before).document, some ⟨(number + before.length : Nat), fault⟩⟩ := by
  induction before generalizing d number with
  | nil => exact extend_cons_of_error (hline d) number after
  | cons first before ih =>
    obtain ⟨d', hd'⟩ := hbefore first List.mem_cons_self d
    rw [List.cons_append, extend_cons_of_ok hd', extend_cons_of_ok hd',
      ih (fun l hl => hbefore l (List.mem_cons_of_mem _ hl)), List.length_cons,
      Nat.add_right_comm, Nat.add_assoc]

variable [JudgesLines α]

/-- A list of lines is taken as a whole, or one of them is the first that is rejected. -/
theorem takes_or_exists_first_rejected (lines : List String) :
    (∀ line ∈ lines, Takes α line) ∨ ∃ before line after fault, lines = before ++ line :: after ∧
      (∀ l ∈ before, Takes α l) ∧ Rejects α line fault := by
  induction lines with
  | nil => exact Or.inl fun line hline => absurd hline List.not_mem_nil
  | cons first lines ih =>
    by_cases hfirst : ∃ fault, Rejects α first fault
    · obtain ⟨fault, hfault⟩ := hfirst
      exact Or.inr ⟨[], first, lines, fault, rfl, fun l hl => absurd hl List.not_mem_nil, hfault⟩
    · have htakes : Takes α first := takes_iff.mpr hfirst
      rcases ih with hall | ⟨before, line, after, fault, rfl, hbefore, hline⟩
      · exact Or.inl (List.forall_mem_cons.mpr ⟨htakes, hall⟩)
      · exact Or.inr ⟨first :: before, line, after, fault, rfl,
          List.forall_mem_cons.mpr ⟨htakes, hbefore⟩, hline⟩

/-- A reading fails exactly if one of its lines is rejected. -/
theorem isComplete_extend_eq_false_iff {d : α} {number : Nat} {lines : List String} :
    (extend d number lines).isComplete = false ↔ ∃ line ∈ lines, ∃ fault, Rejects α line fault := by
  unfold isComplete
  rcases takes_or_exists_first_rejected (α := α) lines with
    hall | ⟨before, line, after, fault, rfl, hbefore, hline⟩
  · rw [error_extend_of_takes hall]
    refine iff_of_false (by simp) ?_
    rintro ⟨line, hmem, hreject⟩
    exact takes_iff.mp (hall line hmem) hreject
  · rw [extend_of_first_rejected hbefore hline]
    exact iff_of_true rfl ⟨line, List.mem_append_right _ List.mem_cons_self, fault, hline⟩

end Reading

/-! ## Reading into a document -/

namespace Document

variable {α : Type} [Document α] [Clearable α]

/-- What a document holds before it is read anew does not matter. -/
theorem parse_eq_noteReading (earlier : α) (lines : List String) :
    parse earlier lines = noteReading (Reading.ofLines α lines) := by
  rw [parse, Clearable.clear_eq_empty]
  rfl

/-- A file is read as its lines are, and a line that is rejected is noted as it is there. -/
theorem run_readDocument (earlier : α) (path : Path) (content : Text.Decoded) (t : Tree) :
    (Job.readDocument path content : Job α).run t =
      let p := parse earlier content.lines
      if p.accepted = true ∧ content.isWhole = true then
        ⟨t, p.log ++ [.sourced path.text], .ok p.document⟩
      else ⟨t, p.log, .error (.storage { step := .parse, path := path.text })⟩ := by
  rw [parse_eq_noteReading]
  unfold Job.readDocument noteReading Reading.isComplete
  dsimp only
  cases (Reading.ofLines α content.lines).error with
  | some error => rfl
  | none =>
    cases content.isWhole with
    | true => rfl
    | false => rfl

end Document

end UpsSetup
