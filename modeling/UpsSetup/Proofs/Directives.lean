import UpsSetup.Document.Directives
import UpsSetup.Proofs.Reading
import UpsSetup.Proofs.Records

/-!
# Files of directives are read back

A file of directives is written as its unmanaged lines and then one line for each record. Reading
the unmanaged lines always gives them back, and the line of a record gives what the record type
reads from the arguments it has written (`DirectiveFile.addLines_render`). So a file is read back
exactly if each of its records is (`DirectiveFile.reads_back_iff`), which turns the question about
files into one about records.

What was read is `WellFormed`: its comments are comments, and no directive in it starts with the
managed keyword. -/

namespace UpsSetup

open Text Line

/-- What holds of the rules for records, whatever the type of the records. -/
class LawfulManaged (ρ : Type) [Managed ρ] : Prop where
  /-- The keyword is recognised in the spelling in which it is written. -/
  upper_keyword : Text.upper (Managed.keyword ρ) = Managed.keyword ρ
  holdsNoEnd_keyword : HoldsNoEnd (Managed.keyword ρ).toList
  /-- A line end in the written arguments of a record comes from the arguments it was read from. -/
  mem_arguments : ∀ {args : List String} {r : ρ}, Managed.ofArguments args = .ok r →
    ∀ a ∈ Managed.arguments r, ∀ c ∈ a.toList, isTerminator c = true → ∃ b ∈ args, c ∈ b.toList

instance : LawfulManaged Monitor where
  upper_keyword := by decide
  holdsNoEnd_keyword := by
    exact (by decide : HoldsNoEnd "MONITOR".toList)
  mem_arguments := by
    intro args m h a ha c hc ht
    obtain ⟨t, hmem, hct⟩ :=
      Monitor.exists_text_of_mem_arguments (Monitor.inRange_of_ofArguments h).1 ha hc ht
    exact Monitor.exists_argument_of_ofArguments h hmem hct

instance : LawfulManaged Listen where
  upper_keyword := by decide
  holdsNoEnd_keyword := by
    exact (by decide : HoldsNoEnd "LISTEN".toList)
  mem_arguments := by
    intro args l h a ha c hc ht
    have hm := Listen.mem_address_of_mem_arguments (Listen.inRange_of_ofArguments h) ha hc ht
    exact ⟨l.address, Listen.address_mem_of_ofArguments h, hm⟩

/-- The texts that an unmanaged line holds. -/
def Unmanaged.texts : Unmanaged → List String
  | comment text => [text]
  | directive first rest => first :: rest

namespace DirectiveFile

variable {ρ : Type} [Managed ρ]

/-! ## What a reading gives -/

/-- Every unmanaged line is one that is read back as it is. -/
structure WellFormed (f : DirectiveFile ρ) : Prop where
  comments : ∀ text, .comment text ∈ f.unmanaged → IsComment text
  directives : ∀ first rest, .directive first rest ∈ f.unmanaged →
    Text.upper first ≠ Managed.keyword ρ

/-- No text in the file holds the character. -/
structure Avoids (c : Char) (f : DirectiveFile ρ) : Prop where
  unmanaged : ∀ u ∈ f.unmanaged, ∀ t ∈ u.texts, c ∉ t.toList
  records : ∀ r ∈ f.records, ∀ a ∈ Managed.arguments r, c ∉ a.toList

theorem addTokens_eq_ok {f f' : DirectiveFile ρ} {first : String} {rest : List String}
    (h : addTokens f first rest = .ok f') :
    (Text.upper first = Managed.keyword ρ ∧ ∃ r, Managed.ofArguments rest = .ok r ∧
      f' = { f with records := f.records ++ [r] }) ∨
    (Text.upper first ≠ Managed.keyword ρ ∧
      f' = { f with unmanaged := f.unmanaged ++ [.directive first rest] }) := by
  unfold addTokens at h
  split at h
  next hk =>
    split at h
    next r hr => exact Or.inl ⟨hk, r, hr, (Except.ok.inj h).symm⟩
    next => simp at h
  next hk => exact Or.inr ⟨hk, (Except.ok.inj h).symm⟩

/-- What a line does to a file, if it is not rejected. -/
theorem addLine_cases {f f' : DirectiveFile ρ} {line : String}
    (h : Document.addLine f line = .ok f') :
    f' = f ∨
    (∃ text, Content.ofLine line = .ok (.comment text) ∧
      f' = { f with unmanaged := f.unmanaged ++ [.comment text] }) ∨
    (∃ first rest, Content.ofLine line = .ok (.tokens first rest) ∧
      Text.upper first ≠ Managed.keyword ρ ∧
      f' = { f with unmanaged := f.unmanaged ++ [.directive first rest] }) ∨
    (∃ first rest r, Content.ofLine line = .ok (.tokens first rest) ∧
      Managed.ofArguments rest = .ok r ∧ f' = { f with records := f.records ++ [r] }) := by
  obtain ⟨c, hc, hf⟩ := Document.addLine_eq_ok_iff.mp h
  cases c with
  | blank => exact Or.inl (Except.ok.inj hf).symm
  | comment text => exact Or.inr (Or.inl ⟨text, hc, (Except.ok.inj hf).symm⟩)
  | tokens first rest =>
    rcases addTokens_eq_ok hf with ⟨-, r, hr, he⟩ | ⟨hk, he⟩
    · exact Or.inr (Or.inr (Or.inr ⟨first, rest, r, hc, hr, he⟩))
    · exact Or.inr (Or.inr (Or.inl ⟨first, rest, hc, hk, he⟩))

theorem wellFormed_empty : (Document.empty : DirectiveFile ρ).WellFormed :=
  ⟨fun _ h => by simp [Document.empty] at h, fun _ _ h => by simp [Document.empty] at h⟩

theorem wellFormed_of_addLine {f f' : DirectiveFile ρ} {line : String} (hf : f.WellFormed)
    (h : Document.addLine f line = .ok f') : f'.WellFormed := by
  rcases addLine_cases h with rfl | ⟨text, hc, rfl⟩ | ⟨first, rest, -, hk, rfl⟩ |
    ⟨-, -, r, -, -, rfl⟩
  · exact hf
  · refine ⟨fun t ht => ?_, fun first rest ht => ?_⟩
    · rcases List.mem_append.mp ht with ht | ht
      · exact hf.comments t ht
      · rw [List.mem_singleton, Unmanaged.comment.injEq] at ht
        exact ht ▸ Content.isComment_of_ofLine hc
    · exact hf.directives first rest (by simpa using ht)
  · refine ⟨fun t ht => hf.comments t (by simpa using ht), fun first' rest' ht => ?_⟩
    rcases List.mem_append.mp ht with ht | ht
    · exact hf.directives first' rest' ht
    · rw [List.mem_singleton, Unmanaged.directive.injEq] at ht
      exact ht.1 ▸ hk
  · exact ⟨hf.comments, hf.directives⟩

theorem wellFormed_of_addLines {f : DirectiveFile ρ} {lines : List String}
    (h : Document.addLines Document.empty lines = .ok f) : f.WellFormed :=
  Document.addLines_induction wellFormed_empty (fun _ _ _ _ hf => wellFormed_of_addLine hf) h

/-- A line end that is on no line is in no text of the file. -/
theorem avoids_of_addLine [LawfulManaged ρ] {c : Char} (ht : isTerminator c = true)
    {f f' : DirectiveFile ρ} {line : String} (hline : c ∉ line.toList) (hf : f.Avoids c)
    (h : Document.addLine f line = .ok f') : f'.Avoids c := by
  rcases addLine_cases h with rfl | ⟨text, hc, rfl⟩ | ⟨first, rest, hc, -, rfl⟩ |
    ⟨first, rest, r, hc, hr, rfl⟩
  · exact hf
  · refine ⟨fun u hu => ?_, hf.records⟩
    rcases List.mem_append.mp hu with hu | hu
    · exact hf.unmanaged u hu
    · rw [List.mem_singleton.mp hu]
      intro t htext hct
      rw [Unmanaged.texts, List.mem_singleton] at htext
      exact hline (Content.mem_of_mem_comment hc (htext ▸ hct))
  · refine ⟨fun u hu => ?_, hf.records⟩
    rcases List.mem_append.mp hu with hu | hu
    · exact hf.unmanaged u hu
    · rw [List.mem_singleton.mp hu]
      intro t htext hct
      exact hline (Content.mem_of_mem_token hc htext hct)
  · refine ⟨hf.unmanaged, fun r' hr' => ?_⟩
    rcases List.mem_append.mp hr' with hr' | hr'
    · exact hf.records r' hr'
    · rw [List.mem_singleton.mp hr']
      intro a ha hca
      obtain ⟨b, hb, hcb⟩ := LawfulManaged.mem_arguments hr a ha c hca ht
      exact hline (Content.mem_of_mem_token hc (List.mem_cons_of_mem _ hb) hcb)

theorem avoids_of_addLines [LawfulManaged ρ] {c : Char} (ht : isTerminator c = true)
    {f : DirectiveFile ρ} {lines : List String} (hl : ∀ line ∈ lines, c ∉ line.toList)
    (h : Document.addLines Document.empty lines = .ok f) : f.Avoids c :=
  Document.addLines_induction
    ⟨fun _ h => by simp [Document.empty] at h, fun _ h => by simp [Document.empty] at h⟩
    (fun line hm _ _ hf => avoids_of_addLine ht (hl line hm) hf) h

/-! ## Reading what was written -/

theorem addLine_render {f : DirectiveFile ρ} {u : Unmanaged}
    (hc : ∀ text, u = .comment text → IsComment text)
    (hd : ∀ first rest, u = .directive first rest → Text.upper first ≠ Managed.keyword ρ) :
    Document.addLine f u.render = .ok { f with unmanaged := f.unmanaged ++ [u] } := by
  cases u with
  | comment text => exact Document.addLine_of_ofLine (Content.ofLine_comment (hc text rfl)) f
  | directive first rest =>
    have hl := Document.addLine_of_ofLine (Content.ofLine_encode first rest) f
    rw [Unmanaged.render, hl]
    show addTokens f first rest = _
    rw [addTokens, if_neg (hd first rest rfl)]

/-- Unmanaged lines are read back behind those that are there. -/
theorem addLines_unmanaged {f : DirectiveFile ρ} {us : List Unmanaged}
    (h : WellFormed (⟨us, []⟩ : DirectiveFile ρ)) :
    Document.addLines f (us.map Unmanaged.render) =
      .ok { f with unmanaged := f.unmanaged ++ us } := by
  induction us generalizing f with
  | nil => simp
  | cons u us ih =>
    have hu : Document.addLine f u.render = .ok { f with unmanaged := f.unmanaged ++ [u] } := by
      refine addLine_render (fun text he => ?_) (fun first rest he => ?_)
      · exact h.comments text (he ▸ List.mem_cons_self)
      · exact h.directives first rest (he ▸ List.mem_cons_self)
    have hrest : WellFormed (⟨us, []⟩ : DirectiveFile ρ) :=
      ⟨fun text ht => h.comments text (List.mem_cons_of_mem _ ht),
        fun first rest ht => h.directives first rest (List.mem_cons_of_mem _ ht)⟩
    rw [List.map_cons, Document.addLines_cons, hu]
    show Document.addLines _ (us.map Unmanaged.render) = _
    rw [ih hrest, List.append_assoc, List.singleton_append]

/-- What the line of a record gives. -/
theorem addLine_recordLine_eq_ok_iff [LawfulManaged ρ] {f f' : DirectiveFile ρ} {r : ρ} :
    Document.addLine f (recordLine r) = .ok f' ↔
      ∃ r', Managed.ofArguments (Managed.arguments r) = .ok r' ∧
        f' = { f with records := f.records ++ [r'] } := by
  have hl := Document.addLine_of_ofLine
    (Content.ofLine_encode (Managed.keyword ρ) (Managed.arguments r)) f
  unfold recordLine
  rw [hl]
  show addTokens f (Managed.keyword ρ) (Managed.arguments r) = _ ↔ _
  rw [addTokens, if_pos LawfulManaged.upper_keyword]
  cases (Managed.ofArguments (Managed.arguments r) : Except DirectiveFault ρ) with
  | error fault => simp
  | ok r' => simp [eq_comm]

/-- What the lines of records give: each a record of its own. -/
theorem addLines_records_eq_ok_iff [LawfulManaged ρ] {f f' : DirectiveFile ρ} {rs : List ρ} :
    Document.addLines f (rs.map recordLine) = .ok f' ↔
      ∃ rs', List.Forall₂ (fun r r' => Managed.ofArguments (Managed.arguments r) = .ok r') rs rs' ∧
        f' = { f with records := f.records ++ rs' } := by
  induction rs generalizing f with
  | nil => simp [eq_comm]
  | cons r rs ih =>
    rw [List.map_cons, Document.addLines_cons, Result.bind_eq_ok_iff]
    constructor
    · rintro ⟨g, hg, hrest⟩
      obtain ⟨r', hr', rfl⟩ := addLine_recordLine_eq_ok_iff.mp hg
      obtain ⟨rs', hrs', rfl⟩ := ih.mp hrest
      exact ⟨r' :: rs', .cons hr' hrs', by simp⟩
    · rintro ⟨rs', hrs', rfl⟩
      obtain ⟨r', rs'', hr', hrs'', rfl⟩ := List.forall₂_cons_left_iff.mp hrs'
      exact ⟨_, addLine_recordLine_eq_ok_iff.mpr ⟨r', hr', rfl⟩, ih.mpr ⟨rs'', hrs'', by simp⟩⟩

/-- **The lines of a file give its unmanaged lines back, and what is read from the arguments of each
record.** -/
theorem addLines_render_eq_ok_iff [LawfulManaged ρ] {f f' : DirectiveFile ρ} (hf : f.WellFormed) :
    Document.addLines Document.empty (Document.render f) = .ok f' ↔
      f'.unmanaged = f.unmanaged ∧
        List.Forall₂ (fun r r' => Managed.ofArguments (Managed.arguments r) = .ok r')
          f.records f'.records := by
  -- the unmanaged lines come first and give themselves, then each record is read on its own
  have hu :
      Document.addLines (Document.empty : DirectiveFile ρ) (f.unmanaged.map Unmanaged.render) =
        .ok ⟨f.unmanaged, []⟩ := addLines_unmanaged ⟨hf.comments, hf.directives⟩
  show Document.addLines _ (f.unmanaged.map Unmanaged.render ++ f.records.map recordLine) = _ ↔ _
  rw [Document.addLines_append_of_ok hu, addLines_records_eq_ok_iff]
  constructor
  · rintro ⟨rs', hrs', rfl⟩
    exact ⟨rfl, hrs'⟩
  · rintro ⟨hun, hrs⟩
    refine ⟨f'.records, hrs, ?_⟩
    cases f'
    simp_all [Document.empty]

/-- **A file is read back from its lines exactly if each of its records is from its arguments.** -/
theorem reads_back_iff [LawfulManaged ρ] {f : DirectiveFile ρ} (hf : f.WellFormed) :
    Document.addLines Document.empty (Document.render f) = .ok f ↔
      ∀ r ∈ f.records, Managed.ofArguments (Managed.arguments r) = .ok r := by
  rw [addLines_render_eq_ok_iff hf, List.forall₂_same]
  exact and_iff_right rfl

/-- A line end that is in no text of the file is on no line of it. -/
theorem not_mem_render_of_avoids [LawfulManaged ρ] {c : Char} (ht : isTerminator c = true)
    {f : DirectiveFile ρ} (hf : f.Avoids c) {line : String} (hl : line ∈ Document.render f) :
    c ∉ line.toList := by
  -- such a character is none of those with which tokens are put on a line
  have hencode : ∀ ts : List String, (∀ t ∈ ts, c ∉ t.toList) → c ∉ (encode ts).toList := by
    intro ts hts hc
    rcases mem_encode hc with rfl | rfl | rfl | ⟨t, hmem, hct⟩
    · exact absurd ht (by decide)
    · exact absurd ht (by decide)
    · exact absurd ht (by decide)
    · exact hts t hmem hct
  rcases List.mem_append.mp hl with hl | hl
  · obtain ⟨u, hu, rfl⟩ := List.mem_map.mp hl
    cases u with
    | comment text => exact hf.unmanaged _ hu text (by simp [Unmanaged.texts])
    | directive first rest => exact hencode _ (hf.unmanaged _ hu)
  · obtain ⟨r, hr, rfl⟩ := List.mem_map.mp hl
    refine hencode _ fun t htmem => ?_
    rcases List.mem_cons.mp htmem with rfl | htmem
    · intro hc
      exact absurd (LawfulManaged.holdsNoEnd_keyword c hc) (by simp [ht])
    · exact hf.records r hr t htmem

/-! ## Texts -/

/-- **A file that was read from a text is read back from what is written exactly if each of its
records is from its arguments.** -/
theorem ofText_write_eq_iff [LawfulManaged ρ] {text : String} {f : DirectiveFile ρ}
    (h : Reading.ofText (DirectiveFile ρ) text = ⟨f, none⟩) :
    Reading.ofText (DirectiveFile ρ) (Document.write f).text = ⟨f, none⟩ ↔
      ∀ r ∈ f.records, Managed.ofArguments (Managed.arguments r) = .ok r := by
  have hread := Reading.ofLines_eq_iff.mp h
  -- the text was cut at its newlines, so no written line holds one
  have havoids := avoids_of_addLines (by decide) (fun _ hl => newline_not_mem_of_mem_lines hl) hread
  have htext := Reading.ofText_text fun _ hl => not_mem_render_of_avoids (by decide) havoids hl
  show Reading.ofText _ (Document.text f) = _ ↔ _
  rw [htext, Reading.ofLines_eq_iff]
  exact reads_back_iff (wellFormed_of_addLines hread)

/-- What each record that was read has in common. -/
theorem records_of_addLines {P : ρ → Prop}
    (hP : ∀ (args : List String) (r : ρ), Managed.ofArguments args = .ok r → P r)
    {lines : List String} {f : DirectiveFile ρ}
    (h : Document.addLines Document.empty lines = .ok f) : ∀ r ∈ f.records, P r := by
  refine Document.addLines_induction (P := fun g : DirectiveFile ρ => ∀ r ∈ g.records, P r)
    (fun r hr => by simp [Document.empty] at hr) ?_ h
  intro line _ g g' hg hline
  rcases addLine_cases hline with rfl | ⟨-, -, rfl⟩ | ⟨-, -, -, -, rfl⟩ |
    ⟨first, rest, r, -, hr, rfl⟩
  · exact hg
  · exact hg
  · exact hg
  · intro r' hr'
    rcases List.mem_append.mp hr' with hr' | hr'
    · exact hg r' hr'
    · exact List.mem_singleton.mp hr' ▸ hP rest r hr

end DirectiveFile

/-- **Listen addresses are always read back from what is written. Monitored devices are exactly if
no host that holds a colon stands without a port.** -/
theorem directive_files_round_trip (text : String) :
    ((Reading.ofText ListenFile text).isComplete = true →
      Reading.ofText ListenFile (Document.write (Reading.ofText ListenFile text).document).text =
        ⟨(Reading.ofText ListenFile text).document, none⟩) ∧
    ((Reading.ofText MonitorFile text).isComplete = true →
      (Reading.ofText MonitorFile (Document.write (Reading.ofText MonitorFile text).document).text =
          ⟨(Reading.ofText MonitorFile text).document, none⟩ ↔
        ∀ m ∈ (Reading.ofText MonitorFile text).document.records,
          ¬(m.port = 0 ∧ ':' ∈ m.hostname.toList))) := by
  constructor
  · intro h
    have hread := Reading.isComplete_iff.mp h
    have hrange := DirectiveFile.records_of_addLines (fun _ _ => Listen.inRange_of_ofArguments)
      (Reading.ofLines_eq_iff.mp hread)
    rw [DirectiveFile.ofText_write_eq_iff hread]
    intro l hl
    exact Listen.ofArguments_arguments (hrange l hl)
  · intro h
    have hread := Reading.isComplete_iff.mp h
    have hrange := DirectiveFile.records_of_addLines (fun _ _ => Monitor.inRange_of_ofArguments)
      (Reading.ofLines_eq_iff.mp hread)
    rw [DirectiveFile.ofText_write_eq_iff hread]
    refine forall₂_congr fun m hm => ?_
    obtain ⟨hm, hname⟩ := hrange m hm
    show Monitor.ofArguments m.arguments = _ ↔ _
    rw [Monitor.ofArguments_arguments_iff hm, Monitor.HostIsClear, not_and]
    exact and_iff_right hname

/-- The numbers have leading zeros, a user has no password, and an assignment holds a backslash. -/
theorem directive_files_round_trip_of_numbers :
    let text := "# numbers\nlisten ::1 0003\nMONITOR u@h:01 001 a \"\" c\nother = \"\\\\\"\n"
    (Reading.ofText ListenFile text).isComplete = true ∧
    (Reading.ofText MonitorFile text).isComplete = true ∧
    Reading.ofText ListenFile (Document.write (Reading.ofText ListenFile text).document).text =
      ⟨(Reading.ofText ListenFile text).document, none⟩ ∧
    (Reading.ofText MonitorFile (Document.write (Reading.ofText MonitorFile text).document).text =
        ⟨(Reading.ofText MonitorFile text).document, none⟩ ↔
      ∀ m ∈ (Reading.ofText MonitorFile text).document.records,
        ¬(m.port = 0 ∧ ':' ∈ m.hostname.toList)) := by
  intro text
  have hl : (Reading.ofText ListenFile text).isComplete = true := by decide
  have hm : (Reading.ofText MonitorFile text).isComplete = true := by decide
  exact ⟨hl, hm, (directive_files_round_trip text).1 hl, (directive_files_round_trip text).2 hm⟩

end UpsSetup
