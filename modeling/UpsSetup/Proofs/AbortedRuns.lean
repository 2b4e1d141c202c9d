import UpsSetup.Proofs.OneFile

/-!
# Runs that a file cuts short

A file that cannot be read ends a run in the middle of its edits
(`Invocation.parse_failure_leaves`). There is at most one edit for each file, and they come in the
order of the files (`Request.pairwise_edits`), so the edits before the failure are those of all
earlier files and of no other. Each file takes part in nothing but its own edit, so an earlier file
is left as a run for it alone leaves it.
-/

namespace UpsSetup

/-! ## Which file a failure is about -/

/-- The text of a path ends with the last name. -/
theorem Path.text_child (p : Path) (name : String) :
    (p.child name).text = (if p.names = [] then p.root.text else p.text ++ "/") ++ name := by
  have htext : (p.child name).text = p.root.text ++ "/".intercalate (p.names ++ [name]) :=
    if_neg (by simp [child])
  by_cases hnames : p.names = []
  · rw [htext, if_pos hnames, hnames, List.nil_append, String.intercalate_singleton]
  · have hself : p.text = p.root.text ++ "/".intercalate p.names := if_neg fun h => hnames h.2
    rw [htext, if_neg hnames, hself, String.intercalate_append_of_ne_nil hnames
      (List.cons_ne_nil name []), String.intercalate_singleton, ← String.append_assoc,
      ← String.append_assoc]

/-- A path tells which file it is of. -/
theorem Job.text_documentPath_inj {directory : Path} {kind kind' : DocumentKind} :
    (documentPath directory kind).text = (documentPath directory kind').text ↔ kind = kind' := by
  rw [documentPath, documentPath, Path.text_child, Path.text_child, ← String.toList_inj,
    String.toList_append, String.toList_append, List.append_cancel_left_eq, String.toList_inj]
  cases kind <;> cases kind' <;> decide

/-! ## The order of the edits -/

/-- The place of a file in the order in which a run changes them. -/
def DocumentKind.place : DocumentKind → Nat
  | upsmon => 0
  | upsd => 1
  | ups => 2
  | nut => 3

namespace Request

variable (r : Request) (records : Records)

/-- **The edits come in the order of their files**, at most one for each. -/
theorem pairwise_edits : (r.edits records).Pairwise fun e e' => e.1.place < e'.1.place := by
  rw [edits_eq, List.pairwise_flatMap]
  constructor
  · intro kind _
    rcases r.editsOf_cases records kind with ⟨-, hnil⟩ | ⟨-, edit, hone⟩
    · rw [hnil]
      exact List.Pairwise.nil
    · rw [hone]
      exact List.pairwise_singleton _ _
  · have horder : DocumentKind.inOrder.Pairwise fun kind kind' => kind.place < kind'.place := by
      decide
    refine horder.imp fun hlt e he e' he' => ?_
    rwa [kind_of_mem_editsOf he, kind_of_mem_editsOf he']

/-- The edits of one file, among all. -/
theorem filter_edits (kind : DocumentKind) :
    (r.edits records).filter (·.1 = kind) = r.editsOf records kind := by
  rw [edits_eq, List.filter_flatMap,
    Arguments.flatMap_eq_of_only (by decide) kind.mem_inOrder fun other _ hother => ?_]
  · exact List.filter_eq_self.mpr fun e he => decide_eq_true (kind_of_mem_editsOf he)
  · refine List.filter_eq_nil_iff.mpr fun e he => ?_
    rw [kind_of_mem_editsOf he]
    simpa using hother

variable {r records} {made rest : List (DocumentKind × Edit)} {e : DocumentKind × Edit}

/-- What comes before an edit are the edits of the earlier files. -/
theorem filter_of_edits_eq (h : r.edits records = made ++ e :: rest) (kind : DocumentKind) :
    made.filter (·.1 = kind) =
      if kind.place < e.1.place then r.editsOf records kind else [] := by
  have hpairwise := r.pairwise_edits records
  rw [h] at hpairwise
  obtain ⟨-, hrest, hmade⟩ := List.pairwise_append.mp hpairwise
  split
  next hlt =>
    -- neither the edit itself nor a later one is of an earlier file
    have hnone : (e :: rest).filter (·.1 = kind) = [] := by
      refine List.filter_eq_nil_iff.mpr fun e' he' => ?_
      have hle : e.1.place ≤ e'.1.place := by
        rcases List.mem_cons.mp he' with rfl | he'
        · exact Nat.le_refl _
        · exact Nat.le_of_lt ((List.pairwise_cons.mp hrest).1 e' he')
      intro hkind
      rw [of_decide_eq_true hkind] at hle
      omega
    rw [← r.filter_edits records, h, List.filter_append, hnone, List.append_nil]
  next hge =>
    refine List.filter_eq_nil_iff.mpr fun e' he' hkind => hge ?_
    rw [← of_decide_eq_true hkind]
    exact hmade e' he' e List.mem_cons_self

end Request

/-! ## What a run leaves behind -/

namespace Invocation

variable {i : Invocation} {t : Tree} {loc : Location} {kind : DocumentKind}

/-- **What is left when a file cannot be read.** An option asked for a change of this file. The file
and all later ones are as they were; each earlier one is as a run with the options for this file
alone leaves it. -/
theorem parse_failure_leaves (hfiles : Job.HoldsFiles t i.directory loc DocumentKind.inOrder)
    (hfail : (i.job.run t).result = .error (.storage
      { step := .parse, path := (Job.documentPath i.directory kind).text })) :
    (i.execute t).answer = { code := failureCode, errors :=
        ["Error: Failed to parse " ++ (Job.documentPath i.directory kind).text] } ∧
      (Arguments.ofWords i.words).Requests kind ∧
      (∀ k : DocumentKind, kind.place ≤ k.place →
        (i.execute t).tree.get? (loc ++ [k.fileName]) = t.get? (loc ++ [k.fileName])) ∧
      ∀ k : DocumentKind, k.place < kind.place →
        ((i.only k).execute t).answer.code = successCode ∧
          (i.execute t).tree.get? (loc ++ [k.fileName]) =
            ((i.only k).execute t).tree.get? (loc ++ [k.fileName]) := by
  have hjob : i.job.Fails t _ (i.job.run t).tree := ⟨hfail, rfl⟩
  rcases fails_job_cases hjob with ⟨-, hdirectory⟩ | ⟨loc', records, hstarts⟩
  · exact absurd (hdirectory _ rfl) (by simp)
  rcases hstarts.run with ⟨⟨hresult, -⟩, -⟩ | ⟨made, e, rest, failure, hedits, hmade, ⟨hresult, -⟩,
    habout⟩
  · rw [hfail] at hresult
    simp at hresult
  -- the edit that could not be made is the one of the file
  obtain rfl := Except.error.inj (hfail.symm.trans hresult)
  obtain rfl : kind = e.1 := Job.text_documentPath_inj.mp habout
  have halone : ∀ k : DocumentKind, ∃ u,
      t.editAll i.directory (made.filter (·.1 = k)) = some u ∧
        u.get? (loc ++ [k.fileName]) = (i.execute t).tree.get? (loc ++ [k.fileName]) :=
    fun k => hfiles.editAll_filter (fun e' _ => e'.1.mem_inOrder) hmade k.mem_inOrder
  refine ⟨?_, ?_, fun k hle => ?_, fun k hlt => ?_⟩
  · unfold execute
    simp only [hfail]
    rfl
  · refine Arguments.requests_of_fills hstarts.built (Request.exists_mem_edits_iff.mp ⟨e, ?_, rfl⟩)
    rw [Request.ofWords] at hedits
    rw [hedits]
    exact List.mem_append_right _ List.mem_cons_self
  · obtain ⟨u, hu, hsame⟩ := halone k
    rw [Request.filter_of_edits_eq hedits, if_neg (Nat.not_lt.mpr hle)] at hu
    obtain rfl := Option.some.inj hu
    exact hsame.symm
  · obtain ⟨u, hu, hsame⟩ := halone k
    rw [Request.filter_of_edits_eq hedits, if_pos hlt] at hu
    obtain ⟨hcode, htree⟩ := (hstarts.execute_only_iff k).mpr hu
    exact ⟨hcode, by rw [htree, hsame]⟩

/-- The second of three files cannot be read: the monitor is there, the device is not. -/
theorem parse_failure_leaves_of_bad_listens :
    let i : Invocation := { words := ["--add-device", "ups", "drv", "auto", "--add-listen", "::1",
      "--local", "etc", "--add-monitor", "ups", "host", "1", "me", "x y", "master"] }
    let monitor : Invocation := { words := ["--local", "etc", "--add-monitor", "ups", "host", "1",
      "me", "x y", "master"] }
    let t : Tree := ⟨⟨[(["etc"], .directory), (["etc", "upsd.conf"], .file "LISTEN\n".toUTF8),
      (["etc", "upsmon.conf"], .file "# all\nRUN_AS_USER nut\n".toUTF8)], by decide⟩, []⟩
    (i.execute t).answer.errors = ["Error: Failed to parse etc/upsd.conf"] ∧
      (i.execute t).tree.get? ["etc", "upsd.conf"] = some (.file "LISTEN\n".toUTF8) ∧
      (i.execute t).tree.get? ["etc", "ups.conf"] = none ∧
      (i.execute t).tree.get? ["etc", "upsmon.conf"] ≠ t.get? ["etc", "upsmon.conf"] ∧
      (i.execute t).tree.get? ["etc", "upsmon.conf"] =
        (monitor.execute t).tree.get? ["etc", "upsmon.conf"] := by
  intro i monitor t
  have hfiles : Job.HoldsFiles t i.directory ["etc"] DocumentKind.inOrder := by
    refine ⟨by decide +kernel, fun kind _ => ?_⟩
    cases kind with
    | upsmon => exact Or.inr ⟨_, rfl⟩
    | upsd => exact Or.inr ⟨_, rfl⟩
    | ups => exact Or.inl rfl
    | nut => exact Or.inl rfl
  have hfail : (i.job.run t).result = .error (.storage
      { step := .parse, path := (Job.documentPath i.directory .upsd).text }) := by decide +kernel
  have hpath : (Job.documentPath i.directory .upsd).text = "etc/upsd.conf" := by decide +kernel
  have honly : i.only .upsmon = monitor := by decide +kernel
  obtain ⟨hanswer, -, hlater, hearlier⟩ := parse_failure_leaves hfiles hfail
  have hmonitor := (hearlier .upsmon (by decide)).2
  rw [honly] at hmonitor
  refine ⟨?_, hlater .upsd (by decide), hlater .ups (by decide), by decide +kernel, hmonitor⟩
  rw [hanswer, hpath]
  rfl

end Invocation

end UpsSetup
