import UpsSetup.Proofs.Changes
import UpsSetup.Proofs.Grouping
import UpsSetup.Proofs.ModeLines
import UpsSetup.Proofs.Progress

/-!
# Modes that are set are seen

A run that sets the mode is followed by one that asks whether anything is configured. The second
reads the lines that the first has written, so it sees what these lines show
(`Assignments.any_isConfigured_iff`, `Invocation.mode_is_seen_iff`): the mode that was set if all
other keys are plain, but a key that is not may hide it.
-/

namespace UpsSetup

open Text Line

/-! ## The file -/

/-- **A file whose mode was set is found to be configured exactly if its lines show a mode that
is.** -/
theorem Assignments.any_isConfigured_iff {content : Option ByteArray} {f : Assignments}
    (h : Document.ofContent? content = some f) (m : Mode) :
    ((Document.ofBytes? (Document.bytes (f.setMode m)) : Option Assignments).any
        isConfigured) = true ↔
      ∃ word, (f.setMode m).Shows word ∧ Configures word := by
  obtain ⟨lines, hends, hlines⟩ := Document.exists_lines_of_ofContent? h
  have hreached := reached_of_addLines hlines
  have hkeeps : (f.setMode m).KeepsLines := by
    refine (keepsLines_of_addLines hends hlines).insert (by decide) ?_ fun text ht => ht
    cases m <;> decide
  have hinFile : Document.linesInFile (f.setMode m) = Document.render (f.setMode m) :=
    Document.linesInFile_of_holdsNoEnd fun line hl => hkeeps.holdsNoEnd_of_mem_render hreached hl
  simp only [Option.any_eq_true, Document.ofBytes?_bytes, hinFile, isConfigured_iff]
  constructor
  · rintro ⟨g, hg, word, hword, hconfigures⟩
    exact ⟨word, (shows_set_iff hreached).mpr ⟨g, hg, hword⟩, hconfigures⟩
  · rintro ⟨word, hshows, hconfigures⟩
    obtain ⟨g, hg, hword⟩ := (shows_set_iff hreached).mp hshows
    exact ⟨g, hg, word, hword, hconfigures⟩

/-- The state of a directory is that of its file. One that cannot be read sets no mode. -/
theorem Job.yields_isConfigured_of_locate {t : Tree} {directory : Path} {l : Location}
    {content : ByteArray} (h : t.locate (documentPath directory .nut) = .file l content) :
    (isConfigured directory).Yields t
      ((Document.ofBytes? content : Option Assignments).any Assignments.isConfigured) t := by
  refine ⟨?_, tree_isConfigured directory⟩
  show (isConfigured directory t).result = _
  unfold isConfigured
  dsimp only
  rcases yields_or_fails (source Assignments (documentPath directory .nut)) t with
    ⟨found, hsource⟩ | ⟨failure, hsource⟩
  · rw [hsource.1]
    cases found with
    | none =>
      obtain ⟨-, ⟨l', hl⟩ | ⟨obstacle, hl, -⟩⟩ := yields_source_none_iff.mp hsource
      · simp [h] at hl
      · simp [h] at hl
    | some f =>
      obtain ⟨-, l', content', hl, hf⟩ := yields_source_some_iff.mp hsource
      rw [h, Place.file.injEq] at hl
      rw [hl.2, hf]
  · rw [hsource.1]
    rcases (fails_source hsource).2 with ⟨-, hlong⟩ | ⟨rfl, ⟨l', hl⟩ | ⟨l', content', hl, hf⟩⟩
    · simp [h] at hlong
    · simp [h] at hl
    · rw [h, Place.file.injEq] at hl
      rw [hl.2, hf]
      rfl

namespace Invocation

/-! ## The command lines -/

/-- The answer to the question whether anything is configured. -/
def stateAnswer (configured : Bool) : Answer :=
  if configured then { code := successCode, output := ["true"] }
  else { code := failureCode, output := ["false"] }

/-- A run that is asked for the state answers with it. -/
theorem answer_execute_of_state {i : Invocation} (hhelp : (Request.ofWords i.words).help = false)
    (hvalid : (Request.ofWords i.words).isValid = true)
    (hask : (Request.ofWords i.words).isConfigured = true) {t : Tree} {loc : Location}
    (hloc : t.locate i.directory = .directory loc) {configured : Bool}
    (hstate : (Job.isConfigured i.directory).Yields t configured t) :
    (i.execute t).answer = stateAnswer configured := by
  have hdirectory : (Job.checkDirectory ((Request.ofWords i.words).directory
      i.environment)).Yields t i.directory t :=
    Job.yields_checkDirectory_iff.mpr ⟨rfl, rfl, loc, hloc⟩
  have hcarry : (i.carryOut (Request.ofWords i.words)).Yields t (stateAnswer configured) t := by
    unfold carryOut
    refine Job.yields_bind_iff.mpr ⟨i.directory, t, hdirectory, ?_⟩
    rw [hask, if_pos rfl]
    refine Job.yields_bind_iff.mpr ⟨configured, t, hstate, ?_⟩
    cases configured with
    | true => exact Job.yields_pure_iff.mpr ⟨rfl, rfl⟩
    | false => exact Job.yields_pure_iff.mpr ⟨rfl, rfl⟩
  have hjob : i.job.Yields t (stateAnswer configured) t := by
    rwa [yields_job_iff, if_neg (by simp [hhelp]), if_pos hvalid]
  exact answer_execute_of_yields hjob

theorem ofWords_mode {directory : String} (hd : Word.ofText directory = .literal directory)
    (m : Mode) : Request.ofWords ["--local", directory, "--mode", m.name] =
      Request.ofArguments
        ⟨[], [⟨some (.two, "local"), [directory]⟩, ⟨some (.two, "mode"), [m.name]⟩]⟩ := by
  have hm : Arguments.ofWords ["--mode", m.name] = ⟨[], [⟨some (.two, "mode"), [m.name]⟩]⟩ := by
    cases m <;> rfl
  exact congrArg Request.ofArguments (Arguments.ofWords_localDirectory hd hm)

theorem ofWords_isConfigured {directory : String}
    (hd : Word.ofText directory = .literal directory) :
    Request.ofWords ["--local", directory, "--is-configured"] =
      Request.ofArguments
        ⟨[], [⟨some (.two, "local"), [directory]⟩, ⟨some (.two, "is-configured"), []⟩]⟩ :=
  congrArg Request.ofArguments (Arguments.ofWords_localDirectory hd rfl)

/-! ## The two runs -/

variable {i j : Invocation} {directory : String} {m : Mode} {t : Tree}

/-- A run that sets the mode finds its directory and stores the file with the mode. -/
theorem exists_stores_mode (hwords : i.words = ["--local", directory, "--mode", m.name])
    (hd : Word.ofText directory = .literal directory)
    (hcode : (i.execute t).answer.code = successCode) :
    (∃ loc, t.locate i.directory = .directory loc) ∧
      ∃ f, Job.Stores i.directory (fun f : Assignments => f.setMode m) t f (i.execute t).tree := by
  have hrequest : Request.ofWords i.words = _ := (congrArg _ hwords).trans (ofWords_mode hd m)
  obtain ⟨hhelp, hask, hbuilt⟩ : (Request.ofWords i.words).help = false ∧
      (Request.ofWords i.words).isConfigured = false ∧
        (Request.ofWords i.words).materialize = .ok ⟨[], []⟩ := by
    rw [hrequest]
    exact ⟨rfl, rfl, rfl⟩
  have hedits : (Request.ofWords i.words).edits ⟨[], []⟩ =
      [(.nut, Document.edit fun f : Assignments => f.setMode m)] := by
    rw [hrequest]
    cases m <;> rfl
  have hvalid := isValid_of_execute hhelp hcode
  obtain ⟨p, hp, happly⟩ := (execute_success_iff hhelp hvalid hask).mp ⟨hcode, rfl⟩
  obtain ⟨-, rfl, hloc⟩ := Job.yields_checkDirectory_iff.mp hp
  obtain ⟨records, hrecords, hmade⟩ := Request.yields_apply_iff_editAll.mp happly
  obtain rfl := Except.ok.inj (hbuilt.symm.trans hrecords)
  rw [hedits, Tree.editAll_cons, Option.bind_eq_some_iff] at hmade
  obtain ⟨u, hu, hrest⟩ := hmade
  obtain rfl := Option.some.inj hrest
  exact ⟨hloc, Job.exists_stores_iff.mpr hu⟩

/-- Where the directory looks like an option, a run that is to set the mode succeeds only if that
option asks for the usage text, and then the next run shows it as well. -/
theorem answer_of_not_literal (hset : i.words = ["--local", directory, "--mode", m.name])
    (hask : j.words = ["--local", directory, "--is-configured"])
    (hd : Word.ofText directory ≠ .literal directory)
    (hcode : (i.execute t).answer.code = successCode) (u : Tree) :
    (Request.ofWords i.words).help = true ∧
      (j.execute u).answer = { code := successCode, errors := j.usage } := by
  have hhelp : (Request.ofWords i.words).help = true := by
    by_contra hnone
    have hvalid := isValid_of_execute (Bool.eq_false_iff.mpr hnone) hcode
    rw [hset] at hvalid
    exact hd (Request.literal_of_isValid hvalid)
  have hmode : (Request.ofWords ["--mode", m.name]).help = false := by
    cases m <;> rfl
  have hhelp' : (Request.ofWords j.words).help = true := by
    rw [hask]
    rw [hset] at hhelp
    exact Request.help_of_not_literal hd hmode hhelp ["--is-configured"]
  have hjob : j.job.Yields u { code := successCode, errors := j.usage } u := by
    rw [yields_job_iff, if_pos hhelp']
    exact ⟨rfl, rfl⟩
  exact ⟨hhelp, answer_execute_of_yields hjob⟩

/-- **A mode that a run sets is what the next run sees, if all other keys of the file are plain.**
In general the next run answers what the lines of the file show, unless both runs were asked for the
usage text in place of a directory. -/
theorem mode_is_seen_iff (hset : i.words = ["--local", directory, "--mode", m.name])
    (hask : j.words = ["--local", directory, "--is-configured"])
    (henvironment : j.environment = i.environment)
    (hcode : (i.execute t).answer.code = successCode) :
    ((Request.ofWords i.words).help = true ∧
      (j.execute (i.execute t).tree).answer = { code := successCode, errors := j.usage }) ∨
    ∃ (l : Location) (f : Assignments) (seen : Bool),
      Job.StartsFrom t (Job.documentPath i.directory .nut) l f ∧
      (j.execute (i.execute t).tree).answer = stateAnswer seen ∧
      (seen = true ↔ ∃ word, (f.setMode m).Shows word ∧ Assignments.Configures word) ∧
      ((∀ k ∈ f.values.keys, k = Assignments.modeKey ∨ Assignments.PlainKey k) →
        seen = decide (m ≠ .none)) := by
  by_cases hd : Word.ofText directory = .literal directory
  swap
  · exact Or.inl (answer_of_not_literal hset hask hd hcode _)
  right
  obtain ⟨⟨loc, hloc⟩, f', hstores⟩ := exists_stores_mode hset hd hcode
  obtain ⟨l, f, hstarts, rfl, htree⟩ := Job.stores_iff.mp hstores
  obtain ⟨content, hcontent⟩ := hstarts.exists_content
  have hj : Request.ofWords j.words = _ := (congrArg _ hask).trans (ofWords_isConfigured hd)
  -- the second run works in the same directory, which is still there
  have hsame : j.directory = i.directory := by
    rw [Invocation.directory, Invocation.directory, hj, hset, ofWords_mode hd m, henvironment]
    rfl
  have hkept := Tree.locate_insert hstarts.takesFile (Document.bytes (f.setMode m)) i.directory
  rw [hloc, ← htree, ← hsame] at hkept
  -- and it reads the file that the first run has written
  have hfile : (i.execute t).tree.locate (Job.documentPath j.directory .nut) =
      .file l (Document.bytes (f.setMode m)) := by
    rw [htree, hsame]
    exact hstarts.locate_insert _
  obtain ⟨hhelp', hvalid', hstate⟩ : (Request.ofWords j.words).help = false ∧
      (Request.ofWords j.words).isValid = true ∧
        (Request.ofWords j.words).isConfigured = true := by
    rw [hj]
    exact ⟨rfl, rfl, rfl⟩
  have hanswer := answer_execute_of_state hhelp' hvalid' hstate hkept
    (Job.yields_isConfigured_of_locate hfile)
  have hseen := Assignments.any_isConfigured_iff hcontent m
  refine ⟨l, f, _, hstarts, hanswer, hseen, fun hplain => ?_⟩
  -- the lines show one word only, and that is the name of the mode
  have hword := Assignments.shows_setMode_of_plain (m := m) hplain
  rw [Bool.eq_iff_iff, hseen, decide_eq_true_iff, ← Assignments.configures_name_iff]
  constructor
  · rintro ⟨word, hshows, hconfigures⟩
    rwa [hword.unique hshows]
  · exact fun hconfigures => ⟨_, hword, hconfigures⟩

/-- An equals sign as a key does no harm, but a key with a blank hides the mode. -/
theorem mode_is_seen_iff_of_blank :
    let i : Invocation := { words := ["--local", "etc", "--mode", "standalone"] }
    let j : Invocation := { words := ["--local", "etc", "--is-configured"] }
    let tree (text : String) : Tree := ⟨⟨[(["etc"], .directory),
      (["etc", "nut.conf"], .file text.toUTF8)], by simp⟩, []⟩
    let bare := "# old\nMODE = None\n== x\n"
    let quoted := "\"a b\"=x\n"
    (j.execute (i.execute (tree bare)).tree).answer = stateAnswer true ∧
      (j.execute (i.execute (tree quoted)).tree).answer = stateAnswer false := by
  intro i j tree bare quoted
  have hhelp : (Request.ofWords i.words).help ≠ true := by decide +kernel
  constructor
  · obtain ⟨l, f, seen, hstarts, hanswer, -, hplain⟩ :=
      (mode_is_seen_iff (i := i) (j := j) (m := .standalone)
        (t := tree bare) rfl rfl rfl (by decide +kernel)).resolve_left
        fun h => hhelp h.1
    have hlocate : (tree bare).locate (Job.documentPath i.directory .nut) =
        .file ["etc", "nut.conf"] bare.toUTF8 := by decide +kernel
    obtain rfl : f = ⟨.ofList [("MODE", "None"), ("=", "x")],
        [.comment "# old", .key "MODE", .key "="]⟩ :=
      hstarts.eq_of_locate hlocate (by decide +kernel)
    rw [hanswer, hplain (by decide +kernel)]
    rfl
  · obtain ⟨l, f, seen, hstarts, hanswer, hseen, -⟩ :=
      (mode_is_seen_iff (i := i) (j := j) (m := .standalone) (t := tree quoted)
        rfl rfl rfl (by decide +kernel)).resolve_left fun h => hhelp h.1
    have hlocate : (tree quoted).locate (Job.documentPath i.directory .nut) =
        .file ["etc", "nut.conf"] quoted.toUTF8 := by decide +kernel
    obtain rfl : f = ⟨.ofList [("a b", "x")], [.key "a b"]⟩ :=
      hstarts.eq_of_locate hlocate (by decide +kernel)
    have hrejected : Assignments.modeWords none (Assignments.setMode
        ⟨.ofList [("a b", "x")], [.key "a b"]⟩ .standalone).keyLines =
          .error .expectedAssignment := by decide +kernel
    have hnot : seen = false := by
      rw [Bool.eq_false_iff]
      intro h
      obtain ⟨word, hshows, -⟩ := hseen.mp h
      rw [Assignments.Shows, ← Assignments.modeWords_eq_some_iff, hrejected] at hshows
      simp at hshows
    rw [hanswer, hnot]

end Invocation

end UpsSetup
