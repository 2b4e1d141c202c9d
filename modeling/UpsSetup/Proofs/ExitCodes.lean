import UpsSetup.Proofs.AbortedRuns
import UpsSetup.Proofs.Numerals

/-!
# Exit codes

A run exits with success, with failure, or with an internal error. The last of these is for
failures that nobody is told about, and all of them come from something that is too long
(`Invocation.internalError_iff`): a path that cannot even be asked about, or a number with more
digits than may be read. Whether a path is too long does not change while a run edits files
(`Tree.locate_eq_nameTooLong_of_editAll`).
-/

namespace UpsSetup

/-! ## Paths that lead nowhere -/

/-- Only a file that is missing or no directory is an obstacle in one of the trees alone. -/
theorem Place.Alike.nowhere_iff {l : Location} {place place' : Place} (h : place.Alike l place')
    {o : Obstacle} (ho : o ≠ .missing ∧ o ≠ .notDirectory) :
    place' = .nowhere o ↔ place = .nowhere o := by
  cases h with
  | same => exact Iff.rfl
  | found hat hat' =>
    have hne : ∀ {place : Place}, place.IsAt l → place ≠ .nowhere o := by
      rintro _ (⟨c, rfl⟩ | rfl) <;> simp
    exact iff_of_false (hne hat') (hne hat)
  | blocked hb hb' =>
    have hne : ∀ {o' : Obstacle}, o' = .missing ∨ o' = .notDirectory →
        Place.nowhere o' ≠ .nowhere o := by
      rintro o' h' heq
      rw [Place.nowhere.injEq] at heq
      rcases h' with rfl | rfl
      · exact ho.1 heq.symm
      · exact ho.2 heq.symm
    exact iff_of_false (hne hb') (hne hb)

namespace Tree

variable {t t' : Tree}

theorem agreeOff_of_edit? {p : Path} {e : Edit} (h : t.edit? p e = some t') :
    ∃ l, AgreeOff l t t' := by
  have hfits := t.locate_fits p
  unfold edit? at h
  split at h
  next l content hplace =>
    obtain ⟨c, -, rfl⟩ := Option.map_eq_some_iff.mp h
    exact ⟨l, agreeOff_insert (hfits.takesFile (Or.inl ⟨content, hplace⟩)) c⟩
  next l hplace =>
    obtain ⟨c, -, rfl⟩ := Option.map_eq_some_iff.mp h
    exact ⟨l, agreeOff_insert (hfits.takesFile (Or.inr hplace)) c⟩
  next => simp at h
  next => simp at h

/-- Edits do not change whether a path is too long. -/
theorem locate_eq_nameTooLong_of_editAll {directory : Path} {edits : List (DocumentKind × Edit)}
    (h : t.editAll directory edits = some t') (p : Path) :
    t'.locate p = .nowhere .nameTooLong ↔ t.locate p = .nowhere .nameTooLong := by
  induction edits generalizing t with
  | nil => rw [Option.some.inj h]
  | cons e edits ih =>
    obtain ⟨u, hu, hrest⟩ := Option.bind_eq_some_iff.mp ((editAll_cons ..).symm.trans h)
    obtain ⟨l, hagree⟩ := agreeOff_of_edit? hu
    exact (ih hrest).trans ((locate_alike hagree p).nowhere_iff (by decide))

theorem walk_ne_nulCharacter {onLink : Location → List String → Place}
    (hlink : ∀ here names, onLink here names ≠ .nowhere .nulCharacter) (here : Location)
    (names : List String) : walk t onLink here names ≠ .nowhere .nulCharacter := by
  induction names generalizing here with
  | nil => simp [walk]
  | cons name rest ih =>
    unfold walk
    split
    · exact ih here
    · split
      · exact ih here.dropLast
      · split
        · simp
        · dsimp only
          split
          next => split <;> simp
          next => exact ih _
          next => split <;> simp
          next => exact hlink _ _

theorem follow_ne_nulCharacter (links : Nat) (here : Location) (names : List String) :
    follow t links here names ≠ .nowhere .nulCharacter := by
  induction links generalizing here names with
  | zero => exact walk_ne_nulCharacter (fun _ _ => by simp) here names
  | succ links ih => exact walk_ne_nulCharacter ih here names

/-- Only the text of a path makes it one that no name can hold. -/
theorem locate_eq_nulCharacter_iff {p : Path} :
    t.locate p = .nowhere .nulCharacter ↔ '\x00' ∈ p.text.toList := by
  unfold locate
  split
  next h => exact iff_of_true rfl h
  next h =>
    refine iff_of_false ?_ h
    split
    · simp
    · exact follow_ne_nulCharacter _ _ _

/-- A name that is too long is not looked for, whatever there is. -/
theorem locate_ofText_of_long {name : String} (hslash : '/' ∉ name.toList)
    (hnul : '\x00' ∉ name.toList) (hlong : maxNameBytes < name.utf8ByteSize) :
    t.locate (Path.ofText name) = .nowhere .nameTooLong := by
  have hne : ∀ short : String, short.utf8ByteSize ≤ maxNameBytes → name ≠ short := by
    rintro short hshort rfl
    omega
  have hname : Path.isName name = true := by
    simp [Path.isName, hne "" (by decide), hne "." (by decide)]
  have hroot : Path.rootOf name.toList = .relative := by
    unfold Path.rootOf
    split
    next hchars => simp [hchars] at hslash
    next hchars => simp [hchars] at hslash
    next hchars => simp [hchars] at hslash
    next => rfl
  have hpath : Path.ofText name = ⟨.relative, [name]⟩ := by
    rw [Path.ofText, hroot, Path.pieces, List.splitOn_eq_singleton hslash, List.map_singleton,
      String.ofList_toList, List.filter_singleton, hname]
    rfl
  have htext : (Path.ofText name).text = name := by
    rw [hpath, Path.text, if_neg (by simp), String.intercalate_singleton]
    exact String.empty_append
  rw [locate, htext, if_neg hnul]
  split
  · rfl
  · rw [hpath]
    exact walk_cons_of_long t _ _ [] hname (hne ".." (by decide)) hlong

end Tree

theorem Path.mem_text_of_mem_child {p : Path} {name : String} {c : Char}
    (h : c ∈ (p.child name).text.toList) : c ∈ p.text.toList ∨ c = '/' ∨ c ∈ name.toList := by
  rw [text_child, String.toList_append, List.mem_append] at h
  rcases h with hbefore | hname
  · split at hbefore
    · cases hroot : p.root <;> simp [hroot, PathRoot.text] at hbefore <;>
        exact Or.inr (Or.inl hbefore)
    · rw [String.toList_append, List.mem_append] at hbefore
      exact hbefore.imp_right fun hslash => Or.inl (by simpa using hslash)
  · exact Or.inr (Or.inr hname)

/-- The path of a document in a directory that there is can be asked about. -/
theorem Job.locate_documentPath_ne_nulCharacter {t u : Tree} {directory : Path} {loc : Location}
    (h : t.locate directory = .directory loc) (kind : DocumentKind) :
    u.locate (documentPath directory kind) ≠ .nowhere .nulCharacter := by
  intro hchild
  rcases Path.mem_text_of_mem_child (Tree.locate_eq_nulCharacter_iff.mp hchild) with
    hdirectory | hslash | hname
  · rw [Tree.locate_eq_nulCharacter_iff.mpr hdirectory] at h
    simp at h
  · simp at hslash
  · cases kind <;> simp [DocumentKind.fileName] at hname

/-! ## Failures that nobody is told about -/

/-- Why an edit cannot be made is not told if its path is too long, and only then. -/
theorem Tree.isReported_of_refusal? {t : Tree} {p : Path} {e : Edit} {failure : Failure}
    (hnul : t.locate p ≠ .nowhere .nulCharacter) (h : t.refusal? p e = some failure) :
    failure.isReported = false ↔ t.locate p = .nowhere .nameTooLong := by
  unfold refusal? at h
  dsimp only at h
  split at h
  next hplace =>
    split at h
    · simp at h
    · rw [hplace, ← Option.some.inj h]
      simp [Failure.isReported]
  next hplace =>
    split at h
    · simp at h
    · rw [hplace, ← Option.some.inj h]
      simp [Failure.isReported]
  next hplace =>
    rw [hplace, ← Option.some.inj h]
    simp [Failure.isReported]
  next hplace =>
    rw [hplace, ← Option.some.inj h]
    simp [Failure.isReported]
  next hplace => exact absurd hplace hnul
  next hlong _ hplace =>
    rw [hplace, ← Option.some.inj h]
    simpa [Failure.isReported] using fun ho => hlong (by rw [ho])

namespace Job

variable {t t' : Tree} {failure : Failure}

theorem exists_unreported_checkDirectory_iff {text : String} :
    (∃ failure t', (checkDirectory text).Fails t failure t' ∧ failure.isReported = false) ↔
      t.locate (Path.ofText text) = .nowhere .nameTooLong := by
  simp only [fails_checkDirectory_iff]
  constructor
  · rintro ⟨failure, t', ⟨-, ⟨rfl, hlong⟩ | ⟨rfl, -⟩⟩, hreported⟩
    · exact hlong
    · simp [Failure.isReported] at hreported
  · intro hlong
    exact ⟨_, t, ⟨rfl, Or.inl ⟨rfl, hlong⟩⟩, rfl⟩

theorem exists_unreported_isConfigured_iff {directory : Path} :
    (∃ failure t', (isConfigured directory).Fails t failure t' ∧ failure.isReported = false) ↔
      t.locate (documentPath directory .nut) = .nowhere .nameTooLong := by
  simp only [fails_isConfigured_iff]
  constructor
  · rintro ⟨failure, t', ⟨-, -, hlong⟩, -⟩
    exact hlong
  · intro hlong
    exact ⟨_, t, ⟨rfl, rfl, hlong⟩, rfl⟩

/-- A list of edits ends without a word if the next edit is one of a file whose path is too long. -/
theorem Performs.exists_unreported_iff {job : Job Unit} {directory : Path} {loc : Location}
    {edits : List (DocumentKind × Edit)} (h : job.Performs directory edits)
    (hdirectory : t.locate directory = .directory loc) :
    (∃ failure t', job.Fails t failure t' ∧ failure.isReported = false) ↔
      ∃ before e after t', edits = before ++ e :: after ∧ t.editAll directory before = some t' ∧
        t.locate (documentPath directory e.1) = .nowhere .nameTooLong := by
  simp only [h.fails_iff]
  constructor
  · rintro ⟨failure, t', ⟨before, e, after, hedits, hmade, hrefusal⟩, hreported⟩
    have hlong := (Tree.isReported_of_refusal? (locate_documentPath_ne_nulCharacter hdirectory e.1)
      hrefusal).mp hreported
    exact ⟨before, e, after, t', hedits, hmade,
      (Tree.locate_eq_nameTooLong_of_editAll hmade _).mp hlong⟩
  · rintro ⟨before, e, after, t', hedits, hmade, hlong⟩
    have hlong' := (Tree.locate_eq_nameTooLong_of_editAll hmade _).mpr hlong
    have hrefusal : t'.refusal? (documentPath directory e.1) e.2 =
        some (.nameTooLong (documentPath directory e.1).text) := by
      unfold Tree.refusal?
      rw [hlong']
    exact ⟨_, t', ⟨before, e, after, hedits, hmade, hrefusal⟩, rfl⟩

end Job

namespace Invocation

variable {i : Invocation} {t t' : Tree}

/-! ## Exit codes -/

theorem code_of_yields_carryOut {r : Request} {answer : Answer}
    (h : (i.carryOut r).Yields t answer t') :
    answer.code = successCode ∨ answer.code = failureCode := by
  unfold carryOut at h
  obtain ⟨directory, u, -, hrest⟩ := Job.yields_bind_iff.mp h
  split at hrest
  next =>
    obtain ⟨configured, v, -, hanswer⟩ := Job.yields_bind_iff.mp hrest
    split at hanswer
    next => exact Or.inl (congrArg Answer.code (Job.yields_pure_iff.mp hanswer).1)
    next => exact Or.inr (congrArg Answer.code (Job.yields_pure_iff.mp hanswer).1)
  next =>
    obtain ⟨v, -, happly⟩ := Job.yields_unit_bind_iff.mp hrest
    obtain ⟨w, -, hanswer⟩ := Job.yields_unit_bind_iff.mp happly
    exact Or.inl (congrArg Answer.code (Job.yields_pure_iff.mp hanswer).1)

/-- A run that ends with an answer succeeds or fails. -/
theorem code_of_yields_job {answer : Answer} (h : i.job.Yields t answer t') :
    answer.code = successCode ∨ answer.code = failureCode := by
  rw [yields_job_iff] at h
  split at h
  next => exact Or.inl (congrArg Answer.code h.1)
  next =>
    split at h
    next => exact code_of_yields_carryOut h
    next =>
      obtain ⟨report, -, hanswer, -⟩ := h
      exact Or.inr (congrArg Answer.code hanswer)

/-- The exit codes tell how a run ended. -/
theorem code_execute (i : Invocation) (t : Tree) :
    ((i.execute t).answer.code = successCode ∨ (i.execute t).answer.code = failureCode ∨
        (i.execute t).answer.code = internalErrorCode) ∧
      ((i.execute t).answer.code = internalErrorCode ↔
        ∃ failure t', i.job.Fails t failure t' ∧ failure.isReported = false) := by
  rcases Job.yields_or_fails i.job t with ⟨answer, h⟩ | ⟨failure, h⟩
  · have hcode := code_of_yields_job h
    rw [answer_execute_of_yields h]
    refine ⟨hcode.imp_right Or.inl, iff_of_false ?_ ?_⟩
    · rcases hcode with hcode | hcode <;> rw [hcode] <;> decide
    · rintro ⟨failure, t', hfails, -⟩
      exact hfails.not_yields h
  · have hanswer : (i.execute t).answer.code =
        if failure.isReported then failureCode else internalErrorCode := by
      rw [answer_execute_of_fails h]
      split <;> rfl
    rw [hanswer]
    have honly : (∃ failure t', i.job.Fails t failure t' ∧ failure.isReported = false) ↔
        failure.isReported = false := by
      constructor
      · rintro ⟨failure', t', hfails, hreported⟩
        rwa [Except.error.inj (h.1.symm.trans hfails.1)]
      · intro hreported
        exact ⟨failure, _, h, hreported⟩
    rw [honly]
    cases failure.isReported with
    | true => exact ⟨Or.inr (Or.inl rfl), by decide⟩
    | false => exact ⟨Or.inr (Or.inr rfl), by decide⟩

/-! ## What is too long -/

/-- What a run comes to is too long: a path, or a number of the records that it is to build. -/
inductive MeetsTooLong (i : Invocation) (t : Tree) : Prop
  /-- The path of the configuration directory. -/
  | directory (hlong : t.locate i.directory = .nowhere .nameTooLong)
  /-- The path of the file that tells the state, when it is asked for. -/
  | state {loc : Location} (hdirectory : t.locate i.directory = .directory loc)
    (hask : (Request.ofWords i.words).isConfigured = true)
    (hlong : t.locate (Job.documentPath i.directory .nut) = .nowhere .nameTooLong)
  /-- A number, before any other that cannot be read. -/
  | number {loc : Location} (hdirectory : t.locate i.directory = .directory loc)
    (hask : (Request.ofWords i.words).isConfigured = false)
    (hlong : (Request.ofWords i.words).MeetsOverlong)
  /-- The path of a file that is to be changed, once those before it are changed. -/
  | file {loc : Location} {records : Records} {before after : List (DocumentKind × Edit)}
    {e : DocumentKind × Edit} {t' : Tree} (hstarts : i.Starts t loc records)
    (hedits : (Request.ofWords i.words).edits records = before ++ e :: after)
    (hmade : t.editAll i.directory before = some t')
    (hlong : t.locate (Job.documentPath i.directory e.1) = .nowhere .nameTooLong)

/-- Where a failure that nobody is told about comes from. -/
theorem exists_unreported_carryOut_iff {r : Request} :
    (∃ failure t', (i.carryOut r).Fails t failure t' ∧ failure.isReported = false) ↔
      t.locate (Path.ofText (r.directory i.environment)) = .nowhere .nameTooLong ∨
        ∃ loc, t.locate (Path.ofText (r.directory i.environment)) = .directory loc ∧
          ((r.isConfigured = true ∧
              t.locate (Job.documentPath (Path.ofText (r.directory i.environment)) .nut) =
                .nowhere .nameTooLong) ∨
            (r.isConfigured = false ∧ ∃ failure t',
              (r.apply (Path.ofText (r.directory i.environment))).Fails t failure t' ∧
                failure.isReported = false)) := by
  simp only [← Job.exists_unreported_checkDirectory_iff, ← Job.exists_unreported_isConfigured_iff,
    fails_carryOut_iff, Job.yields_checkDirectory_iff]
  constructor
  · rintro ⟨failure, t', hdirectory | ⟨_, ⟨-, rfl, loc, hloc⟩, ⟨hask, hfails⟩ | ⟨hask, hfails⟩⟩,
      hreported⟩
    · exact Or.inl ⟨failure, t', hdirectory, hreported⟩
    · exact Or.inr ⟨loc, hloc, Or.inl ⟨hask, failure, t', hfails, hreported⟩⟩
    · exact Or.inr ⟨loc, hloc, Or.inr ⟨hask, failure, t', hfails, hreported⟩⟩
  · rintro (⟨failure, t', hdirectory, hreported⟩ | ⟨loc, hloc,
      ⟨hask, failure, t', hfails, hreported⟩ | ⟨hask, failure, t', hfails, hreported⟩⟩)
    · exact ⟨failure, t', Or.inl hdirectory, hreported⟩
    · exact ⟨failure, t', Or.inr ⟨_, ⟨trivial, rfl, loc, hloc⟩, Or.inl ⟨hask, hfails⟩⟩, hreported⟩
    · exact ⟨failure, t', Or.inr ⟨_, ⟨trivial, rfl, loc, hloc⟩, Or.inr ⟨hask, hfails⟩⟩, hreported⟩

/-- Changes end without a word at a number that is too long, or at a file whose path is. -/
theorem exists_unreported_apply_iff {r : Request} {directory : Path} {loc : Location}
    (hdirectory : t.locate directory = .directory loc) :
    (∃ failure t', (r.apply directory).Fails t failure t' ∧ failure.isReported = false) ↔
      r.MeetsOverlong ∨ ∃ records, r.materialize = .ok records ∧ ∃ before e after t',
        r.edits records = before ++ e :: after ∧ t.editAll directory before = some t' ∧
          t.locate (Job.documentPath directory e.1) = .nowhere .nameTooLong := by
  rw [Request.meetsOverlong_iff]
  cases hbuilt : r.materialize with
  | error fault =>
    simp only [Request.fails_apply_of_error hbuilt]
    cases fault <;> simp [Failure.isReported]
  | ok records =>
    rw [(Request.performs_apply hbuilt directory).exists_unreported_iff hdirectory]
    simp

theorem exists_unreported_job_iff :
    (∃ failure t', i.job.Fails t failure t' ∧ failure.isReported = false) ↔
      (Request.ofWords i.words).help = false ∧ (Request.ofWords i.words).isValid = true ∧
        i.MeetsTooLong t := by
  simp only [fails_job_iff, and_assoc, exists_and_left]
  refine and_congr_right fun hhelp => and_congr_right fun hvalid => ?_
  rw [exists_unreported_carryOut_iff]
  constructor
  · rintro (hlong | ⟨loc, hloc, ⟨hask, hlong⟩ | ⟨hask, happly⟩⟩)
    · exact .directory hlong
    · exact .state hloc hask hlong
    · rcases (exists_unreported_apply_iff hloc).mp happly with
        hnumber | ⟨records, hbuilt, before, e, after, t', hedits, hmade, hlong⟩
      · exact .number hloc hask hnumber
      · exact .file ⟨hhelp, hvalid, hloc, hask, hbuilt⟩ hedits hmade hlong
  · intro h
    cases h with
    | directory hlong => exact Or.inl hlong
    | state hloc hask hlong => exact Or.inr ⟨_, hloc, Or.inl ⟨hask, hlong⟩⟩
    | number hloc hask hlong =>
      exact Or.inr ⟨_, hloc, Or.inr ⟨hask, (exists_unreported_apply_iff hloc).mpr (Or.inl hlong)⟩⟩
    | file h hedits hmade hlong =>
      exact Or.inr ⟨_, h.directory, Or.inr ⟨h.ask, (exists_unreported_apply_iff h.directory).mpr
        (Or.inr ⟨_, h.built, _, _, _, _, hedits, hmade, hlong⟩)⟩⟩

/-- A port that is too great is told, but one with too many digits ends the run with an internal
error. -/
theorem internalError_of_overlong_port {directory address port : String}
    (hwords : i.words = ["--local", directory, "--set-listen", address, port])
    (hne : directory ≠ "") (hdirectory : Word.ofText directory = .literal directory)
    (haddress : Word.ofText address = .literal address) (hport : isUnsigned port.toList = true)
    (hlong : maxDigits < port.toList.length) {loc : Location}
    (hloc : t.locate (Path.ofText directory) = .directory loc) :
    (i.execute t).answer.code = internalErrorCode := by
  obtain ⟨hdigits, hdigit⟩ := isUnsigned_iff.mp hport
  have hliteral : Word.ofText port = .literal port := by
    refine Word.ofText_of_head?_ne fun hdash => ?_
    exact absurd (hdigit '-' (List.mem_of_head? hdash)) (by decide)
  have hrequest : Request.ofWords i.words = Request.ofArguments ⟨[],
      [⟨some (.two, "local"), [directory]⟩, ⟨some (.two, "set-listen"), [address, port]⟩]⟩ := by
    have hset : Word.ofText "--set-listen" = .option .two "set-listen" := by decide
    have hlisten : Arguments.ofWords ("--set-listen" :: ([address, port] ++ [])) = _ :=
      Arguments.ofWords_option hset (by simp [haddress, hliteral]) rfl
    rw [hwords]
    exact congrArg Request.ofArguments (Arguments.ofWords_localDirectory hdirectory hlisten)
  have hnumerals : (Request.ofWords i.words).numerals = [⟨.port, port, some maxPort, port⟩] := by
    rw [hrequest]
    show (if port = "" then [] else [(⟨.port, port, some maxPort, port⟩ : Numeral)]) ++ [] = _
    rw [if_neg fun h => hdigits (by simp [h]), List.append_nil]
  have hpath : t.locate i.directory = .directory loc := by
    have hself : (Request.ofWords i.words).directory i.environment = directory := by
      rw [hrequest]
      show ((some directory).filter (· ≠ "")).getD _ = directory
      simp [Option.filter, hne]
    rw [Invocation.directory, hself]
    exact hloc
  have hask : (Request.ofWords i.words).isConfigured = false := by
    rw [hrequest]
    rfl
  refine (code_execute i t).2.mpr (exists_unreported_job_iff.mpr ⟨?_, ?_, ?_⟩)
  · rw [hrequest]
    rfl
  · rw [hrequest]
    rfl
  · exact .number hpath hask ⟨[], _, [], hnumerals, by simp, hport, hlong⟩

/-- **A run ends with an internal error exactly if something that it comes to is too long**, and
otherwise it succeeds or fails. Whether records can be built depends on the numbers in them only:
if no record is built, and not because of a number with too many digits, then a number does not have
its form or its range. -/
theorem internalError_iff (i : Invocation) (t : Tree) :
    ((i.execute t).answer.code = successCode ∨ (i.execute t).answer.code = failureCode ∨
        (i.execute t).answer.code = internalErrorCode) ∧
      ((i.execute t).answer.code = internalErrorCode ↔
        (Request.ofWords i.words).help = false ∧ (Request.ofWords i.words).isValid = true ∧
          i.MeetsTooLong t) ∧
      (((∃ records, (Request.ofWords i.words).materialize = .ok records) ∨
          ∃ field text, (Request.ofWords i.words).materialize =
            .error (.unreadable field text)) ↔
        ¬(Request.ofWords i.words).MeetsOverlong) := by
  obtain ⟨hcode, hinternal⟩ := code_execute i t
  exact ⟨hcode, hinternal.trans exists_unreported_job_iff, Request.materialize_cases _⟩

end Invocation

end UpsSetup
