import UpsSetup.Proofs.ExitCodes
import UpsSetup.Proofs.TouchedFiles

/-!
# Files that a run leaves aside

A run works in one directory. Whatever stands at a location to which none of its four files leads
has no part in it: on trees that differ there and nowhere else the run notes and answers the same,
and leaves trees that differ there and nowhere else (`Invocation.leavesAside_job`). This holds of
each job on a directory and is kept when jobs follow one another (`Job.LeavesAside.bind`).

Which directory that is depends on the environment only where the command line names none
(`Invocation.local_shields_iff`).
-/

namespace UpsSetup

/-! ## Places -/

/-- A path leads to one location. -/
theorem Place.IsAt.eq {l l' : Location} {place : Place} (h : place.IsAt l) (h' : place.IsAt l') :
    l = l' := by
  rcases h with ⟨c, rfl⟩ | rfl
  · rcases h' with ⟨c', h'⟩ | h'
    · exact (Place.file.inj h').1
    · simp at h'
  · rcases h' with ⟨c', h'⟩ | h'
    · simp at h'
    · exact Place.vacant.inj h'

/-- A path that leads to a third location does so in both trees. -/
theorem Place.Alike.isAt_iff {l l' : Location} {place place' : Place} (h : place.Alike l place')
    (hne : l' ≠ l) : place'.IsAt l' ↔ place.IsAt l' := by
  cases h with
  | same => exact Iff.rfl
  | found hat hat' => exact iff_of_false (fun h => hne (h.eq hat')) (fun h => hne (h.eq hat))
  | blocked =>
    refine iff_of_false ?_ ?_ <;> rintro (⟨c, h⟩ | h) <;> simp at h

/-- A path leads to the location itself in both trees or in none. -/
theorem Place.Alike.isAt_self_iff {l : Location} {place place' : Place} (h : place.Alike l place') :
    place'.IsAt l ↔ place.IsAt l := by
  cases h with
  | same => exact Iff.rfl
  | found hat hat' => exact iff_of_true hat' hat
  | blocked =>
    refine iff_of_false ?_ ?_ <;> rintro (⟨c, h⟩ | h) <;> simp at h

/-- A file that is put elsewhere into both trees. -/
theorem Tree.AgreeOff.insert {l : Location} {t u : Tree} (h : AgreeOff l t u) (l' : Location)
    (c : ByteArray) : AgreeOff l (t.insert l' (.file c)) (u.insert l' (.file c)) where
  workingDirectory := h.workingDirectory
  get? {k} hk := by
    rw [get?_insert, get?_insert, h.get? hk]
  takesFile := h.takesFile.insert l' c
  takesFile' := h.takesFile'.insert l' c

namespace Job

variable {α β : Type} {directory : Path} {l : Location} {t u : Tree}

/-- None of the files in the directory is at the location. -/
def Avoids (directory : Path) (l : Location) (t : Tree) : Prop :=
  ∀ kind, ¬(t.locate (documentPath directory kind)).IsAt l

/-- A file that is put elsewhere moves none of them. -/
theorem Avoids.insert (h : Avoids directory l t) {l' : Location} (hl' : t.TakesFile l')
    (hne : l ≠ l') (c : ByteArray) : Avoids directory l (t.insert l' (.file c)) :=
  fun kind hat => h kind ((Tree.locate_alike (Tree.agreeOff_insert hl' c) _).isAt_iff hne |>.mp hat)

/-- Two outcomes differ in nothing but the location. -/
structure Agrees (l : Location) (o o' : Outcome α) : Prop where
  result : o'.result = o.result
  log : o'.log = o.log
  agreeOff : o.tree.AgreeOff l o'.tree

/-- As long as no file in the directory is at the location, the job does the same on trees that
differ there only, and leaves what is there. -/
structure LeavesAside (job : Job α) (directory : Path) (l : Location) : Prop where
  agrees : ∀ {t u}, t.AgreeOff l u → Avoids directory l t → Agrees l (job.run t) (job.run u)
  get? : ∀ {t}, t.TakesFile l → Avoids directory l t → (job.run t).tree.get? l = t.get? l
  avoids : ∀ {t}, t.TakesFile l → Avoids directory l t → Avoids directory l (job.run t).tree

/-! ## Jobs that follow one another -/

/-- A job that neither looks at the tree nor changes it. -/
theorem leavesAside_of_const {log : List Event} {result : Except Failure α} :
    LeavesAside (fun t => ⟨t, log, result⟩ : Job α) directory l where
  agrees h _ := ⟨rfl, rfl, h⟩
  get? _ _ := rfl
  avoids _ h := h

theorem leavesAside_pure (a : α) : (Pure.pure a : Job α).LeavesAside directory l :=
  leavesAside_of_const

theorem leavesAside_fail (failure : Failure) : (fail failure : Job α).LeavesAside directory l :=
  leavesAside_of_const

theorem leavesAside_note (event : Event) : (note event).LeavesAside directory l :=
  leavesAside_of_const

theorem leavesAside_ofExcept (x : Except Failure α) : (ofExcept x).LeavesAside directory l := by
  cases x with
  | ok a => exact leavesAside_pure a
  | error failure => exact leavesAside_fail failure

/-- A job that follows another counts only for the values that the first one gives. -/
theorem LeavesAside.bind_of_ok {job : Job α} {next : α → Job β} (h : job.LeavesAside directory l)
    (hnext : ∀ t a, (job.run t).result = .ok a → (next a).LeavesAside directory l) :
    (job >>= next).LeavesAside directory l where
  agrees {t u} hagree havoids := by
    have hjob := h.agrees hagree havoids
    cases hresult : (job.run t).result with
    | error failure =>
      rw [run_bind_of_error hresult, run_bind_of_error (hjob.result.trans hresult)]
      exact ⟨rfl, hjob.log, hjob.agreeOff⟩
    | ok a =>
      rw [run_bind_of_ok hresult, run_bind_of_ok (hjob.result.trans hresult)]
      have hrest := (hnext t a hresult).agrees hjob.agreeOff (h.avoids hagree.takesFile havoids)
      exact ⟨hrest.result, congrArg₂ _ hjob.log hrest.log, hrest.agreeOff⟩
  get? {t} hl havoids := by
    cases hresult : (job.run t).result with
    | error failure =>
      rw [run_bind_of_error hresult]
      exact h.get? hl havoids
    | ok a =>
      have hget := h.get? hl havoids
      rw [run_bind_of_ok hresult, ← hget]
      exact (hnext t a hresult).get? (by rwa [Tree.TakesFile, hget]) (h.avoids hl havoids)
  avoids {t} hl havoids := by
    cases hresult : (job.run t).result with
    | error failure =>
      rw [run_bind_of_error hresult]
      exact h.avoids hl havoids
    | ok a =>
      rw [run_bind_of_ok hresult]
      exact (hnext t a hresult).avoids (by rwa [Tree.TakesFile, h.get? hl havoids])
        (h.avoids hl havoids)

theorem LeavesAside.bind {job : Job α} {next : α → Job β} (h : job.LeavesAside directory l)
    (hnext : ∀ a, (next a).LeavesAside directory l) : (job >>= next).LeavesAside directory l :=
  h.bind_of_ok fun _ a _ => hnext a

theorem LeavesAside.map {job : Job α} (h : job.LeavesAside directory l) (f : α → β) :
    (f <$> job).LeavesAside directory l := by
  rw [← bind_pure_comp]
  exact h.bind fun a => leavesAside_pure (f a)

theorem LeavesAside.onlyIf {job : Job Unit} (h : job.LeavesAside directory l) (condition : Bool) :
    (onlyIf condition job).LeavesAside directory l := by
  cases condition with
  | false => exact leavesAside_pure ()
  | true => exact h

theorem leavesAside_forM_note (events : List Event) :
    (events.forM note : Job Unit).LeavesAside directory l := by
  induction events with
  | nil => exact leavesAside_pure ()
  | cons event events ih => exact (leavesAside_note event).bind fun _ => ih

theorem leavesAside_option_note (event : Option Event) :
    (event.forM note : Job Unit).LeavesAside directory l := by
  cases event with
  | none => exact leavesAside_pure ()
  | some event => exact leavesAside_note event

/-! ## Jobs on the directory -/

/-- What follows a look does not tell the two trees apart, nor which of the obstacles that a file at
the location makes was met. -/
theorem leavesAside_look_bind {p : Path} {next : Place → Job β}
    (hsame : ∀ {t place'}, Avoids directory l t → (t.locate p).Alike l place' →
      next place' = next (t.locate p))
    (hnext : ∀ place, (next place).LeavesAside directory l) :
    (look p >>= next).LeavesAside directory l := by
  have hrun : ∀ t : Tree, (look p >>= next).run t =
      if t.locate p = .nowhere .nameTooLong then ⟨t, [], .error (.nameTooLong p.text)⟩
      else (next (t.locate p)).run t := by
    intro t
    by_cases hlong : t.locate p = .nowhere .nameTooLong
    · have hlook : (look p).run t = ⟨t, [], .error (.nameTooLong p.text)⟩ := by
        show look p t = _
        unfold look
        rw [hlong]
      rw [run_bind_of_error (by rw [hlook]), hlook, if_pos hlong]
    · have hlook : (look p).run t = ⟨t, [], .ok (t.locate p)⟩ := by
        show look p t = _
        unfold look
        split
        next h => exact absurd h hlong
        next => rfl
      rw [run_bind_of_ok (by rw [hlook]), hlook, if_neg hlong, List.nil_append]
  constructor
  · intro t u hagree havoids
    have halike := Tree.locate_alike hagree p
    rw [hrun, hrun, hsame havoids halike]
    by_cases hlong : t.locate p = .nowhere .nameTooLong
    · rw [if_pos hlong, if_pos ((halike.nowhere_iff (by decide)).mpr hlong)]
      exact ⟨rfl, rfl, hagree⟩
    · rw [if_neg hlong, if_neg fun h => hlong ((halike.nowhere_iff (by decide)).mp h)]
      exact (hnext _).agrees hagree havoids
  · intro t hl havoids
    rw [hrun]
    split
    · rfl
    · exact (hnext _).get? hl havoids
  · intro t hl havoids
    rw [hrun]
    split
    · exact havoids
    · exact (hnext _).avoids hl havoids

/-- Checking a directory leaves all files aside. -/
theorem leavesAside_checkDirectory (text : String) :
    (checkDirectory text).LeavesAside directory l := by
  refine leavesAside_look_bind (fun {t place'} _ halike => ?_) fun place => ?_
  · generalize t.locate (Path.ofText text) = place at halike
    cases halike with
    | same => rfl
    | found hat hat' =>
      -- neither a file nor a vacant place is a directory
      rcases hat with ⟨c, rfl⟩ | rfl <;> rcases hat' with ⟨c', rfl⟩ | rfl <;> rfl
    | blocked => rfl
  · cases place with
    | directory loc => exact leavesAside_pure _
    | _ => exact leavesAside_fail _

variable [Document α]

theorem leavesAside_readDocument (p : Path) (content : Text.Decoded) :
    (readDocument p content : Job α).LeavesAside directory l := by
  unfold readDocument
  dsimp only
  split
  next => exact (leavesAside_note _).bind fun _ => leavesAside_fail _
  next =>
    split
    next => exact (leavesAside_note _).bind fun _ => leavesAside_pure _
    next => exact leavesAside_fail _

/-- Sourcing a document looks at nothing but its own file. -/
theorem leavesAside_source (kind : DocumentKind) :
    (source α (documentPath directory kind)).LeavesAside directory l := by
  refine leavesAside_look_bind (fun {t place'} havoids halike => ?_) fun place => ?_
  · have hnot := havoids kind
    generalize t.locate (documentPath directory kind) = place at halike hnot
    cases halike with
    | same => rfl
    | found hat => exact absurd hat hnot
    | blocked => rfl
  · cases place with
    | file _ content => exact (leavesAside_readDocument _ _).map some
    | directory _ => exact leavesAside_fail _
    | vacant _ => exact (leavesAside_note _).bind fun _ => leavesAside_pure _
    | nowhere _ => exact (leavesAside_note _).bind fun _ => leavesAside_pure _

omit [Document α] in
theorem leavesAside_isConfigured : (isConfigured directory).LeavesAside directory l := by
  have hsource : (source Assignments (documentPath directory .nut)).LeavesAside directory l :=
    leavesAside_source .nut
  have htree : ∀ t : Tree, ((isConfigured directory).run t).tree = t :=
    fun t => tree_isConfigured directory
  constructor
  · intro t u hagree havoids
    have hrun := hsource.agrees hagree havoids
    refine ⟨?_, ?_, (htree t).symm ▸ (htree u).symm ▸ hagree⟩
    · show (isConfigured directory u).result = (isConfigured directory t).result
      unfold isConfigured
      dsimp only
      rw [hrun.result]
      split <;> rfl
    · show (isConfigured directory u).log = (isConfigured directory t).log
      unfold isConfigured
      dsimp only
      rw [hrun.result, hrun.log]
      split <;> rfl
  · intro t _ _
    rw [htree]
  · intro t _ havoids
    rwa [htree]

omit [Document α] in
/-- A file is written where its path leads. -/
theorem run_writeFile_of_isAt {p : Path} {l' : Location} (h : (t.locate p).IsAt l')
    (content : ByteArray) :
    (writeFile p content).run t = ⟨t.insert l' (.file content), [], .ok ()⟩ := by
  show writeFile p content t = _
  unfold writeFile Tree.write?
  rcases h with ⟨c, h⟩ | h
  · rw [h]
  · rw [h]

omit [Document α] in
/-- Where a path leads to no file, writing fails and changes nothing. -/
theorem run_writeFile_of_not_isAt {p : Path} (h : ∀ l', ¬(t.locate p).IsAt l')
    (content : ByteArray) :
    (writeFile p content).run t = ⟨t, [], .error (if t.locate p = .nowhere .nulCharacter
      then .nulCharacter else .storage { step := .write, path := p.text })⟩ := by
  show writeFile p content t = _
  unfold writeFile Tree.write?
  cases hplace : t.locate p with
  | file l' c => exact absurd (Or.inl ⟨c, hplace⟩) (h l')
  | vacant l' => exact absurd (Or.inr hplace) (h l')
  | directory l' => rfl
  | nowhere o => cases o <;> rfl

omit [Document α] in
/-- Writing a file of the directory neither sees nor changes what is elsewhere. -/
theorem leavesAside_writeFile (kind : DocumentKind) (content : ByteArray) :
    (writeFile (documentPath directory kind) content).LeavesAside directory l where
  agrees {t u} hagree havoids := by
    have halike := Tree.locate_alike hagree (documentPath directory kind)
    by_cases hat : ∃ l', (t.locate (documentPath directory kind)).IsAt l'
    · obtain ⟨l', hat⟩ := hat
      have hne : l' ≠ l := fun h => havoids kind (h ▸ hat)
      rw [run_writeFile_of_isAt hat, run_writeFile_of_isAt ((halike.isAt_iff hne).mpr hat)]
      exact ⟨rfl, rfl, hagree.insert l' content⟩
    · have hnot : ∀ l', ¬(u.locate (documentPath directory kind)).IsAt l' := by
        intro l' hat'
        by_cases hl : l' = l
        · exact hat ⟨l, halike.isAt_self_iff.mp (hl ▸ hat')⟩
        · exact hat ⟨l', (halike.isAt_iff hl).mp hat'⟩
      rw [run_writeFile_of_not_isAt fun l' h => hat ⟨l', h⟩, run_writeFile_of_not_isAt hnot]
      refine ⟨congrArg Except.error (if_congr ?_ rfl rfl), rfl, hagree⟩
      exact halike.nowhere_iff (by decide)
  get? {t} _ havoids := by
    by_cases hat : ∃ l', (t.locate (documentPath directory kind)).IsAt l'
    · obtain ⟨l', hat⟩ := hat
      have hne : l ≠ l' := fun h => havoids kind (h ▸ hat)
      rw [run_writeFile_of_isAt hat]
      exact (Tree.get?_insert t l' l _).trans (if_neg hne)
    · rw [run_writeFile_of_not_isAt fun l' h => hat ⟨l', h⟩]
  avoids {t} _ havoids := by
    by_cases hat : ∃ l', (t.locate (documentPath directory kind)).IsAt l'
    · obtain ⟨l', hat⟩ := hat
      have hne : l ≠ l' := fun h => havoids kind (h ▸ hat)
      rw [run_writeFile_of_isAt hat]
      exact havoids.insert ((t.locate_fits _).takesFile hat) hne content
    · rw [run_writeFile_of_not_isAt fun l' h => hat ⟨l', h⟩]
      exact havoids

theorem leavesAside_store (kind : DocumentKind) (d : α) :
    (store (documentPath directory kind) d).LeavesAside directory l := by
  refine (leavesAside_writeFile kind _).bind fun _ => ?_
  split
  next => exact leavesAside_note _
  next => exact leavesAside_fail _

/-- Updating a document leaves the other locations aside, since sourcing and storing it do. -/
theorem leavesAside_updateDocument (event : Option Event) (change : α → α) :
    (updateDocument directory event change).LeavesAside directory l :=
  (leavesAside_source _).bind fun _ =>
    (leavesAside_option_note event).bind fun _ => leavesAside_store _ _

end Job

/-! ## Runs -/

open Job

variable {l : Location}

theorem Request.leavesAside_apply (r : Request) (directory : Path) :
    (r.apply directory).LeavesAside directory l := by
  refine (leavesAside_ofExcept _).bind fun records => ?_
  refine ((leavesAside_updateDocument _ _).onlyIf _).bind fun _ => ?_
  refine ((leavesAside_updateDocument _ _).onlyIf _).bind fun _ => ?_
  refine ((leavesAside_updateDocument _ _).onlyIf _).bind fun _ => ?_
  unfold applyMode
  cases r.mode with
  | some mode => exact leavesAside_updateDocument _ _
  | none => exact leavesAside_pure ()

namespace Invocation

theorem leavesAside_carryOut (i : Invocation) (r : Request) :
    (i.carryOut r).LeavesAside (Path.ofText (r.directory i.environment)) l := by
  refine (leavesAside_checkDirectory _).bind_of_ok fun t directory hok => ?_
  obtain ⟨-, rfl, -⟩ := yields_checkDirectory_iff.mp ⟨hok, rfl⟩
  split
  next => exact leavesAside_isConfigured.bind fun configured => leavesAside_pure _
  next =>
    refine ((leavesAside_note _).onlyIf _).bind fun _ => ?_
    exact (r.leavesAside_apply _).bind fun _ => leavesAside_pure _

/-- **A run leaves aside whatever is at no file in its directory.** A run that shows the usage text
leaves everything aside. -/
theorem leavesAside_job {i : Invocation} {directory : Path}
    (h : (Request.ofWords i.words).help = true ∨ i.directory = directory) :
    i.job.LeavesAside directory l := by
  refine (leavesAside_forM_note _).bind fun _ => ?_
  split
  next => exact leavesAside_pure _
  next hhelp =>
    obtain rfl := h.resolve_left hhelp
    split
    next => exact (leavesAside_note _).bind fun _ => leavesAside_pure _
    next => exact i.leavesAside_carryOut _

/-- What a run leaves behind on trees that differ only where it leaves everything aside. -/
theorem execute_agreeOff {i : Invocation} {directory : Path} {t u : Tree}
    (h : i.job.LeavesAside directory l) (hagree : t.AgreeOff l u) (havoids : Avoids directory l t) :
    (i.execute u).answer = (i.execute t).answer ∧ (i.execute u).log = (i.execute t).log ∧
      (i.execute t).tree.AgreeOff l (i.execute u).tree ∧
      (i.execute t).tree.get? l = t.get? l := by
  have hrun := h.agrees hagree havoids
  refine ⟨?_, ?_, ?_, ?_⟩
  · unfold execute
    dsimp only
    rw [hrun.result]
    split
    next => rfl
    next => split <;> rfl
  · unfold execute
    dsimp only
    rw [hrun.result, hrun.log]
    split
    next => rfl
    next => split <;> rfl
  · rw [tree_execute, tree_execute]
    exact hrun.agreeOff
  · rw [tree_execute]
    exact h.get? hagree.takesFile havoids

/-! ## The directory that is named -/

/-- In a valid command line the directory that is named is the one that is taken. -/
theorem localDirectory_of_isValid {a : Arguments} (hvalid : (Request.ofArguments a).isValid = true)
    {directory : String} (h : [directory] ∈ a.occurrences "local") :
    (Request.ofArguments a).localDirectory = some directory := by
  have hone := (Arguments.isValid_iff_isGrammatical.mp hvalid).directory.1
  obtain ⟨args, hargs⟩ : ∃ args, a.occurrences "local" = [args] :=
    List.length_eq_one_iff.mp (Nat.le_antisymm hone (List.length_pos_of_mem h))
  obtain rfl : [directory] = args := by simpa [hargs] using h
  show a.value? Catalog.localDirectory = _
  rw [Arguments.value?, Arguments.occurrence?, show Catalog.localDirectory.name = "local" from rfl,
    hargs]
  rfl

/-- A directory that is named and not empty is the one in which the run works. -/
theorem directory_of_localDirectory {r : Request} {directory : String}
    (h : r.localDirectory = some directory) (env : Environment) :
    r.directory env = if directory = "" then env.defaultDirectory else directory := by
  unfold Request.directory nonempty?
  rw [h]
  by_cases hempty : directory = "" <;> simp [Option.filter, hempty]

/-- The environment has no part in what a valid command line does if it asks for the usage text, or
if it names the directory. -/
theorem execute_congr (program : String) {words : List String} {env env' : Environment}
    (hvalid : (Request.ofWords words).isValid = true)
    (h : (Request.ofWords words).help = true ∨
      (Request.ofWords words).directory env' = (Request.ofWords words).directory env) (t : Tree) :
    (execute ⟨program, words, env'⟩ t).answer.code =
        (execute ⟨program, words, env⟩ t).answer.code ∧
      (execute ⟨program, words, env'⟩ t).answer.output =
        (execute ⟨program, words, env⟩ t).answer.output ∧
      (execute ⟨program, words, env'⟩ t).tree = (execute ⟨program, words, env⟩ t).tree := by
  by_cases hhelp : (Request.ofWords words).help = true
  · have hrun : ∀ env : Environment, (execute ⟨program, words, env⟩ t).answer =
        { code := successCode, errors := usage ⟨program, words, env⟩ } ∧
          (execute ⟨program, words, env⟩ t).tree = t := by
      intro env
      have hjob : (job ⟨program, words, env⟩).Yields t
          { code := successCode, errors := usage ⟨program, words, env⟩ } t :=
        yields_job_iff.mpr (by rw [if_pos hhelp]; exact ⟨rfl, rfl⟩)
      exact ⟨answer_execute_of_yields hjob, (tree_execute _ t).trans hjob.2⟩
    rw [(hrun env).1, (hrun env').1, (hrun env).2, (hrun env').2]
    exact ⟨rfl, rfl, rfl⟩
  · have hself : ∀ env : Environment, job ⟨program, words, env⟩ =
        (((Arguments.ofWords words).dump.map Event.given ++
          (Request.ofWords words).problems.map Event.optionProblem).forM Job.note >>= fun _ =>
            carryOut ⟨program, words, env⟩ (Request.ofWords words)) := by
      intro env
      unfold job
      dsimp only
      rw [show Request.ofArguments (Arguments.ofWords words) = Request.ofWords words from rfl,
        Request.report_of_isValid hvalid, if_neg hhelp]
    have hcarry : carryOut ⟨program, words, env'⟩ (Request.ofWords words) =
        carryOut ⟨program, words, env⟩ (Request.ofWords words) := by
      unfold carryOut
      rw [h.resolve_left hhelp]
    have hexecute : execute ⟨program, words, env'⟩ t = execute ⟨program, words, env⟩ t := by
      unfold execute
      rw [hself env', hself env, hcarry]
    rw [hexecute]
    exact ⟨rfl, rfl, rfl⟩

/-- The directory of the environment decides how a run ends that works there: on a tree without
directories it fails, but the name of one can be too long to be looked for. -/
theorem exists_code_ne {words : List String} (hvalid : (Request.ofWords words).isValid = true)
    (hhelp : (Request.ofWords words).help = false)
    (hdirectory : ∀ env, (Request.ofWords words).directory env = env.defaultDirectory)
    (program : String) : ∃ (env env' : Environment) (t : Tree),
      (execute ⟨program, words, env'⟩ t).answer.code ≠
        (execute ⟨program, words, env⟩ t).answer.code := by
  let t : Tree := ⟨∅, []⟩
  let short : Environment := { directory := some "a" }
  let name := String.ofList (List.replicate (maxNameBytes + 1) 'a')
  let long : Environment := { directory := some name }
  have hmissing : t.locate (Path.ofText short.defaultDirectory) = .vacant ["a"] := by
    decide +kernel
  have hlong : t.locate (Path.ofText long.defaultDirectory) = .nowhere .nameTooLong := by
    have hlist : name.toList = List.replicate (maxNameBytes + 1) 'a' := String.toList_ofList
    have hchars : ∀ c ∈ name.toList, c = 'a' := fun c hc => List.eq_of_mem_replicate (hlist ▸ hc)
    have hname : long.defaultDirectory = name := by
      have hne : name ≠ "" := by
        intro h
        rw [h, List.replicate_succ] at hlist
        exact List.cons_ne_nil _ _ hlist.symm
      show ((some name).filter (· ≠ "")).getD Usage.defaultDirectory = name
      simp [Option.filter, hne]
    rw [hname]
    exact Tree.locate_ofText_of_long (fun h => absurd (hchars _ h) (by decide))
      (fun h => absurd (hchars _ h) (by decide)) (by decide +kernel)
  have hpath : ∀ env, directory ⟨program, words, env⟩ = Path.ofText env.defaultDirectory :=
    fun env => congrArg Path.ofText (hdirectory env)
  have hinternal : (execute ⟨program, words, long⟩ t).answer.code = internalErrorCode := by
    refine (code_execute _ t).2.mpr (exists_unreported_job_iff.mpr ⟨hhelp, hvalid, .directory ?_⟩)
    rw [hpath, hlong]
  refine ⟨short, long, t, fun hsame => ?_⟩
  obtain ⟨-, -, hmeets⟩ := exists_unreported_job_iff.mp
    ((code_execute _ t).2.mp (hsame.symm.trans hinternal))
  -- there is no directory, so nothing behind it is come to
  have hnot : ∀ loc, t.locate (directory ⟨program, words, short⟩) ≠ .directory loc := by
    intro loc
    rw [hpath, hmissing]
    simp
  cases hmeets with
  | directory hlong =>
    rw [hpath, hmissing] at hlong
    simp at hlong
  | state hloc => exact hnot _ hloc
  | number hloc => exact hnot _ hloc
  | file hstarts => exact hnot _ hstarts.directory

/-- **A directory that is named shields that of the system, unless it is empty.** The environment
decides where a run with a valid command line works exactly if the option names the empty directory.
Otherwise the run neither depends on nor changes what is at any location to which no file in the
directory that is named leads, so no file of another directory either. -/
theorem local_shields_iff {words : List String} {directory : String}
    (hvalid : (Request.ofWords words).isValid = true)
    (hlocal : [directory] ∈ (Arguments.ofWords words).occurrences "local") :
    ((∀ (program : String) (env env' : Environment) (t : Tree),
        let run := fun env : Environment => execute ⟨program, words, env⟩ t
        (run env').answer.code = (run env).answer.code ∧
          (run env').answer.output = (run env).answer.output ∧
          (run env').tree = (run env).tree) ↔
      directory ≠ "" ∨ (Request.ofWords words).help = true) ∧
    (directory ≠ "" ∨ (Request.ofWords words).help = true →
      ∀ (i : Invocation) (t u : Tree) (l : Location), i.words = words → t.AgreeOff l u →
        Avoids (Path.ofText directory) l t →
        (i.execute u).answer = (i.execute t).answer ∧ (i.execute u).log = (i.execute t).log ∧
          (i.execute t).tree.AgreeOff l (i.execute u).tree ∧
          (i.execute t).tree.get? l = t.get? l) := by
  have hdirectory : ∀ env, (Request.ofWords words).directory env = _ :=
    directory_of_localDirectory (localDirectory_of_isValid hvalid hlocal)
  refine ⟨⟨fun hsame => ?_, fun h program env env' t => ?_⟩,
    fun h i t u l hwords hagree havoids => ?_⟩
  · by_contra hnot
    obtain ⟨rfl, hhelp⟩ : directory = "" ∧ ¬(Request.ofWords words).help = true := by
      simpa [not_or] using hnot
    obtain ⟨env, env', t, hne⟩ := exists_code_ne hvalid (Bool.eq_false_iff.mpr hhelp)
      (fun env => (hdirectory env).trans (if_pos rfl)) "nutconf"
    exact hne (hsame "nutconf" env env' t).1
  · have hsame : (Request.ofWords words).help = true ∨ (Request.ofWords words).directory env' =
        (Request.ofWords words).directory env :=
      h.symm.imp_right fun hne => by rw [hdirectory, hdirectory, if_neg hne, if_neg hne]
    exact execute_congr program hvalid hsame t
  · refine execute_agreeOff (leavesAside_job ?_) hagree havoids
    rw [hwords]
    refine h.symm.imp_right fun hne => ?_
    rw [Invocation.directory, hwords]
    exact congrArg Path.ofText ((hdirectory _).trans (if_neg hne))

/-- The file of the directory that the environment names is damaged in one of the trees, and the run
does not care. -/
theorem local_shields_iff_of_damaged_default :
    let words := ["--local", "etc", "--mode", "standalone"]
    let i : Invocation := { words, environment := { directory := some "default" } }
    let t : Tree := ⟨⟨[(["etc"], .directory), (["default"], .directory),
      (["default", "nut.conf"], .file "MODE=none\n".toUTF8)], by decide⟩, []⟩
    let u := t.insert ["default", "nut.conf"] (.file "MODE=\"".toUTF8)
    (i.execute u).answer = { code := successCode } ∧
      (i.execute u).tree.get? ["etc", "nut.conf"] = (i.execute t).tree.get? ["etc", "nut.conf"] ∧
      (i.execute t).tree.get? ["default", "nut.conf"] = t.get? ["default", "nut.conf"] ∧
      ∀ env, (execute ⟨i.program, words, env⟩ t).tree = (i.execute t).tree := by
  intro words i t u
  have hagree : t.AgreeOff ["default", "nut.conf"] u := Tree.agreeOff_insert (Or.inr ⟨_, rfl⟩) _
  have havoids : Avoids (Path.ofText "etc") ["default", "nut.conf"] t := by
    have hplace : ∀ kind, t.locate (documentPath (Path.ofText "etc") kind) =
        .vacant ["etc", kind.fileName] := by
      intro kind
      cases kind <;> decide +kernel
    intro kind hat
    rcases hat with ⟨c, h⟩ | h <;> simp [hplace] at h
  have hlocal : ["etc"] ∈ (Arguments.ofWords words).occurrences "local" := by decide +kernel
  obtain ⟨hsame, hframe⟩ := local_shields_iff (by decide +kernel) hlocal
  obtain ⟨hanswer, -, htrees, hkept⟩ := hframe (Or.inl (by decide)) i t u _ rfl hagree havoids
  refine ⟨hanswer.trans (by decide +kernel), htrees.get? (by decide), hkept, fun env => ?_⟩
  exact (hsame.mpr (Or.inl (by decide)) i.program i.environment env t).2.2

end Invocation

end UpsSetup
