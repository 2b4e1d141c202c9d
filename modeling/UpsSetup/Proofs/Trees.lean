import UpsSetup.Tree.Basic

/-!
# Putting a file into a tree

Trees that differ in nothing but a file at one location lead a path to the same place, except where
that location is the place (`locate_alike`). The reason is that a file or a vacant place is never on
the way: a path that meets one ends there, or leads nowhere in either tree. So when a file is put
somewhere paths lead where they did, and this file is found where it was put (`locate_insert`).

Each proof follows the two recursions of a path: over the names, and over the links that may still
be followed. -/

namespace UpsSetup

/-- A file can be put at the location: there is nothing, or a file already. -/
def Tree.TakesFile (t : Tree) (l : Location) : Prop :=
  t.get? l = none ∨ ∃ c, t.get? l = some (.file c)

/-- The trees differ in nothing but a file, which may be missing, at the location. -/
structure Tree.AgreeOff (l : Location) (t u : Tree) : Prop where
  workingDirectory : u.workingDirectory = t.workingDirectory
  get? : ∀ {l'}, l' ≠ l → u.get? l' = t.get? l'
  takesFile : t.TakesFile l
  takesFile' : u.TakesFile l

namespace Place

/-- The place is the file at the location, or the location is vacant. -/
def IsAt (l : Location) (place : Place) : Prop := (∃ c, place = .file l c) ∨ place = .vacant l

/-- Where paths lead in trees that agree off the location. -/
inductive Alike (l : Location) : Place → Place → Prop
  /-- A path to somewhere else. -/
  | same (place : Place) : Alike l place place
  /-- A path to the location. -/
  | found {place place' : Place} (h : place.IsAt l) (h' : place'.IsAt l) : Alike l place place'
  /-- A path through the location, where there is nothing in one tree and a file in the other. -/
  | blocked {o o' : Obstacle} (h : o = .missing ∨ o = .notDirectory)
      (h' : o' = .missing ∨ o' = .notDirectory) : Alike l (.nowhere o) (.nowhere o')

/-- The place after a file was put at a location. -/
def afterWrite (l : Location) (c : ByteArray) : Place → Place
  | .file l' c' => if l' = l then .file l c else .file l' c'
  | .vacant l' => if l' = l then .file l c else .vacant l'
  | place => place

/-- What a place becomes when a file is put at a location. Why a path leads nowhere may change. -/
def Becomes (l : Location) (c : ByteArray) : Place → Place → Prop
  | .nowhere _, place' => Tree.Place.location? place' = none
  | place, place' => place' = place.afterWrite l c

/-- Writing a file does not change where a path leads. -/
theorem Becomes.location? {l : Location} {c : ByteArray} {place place' : Place}
    (h : Becomes l c place place') : Tree.Place.location? place' = Tree.Place.location? place := by
  cases place with
  | file l' c' =>
    rw [show place' = _ from h, afterWrite]
    split
    next he => rw [Tree.Place.location?, Tree.Place.location?, he]
    next => rfl
  | directory l' => exact congrArg Tree.Place.location? h
  | vacant l' =>
    rw [show place' = _ from h, afterWrite]
    split
    next he => rw [Tree.Place.location?, Tree.Place.location?, he]
    next => rfl
  | nowhere obstacle => exact h

theorem Becomes.eq_afterWrite {l : Location} {c : ByteArray} {place place' : Place}
    (h : Becomes l c place place') {l' : Location} (hl : Tree.Place.location? place = some l') :
    place' = place.afterWrite l c := by
  cases place with
  | nowhere obstacle => simp [Tree.Place.location?] at hl
  | _ => exact h

/-- The tree has at the place what the place says. -/
def Fits (t : Tree) : Place → Prop
  | .file l c => t.get? l = some (.file c)
  | .vacant l => t.get? l = none
  | .directory _ | .nowhere _ => True

/-- Where a path leads to a file or to nothing yet, a file can be put. -/
theorem Fits.takesFile {t : Tree} {place : Place} (h : place.Fits t) {l : Location}
    (hl : place.IsAt l) : t.TakesFile l := by
  rcases hl with ⟨c, rfl⟩ | rfl
  · exact Or.inr ⟨c, h⟩
  · exact Or.inl h

end Place

namespace Tree

/-! ## One step -/

section

variable (t : Tree) (onLink : Location → List String → Place) (here : Location) {name : String}
  (rest : List String)

theorem walk_cons_of_not_isName (hname : Path.isName name = false) :
    walk t onLink here (name :: rest) = walk t onLink here rest := by
  rw [walk, if_pos (by simp [hname])]

/-- The parent of a directory is taken without looking at the tree. -/
theorem walk_cons_up : walk t onLink here (".." :: rest) = walk t onLink here.dropLast rest := by
  rw [walk, if_neg (by decide), if_pos rfl]

/-- A name that is too long is noticed before anything is looked up. -/
theorem walk_cons_of_long (hname : Path.isName name = true) (hup : name ≠ "..")
    (hlong : maxNameBytes < name.utf8ByteSize) :
    walk t onLink here (name :: rest) = .nowhere .nameTooLong := by
  rw [walk, if_neg (by simp [hname]), if_neg hup, if_pos hlong]

/-- What a path does at an entry. -/
theorem walk_cons (hname : Path.isName name = true) (hup : name ≠ "..")
    (hshort : name.utf8ByteSize ≤ maxNameBytes) :
    walk t onLink here (name :: rest) =
      match t.get? (here ++ [name]) with
      | none => if rest = [] then .vacant (here ++ [name]) else .nowhere .missing
      | some .directory => walk t onLink (here ++ [name]) rest
      | some (.file content) =>
        if rest = [] then .file (here ++ [name]) content else .nowhere .notDirectory
      | some (.link target) =>
        onLink (if target.toList.head? = some '/' then [] else here)
          (Path.pieces target ++ rest) := by
  rw [walk, if_neg (by simp [hname]), if_neg hup]
  exact if_neg (by omega)

end

/-! ## What is found -/

theorem walk_fits {t : Tree} {onLink : Location → List String → Place}
    (hlink : ∀ here names, (onLink here names).Fits t) (here : Location) (names : List String) :
    (walk t onLink here names).Fits t := by
  induction names generalizing here with
  | nil => exact trivial
  | cons name rest ih =>
    unfold walk
    split
    · exact ih here
    · split
      · exact ih here.dropLast
      · split
        · exact trivial
        · dsimp only
          split
          next hget =>
            split
            · exact hget
            · exact trivial
          next => exact ih _
          next content hget =>
            split
            · exact hget
            · exact trivial
          next target hget => exact hlink _ _

theorem follow_fits (t : Tree) (links : Nat) (here : Location) (names : List String) :
    (follow t links here names).Fits t := by
  induction links generalizing here names with
  | zero =>
    unfold follow
    refine walk_fits ?_ here names
    exact fun _ _ => trivial
  | succ links ih => exact walk_fits ih here names

/-- A path leads to what is there. -/
theorem locate_fits (t : Tree) (p : Path) : (t.locate p).Fits t := by
  unfold locate
  split
  · exact trivial
  · split
    · exact trivial
    · exact follow_fits t maxLinks _ _

/-! ## In trees that agree -/

theorem AgreeOff.symm {l : Location} {t u : Tree} (h : AgreeOff l t u) : AgreeOff l u t :=
  ⟨h.workingDirectory.symm, fun hne => (h.get? hne).symm, h.takesFile', h.takesFile⟩

/-- A file that is put at the location makes a tree that agrees off it. -/
theorem agreeOff_insert {t : Tree} {l : Location} (hl : t.TakesFile l) (c : ByteArray) :
    AgreeOff l t (t.insert l (.file c)) where
  workingDirectory := workingDirectory_insert t l _
  get? hne := (get?_insert t l _ _).trans (if_neg hne)
  takesFile := hl
  takesFile' := Or.inr ⟨c, (get?_insert t l l _).trans (if_pos rfl)⟩

/-- What is at the location ends a path, or blocks it. -/
theorem TakesFile.isAt_or_blocked {t : Tree} {l : Location} (hl : t.TakesFile l)
    (onLink : Location → List String → Place) (here : Location) {name : String}
    (hname : Path.isName name = true) (hup : name ≠ "..")
    (hshort : name.utf8ByteSize ≤ maxNameBytes) (hnext : here ++ [name] = l) (rest : List String) :
    (rest = [] ∧ (walk t onLink here (name :: rest)).IsAt l) ∨
      (rest ≠ [] ∧ ∃ o, (o = .missing ∨ o = .notDirectory) ∧
        walk t onLink here (name :: rest) = .nowhere o) := by
  rw [walk_cons t onLink here rest hname hup hshort, hnext]
  by_cases hrest : rest = []
  · refine Or.inl ⟨hrest, ?_⟩
    rcases hl with hnone | ⟨c, hfile⟩
    · rw [hnone]
      exact Or.inr (if_pos hrest)
    · rw [hfile]
      exact Or.inl ⟨c, if_pos hrest⟩
  · refine Or.inr ⟨hrest, ?_⟩
    rcases hl with hnone | ⟨c, hfile⟩
    · rw [hnone]
      exact ⟨.missing, Or.inl rfl, if_neg hrest⟩
    · rw [hfile]
      exact ⟨.notDirectory, Or.inr rfl, if_neg hrest⟩

/-- Trees that agree off a location are walked alike, if links are followed alike. -/
theorem walk_alike {t u : Tree} {l : Location} (h : AgreeOff l t u)
    {onLink onLink' : Location → List String → Place}
    (hlink : ∀ here names, (onLink here names).Alike l (onLink' here names))
    (here : Location) (names : List String) :
    (walk t onLink here names).Alike l (walk u onLink' here names) := by
  induction names generalizing here with
  | nil => exact .same (.directory here)
  | cons name rest ih =>
    by_cases hskip : Path.isName name = false
    · rw [walk_cons_of_not_isName t onLink here rest hskip,
        walk_cons_of_not_isName u onLink' here rest hskip]
      exact ih here
    have hname : Path.isName name = true := by simpa using hskip
    by_cases hup : name = ".."
    · rw [hup, walk_cons_up, walk_cons_up]
      exact ih here.dropLast
    by_cases hlong : maxNameBytes < name.utf8ByteSize
    · rw [walk_cons_of_long t onLink here rest hname hup hlong,
        walk_cons_of_long u onLink' here rest hname hup hlong]
      exact .same _
    have hshort : name.utf8ByteSize ≤ maxNameBytes := Nat.le_of_not_lt hlong
    by_cases hnext : here ++ [name] = l
    · -- the path ends here, or is blocked here, in both trees
      have hleft := h.takesFile.isAt_or_blocked onLink here hname hup hshort hnext rest
      have hright := h.takesFile'.isAt_or_blocked onLink' here hname hup hshort hnext rest
      by_cases hrest : rest = []
      · exact .found (hleft.resolve_right fun h => h.1 hrest).2
          (hright.resolve_right fun h => h.1 hrest).2
      · obtain ⟨-, o, ho, hblocked⟩ := hleft.resolve_left fun h => hrest h.1
        obtain ⟨-, o', ho', hblocked'⟩ := hright.resolve_left fun h => hrest h.1
        rw [hblocked, hblocked']
        exact .blocked ho ho'
    · -- the entry is another one, which both trees have
      rw [walk_cons t onLink here rest hname hup hshort,
        walk_cons u onLink' here rest hname hup hshort, h.get? hnext]
      split
      next => exact .same _
      next => exact ih _
      next => exact .same _
      next => exact hlink _ _

theorem follow_alike {t u : Tree} {l : Location} (h : AgreeOff l t u) (links : Nat)
    (here : Location) (names : List String) :
    (follow t links here names).Alike l (follow u links here names) := by
  induction links generalizing here names with
  | zero => exact walk_alike h (fun _ _ => .same _) here names
  | succ links ih => exact walk_alike h ih here names

/-- **In trees that agree off a location a path leads to the same place**, unless it leads there or
through there. -/
theorem locate_alike {t u : Tree} {l : Location} (h : AgreeOff l t u) (p : Path) :
    (t.locate p).Alike l (u.locate p) := by
  unfold locate
  rw [h.workingDirectory]
  split
  · exact .same _
  · split
    · exact .same _
    · exact follow_alike h maxLinks _ _

/-- **A file that is put into a tree changes nothing about where paths lead, but is found.** -/
theorem locate_insert {t : Tree} {l : Location} (hl : t.TakesFile l) (c : ByteArray) (p : Path) :
    (t.locate p).Becomes l c ((t.insert l (.file c)).locate p) := by
  have hfits := (t.insert l (.file c)).locate_fits p
  have hget : (t.insert l (.file c)).get? l = some (.file c) :=
    (get?_insert t l l _).trans (if_pos rfl)
  generalize hplace : t.locate p = place
  generalize hplace' : (t.insert l (.file c)).locate p = place' at hfits
  have halike : place.Alike l place' := hplace ▸ hplace' ▸ locate_alike (agreeOff_insert hl c) p
  cases halike with
  | same =>
    cases place with
    | file l' c' =>
      by_cases hself : l' = l
      · subst hself
        obtain rfl : c' = c := by simpa [Place.Fits, hget, eq_comm] using hfits
        exact (if_pos rfl).symm
      · exact (if_neg hself).symm
    | vacant l' =>
      by_cases hself : l' = l
      · subst hself
        simp [Place.Fits, hget] at hfits
      · exact (if_neg hself).symm
    | directory l' => exact rfl
    | nowhere o => exact rfl
  | found hat hat' =>
    -- what is found at the location is the file that was put there
    obtain rfl : place' = .file l c := by
      rcases hat' with ⟨c', rfl⟩ | rfl
      · simp only [Place.Fits, hget, Option.some.injEq, Entry.file.injEq] at hfits
        rw [hfits]
      · simp [Place.Fits, hget] at hfits
    rcases hat with ⟨c', rfl⟩ | rfl
    · exact (if_pos rfl).symm
    · exact (if_pos rfl).symm
  | blocked => exact rfl

/-! ## Entries of a directory -/

/-- Behind a directory a path goes on with the name of an entry, whatever links led there. -/
theorem walk_child {t : Tree} {name : String} {loc : Location} {place : Place}
    (hplace : ∀ onLink, walk t onLink loc [name] = place) {onLink : Location → List String → Place}
    (hlink : ∀ here names, onLink here names = .directory loc →
      onLink here (names ++ [name]) = place)
    {here : Location} {names : List String} (h : walk t onLink here names = .directory loc) :
    walk t onLink here (names ++ [name]) = place := by
  induction names generalizing here with
  | nil =>
    -- the path ends at the directory itself
    rw [walk, Place.directory.injEq] at h
    rw [h]
    exact hplace onLink
  | cons first rest ih =>
    rw [List.cons_append]
    unfold walk at h ⊢
    split at h
    next hskip =>
      rw [if_pos hskip]
      exact ih h
    next hskip =>
      rw [if_neg hskip]
      split at h
      next hup =>
        rw [if_pos hup]
        exact ih h
      next hup =>
        rw [if_neg hup]
        split at h
        · simp at h
        next hlong =>
          rw [if_neg hlong]
          dsimp only at h ⊢
          split at h
          -- only through a directory or a link the path comes to a directory
          next => split at h <;> simp at h
          next => exact ih h
          next => split at h <;> simp at h
          next =>
            rw [← List.append_assoc]
            exact hlink _ _ h

theorem follow_child {t : Tree} {name : String} {loc : Location} {place : Place}
    (hplace : ∀ onLink, walk t onLink loc [name] = place) (links : Nat) {here : Location}
    {names : List String} (h : follow t links here names = .directory loc) :
    follow t links here (names ++ [name]) = place := by
  induction links generalizing here names with
  | zero => exact walk_child hplace (fun _ _ h => by simp at h) h
  | succ links ih => exact walk_child hplace (fun _ _ h => ih h) h

/-- The content of the file at a location, if there is one. -/
def content? (t : Tree) (l : Location) : Option ByteArray :=
  match t.get? l with
  | some (.file content) => some content
  | _ => none

theorem content?_insert (t : Tree) (l l' : Location) (c : ByteArray) :
    (t.insert l (.file c)).content? l' = if l' = l then some c else t.content? l' := by
  unfold content?
  rw [get?_insert]
  by_cases h : l' = l
  · rw [if_pos h, if_pos h]
  · rw [if_neg h, if_neg h]

theorem TakesFile.insert {t : Tree} {l : Location} (h : t.TakesFile l) (l' : Location)
    (c : ByteArray) :
    (t.insert l' (.file c)).TakesFile l := by
  unfold TakesFile
  rw [get?_insert]
  split
  · exact Or.inr ⟨c, rfl⟩
  · exact h

/-- An entry that a file can be put at is nothing but its content. -/
theorem TakesFile.get?_eq {t : Tree} {l : Location} (h : t.TakesFile l) :
    t.get? l = (t.content? l).map Entry.file := by
  unfold content?
  rcases h with h | ⟨c, h⟩
  · rw [h]
    rfl
  · rw [h]
    rfl

/-- The path of an entry of a directory leads where the directory leads with its name, unless the
path is too long or has no meaning at all. -/
theorem locate_child_of_walk {t : Tree} {p : Path} {loc : Location}
    (hdir : t.locate p = .directory loc) {name : String} {place : Place}
    (hplace : ∀ onLink, walk t onLink loc [name] = place)
    (h : Place.location? (t.locate (p.child name)) ≠ none) : t.locate (p.child name) = place := by
  have hfollow : follow t maxLinks (if p.root = .relative then t.workingDirectory else []) p.names =
      .directory loc := by
    unfold locate at hdir
    split at hdir
    · simp at hdir
    · split at hdir
      · simp at hdir
      · exact hdir
  unfold locate at h ⊢
  split at h
  · exact absurd rfl h
  next hnul =>
    rw [if_neg hnul]
    split at h
    · exact absurd rfl h
    next hlong =>
      rw [if_neg hlong]
      exact follow_child hplace maxLinks hfollow

/-- If a file can be put there, an entry of a directory is its file or its vacant place. -/
theorem locate_child {t : Tree} {p : Path} {loc : Location} (hdir : t.locate p = .directory loc)
    {name : String} (hname : Path.isName name = true) (hup : name ≠ "..")
    (hshort : name.utf8ByteSize ≤ maxNameBytes) (hl : t.TakesFile (loc ++ [name]))
    (h : Place.location? (t.locate (p.child name)) ≠ none) :
    t.locate (p.child name) =
      (t.content? (loc ++ [name])).elim (.vacant (loc ++ [name])) (.file (loc ++ [name])) := by
  refine locate_child_of_walk hdir (fun onLink => ?_) h
  rw [walk_cons t onLink loc [] hname hup hshort, hl.get?_eq]
  cases t.content? (loc ++ [name]) <;> rfl

/-- An entry that is a directory is found as one. -/
theorem locate_child_of_directory {t : Tree} {p : Path} {loc : Location}
    (hdir : t.locate p = .directory loc) {name : String} (hname : Path.isName name = true)
    (hup : name ≠ "..") (hshort : name.utf8ByteSize ≤ maxNameBytes)
    (hl : t.get? (loc ++ [name]) = some .directory)
    (h : Place.location? (t.locate (p.child name)) ≠ none) :
    t.locate (p.child name) = .directory (loc ++ [name]) := by
  refine locate_child_of_walk hdir (fun onLink => ?_) h
  rw [walk_cons t onLink loc [] hname hup hshort, hl]
  rfl

end Tree

end UpsSetup
