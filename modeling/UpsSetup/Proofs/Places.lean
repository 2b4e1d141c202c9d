import Mathlib.Data.List.Basic
import Mathlib.Data.List.Induction
import UpsSetup.Proofs.Grouping

/-!
# Places on a command line

Where each word of a command line ends up, said by the places of the words and without grouping
them. The literals behind an option, up to the next option or separator, are its arguments
(`Arguments.occurrences_ofWords`). A literal belongs to no option if none stands before it since the
start or the last separator (`Arguments.topLevel_ofWords`). A name is listed at the place where it
stands first (`Arguments.names_ofWords`).
-/

namespace UpsSetup

/-- What is read off an element of a list is read off one at some place. -/
theorem exists_place_iff {α β : Type} {read? : α → Option β} {l : List α} {b : β} :
    (∃ i < l.length, l[i]?.bind read? = some b) ↔ b ∈ l.filterMap read? := by
  rw [List.mem_filterMap]
  constructor
  · rintro ⟨i, hi, h⟩
    rw [List.getElem?_eq_getElem hi, Option.bind_some] at h
    exact ⟨_, List.getElem_mem hi, h⟩
  · rintro ⟨a, ha, h⟩
    obtain ⟨i, hi, rfl⟩ := List.getElem_of_mem ha
    refine ⟨i, hi, ?_⟩
    rw [List.getElem?_eq_getElem hi, Option.bind_some, h]

/-! ## Single words -/

namespace Word

/-- The text stands for itself: it has fewer than two characters, does not start with a dash, or
starts with three. -/
def IsLiteral (text : String) : Prop :=
  text.length < 2 ∨ ¬['-'] <+: text.toList ∨ ['-', '-', '-'] <+: text.toList

instance (text : String) : Decidable (IsLiteral text) :=
  inferInstanceAs (Decidable (_ ∨ _ ∨ _))

/-- The option that a text stands for, if it stands for one. Its name is what follows the dashes. -/
def option? (text : String) : Option (Dashes × String) :=
  if IsLiteral text ∨ text = "--" then none
  else if ['-', '-'] <+: text.toList then some (.two, String.ofList (text.toList.drop 2))
  else some (.one, String.ofList (text.toList.drop 1))

/-- The dashes at its start decide what a word is. -/
theorem ofChars_eq (cs : List Char) : ofChars cs =
    if cs.length < 2 ∨ ¬['-'] <+: cs ∨ ['-', '-', '-'] <+: cs then .literal (String.ofList cs)
    else if cs = ['-', '-'] then .separator
    else if ['-', '-'] <+: cs then .option .two (String.ofList (cs.drop 2))
    else .option .one (String.ofList (cs.drop 1)) := by
  match cs with
  | [] => rfl
  | [c] =>
    by_cases hc : c = '-'
    · subst hc; rfl
    · simp [ofChars, hc]
  | c :: c' :: rest =>
    by_cases hc : c = '-'
    · subst hc
      by_cases hc' : c' = '-'
      · subst hc'
        match rest with
        | [] => rfl
        | c'' :: rest =>
          by_cases hc'' : c'' = '-'
          · simp [ofChars, hc'']
          · simp [ofChars, hc'', Ne.symm hc'']
      · simp [ofChars, hc', Ne.symm hc']
    · simp [ofChars, hc, Ne.symm hc]

theorem ofText_of_isLiteral {text : String} (h : IsLiteral text) : ofText text = .literal text := by
  rw [ofText, ofChars_eq, if_pos (by rwa [String.length_toList]), String.ofList_toList]

/-- A word is an option when it starts with dashes and has a name behind them. -/
theorem ofText_of_option? {text : String} {dashes : Dashes} {name : String}
    (h : option? text = some (dashes, name)) : ofText text = .option dashes name := by
  unfold option? at h
  split at h
  next => simp at h
  next hnot =>
    rw [not_or] at hnot
    have hne : text.toList ≠ ['-', '-'] := fun hc => hnot.2 (String.toList_inj.mp hc)
    rw [ofText, ofChars_eq, if_neg (by rw [String.length_toList]; exact hnot.1), if_neg hne]
    split at h
    next htwo =>
      obtain ⟨rfl, rfl⟩ := Prod.mk.inj (Option.some.inj h)
      exact if_pos htwo
    next htwo =>
      obtain ⟨rfl, rfl⟩ := Prod.mk.inj (Option.some.inj h)
      exact if_neg htwo

/-- A text is a literal, the separator or an option, and no two of these. -/
theorem kind_cases (text : String) :
    (IsLiteral text ∧ text ≠ "--" ∧ option? text = none) ∨
    (¬IsLiteral text ∧ text = "--" ∧ option? text = none) ∨
    (¬IsLiteral text ∧ text ≠ "--" ∧ ∃ dashes name, option? text = some (dashes, name)) := by
  by_cases hliteral : IsLiteral text
  · refine Or.inl ⟨hliteral, ?_, if_pos (Or.inl hliteral)⟩
    rintro rfl
    exact absurd hliteral (by decide)
  · by_cases hseparator : text = "--"
    · exact Or.inr (Or.inl ⟨hliteral, hseparator, if_pos (Or.inr hseparator)⟩)
    · refine Or.inr (Or.inr ⟨hliteral, hseparator, ?_⟩)
      unfold option?
      rw [if_neg (not_or.mpr ⟨hliteral, hseparator⟩)]
      split
      · exact ⟨_, _, rfl⟩
      · exact ⟨_, _, rfl⟩

theorem ofText_eq_option_iff {text : String} {dashes : Dashes} {name : String} :
    ofText text = .option dashes name ↔ option? text = some (dashes, name) := by
  refine ⟨fun h => ?_, ofText_of_option?⟩
  rcases kind_cases text with ⟨hliteral, -, -⟩ | ⟨-, rfl, -⟩ | ⟨-, -, dashes', name', hoption⟩
  · rw [ofText_of_isLiteral hliteral] at h
    simp at h
  · exact absurd h (by simp [show ofText "--" = .separator from rfl])
  · rw [ofText_of_option? hoption, option.injEq] at h
    rw [hoption, h.1, h.2]

end Word

namespace Arguments

/-! ## Places -/

/-- The option at a place of a command line. -/
def optionAt? (words : List String) (i : Nat) : Option (Dashes × String) :=
  words[i]?.bind Word.option?

/-- The literals behind a place, up to the next option or separator. -/
def literalsBehind (words : List String) (i : Nat) : List String :=
  (words.drop (i + 1)).takeWhile (Word.IsLiteral ·)

/-- A literal stands at the place, and behind every option before it there is a separator that
comes before it as well. -/
def IsFree (words : List String) (i : Nat) : Prop :=
  (∃ text ∈ words[i]?, Word.IsLiteral text) ∧
    ∀ j < i, (optionAt? words j).isSome → ∃ k < i, j < k ∧ words[k]? = some "--"

/-- An option of the given dashes stands at the place and nowhere before it. -/
def IsFirst (words : List String) (dashes : Dashes) (i : Nat) : Prop :=
  ∃ option ∈ optionAt? words i, option.1 = dashes ∧ ∀ j < i, optionAt? words j ≠ some option

instance (words : List String) : DecidablePred (IsFree words) := fun _ =>
  inferInstanceAs (Decidable (_ ∧ _))

instance (words : List String) (dashes : Dashes) : DecidablePred (IsFirst words dashes) := fun _ =>
  inferInstanceAs (Decidable (∃ option ∈ _, _))

theorem filter_range_succ (p : Nat → Prop) [DecidablePred p] (n : Nat) :
    (List.range (n + 1)).filter (p ·) =
      (if p 0 then [0] else []) ++ ((List.range n).filter fun i => p (i + 1)).map (· + 1) := by
  rw [List.range_succ_eq_map, List.filter_cons, List.filter_map]
  by_cases h : p 0
  · rw [if_pos (decide_eq_true h), if_pos h]
    rfl
  · rw [if_neg (by simpa using h), if_neg h]
    rfl

/-! ## Arguments of options -/

/-- An option in front occurs once more, with the literals behind it. -/
theorem occurrences_cons (word : Word) (a : Arguments) (name : String) (dashes : Dashes) :
    (cons word a).occurrences name dashes =
      (if word = .option dashes name then [a.leading] else []) ++ a.occurrences name dashes := by
  cases word with
  | literal text => rfl
  | option dashes' name' =>
    by_cases h : dashes' = dashes ∧ name' = name
    · simp [cons, occurrences, h]
    · simp [cons, occurrences, h]
  | separator => simp [cons, occurrences]

/-- The literals in front are those up to the first word that is none. -/
theorem leading_ofWords (words : List String) :
    (ofWords words).leading = words.takeWhile (Word.IsLiteral ·) := by
  induction words with
  | nil => rfl
  | cons word words ih =>
    rcases Word.kind_cases word with ⟨h, -, -⟩ | ⟨h, rfl, -⟩ | ⟨h, -, dashes, name, hoption⟩
    · rw [ofWords, Word.ofText_of_isLiteral h, List.takeWhile_cons_of_pos (by simpa using h), ← ih]
      rfl
    · rfl
    · rw [ofWords, Word.ofText_of_option? hoption, List.takeWhile_cons_of_neg (by simpa using h)]
      rfl

/-- **The arguments of an option are the literals behind each place where it stands.** -/
theorem occurrences_ofWords (words : List String) (name : String) (dashes : Dashes) :
    (ofWords words).occurrences name dashes =
      ((List.range words.length).filter fun i => optionAt? words i = some (dashes, name)).map
        (literalsBehind words) := by
  induction words with
  | nil => rfl
  | cons word words ih =>
    rw [ofWords, occurrences_cons, ih, List.length_cons, filter_range_succ, List.map_append,
      List.map_map]
    -- only the first place can be new, and the literals behind it are the leading ones of the rest
    refine congr (congrArg _ ?_) rfl
    by_cases h : optionAt? (word :: words) 0 = some (dashes, name)
    · rw [if_pos (Word.ofText_of_option? h), if_pos h, leading_ofWords]
      rfl
    · rw [if_neg fun hword => h (Word.ofText_eq_option_iff.mp hword), if_neg h]
      rfl

/-! ## Literals without an option -/

/-- The literals behind the separators. -/
def detached (a : Arguments) : List String :=
  (a.segments.filter (·.option = none)).flatMap (·.arguments)

theorem detached_cons (word : Word) (a : Arguments) :
    (cons word a).detached = (if word = .separator then a.leading else []) ++ a.detached := by
  cases word with
  | literal text => rfl
  | option dashes name => simp [cons, detached]
  | separator => simp [cons, detached]

/-- The words so far end in an option, where `inOption` tells whether those before the word do. -/
def staysInOption (inOption : Bool) (word : String) : Bool :=
  if word = "--" then false else (Word.option? word).isSome || inOption

/-- As `IsFree`, but where the words before the first place may end in an option. -/
def IsFreeFrom (inOption : Bool) (words : List String) (i : Nat) : Prop :=
  IsFree words i ∧ (inOption = true → ∃ k < i, words[k]? = some "--")

instance (inOption : Bool) (words : List String) : DecidablePred (IsFreeFrom inOption words) :=
  fun _ => inferInstanceAs (Decidable (_ ∧ _))

theorem isFreeFrom_zero {inOption : Bool} {word : String} {words : List String} :
    IsFreeFrom inOption (word :: words) 0 ↔ Word.IsLiteral word ∧ inOption = false := by
  simp [IsFreeFrom, IsFree]

/-- What a word does to the places behind it. -/
theorem isFreeFrom_succ {inOption : Bool} {word : String} {words : List String} {i : Nat} :
    IsFreeFrom inOption (word :: words) (i + 1) ↔
      IsFreeFrom (staysInOption inOption word) words i := by
  unfold IsFreeFrom IsFree staysInOption
  simp only [Nat.forall_lt_succ_left, Nat.exists_lt_succ_left, optionAt?, List.getElem?_cons_zero,
    List.getElem?_cons_succ, Option.bind_some, Nat.add_lt_add_iff_right, Nat.not_lt_zero, false_and,
    false_or, Nat.zero_lt_succ, true_and, Option.some.injEq]
  rcases Word.kind_cases word with ⟨-, hne, hoption⟩ | ⟨-, rfl, hoption⟩ |
    ⟨-, hne, dashes, name, hoption⟩
  · simp [hne, hoption]
  · simp [hoption]
  · rw [if_neg hne, hoption]
    simp only [Option.isSome_some, Bool.true_or, hne, false_or, true_implies]
    exact ⟨fun h => ⟨⟨h.1.1, h.1.2.2⟩, h.1.2.1⟩, fun h => ⟨⟨h.1.1, h.2, h.1.2⟩, fun _ => h.2⟩⟩

/-- The literals that belong to no option, if the words before them end in an option or do not. -/
theorem freeLiterals_eq (inOption : Bool) (words : List String) :
    ((List.range words.length).filter (IsFreeFrom inOption words ·)).filterMap (words[·]?) =
      (if inOption then [] else (ofWords words).leading) ++ (ofWords words).detached := by
  induction words generalizing inOption with
  | nil => cases inOption <;> rfl
  | cons word words ih =>
    have hrest : (((List.range words.length).filter
        fun i => IsFreeFrom inOption (word :: words) (i + 1)).map (· + 1)).filterMap
          ((word :: words)[·]?) =
        (if staysInOption inOption word then [] else (ofWords words).leading) ++
          (ofWords words).detached := by
      rw [← ih, List.filterMap_map]
      simp only [isFreeFrom_succ]
      rfl
    rw [List.length_cons, filter_range_succ, List.filterMap_append, hrest, ofWords, detached_cons]
    simp only [isFreeFrom_zero]
    rcases Word.kind_cases word with ⟨hliteral, hne, hoption⟩ | ⟨hliteral, rfl, hoption⟩ |
      ⟨hliteral, hne, dashes, name, hoption⟩
    · rw [Word.ofText_of_isLiteral hliteral]
      cases inOption <;> simp [hliteral, staysInOption, hne, hoption, cons]
    · rw [show Word.ofText "--" = .separator from rfl]
      cases inOption <;> simp [hliteral, staysInOption, cons]
    · rw [Word.ofText_of_option? hoption]
      cases inOption <;> simp [hliteral, staysInOption, hne, hoption, cons]

/-- **A literal belongs to no option if none stands before it since the start or the last
separator.** -/
theorem topLevel_ofWords (words : List String) :
    (ofWords words).topLevel =
      ((List.range words.length).filter (IsFree words ·)).filterMap (words[·]?) := by
  have h := freeLiterals_eq false words
  simp only [IsFreeFrom, Bool.false_eq_true, false_implies, and_true, if_false] at h
  exact h.symm

/-! ## Names -/

/-- The name of a word that is an option of the given dashes. -/
def nameOf? (dashes : Dashes) (word : String) : Option String :=
  (Word.option? word).bind fun (d, name) => if d = dashes then some name else none

theorem nameOf?_eq_some_iff {dashes : Dashes} {word name : String} :
    nameOf? dashes word = some name ↔ Word.option? word = some (dashes, name) := by
  unfold nameOf?
  rw [Option.bind_eq_some_iff]
  constructor
  · rintro ⟨⟨d, name'⟩, hoption, h⟩
    dsimp only at h
    split at h
    next hd => rw [hoption, hd, Option.some.inj h]
    next => simp at h
  · intro h
    exact ⟨_, h, if_pos rfl⟩

/-- Names come in the order in which they are first given. -/
theorem names_eq_eraseDups (words : List String) (dashes : Dashes) :
    (ofWords words).names dashes = (words.filterMap (nameOf? dashes)).eraseDups := by
  unfold names
  congr 1
  induction words with
  | nil => rfl
  | cons word words ih =>
    rw [List.filterMap_cons, ← ih, ofWords]
    rcases Word.kind_cases word with ⟨h, -, hoption⟩ | ⟨-, rfl, hoption⟩ |
      ⟨-, -, dashes', name, hoption⟩
    · rw [Word.ofText_of_isLiteral h, nameOf?, hoption]
      rfl
    · rfl
    · rw [Word.ofText_of_option? hoption, nameOf?, hoption, cons, List.filterMap_cons]

theorem optionAt?_append {words : List String} {i : Nat} (h : i < words.length)
    (more : List String) : optionAt? (words ++ more) i = optionAt? words i := by
  rw [optionAt?, List.getElem?_append_left h, optionAt?]

theorem optionAt?_length (words : List String) (word : String) :
    optionAt? (words ++ [word]) words.length = Word.option? word := by
  rw [optionAt?, List.getElem?_concat_length, Option.bind_some]

theorem exists_optionAt?_iff {words : List String} {option : Dashes × String} :
    (∃ i < words.length, optionAt? words i = some option) ↔
      ∃ word ∈ words, Word.option? word = some option := by
  rw [← List.mem_filterMap]
  exact exists_place_iff

/-- A word at the end changes nothing at the places before it. -/
theorem isFirst_append {words : List String} {i : Nat} (h : i < words.length) (word : String)
    (dashes : Dashes) : IsFirst (words ++ [word]) dashes i ↔ IsFirst words dashes i := by
  unfold IsFirst
  rw [optionAt?_append h]
  refine exists_congr fun option => and_congr_right fun _ => and_congr_right fun _ => ?_
  refine forall₂_congr fun j hj => ?_
  rw [optionAt?_append (Nat.lt_trans hj h)]

/-- A word at the end stands where no word has stood before. -/
theorem isFirst_length {words : List String} {word name : String} {dashes : Dashes}
    (h : nameOf? dashes word = some name) :
    IsFirst (words ++ [word]) dashes words.length ↔ name ∉ words.filterMap (nameOf? dashes) := by
  rw [IsFirst, optionAt?_length, nameOf?_eq_some_iff.mp h]
  simp only [Option.mem_def, Option.some.injEq, exists_eq_left', true_and, List.mem_filterMap,
    nameOf?_eq_some_iff, ← exists_optionAt?_iff, not_exists, not_and]
  refine forall₂_congr fun j hj => ?_
  rw [optionAt?_append hj]

/-- **The names of options are listed where they stand first.** -/
theorem names_ofWords (words : List String) (dashes : Dashes) :
    (ofWords words).names dashes =
      ((List.range words.length).filter (IsFirst words dashes ·)).filterMap fun i =>
        (optionAt? words i).map (·.2) := by
  rw [names_eq_eraseDups]
  induction words using List.reverseRecOn with
  | nil => rfl
  | append_singleton words word ih =>
    have hbefore : ((List.range words.length).filter (IsFirst (words ++ [word]) dashes ·)).filterMap
        (fun i => (optionAt? (words ++ [word]) i).map (·.2)) =
        (words.filterMap (nameOf? dashes)).eraseDups := by
      rw [ih, List.filter_congr fun i hi => decide_eq_decide.mpr
        (isFirst_append (List.mem_range.mp hi) word dashes)]
      refine List.filterMap_congr fun i hi => ?_
      rw [optionAt?_append (List.mem_range.mp (List.mem_filter.mp hi).1)]
    rw [List.filterMap_append, List.eraseDups_append, List.length_append, List.length_singleton,
      List.range_succ, List.filter_append, List.filterMap_append, hbefore]
    congr 1
    have hlast := optionAt?_length words word
    cases hname : nameOf? dashes word with
    | none =>
      have hnot : ¬IsFirst (words ++ [word]) dashes words.length := by
        rintro ⟨⟨dashes', name⟩, hoption, rfl, -⟩
        rw [hlast] at hoption
        rw [nameOf?_eq_some_iff.mpr hoption] at hname
        simp at hname
      simp [hname, hnot, List.removeAll]
    | some name =>
      rw [List.filterMap_cons_some hname, List.filterMap_nil, List.filter_singleton]
      unfold List.removeAll
      rw [List.filter_singleton, List.elem_eq_mem]
      by_cases hmem : name ∈ words.filterMap (nameOf? dashes)
      · have hnot : ¬IsFirst (words ++ [word]) dashes words.length :=
          fun h => (isFirst_length hname).mp h hmem
        rw [decide_eq_true hmem, decide_eq_false hnot]
        rfl
      · have hnew := (isFirst_length hname).mpr hmem
        rw [decide_eq_false hmem, decide_eq_true hnew]
        simp [hlast, nameOf?_eq_some_iff.mp hname, List.eraseDups_cons]

/-! ## The whole command line -/

/-- Only the ordinals from zero up to the count have an occurrence. -/
theorem occurrence?_eq_none_iff {a : Arguments} {name : String} {ordinal : Int} {dashes : Dashes} :
    a.occurrence? name ordinal dashes = none ↔ ¬(0 ≤ ordinal ∧ ordinal < a.count name dashes) := by
  unfold occurrence? count
  split
  next h =>
    rw [List.getElem?_eq_none_iff]
    omega
  next h => exact iff_of_true rfl fun hbounds => h hbounds.1

/-- **No word of a command line is lost, taken twice or given to a wrong option.** An option has an
occurrence for each place where it stands, in their order and with the literals behind that place;
the literals that belong to no option are those with none before them; a name is listed where it
stands first; and only the numbers below the count have an occurrence. -/
theorem words_find_their_places (words : List String) :
    (∀ name dashes, (ofWords words).numbered name dashes =
      ((List.range words.length).filter fun i => optionAt? words i = some (dashes, name)).mapIdx
        fun ordinal i => { name, ordinal, arguments := literalsBehind words i }) ∧
    (ofWords words).topLevel =
      ((List.range words.length).filter (IsFree words ·)).filterMap (words[·]?) ∧
    (∀ dashes, ((ofWords words).names dashes).Nodup ∧ (ofWords words).names dashes =
      ((List.range words.length).filter (IsFirst words dashes ·)).filterMap fun i =>
        (optionAt? words i).map (·.2)) ∧
    ∀ name ordinal dashes, (ofWords words).occurrence? name ordinal dashes = none ↔
      ¬(0 ≤ ordinal ∧ ordinal < (ofWords words).count name dashes) := by
  refine ⟨fun name dashes => ?_, topLevel_ofWords words,
    fun dashes => ⟨nodup_names _ dashes, names_ofWords words dashes⟩,
    fun name ordinal dashes => occurrence?_eq_none_iff⟩
  rw [numbered, occurrences_ofWords]
  refine List.ext_getElem? fun ordinal => ?_
  rw [List.getElem?_mapIdx, List.getElem?_mapIdx, List.getElem?_map, Option.map_map]
  rfl

end Arguments

end UpsSetup
