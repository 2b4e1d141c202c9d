import UpsSetup.Log.Event
import UpsSetup.Tree.Basic

/-!
# Jobs on a directory tree

A job changes a directory tree, notes events and ends with a value or a failure. What it changed
before a failure stays changed. Jobs follow one another as in any program that stops at the first
failure (`Job.bind`), and `bind_pure`, `pure_bind` and `bind_assoc` say so.
-/

namespace UpsSetup

/-- What a job leaves behind. -/
structure Outcome (α : Type) where
  tree : Tree
  log : List Event
  result : Except Failure α

/-- Work on a directory tree. -/
def Job (α : Type) := Tree → Outcome α

namespace Job

variable {α β γ : Type}

/-- What a job leaves behind on a tree. -/
def run (job : Job α) (t : Tree) : Outcome α := job t

theorem ext {j j' : Job α} (h : ∀ t, j.run t = j'.run t) : j = j' := funext h

/-- Changes nothing and answers a value. -/
def pure (a : α) : Job α := fun t => ⟨t, [], .ok a⟩

/-- Goes on with a second job that depends on the value of the first, unless the first failed. -/
def bind (job : Job α) (next : α → Job β) : Job β := fun t =>
  let first := job.run t
  match first.result with
  | .error failure => ⟨first.tree, first.log, .error failure⟩
  | .ok a =>
    let second := (next a).run first.tree
    ⟨second.tree, first.log ++ second.log, second.result⟩

instance : Monad Job where
  pure := pure
  bind := bind

/-- Fails. -/
def fail (failure : Failure) : Job α := fun t => ⟨t, [], .error failure⟩

/-- Notes an event. -/
def note (event : Event) : Job Unit := fun t => ⟨t, [event], .ok ()⟩

/-- Goes on with a result that was computed without the tree. -/
def ofExcept : Except Failure α → Job α
  | .ok a => pure a
  | .error failure => fail failure

/-- Does nothing unless the condition holds. -/
def onlyIf (condition : Bool) (job : Job Unit) : Job Unit :=
  if condition then job else pure ()

/-! ## Laws -/

theorem run_pure (a : α) (t : Tree) : (Pure.pure a : Job α).run t = ⟨t, [], .ok a⟩ := rfl

/-- The second job starts from the tree that the first one left, and its log follows. -/
theorem run_bind_of_ok {job : Job α} {next : α → Job β} {t : Tree} {a : α}
    (h : (job.run t).result = .ok a) :
    (job >>= next).run t =
      ⟨((next a).run (job.run t).tree).tree,
        (job.run t).log ++ ((next a).run (job.run t).tree).log,
        ((next a).run (job.run t).tree).result⟩ := by
  show bind job next t = _
  simp [bind, h]

/-- A job that fails is the last one, and what it did stays done. -/
theorem run_bind_of_error {job : Job α} {next : α → Job β} {t : Tree} {failure : Failure}
    (h : (job.run t).result = .error failure) :
    (job >>= next).run t = ⟨(job.run t).tree, (job.run t).log, .error failure⟩ := by
  show bind job next t = _
  simp [bind, h]

instance : LawfulMonad Job := LawfulMonad.mk' Job
  (fun job => ext fun t => by
    show bind job (fun a => pure (id a)) t = _
    simp only [bind, pure, run]
    generalize job t = o
    rcases o with ⟨t', log, _ | a⟩ <;> simp)
  (fun a next => ext fun t => by
    show bind (pure a) next t = _
    simp [bind, pure, run])
  (fun job next last => ext fun t => by
    show bind (bind job next) last t = bind job (fun a => bind (next a) last) t
    simp only [bind, run]
    generalize job t = o
    rcases o with ⟨t', log, _ | a⟩
    · rfl
    · simp only
      generalize next a t' = o'
      rcases o' with ⟨t'', log', _ | b⟩ <;> simp)

end Job

end UpsSetup
