import Quill.Grammar.Cursor

/-!
# Readers

A reader takes tokens from a cursor and yields a result or a fault. It leaves a cursor in either
case, so that what was taken before a fault stays taken and the depth stays where it was.

That a reader never adds tokens is part of its type. Loops over readers end because of it.

* `Reader.next`, `Reader.peek`, `Reader.enter`, `Reader.leave`: the steps of `Parser`.
* `Reader.run_bind`, `Reader.run_pure` and their companions: what each step does to a cursor.
* `Reader.Consumes`: success takes at least one token.
-/

namespace Quill

/-- What reading yields, with the cursor it leaves. -/
inductive Reading (α : Type) where
  | ok (value : α) (rest : Cursor)
  | error (fault : Fault) (rest : Cursor)

/-- The cursor that reading leaves. -/
def Reading.rest {α : Type} : Reading α → Cursor
  | .ok _ rest => rest
  | .error _ rest => rest

@[simp] theorem Reading.rest_ok {α : Type} (a : α) (c : Cursor) : (ok a c).rest = c := rfl

@[simp] theorem Reading.rest_error {α : Type} (e : Fault) (c : Cursor) :
    (error e c : Reading α).rest = c := rfl

/-- A way to read an `α` from a cursor, which never adds tokens. -/
@[ext] structure Reader (α : Type) where
  run : Cursor → Reading α
  length_le : ∀ c, (run c).rest.queue.length ≤ c.queue.length

namespace Reader

variable {α β : Type}

/-- Yields a value and takes nothing. -/
protected def pure (a : α) : Reader α := ⟨fun c => .ok a c, fun _ => Nat.le_refl _⟩

/-- Reads one thing and then another that may depend on it. -/
protected def bind (p : Reader α) (f : α → Reader β) : Reader β where
  run c :=
    match p.run c with
    | .ok a rest => (f a).run rest
    | .error e rest => .error e rest
  length_le c := by
    have h := p.length_le c
    split
    next a rest hp =>
      rw [hp] at h
      exact Nat.le_trans ((f a).length_le rest) h
    next e rest hp =>
      rw [hp] at h
      exact h

instance : Monad Reader where
  pure := Reader.pure
  bind := Reader.bind

/-- Refuses. -/
def fail (e : Fault) : Reader α := ⟨fun c => .error e c, fun _ => Nat.le_refl _⟩

/-- Looks at the cursor and takes nothing. -/
def look (f : Cursor → α) : Reader α := ⟨fun c => .ok (f c) c, fun _ => Nat.le_refl _⟩

/-- Takes the token at hand (`next`). An end token is yielded but stays. -/
def next : Reader Token := ⟨fun c => .ok c.token c.advance, Cursor.advance_length_le⟩

/-- The token at hand (`at`). -/
def peek : Reader Token := look Cursor.token

/-- Goes one level deeper on account of the token with the given span, and refuses below the
    deepest level (`descend`). The level is entered even then. -/
def enter (span : Span) : Reader Unit where
  run c :=
    let below := { c with depth := c.depth + 1 }
    if maxDepth < below.depth then .error (.tooDeep span) below else .ok () below
  length_le c := by
    dsimp only
    split <;> exact Nat.le_refl _

/-- Comes back up some levels. That there are so many is not asked here; no phrase leaves more of
    them than it has entered (`Cursor.readings_balanced`). -/
def leave (levels : Nat) : Reader Unit :=
  ⟨fun c => .ok () { c with depth := c.depth - levels }, fun _ => Nat.le_refl _⟩

/-- A reader that is made only when it is used. -/
def delay (p : Unit → Reader α) : Reader α := ⟨fun c => (p ()).run c, fun c => (p ()).length_le c⟩

@[simp] theorem run_pure (a : α) (c : Cursor) : (pure a : Reader α).run c = .ok a c := rfl

theorem run_bind (p : Reader α) (f : α → Reader β) (c : Cursor) :
    (p >>= f).run c =
      match p.run c with
      | .ok a rest => (f a).run rest
      | .error e rest => .error e rest :=
  rfl

@[simp] theorem run_fail (e : Fault) (c : Cursor) : (fail e : Reader α).run c = .error e c := rfl

@[simp] theorem run_look (f : Cursor → α) (c : Cursor) : (look f).run c = .ok (f c) c := rfl

@[simp] theorem run_next (c : Cursor) : next.run c = .ok c.token c.advance := rfl

@[simp] theorem run_peek (c : Cursor) : peek.run c = .ok c.token c := rfl

theorem run_enter (span : Span) (c : Cursor) :
    (enter span).run c =
      if maxDepth < c.depth + 1 then .error (.tooDeep span) { c with depth := c.depth + 1 }
      else .ok () { c with depth := c.depth + 1 } :=
  rfl

@[simp] theorem run_leave (levels : Nat) (c : Cursor) :
    (leave levels).run c = .ok () { c with depth := c.depth - levels } := rfl

@[simp] theorem delay_eq (p : Unit → Reader α) : delay p = p () := rfl

/-- Success takes at least one token. -/
def Consumes (p : Reader α) : Prop :=
  ∀ c a rest, p.run c = .ok a rest → rest.queue.length < c.queue.length

/-- What a reader takes at first it has taken in the end. -/
theorem Consumes.bind {p : Reader α} (h : Consumes p) (f : α → Reader β) :
    Consumes (p >>= f) := by
  intro c b rest hrun
  rw [run_bind] at hrun
  split at hrun
  next a mid hp =>
    have h₁ := h c a mid hp
    have h₂ := (f a).length_le mid
    rw [hrun] at h₂
    exact Nat.lt_of_le_of_lt h₂ h₁
  next => cases hrun

/-- A reader consumes if its second part does. -/
theorem consumes_bind {p : Reader α} {f : α → Reader β} (h : ∀ a, Consumes (f a)) :
    Consumes (p >>= f) := by
  intro c b rest hrun
  have h₁ := p.length_le c
  rw [run_bind] at hrun
  split at hrun
  next a mid hp =>
    rw [hp] at h₁
    exact Nat.lt_of_lt_of_le (h a mid b rest hrun) h₁
  next => cases hrun

end Reader

end Quill
