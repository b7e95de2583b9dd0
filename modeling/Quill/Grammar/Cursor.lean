import Quill.Fault
import Quill.Value

/-!
# Cursors

A cursor is where reading stands, the state of `Parser`: the tokens not yet taken, the end token
that is met when none are left (`eof`), and how deeply the expression at hand is nested. A cursor
made from tokens has that end token at the end of its queue as well, and an end token is never
taken.
-/

namespace Quill

/-- Where reading stands. -/
structure Cursor where
  queue : List Token
  last : Token
  /-- The levels that have been entered and not left. Each was entered on account of a token that
      was taken, so there are never more of them than tokens (`Cursor.depth_resumed_le`): counted in
      a machine word, as `Parser` counts them, they do not wrap around either. -/
  depth : Nat
  last_kind : last.kind = .endOfFile
deriving DecidableEq, Repr

namespace Cursor

/-- A cursor at the start of some tokens (`new`). An end token is added unless they have one at
    their end. -/
def ofTokens (tokens : List Token) : Cursor :=
  match tokens.getLast? with
  | none => ⟨[Token.ending 0], Token.ending 0, 0, rfl⟩
  | some t =>
    if h : t.kind = .endOfFile then ⟨tokens, t, 0, h⟩
    else
      let last := Token.ending t.span.stop
      ⟨tokens ++ [last], last, 0, rfl⟩

/-- The token at hand (`at`). -/
def token (c : Cursor) : Token := c.queue.headD c.last

/-- Whether the token at hand is an end token (the opposite of `not_eof`). -/
def atEnd (c : Cursor) : Bool := c.token.kind = .endOfFile

/-- Past the token at hand, unless it is an end token (`next`). -/
def advance (c : Cursor) : Cursor :=
  if c.atEnd then c else { c with queue := c.queue.tail }

/-- The operator at hand, if there is one of the given level (`binary_operator`, which is given the
    operators of the level). -/
def operator? (c : Cursor) (level : Operator.Level) : Option Operator :=
  if c.token.kind = .operator then
    (Operator.ofSymbol? c.token.text).filter fun op => op.level = level
  else none

theorem advance_length_le (c : Cursor) : c.advance.queue.length ≤ c.queue.length := by
  unfold advance
  split
  · exact Nat.le_refl _
  · simp

/-- Past a token that is not an end token there are fewer. -/
theorem advance_length_lt {c : Cursor} (h : c.token.kind ≠ .endOfFile) :
    c.advance.queue.length < c.queue.length := by
  cases hq : c.queue with
  | nil => exact absurd (by simpa [token, hq] using c.last_kind) h
  | cons t rest => simp [advance, atEnd, h, hq]

/-- An operator is not an end token. -/
theorem kind_ne_of_operator? {c : Cursor} {level : Operator.Level} {op : Operator}
    (h : c.operator? level = some op) : c.token.kind ≠ .endOfFile := by
  unfold operator? at h
  split at h
  next hk => simp [hk]
  next => cases h

end Cursor

end Quill
