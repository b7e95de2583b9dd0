/-!
# Spans

A span is a half-open range of character offsets into a source text, as tokens and trees carry them
(section 3 of the specification). Offsets count characters, not bytes. Nothing forces
`start ≤ stop`: spans of tokens made by hand may be the wrong way round.
-/

namespace Quill

/-- A half-open range of character offsets. -/
@[ext]
structure Span where
  start : Nat
  stop : Nat
deriving DecidableEq, Repr, Inhabited

namespace Span

/-- The span of one character (`single`). -/
def single (position : Nat) : Span := ⟨position, position + 1⟩

/-- The empty span at an offset. -/
def point (position : Nat) : Span := ⟨position, position⟩

/-- The smallest span covering both (`to`). -/
def hull (a b : Span) : Span := ⟨min a.start b.start, max a.stop b.stop⟩

@[simp] theorem hull_start (a b : Span) : (a.hull b).start = min a.start b.start := rfl

@[simp] theorem hull_stop (a b : Span) : (a.hull b).stop = max a.stop b.stop := rfl

/-- The hull of two spans, one behind the other. -/
theorem hull_eq_of_le {a b : Span} (ha : a.start ≤ a.stop) (hab : a.stop ≤ b.start)
    (hb : b.start ≤ b.stop) : a.hull b = ⟨a.start, b.stop⟩ := by
  ext
  · rw [hull_start]
    exact Nat.min_eq_left (by omega)
  · rw [hull_stop]
    exact Nat.max_eq_right (by omega)

end Span

end Quill
