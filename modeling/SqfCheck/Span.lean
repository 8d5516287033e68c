/-!
# Positions and spans

A `Position` is a line and a column, both counted from one, of a character in a text. A
`Span` runs from a first to a last position, both included. `Position.after` walks over
text : a newline starts the next line, any other character takes one column.
-/

namespace SqfCheck

/-- The place of a character : its line and its column, counted from one. -/
structure Position where
  /-- One more than the number of newlines before the character. -/
  line : Nat
  /-- One more than the number of characters since the last newline. -/
  column : Nat
deriving DecidableEq, Repr, Inhabited

namespace Position

/-- The place of the first character of a text. -/
def start : Position := ⟨1, 1⟩

/-- The place just after the character `c` that stands at `p`. -/
def step (p : Position) (c : Char) : Position :=
  if c = '\n' then ⟨p.line + 1, 1⟩ else ⟨p.line, p.column + 1⟩

/-- The place just after the text `cs` whose first character stands at `p`. -/
def after (p : Position) (cs : List Char) : Position :=
  cs.foldl step p

/-- The place of the last character of the text `cs` that starts at `p`, and `p` itself
when the text is empty. -/
def lastOf (p : Position) (cs : List Char) : Position :=
  p.after cs.dropLast

@[simp]
theorem after_nil (p : Position) : p.after [] = p := rfl

theorem after_append (p : Position) (cs ds : List Char) :
    p.after (cs ++ ds) = (p.after cs).after ds := by
  simp [after]

end Position

/-- A stretch of text, from its first to its last character. -/
structure Span where
  /-- Where the first character stands. -/
  first : Position
  /-- Where the last character stands. -/
  last : Position
deriving DecidableEq, Repr, Inhabited

namespace Span

/-- The span of the nonempty text `cs` that starts at `p`. -/
def ofText (p : Position) (cs : List Char) : Span :=
  ⟨p, p.lastOf cs⟩

/-- The empty stretch at `p`, and also a single character there. -/
def point (p : Position) : Span := ⟨p, p⟩

/-- From the beginning of `s` to the end of `t`. -/
def through (s t : Span) : Span := ⟨s.first, t.last⟩

end Span

end SqfCheck
