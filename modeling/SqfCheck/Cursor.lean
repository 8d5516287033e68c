import SqfCheck.Token

/-!
# A place among tokens

A `Cursor` stands on a token and has the ones after it ahead. A list of tokens is read from
its first token on, with an end added if it has none (`Cursor.ofTokens`) ; on the last token a
cursor stays where it is.
-/

namespace SqfCheck

/-- A token with those that follow. -/
structure Cursor where
  /-- The token the cursor stands on. -/
  current : Token
  /-- The tokens after it. -/
  rest : List Token
deriving DecidableEq, Repr, Inhabited

namespace Cursor

/-- What follows `last` in a list of tokens, with an end added if there is none. -/
def completed (last : Token) : List Token → List Token
  | [] => if last.kind = .endOfInput then [] else [.ending last.span none]
  | t :: ts => t :: completed t ts

/-- The cursor on the first of the tokens. -/
def ofTokens : List Token → Cursor
  | [] => ⟨.ending (.point .start) none, []⟩
  | t :: ts => ⟨t, completed t ts⟩

/-- The tokens from the current one on. -/
def tokens (c : Cursor) : List Token :=
  c.current :: c.rest

/-- The cursor one token further, unless it is on the last. -/
def advance (c : Cursor) : Cursor :=
  match c.rest with
  | [] => c
  | t :: ts => ⟨t, ts⟩

/-- The tokens from the current one on, up to the one on which a later cursor stands. -/
def upTo (c later : Cursor) : List Token :=
  c.tokens.take (c.tokens.length - later.tokens.length)

/-- The token `n` places further, or the last. -/
def nth (c : Cursor) : Nat → Token
  | 0 => c.current
  | n + 1 => c.advance.nth n

/-- Whether the cursor stands on the end. -/
def atEnd (c : Cursor) : Bool :=
  c.current.kind = .endOfInput

/-- The cursor on the first token, from `t` on, that does not satisfy `p`, or on the last. -/
def seek (p : Token → Bool) (t : Token) : List Token → Cursor
  | [] => ⟨t, []⟩
  | u :: us => if p t then seek p u us else ⟨t, u :: us⟩

/-- The cursor on the first token, from the current one on, that does not satisfy `p`, or on
the last. -/
def dropWhile (p : Token → Bool) (c : Cursor) : Cursor :=
  seek p c.current c.rest

/-- Whether a token separates statements. -/
def isSeparator (t : Token) : Bool :=
  t.kind = .semicolon || t.kind = .comma

/-- The cursor past the argument list that starts at `t`, with the span of the parenthesis
that closes it, where `depth` parentheses are open before `t`. Without that parenthesis the
cursor ends on the end of the tokens. -/
def skipArguments (depth : Nat) (t : Token) : List Token → Cursor × Option Span
  | [] => (⟨t, []⟩, none)
  | u :: us =>
    match t.kind with
    | .leftParen => skipArguments (depth + 1) u us
    | .rightParen =>
      match depth with
      | d + 2 => skipArguments (d + 1) u us
      | _ => (⟨u, us⟩, some t.span)
    | .endOfInput => (⟨t, u :: us⟩, none)
    | _ => skipArguments depth u us

end Cursor

end SqfCheck
