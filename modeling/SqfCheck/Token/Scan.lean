import SqfCheck.Lexeme

/-!
# From text to tokens

`Token.scan` cuts a script into tokens. The lexemes of the text are laid out from line one,
column one (`Token.place`) : blanks only move the position, the first comment of a gap is
kept for the token after it, and the list ends in one token for the end of the text.
-/

namespace SqfCheck

namespace Token

/-- The tokens that the lexemes make when the first of them stands at `p` and `pending` is
the comment already met in the gap before it. -/
def place (p : Position) (pending : Option Comment) : List Lexeme → List Token
  | [] => [ending (.point p) pending]
  | l :: ls =>
    match l.cls with
    | .blank => place (p.after l.text) pending ls
    | .comment =>
      place (p.after l.text)
        (pending.or (some ⟨String.ofList l.text, .ofText p l.text⟩)) ls
    | .token kind =>
      ⟨kind, String.ofList l.text, .ofText p l.text, pending⟩ :: place (p.after l.text) none ls

/-- The tokens of a script. -/
def scan (source : String) : List Token :=
  place .start none (Lexeme.all source.toList)

end Token

end SqfCheck
