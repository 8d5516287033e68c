import SqfCheck.Span

/-!
# Diagnostics

What the checker has to say about a script : a kind, a severity, a span and a message.
-/

namespace SqfCheck

/-- What a diagnostic is about. -/
inductive DiagnosticKind where
  /-- The tokens do not form statements. -/
  | syntaxError
  /-- An operand has a type that the command does not take. -/
  | typeMismatch
  /-- A command has the wrong number of operands. -/
  | arityMismatch
  /-- A local variable is used and nowhere defined. -/
  | undefinedLocal
  /-- A file that a command loads does not exist. -/
  | missingFile
deriving DecidableEq, Repr, Inhabited

/-- How serious a diagnostic is. -/
inductive Severity where
  | error
  | warning
deriving DecidableEq, Repr, Inhabited

/-- One finding about a script. -/
structure Diagnostic where
  /-- What it is about. -/
  kind : DiagnosticKind
  /-- How serious it is. -/
  severity : Severity
  /-- Where in the script it is. -/
  span : Span
  /-- What it says. -/
  message : String
deriving DecidableEq, Repr, Inhabited

namespace Diagnostic

/-- An error of the given kind. -/
def error (kind : DiagnosticKind) (span : Span) (message : String) : Diagnostic :=
  ⟨kind, .error, span, message⟩

/-- A warning of the given kind. -/
def warning (kind : DiagnosticKind) (span : Span) (message : String) : Diagnostic :=
  ⟨kind, .warning, span, message⟩

/-- An error in the order of tokens. -/
def ofSyntax (span : Span) (message : String) : Diagnostic :=
  error .syntaxError span message

/-- The same finding as an error. -/
def escalate (d : Diagnostic) : Diagnostic :=
  { d with severity := .error }

/-- Whether the finding is an error. -/
def isError (d : Diagnostic) : Bool :=
  d.severity = .error

end Diagnostic

end SqfCheck
