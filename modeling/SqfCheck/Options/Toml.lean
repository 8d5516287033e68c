import SqfCheck.Options
import SqfCheck.Text

/-!
# Option files

Options can be kept in a TOML file, a line for each : the name of the option, an equals sign and
its value. Six options are booleans and one is a string. A file with anything else in it, an
option given twice, or a value of another type is refused, so of TOML only comments, booleans
and the four sorts of strings have to be read.

A string is read character by character (`Toml.string`) ; `StringState` says what was met just
before, such as a backslash or quotes that may be the end.
-/

namespace SqfCheck

namespace Toml

open Text

/-- A value that an option can have. -/
inductive Value where
  | boolean (b : Bool)
  | string (s : String)
deriving DecidableEq, Repr, Inhabited

/-! ## Characters -/

/-- A blank inside a line. -/
def isSpace (c : Char) : Bool :=
  c == ' ' || c == '\t'

/-- A character that comments and strings can have : no control character but the tab. -/
def isPrintable (c : Char) : Bool :=
  c == '\t' || (0x20 ≤ c.toNat && c.toNat != 0x7F)

/-- A character of a key without quotes. -/
def isBare (c : Char) : Bool :=
  c.isAlphanum || c == '_' || c == '-'

/-- The text with each carriage return before a newline dropped. -/
def unifyNewlines : List Char → List Char
  | [] => []
  | [c] => [c]
  | c :: d :: cs =>
    if c = '\r' ∧ d = '\n' then '\n' :: unifyNewlines cs else c :: unifyNewlines (d :: cs)

/-- The value of a hexadecimal digit. -/
def hexValue (c : Char) : Option Nat :=
  if !isHexDigit c then none
  else if c.isDigit then some (c.toNat - 48)
  else some (c.toLower.toNat - 87)

/-- The character that a letter after a backslash stands for. -/
def escaped (c : Char) : Option Char :=
  [('b', '\x08'), ('t', '\t'), ('n', '\n'), ('f', '\x0c'), ('r', '\r'), ('"', '"'),
    ('\\', '\\')].lookup c

/-- The character with the given code, if there is one. -/
def character (code : Nat) : Option Char :=
  if code.isValidChar then some (Char.ofNat code) else none

/-! ## Strings -/

/-- What was met just before a character of a string. -/
inductive StringState where
  /-- This many quotes, which may be the end of a string of several lines. -/
  | quotes (n : Nat)
  /-- A backslash. -/
  | backslash
  /-- The beginning of a code, with the digits it still needs and its value so far. -/
  | code (digits value : Nat)
  /-- A backslash and blanks, which have to end the line. -/
  | lineEnd
  /-- A backslash at the end of a line, and blanks that do not count. -/
  | joined
deriving DecidableEq, Repr, Inhabited

/-- A string with more text in front, and what follows it. -/
def prepend (cs : List Char) : Option (List Char × List Char) → Option (List Char × List Char) :=
  Option.map fun (s, rest) => (cs ++ s, rest)

/-- The string up to the quotes that end it, and what follows them. A double quote makes
backslashes count ; a string of several lines ends in three quotes, up to two more before them
being part of it. -/
def string (quote : Char) (multiline : Bool) (state : StringState) :
    List Char → Option (List Char × List Char)
  | [] =>
    match state with
    | .quotes n => if 3 ≤ n then some (List.replicate (n - 3) quote, []) else none
    | _ => none
  | c :: cs =>
    let state :=
      if state = .joined ∧ ¬(isSpace c ∨ c = '\n') then .quotes 0 else state
    match state with
    | .quotes n =>
      if c = quote then
        if !multiline then some ([], cs)
        else if n = 4 then some ([quote, quote], cs)
        else string quote multiline (.quotes (n + 1)) cs
      else if 3 ≤ n then some (List.replicate (n - 3) quote, c :: cs)
      else if c = '\\' ∧ quote = '"' then
        prepend (List.replicate n quote) (string quote multiline .backslash cs)
      else if isPrintable c ∨ (multiline ∧ c = '\n') then
        prepend (List.replicate n quote ++ [c]) (string quote multiline (.quotes 0) cs)
      else none
    | .backslash =>
      match escaped c with
      | some d => prepend [d] (string quote multiline (.quotes 0) cs)
      | none =>
        if c = 'u' then string quote multiline (.code 4 0) cs
        else if c = 'U' then string quote multiline (.code 8 0) cs
        else if multiline ∧ c = '\n' then string quote multiline .joined cs
        else if multiline ∧ isSpace c then string quote multiline .lineEnd cs
        else none
    | .code digits value =>
      match hexValue c with
      | none => none
      | some d =>
        let value := 16 * value + d
        if digits ≤ 1 then
          match character value with
          | some d => prepend [d] (string quote multiline (.quotes 0) cs)
          | none => none
        else string quote multiline (.code (digits - 1) value) cs
    | .lineEnd =>
      if isSpace c then string quote multiline .lineEnd cs
      else if c = '\n' then string quote multiline .joined cs
      else none
    | .joined => string quote multiline .joined cs

/-- The text without a newline at its beginning. -/
def dropNewline : List Char → List Char
  | '\n' :: cs => cs
  | cs => cs

/-! ## Lines -/

/-- The value at the beginning of the text, and what follows it. -/
def value : List Char → Option (Value × List Char)
  | 't' :: 'r' :: 'u' :: 'e' :: cs => some (.boolean true, cs)
  | 'f' :: 'a' :: 'l' :: 's' :: 'e' :: cs => some (.boolean false, cs)
  | '"' :: '"' :: '"' :: cs => text (string '"' true (.quotes 0) (dropNewline cs))
  | '\'' :: '\'' :: '\'' :: cs => text (string '\'' true (.quotes 0) (dropNewline cs))
  | '"' :: cs => text (string '"' false (.quotes 0) cs)
  | '\'' :: cs => text (string '\'' false (.quotes 0) cs)
  | _ => none
where
  /-- A string that was read, as a value. -/
  text : Option (List Char × List Char) → Option (Value × List Char) :=
    Option.map fun (s, rest) => (.string (String.ofList s), rest)

/-- The key at the beginning of the text, and what follows it. -/
def key : List Char → Option (List Char × List Char)
  | '"' :: cs => string '"' false (.quotes 0) cs
  | '\'' :: cs => string '\'' false (.quotes 0) cs
  | cs =>
    match cs.takeWhile isBare with
    | [] => none
    | name => some (name, cs.dropWhile isBare)

/-- What follows the line, after blanks and a comment. -/
def lineRest (cs : List Char) : Option (List Char) :=
  let rest :=
    match cs.dropWhile isSpace with
    | '#' :: comment => comment.dropWhile isPrintable
    | rest => rest
  match rest with
  | [] => some []
  | '\n' :: rest => some rest
  | _ => none

/-- The option on a line, and what follows the line. -/
def setting (cs : List Char) : Option ((String × Value) × List Char) := do
  let (name, rest) ← key cs
  match rest.dropWhile isSpace with
  | '=' :: rest =>
    let (v, rest) ← value (rest.dropWhile isSpace)
    let rest ← lineRest rest
    return ((String.ofList name, v), rest)
  | _ => none

/-- The options on the lines of a text. Each step reads a line, so as many steps as the text has
characters are enough. -/
def settings : Nat → List Char → Option (List (String × Value))
  | _, [] => some []
  | 0, _ :: _ => none
  | steps + 1, cs =>
    match lineRest cs with
    | some rest => settings steps rest
    | none => do
      let (s, rest) ← setting (cs.dropWhile isSpace)
      let more ← settings steps rest
      return s :: more

/-- The options that a document sets, in order. A mark for the order of bytes may come first. -/
def read (document : String) : Option (List (String × Value)) :=
  let text := unifyNewlines document.toList
  let text :=
    match text with
    | '\ufeff' :: rest => rest
    | text => text
  settings text.length text

end Toml

namespace Options

/-- The options with one of them set. -/
def set (o : Options) : String → Toml.Value → Option Options
  | "stop_on_error", .boolean b => some { o with stopOnError := b }
  | "skip_warnings", .boolean b => some { o with skipWarnings := b }
  | "output_variables", .boolean b => some { o with outputVariables := b }
  | "exit_code_enabled", .boolean b => some { o with exitCodeEnabled := b }
  | "warning_as_error", .boolean b => some { o with warningAsError := b }
  | "check_paths", .boolean b => some { o with checkPaths := b }
  | "root_path", .string s => some { o with rootPath := some ⟨s⟩ }
  | _, _ => none

/-- The options that a TOML document sets, if it does nothing else and sets none twice. -/
def ofToml (document : String) : Option Options := do
  let settings ← Toml.read document
  if (settings.map Prod.fst).Nodup then
    settings.foldlM (fun o (name, v) => o.set name v) {}
  else none

end Options

end SqfCheck
