/-!
# JSON text

A `Json` value is written without blanks, the fields of an object in their order. Inside a
string the quote, the backslash and the control characters below the blank are escaped, the
common ones by a letter and the others by their code ; every other character stands as it is.
-/

namespace SqfCheck

/-- A JSON value, its numbers being natural numbers. -/
inductive Json where
  | null
  | number (n : Nat)
  | string (s : String)
  | array (elements : List Json)
  | object (fields : List (String × Json))

instance : Inhabited Json := ⟨.null⟩

namespace Json

/-- The hexadecimal digit of a number below sixteen. -/
def hexDigit (n : Nat) : Char :=
  if n < 10 then Char.ofNat (48 + n) else Char.ofNat (87 + n)

/-- A character as it is written inside a string. -/
def escape (c : Char) : List Char :=
  if c = '"' then ['\\', '"']
  else if c = '\\' then ['\\', '\\']
  else if c = '\n' then ['\\', 'n']
  else if c = '\r' then ['\\', 'r']
  else if c = '\t' then ['\\', 't']
  else if c = '\x08' then ['\\', 'b']
  else if c = '\x0c' then ['\\', 'f']
  else if c.toNat < 0x20 then
    ['\\', 'u', '0', '0', hexDigit (c.toNat / 16), hexDigit (c.toNat % 16)]
  else [c]

/-- A string between its quotes. -/
def quote (s : String) : List Char :=
  '"' :: (s.toList.flatMap escape ++ ['"'])

mutual

/-- A value as text. -/
def write : Json → List Char
  | null => "null".toList
  | number n => n.repr.toList
  | string s => quote s
  | array elements => '[' :: (writeElements elements ++ [']'])
  | object fields => '\x7b' :: (writeFields fields ++ ['\x7d'])

/-- Values as text, with commas between them. -/
def writeElements : List Json → List Char
  | [] => []
  | [j] => j.write
  | j :: k :: js => j.write ++ ',' :: writeElements (k :: js)

/-- Fields as text, with commas between them. -/
def writeFields : List (String × Json) → List Char
  | [] => []
  | [(key, j)] => quote key ++ ':' :: j.write
  | (key, j) :: f :: fs => quote key ++ ':' :: (j.write ++ ',' :: writeFields (f :: fs))

end

/-- A value as text. -/
def text (j : Json) : String :=
  String.ofList j.write

end Json

end SqfCheck
