import GrammarLab.Text.Hex

/-!
# Quoted literals

What a literal between single quotes stands for. A backslash before `n r t b f` names a control
character, before `u` and four hexadecimal digits a code point, and before anything else that
character itself.

    unescape ['\'', '\\', 'n', '\''] = ['\n']
-/

namespace GrammarLab.Literal

open Text

/-- The text between the quotes, or all of it when it does not stand between two of them. -/
def unquote (s : List Char) : List Char :=
  match s with
  | '\'' :: rest => if rest.getLast? = some '\'' then rest.dropLast else s
  | _ => s

/-- The character of up to four digits behind `\u`. One plus sign may stand before the digits. -/
def codePoint? (digits : List Char) : Option Char :=
  match digits with
  | '+' :: rest => (hexNumber? rest).bind scalar?
  | _ => (hexNumber? digits).bind scalar?

/-- A code point that is none stands for its own text. -/
def decodePoint (digits : List Char) : List Char :=
  match codePoint? digits with
  | some c => [c]
  | none => 'u' :: digits

/-- What one character behind a backslash stands for. -/
def decodeEscape (c : Char) : Char :=
  if c = 'n' then '\n'
  else if c = 'r' then '\r'
  else if c = 't' then '\t'
  else if c = 'b' then '\x08'
  else if c = 'f' then '\x0c'
  else c

/-- The text with its escapes replaced; a backslash at the end stands for itself. -/
def decode : List Char → List Char
  | [] => []
  | ['\\'] => ['\\']
  | '\\' :: 'u' :: a :: b :: c :: d :: rest => decodePoint [a, b, c, d] ++ decode rest
  | '\\' :: 'u' :: digits => decodePoint digits
  | '\\' :: e :: rest => decodeEscape e :: decode rest
  | c :: rest => c :: decode rest

/-- The value of a literal, with or without its quotes. -/
def unescape (s : List Char) : List Char := decode (unquote s)

end GrammarLab.Literal
