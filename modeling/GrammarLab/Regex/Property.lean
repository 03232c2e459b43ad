import GrammarLab.Regex.CharSet

/-!
# Character properties

The sets that a pattern names: general categories, two scripts and three properties. Names are
read loosely: case, blanks, `_`, `-` and a leading `is` make no difference.
-/

namespace GrammarLab.CharSet

open Text

def digit : CharSet := ⟨Table.decimalNumber⟩

def space : CharSet := ⟨Table.whiteSpace⟩

def alphabetic : CharSet := ⟨Table.letter ++ Table.otherAlphabetic⟩

/-- Letters, marks, digits, connectors and joiners. -/
def word : CharSet := ⟨alphabetic.ranges ++ Table.otherWord⟩

/-- A leading `is`, in either case, is dropped. -/
def withoutIs (name : List Char) : List Char :=
  match name with
  | i :: s :: rest => if (i = 'i' || i = 'I') && (s = 's' || s = 'S') then rest else name
  | _ => name

/-- The form in which names are compared. -/
def looseName (name : List Char) : String :=
  String.ofList (((withoutIs name).filter fun c =>
    c.toNat < 128 && c ≠ ' ' && c ≠ '_' && c ≠ '-').map Char.toLower)

/-- A general category by its loose name. -/
def category? (name : String) : Option CharSet :=
  if name = "l" || name = "letter" then some ⟨Table.letter⟩
  else if name = "lu" || name = "uppercaseletter" then some ⟨Table.uppercaseLetter⟩
  else if name = "ll" || name = "lowercaseletter" then some ⟨Table.lowercaseLetter⟩
  else if name = "n" || name = "number" then some ⟨Table.number⟩
  else if name = "nd" || name = "decimalnumber" || name = "digit" then some digit
  else if name = "zs" || name = "spaceseparator" then some ⟨Table.spaceSeparator⟩
  else if name = "any" then some all
  else if name = "ascii" then some ⟨[(0, 127)]⟩
  else none

/-- A script by its loose name. -/
def script? (name : String) : Option CharSet :=
  if name = "greek" || name = "grek" then some ⟨Table.greek⟩
  else if name = "cyrillic" || name = "cyrl" then some ⟨Table.cyrillic⟩
  else none

/-- A property that holds or not, by its loose name. -/
def binary? (name : String) : Option CharSet :=
  if name = "alphabetic" || name = "alpha" then some alphabetic
  else if name = "whitespace" || name = "space" || name = "wspace" then some space
  else if name = "uppercase" || name = "upper" then
    some ⟨Table.uppercaseLetter ++ Table.otherUppercase⟩
  else none

/-- The set that a name alone stands for. -/
def named? (name : List Char) : Option CharSet :=
  let loose := looseName name
  (binary? loose).or ((category? loose).or (script? loose))

/-- The set of the characters for which the property has the value. -/
def valued? (property value : List Char) : Option CharSet :=
  let loose := looseName property
  if loose = "gc" || loose = "generalcategory" then category? (looseName value)
  else if loose = "sc" || loose = "script" then script? (looseName value)
  else none

/-- The text before the first place where `mark` stands, and the text behind the mark. -/
def splitAt? (mark : List Char) : List Char → Option (List Char × List Char)
  | [] => none
  | c :: cs =>
    if mark.isPrefixOf (c :: cs) then some ([], (c :: cs).drop mark.length)
    else (splitAt? mark cs).map fun (before, behind) => (c :: before, behind)

/-- What stands between the braces of a property: a name, or a property and its value with `=` or
`:` between them, or with `!=` to leave that value out. -/
def property? (text : List Char) : Option CharSet :=
  match splitAt? ['!', '='] text with
  | some (property, value) => (valued? property value).map compl
  | none =>
    match (splitAt? [':'] text).or (splitAt? ['='] text) with
    | some (property, value) => valued? property value
    | none => named? text

end GrammarLab.CharSet
