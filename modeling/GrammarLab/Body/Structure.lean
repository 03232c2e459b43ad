import GrammarLab.Body.Command
import GrammarLab.Name
import GrammarLab.Literal

/-!
# Structure of a body

A body is a list of alternatives, an alternative a list of elements. Labels of elements, actions,
predicates and options take no input and have no place here; the label of an alternative and its
commands stay with it.

The written form has single blanks between elements and reads back as the same structure, but for
labels, commands and offsets.
-/

namespace GrammarLab.Body

inductive Modifier
  | once
  | optional
  | zeroOrMore
  | oneOrMore
deriving DecidableEq, Repr

namespace Modifier

def isOptional (m : Modifier) : Bool := m = optional || m = zeroOrMore

def isRepeating (m : Modifier) : Bool := m = zeroOrMore || m = oneOrMore

def symbol : Modifier → List Char
  | once => []
  | optional => ['?']
  | zeroOrMore => ['*']
  | oneOrMore => ['+']

end Modifier

/-- Something with its modifier. -/
structure ElementOf (α : Type) where
  content : α
  modifier : Modifier := .once
  greedy : Bool := true
deriving DecidableEq

/-- A run of elements with the label and the commands that stand behind them. -/
structure AlternativeOf (α : Type) where
  elements : List (ElementOf α) := []
  label : Option String := none
  commands : List Command := []
  /-- The byte offset of its first token within the body. -/
  offset : Nat := 0
deriving DecidableEq

inductive Content where
  /-- A lexer rule or a declared token. -/
  | token (name : String)
  | rule (name : String)
  /-- A literal with its quotes. -/
  | literal (quoted : List Char)
  /-- A character class with its brackets. -/
  | charSet (text : List Char)
  /-- A range between two literals with their quotes. -/
  | range (first last : List Char)
  | group (alternatives : List (AlternativeOf Content))
  | wildcard
  | negated (inner : Content)
  | endOfInput

abbrev Element := ElementOf Content

abbrev Branch := AlternativeOf Content

namespace ElementOf

variable {α : Type}

def isOptional (e : ElementOf α) : Bool := e.modifier.isOptional

def isRepeating (e : ElementOf α) : Bool := e.modifier.isRepeating

end ElementOf

/-! ## Equality -/

mutual

/-- The contents agree in all they hold, the labels, commands and offsets within groups included. -/
def Content.agrees : Content → Content → Bool
  | .token name, .token name' => name = name'
  | .rule name, .rule name' => name = name'
  | .literal quoted, .literal quoted' => quoted = quoted'
  | .charSet text, .charSet text' => text = text'
  | .range first last, .range first' last' => first = first' && last = last'
  | .group branches, .group branches' => branchesAgree branches branches'
  | .wildcard, .wildcard => true
  | .negated inner, .negated inner' => inner.agrees inner'
  | .endOfInput, .endOfInput => true
  | _, _ => false

def branchesAgree : List (AlternativeOf Content) → List (AlternativeOf Content) → Bool
  | [], [] => true
  | ⟨elements, label, commands, offset⟩ :: rest, ⟨elements', label', commands', offset'⟩ :: rest' =>
    elementsAgree elements elements' && label = label' && commands = commands' &&
      offset = offset' && branchesAgree rest rest'
  | _, _ => false

def elementsAgree : List (ElementOf Content) → List (ElementOf Content) → Bool
  | [], [] => true
  | ⟨content, modifier, greedy⟩ :: rest, ⟨content', modifier', greedy'⟩ :: rest' =>
    content.agrees content' && modifier = modifier' && greedy = greedy' && elementsAgree rest rest'
  | _, _ => false

end

mutual

theorem Content.agrees_iff : ∀ c d : Content, c.agrees d = true ↔ c = d
  | .group branches, d => by
    cases d with
    | group branches' => simp [Content.agrees, branchesAgree_iff branches branches']
    | _ => simp [Content.agrees]
  | .negated inner, d => by
    cases d with
    | negated inner' => simp [Content.agrees, Content.agrees_iff inner inner']
    | _ => simp [Content.agrees]
  | .token _, d => by cases d <;> simp [Content.agrees]
  | .rule _, d => by cases d <;> simp [Content.agrees]
  | .literal _, d => by cases d <;> simp [Content.agrees]
  | .charSet _, d => by cases d <;> simp [Content.agrees]
  | .range _ _, d => by cases d <;> simp [Content.agrees]
  | .wildcard, d => by cases d <;> simp [Content.agrees]
  | .endOfInput, d => by cases d <;> simp [Content.agrees]

theorem branchesAgree_iff : ∀ bs cs : List (AlternativeOf Content),
    branchesAgree bs cs = true ↔ bs = cs
  | [], cs => by cases cs <;> simp [branchesAgree]
  | _ :: _, [] => by simp [branchesAgree]
  | ⟨elements, _, _, _⟩ :: rest, ⟨elements', _, _, _⟩ :: rest' => by
    simp [branchesAgree, elementsAgree_iff elements elements', branchesAgree_iff rest rest',
      and_assoc]

theorem elementsAgree_iff : ∀ es fs : List (ElementOf Content), elementsAgree es fs = true ↔ es = fs
  | [], fs => by cases fs <;> simp [elementsAgree]
  | _ :: _, [] => by simp [elementsAgree]
  | ⟨content, _, _⟩ :: rest, ⟨content', _, _⟩ :: rest' => by
    simp [elementsAgree, Content.agrees_iff content content', elementsAgree_iff rest rest',
      and_assoc]

end

instance : DecidableEq Content := fun c d => decidable_of_iff _ (Content.agrees_iff c d)

/-- A body as its alternatives. -/
structure Structure where
  alternatives : List Branch := []
deriving DecidableEq

/-! ## Written form -/

mutual

def Content.render : Content → List Char
  | .token name => name.toList
  | .rule name => name.toList
  | .literal quoted => quoted
  | .charSet text => text
  | .range first last => first ++ '.' :: '.' :: last
  | .group branches => '(' :: renderBranches true branches ++ [' ', ')']
  | .wildcard => ['.']
  | .negated inner => '~' :: inner.render
  | .endOfInput => GrammarLab.endOfInput.toList

/-- The alternatives of a group, with a pipe before each but the first. -/
def renderBranches (first : Bool) : List (AlternativeOf Content) → List Char
  | [] => []
  | ⟨elements, _, _, _⟩ :: rest =>
    (if first then [] else [' ', '|']) ++
      (if elements.isEmpty then [] else ' ' :: renderElements elements) ++
      renderBranches false rest

def renderElements : List (ElementOf Content) → List Char
  | [] => []
  | ⟨content, modifier, greedy⟩ :: rest =>
    content.render ++ modifier.symbol ++ (if greedy then [] else ['?']) ++
      (if rest.isEmpty then [] else ' ' :: renderElements rest)

end

def ElementOf.render (e : Element) : List Char :=
  e.content.render ++ e.modifier.symbol ++ (if e.greedy then [] else ['?'])

def AlternativeOf.render (b : Branch) : List Char := renderElements b.elements

def Structure.render (s : Structure) : List Char :=
  [' ', '|', ' '].intercalate (s.alternatives.map AlternativeOf.render)

/-! ## Queries -/

/-- The written forms of the elements, by which alternatives are compared. -/
def AlternativeOf.normalized (b : Branch) : List (List Char) := b.elements.map ElementOf.render

mutual

/-- The names that can come first: a leading group contributes those of all its alternatives. -/
def Content.firstNames : Content → List String
  | .token name => [name]
  | .rule name => [name]
  | .group branches => firstNamesOfBranches branches
  | _ => []

def firstNamesOfBranches : List (AlternativeOf Content) → List String
  | [] => []
  | ⟨elements, _, _, _⟩ :: rest => firstNamesOfElements elements ++ firstNamesOfBranches rest

/-- Only the first element counts, whether or not it can be left out. -/
def firstNamesOfElements : List (ElementOf Content) → List String
  | [] => []
  | ⟨content, _, _⟩ :: _ => content.firstNames

end

/-- The rule and token names that can come first in the alternative. -/
def AlternativeOf.firstNames (b : Branch) : List String := firstNamesOfElements b.elements

/-- The value of a body that is exactly one literal without a modifier, if it is not empty. -/
def Structure.soleLiteral? (s : Structure) : Option (List Char) :=
  match s.alternatives with
  | [⟨[⟨.literal quoted, .once, _⟩], _, _, _⟩] =>
    let value := Literal.unescape quoted
    if value.isEmpty then none else some value
  | _ => none

end GrammarLab.Body
