import GrammarLab.Body.Structure
import GrammarLab.LeftRecursion

/-!
# Terminals

Which token types the parts of a parser rule accept by themselves, how many tokens they need at
least, and how they are named to someone who asks what was expected.
-/

namespace GrammarLab.Matcher

open Body

/-- The values of the literals that token rules spell, each with the name of its rule. -/
structure Literals where
  rules : List (List Char × String)
deriving DecidableEq, Repr

namespace Literals

def ofGrammar (g : Grammar) : Literals :=
  ⟨g.tokenRules.filterMap fun r => r.structure.soleLiteral?.map fun value => (value, r.name)⟩

/-- A literal with its quotes accepts its own spelling, another spelling of its value, and the
rules that spell its value. -/
def accepts (ls : Literals) (quoted : List Char) (type : String) : Bool :=
  let value := Literal.unescape quoted
  type.toList = quoted ||
    (type.toList.head? = some '\'' && Literal.unescape type.toList = value) ||
    ls.rules.any fun (v, name) => v = value && name = type

end Literals

mutual

/-- The content accepts the token by its type alone. Of a group only alternatives of a single
element do. -/
def terminalAccepts (ls : Literals) (type : String) : Content → Bool
  | .token name => type = name
  | .literal quoted => ls.accepts quoted type
  | .endOfInput => type = GrammarLab.endOfInput
  | .group branches => anyBranchAccepts ls type branches
  | _ => false

def anyBranchAccepts (ls : Literals) (type : String) : List (AlternativeOf Content) → Bool
  | [] => false
  | ⟨elements, _, _, _⟩ :: rest =>
    soleElementAccepts ls type elements || anyBranchAccepts ls type rest

def soleElementAccepts (ls : Literals) (type : String) : List (ElementOf Content) → Bool
  | [⟨content, _, _⟩] => terminalAccepts ls type content
  | _ => false

end

mutual

/-- The least number of tokens that the elements need. -/
def minTokens : List (ElementOf Content) → Nat
  | [] => 0
  | ⟨content, modifier, _⟩ :: rest =>
    (if modifier.isOptional then 0 else contentMinTokens content) + minTokens rest

def contentMinTokens : Content → Nat
  | .endOfInput => 0
  | .group branches => (branchesMinTokens branches).getD 0
  | _ => 1

/-- The least need of the alternatives, if there are any. -/
def branchesMinTokens : List (AlternativeOf Content) → Option Nat
  | [] => none
  | ⟨elements, _, _, _⟩ :: rest =>
    match branchesMinTokens rest with
    | none => some (minTokens elements)
    | some n => some (min (minTokens elements) n)

end

/-- The content of the next element that is required, if its tokens are known by their type. -/
def nextTerminal? (elements : List Element) : Option Content :=
  match elements.find? (!·.isOptional) with
  | some e =>
    match e.content with
    | .token name => some (.token name)
    | .literal quoted => some (.literal quoted)
    | .endOfInput => some .endOfInput
    | _ => none
  | none => none

/-- Adds the names that are not there yet. -/
def mergeNames (names more : List String) : List String := more.foldl insertOnce names

mutual

/-- The names of what could come first. -/
def expectedNames : Content → List String
  | .group branches => mergeNames [] (branchesExpected branches)
  | .token name => [name]
  | .rule name => [name]
  | .literal quoted => [String.ofList quoted]
  | .charSet text => [String.ofList text]
  | .range first last => [String.ofList (Content.range first last).render]
  | .wildcard => ["."]
  | .negated inner => [String.ofList (Content.negated inner).render]
  | .endOfInput => [GrammarLab.endOfInput]

def branchesExpected : List (AlternativeOf Content) → List String
  | [] => []
  | ⟨elements, _, _, _⟩ :: rest => elementsExpected elements ++ branchesExpected rest

def elementsExpected : List (ElementOf Content) → List String
  | [] => []
  | ⟨content, _, _⟩ :: _ => expectedNames content

end

end GrammarLab.Matcher
