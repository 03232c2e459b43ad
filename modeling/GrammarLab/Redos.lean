import GrammarLab.LeftRecursion
import GrammarLab.Pattern.Compiler

/-!
# Catastrophic backtracking

Shapes of lexer rules on which a backtracking matcher can take very long: repeated groups whose
rounds can split a text in several ways, repeated groups whose alternatives start alike, and
greedy loops that run past what closes them. The findings are advice; alternatives count as
disjoint when no character can start two of them.
-/

namespace GrammarLab

open Body

inductive RedosKind
  | nestedQuantifier
  | sharedStart
  | broadRepetition
deriving DecidableEq, Repr

def RedosKind.text : RedosKind → String
  | .nestedQuantifier => "nested quantifier"
  | .sharedStart => "repeated alternatives with a shared prefix"
  | .broadRepetition => "broad repetition"

structure RedosFinding where
  rule : String
  line : Nat
  kind : RedosKind
  /-- The part of the body that the finding is about. -/
  pattern : String
deriving DecidableEq, Repr

namespace Redos

/-! ## Repetition without a bound -/

mutual

/-- An element repeats without a bound: it has a loop, or contains one, or names a token that
does. -/
def anyUnbounded (g : Grammar) : List (ElementOf Content) → Bool
  | [] => false
  | ⟨content, modifier, _⟩ :: rest =>
    modifier.isRepeating || isUnbounded g content || anyUnbounded g rest

def isUnbounded (g : Grammar) : Content → Bool
  | .group branches => branchesUnbounded g branches
  | .token name => (g.ruleRegex? name).any fun r => r.normal.most?.isNone
  | _ => false

def branchesUnbounded (g : Grammar) : List (AlternativeOf Content) → Bool
  | [] => false
  | ⟨elements, _, _, _⟩ :: rest => anyUnbounded g elements || branchesUnbounded g rest

end

/-! ## Disjoint alternatives -/

/-- What names the complement of a rule in front of its name. -/
def negations : List String := ["Non", "NON_", "Not", "NOT_"]

def negates (negated base : String) : Bool := negations.any fun n => n ++ base = negated

/-- The token that is all of the alternative. -/
def soleToken? (b : Branch) : Option String :=
  match b.elements with
  | [⟨.token name, _, _⟩] => some name
  | _ => none

/-- The two alternatives are a token and its complement by name. -/
def areComplementary (a b : Branch) : Bool :=
  match soleToken? a, soleToken? b with
  | some x, some y => negates x y || negates y x
  | _, _ => false

/-- The characters that the alternative can start with, unless it can be empty or has no
spelling. -/
def firstChars? (g : Grammar) (b : Branch) : Option CharSet := do
  let t ← (g.spellPattern b.render).toOption
  let r := (← Regex.parse? t.text).regex.normal
  if r.least? = some 0 then none else some r.first

def areDisjoint (a b : Option CharSet) : Bool :=
  match a, b with
  | some s, some t => (s.inter t).isEmpty
  | _, _ => false

/-- No two alternatives can start with the same character; complements by name are taken at their
word. -/
def pairwiseDisjoint (g : Grammar) : List Branch → Bool
  | [] => true
  | b :: rest =>
    let first := firstChars? g b
    rest.all (fun c => areComplementary b c || areDisjoint first (firstChars? g c)) &&
      pairwiseDisjoint g rest

/-! ## Shapes -/

/-- Rounds of a repeated group with these alternatives can split a text in several ways. With one
alternative an element that is required and bounded marks the end of a round. -/
def nestsUnbounded (g : Grammar) (branches : List Branch) : Bool :=
  branchesUnbounded g branches &&
    match branches with
    | [b] => b.elements.all fun e => e.isOptional || anyUnbounded g [e]
    | _ => !pairwiseDisjoint g branches

/-- Written alike, or literals that start with the same character. -/
def startAlike (a b : Element) : Bool :=
  a.render = b.render ||
    match a.content, b.content with
    | .literal x, .literal y =>
      match (Literal.unescape x).head?, (Literal.unescape y).head? with
      | some c, some d => c = d
      | _, _ => false
    | _, _ => false

def anyAlike : List Element → Bool
  | [] => false
  | e :: rest => rest.any (startAlike e) || anyAlike rest

/-- Two of the alternatives start alike. -/
def sharesStart (branches : List Branch) : Bool := anyAlike (branches.filterMap (·.elements.head?))

/-- The pattern of the content matches the character. -/
def matchesChar (g : Grammar) (content : Content) (c : Char) : Bool :=
  match (g.spellPattern content.render).bind Pattern.ofSpelling with
  | .ok p => (p.matchAt [c] 0).isSome
  | .error _ => false

/-- A greedy loop over any character with something behind it, or over a negated set that has the
first character of the literal behind it. -/
def isBroadLoop (g : Grammar) (e next : Element) : Bool :=
  e.isRepeating && e.greedy &&
    match e.content, next.content with
    | .wildcard, _ => true
    | .negated inner, .literal quoted =>
      (Literal.unescape quoted).head?.any fun c => matchesChar g (.negated inner) c
    | _, _ => false

/-! ## Findings -/

/-- What is found for a repeated group itself. -/
def groupShapes (g : Grammar) (e : Element) : List (RedosKind × List Char) :=
  match e.content with
  | .group branches =>
    if e.isRepeating then
      (if nestsUnbounded g branches then [(.nestedQuantifier, e.render)] else []) ++
        (if sharesStart branches then [(.sharedStart, e.render)] else [])
    else []
  | _ => []

/-- What is found for an element with another one behind it. -/
def loopShapes (g : Grammar) (e : Element) : List Element → List (RedosKind × List Char)
  | [] => []
  | next :: _ =>
    if isBroadLoop g e next then [(.broadRepetition, e.render ++ ' ' :: next.render)] else []

mutual

/-- The shapes in a run of elements, each with the offset of the innermost alternative that it
stands in. -/
def elementShapes (g : Grammar) (offset : Nat) :
    List (ElementOf Content) → List (Nat × RedosKind × List Char)
  | [] => []
  | ⟨content, modifier, greedy⟩ :: rest =>
    (groupShapes g ⟨content, modifier, greedy⟩).map (offset, ·) ++ contentShapes g content ++
      (loopShapes g ⟨content, modifier, greedy⟩ rest).map (offset, ·) ++
      elementShapes g offset rest

def contentShapes (g : Grammar) : Content → List (Nat × RedosKind × List Char)
  | .group branches => branchShapes g branches
  | _ => []

def branchShapes (g : Grammar) :
    List (AlternativeOf Content) → List (Nat × RedosKind × List Char)
  | [] => []
  | ⟨elements, _, _, offset⟩ :: rest => elementShapes g offset elements ++ branchShapes g rest

end

end Redos

/-- The findings of all lexer rules, in source order. -/
def Grammar.redosFindings (g : Grammar) : List RedosFinding :=
  g.lexerRules.flatMap fun r =>
    (Redos.branchShapes g r.structure.alternatives).map fun (offset, kind, text) =>
      ⟨r.name, r.lineAt offset, kind, String.ofList text⟩

def Grammar.redosDiagnostics (g : Grammar) : Diagnostics :=
  g.redosFindings.map fun f =>
    ((Diagnostic.ofKind .redosRisk).onLine f.line).onRule f.rule
      |>.withDetail s!"{f.kind.text} `{f.pattern}` in `{f.rule}`"

end GrammarLab
