import GrammarLab.Config
import GrammarLab.LeftRecursion
import GrammarLab.Pattern.Compiler
import GrammarLab.Text.Quoted

/-!
# Ambiguities

Alternatives that repeat an earlier one or start like it, optional elements that can be read in
two ways, and token rules that lose every tie. Alternatives are compared by the written forms of
their elements.
-/

namespace GrammarLab

open Body

/-! ## Alternatives -/

/-- The pairs of an earlier and a later place below `n`, in order of the later one. -/
def earlierPairs (n : Nat) : List (Nat × Nat) :=
  (List.range n).flatMap fun j => (List.range j).map fun i => (i, j)

/-- A report on the line on which an alternative starts. -/
def Rule.reportAt (r : Rule) (kind : DiagnosticKind) (b : Branch) (detail : String) : Diagnostic :=
  ((Diagnostic.ofKind kind).onLine (r.lineAt b.offset)).onRule r.name |>.withDetail detail

/-- The first of the earlier alternatives that is written like the `j`-th one, by its place. -/
def duplicateOf? (normalized : List (List (List Char))) (j : Nat) : Option Nat :=
  (normalized.take j).findIdx? fun n => some n = normalized[j]?

def Rule.duplicates (r : Rule) (branches : List Branch) : Diagnostics :=
  let normalized := branches.map AlternativeOf.normalized
  (branches.zipIdx).filterMap fun (b, j) => do
    let i ← duplicateOf? normalized j
    let earlier ← branches[i]?
    let text := String.ofList b.render
    let detail := s!"alternative {j + 1} of `{r.name}` repeats alternative {i + 1}: `{text}`"
    return (r.reportAt .duplicateAlternative b detail).relatedTo "first occurrence"
      (r.lineAt earlier.offset)

/-- What two alternatives start with alike. -/
def sharedStart : List (List Char) → List (List Char) → List (List Char)
  | x :: xs, y :: ys => if x = y then x :: sharedStart xs ys else []
  | _, _ => []

def Rule.overlaps (r : Rule) (least : Nat) (branches : List Branch) : Diagnostics :=
  (earlierPairs branches.length).filterMap fun (i, j) => do
    let a ← branches[i]?
    let b ← branches[j]?
    let start := sharedStart a.normalized b.normalized
    if a.normalized = b.normalized || start.length < max least 1 then none
    else
      let text := String.ofList ([' '].intercalate start)
      return r.reportAt .overlappingAlternatives b
        s!"alternatives {i + 1} and {j + 1} of `{r.name}` both start with `{text}`"

/-- An optional element right before the same content that is not optional, or that may also be
left out or repeated. -/
def isAmbiguousPair (a b : Element) : Bool :=
  a.modifier = .optional && a.content = b.content &&
    (b.modifier = .once || b.modifier = .zeroOrMore)

/-- The neighbours that form an ambiguous pair. -/
def ambiguousPairs : List Element → List (Element × Element)
  | a :: b :: rest =>
    (if isAmbiguousPair a b then [(a, b)] else []) ++ ambiguousPairs (b :: rest)
  | _ => []

mutual

/-- The alternatives within groups of the elements, each before those within it. -/
def innerBranches : List (ElementOf Content) → List Branch
  | [] => []
  | ⟨content, _, _⟩ :: rest => groupBranches content ++ innerBranches rest

def groupBranches : Content → List Branch
  | .group branches => branchesWithin branches
  | _ => []

def branchesWithin : List (AlternativeOf Content) → List Branch
  | [] => []
  | ⟨elements, label, commands, offset⟩ :: rest =>
    ⟨elements, label, commands, offset⟩ :: innerBranches elements ++ branchesWithin rest

end

def Rule.ambiguousOptionals (r : Rule) (branches : List Branch) : Diagnostics :=
  (branchesWithin branches).flatMap fun b => (ambiguousPairs b.elements).map fun (x, y) =>
    r.reportAt .ambiguousOptional b
      s!"`{String.ofList x.render} {String.ofList y.render}` in `{r.name}`"

def Rule.alternativeDiagnostics (r : Rule) (o : AmbiguityOptions) : Diagnostics :=
  let branches := r.structure.alternatives
  (if o.duplicateAlternatives then r.duplicates branches else []) ++
    (if o.overlappingPrefixes && r.isParser then r.overlaps o.minSharedPrefix branches else []) ++
    (if o.ambiguousOptionals then r.ambiguousOptionals branches else [])

/-! ## Lexer conflicts -/

/-- The rule has a pattern, and it matches all of the text. -/
def CompiledRule.matchesWhole (c : CompiledRule) (s : List Char) : Bool :=
  match c.2 with
  | .ok p => p.matchesWhole s
  | .error _ => false

/-- The first of the earlier tokens of the same mode that matches all of the literal. -/
def shadow? (earlier : List CompiledRule) (mode : Option String) (literal : List Char) :
    Option Rule :=
  (earlier.find? fun c => c.1.mode = mode && c.matchesWhole literal).map (·.1)

/-- A rule that is one literal is never chosen if an earlier rule matches all of the literal. -/
def conflict? (earlier : List CompiledRule) (r : Rule) : Option Diagnostic := do
  let literal ← r.structure.soleLiteral?
  let winner ← shadow? earlier r.mode literal
  return (((Diagnostic.ofKind .lexerConflict).onLine r.lineNumber).onRule r.name
    |>.withDetail s!"`{r.name}` ('{Text.escape literal}') loses to `{winner.name}`")
    |>.withHint s!"move `{r.name}` before `{winner.name}`"

def Grammar.lexerConflicts (g : Grammar) : Diagnostics :=
  let compiled := g.compileRules g.tokenRules
  (compiled.zipIdx).filterMap fun (c, i) => conflict? (compiled.take i) c.1

/-- All ambiguities that the options ask for. -/
def Grammar.ambiguities (g : Grammar) (o : AmbiguityOptions) : Diagnostics :=
  g.rules.flatMap (·.alternativeDiagnostics o) ++
    (if o.leftRecursion then g.leftRecursion else []) ++
    (if o.lexerConflicts then g.lexerConflicts else [])

end GrammarLab
