import GrammarLab.Regex.Basic
import GrammarLab.Regex.Bracket

/-!
# Reading expressions

The text of an expression is cut into symbols, and the symbols are put together with a stack of
the groups that are open. Expressions that nest too deep are refused.

    parse? text = some r → symbols? text ≠ none
-/

namespace GrammarLab.Regex

/-- A word of the text of an expression. -/
inductive Symbol
  | groupOpen
  | groupClose
  | bar
  | quantifier (q : Quantifier) (isLazy : Bool)
  /-- A single character or a class, and how deep it nests. -/
  | atom (s : CharSet) (depth : Nat)
deriving DecidableEq, Repr

/-- An expression and how deep it nests. Groups, quantifiers, classes in brackets, sequences of
several items and alternations of several branches count one level each. -/
structure Parsed where
  regex : Regex
  depth : Nat
deriving DecidableEq, Repr

/-- What is read of an open group: the branches that are complete and the items of the last one,
both with the latest first. -/
structure OpenGroup where
  branches : List Parsed := []
  items : List Parsed := []
deriving DecidableEq, Repr

/-! ## Algorithm -/

def quantifier? (c : Char) : Option Quantifier :=
  if c = '?' then some .optional
  else if c = '*' then some .star
  else if c = '+' then some .plus
  else none

/-- A quantifier, lazy if a question mark follows it. -/
def quantified (q : Quantifier) (cs : List Char) : Symbol × List Char :=
  match cs with
  | '?' :: rest => (.quantifier q true, rest)
  | _ => (.quantifier q false, cs)

/-- The group opening behind a parenthesis; a dot matches line feeds in every group. -/
def groupOpening? : List Char → Option (List Char)
  | '?' :: ':' :: rest => some rest
  | '?' :: 's' :: ':' :: rest => some rest
  | _ => none

/-- The symbol that starts with `c`, and the text behind it. Anchors and counted repetitions are
not part of the language. -/
def symbol? (c : Char) (cs : List Char) : Option (Symbol × List Char) :=
  if c = '(' then (groupOpening? cs).map (.groupOpen, ·)
  else if c = ')' then some (.groupClose, cs)
  else if c = '|' then some (.bar, cs)
  else if c = '.' then some (.atom .all 0, cs)
  else if c = '[' then (bracket? cs).map fun (b, rest) => (.atom b.set b.depth, rest)
  else if c = '^' || c = '$' || c = '\x7b' then none
  else match quantifier? c with
    | some q => some (quantified q cs)
    | none => (unit? c cs).map fun (u, rest) => (.atom u.toSet 0, rest)

theorem length_le_of_symbol? {c : Char} {cs rest : List Char} {x : Symbol}
    (h : symbol? c cs = some (x, rest)) : rest.length ≤ cs.length := by
  simp only [symbol?] at h
  split at h
  · obtain ⟨r, hr, he⟩ := Option.map_eq_some_iff.1 h
    simp only [Prod.mk.injEq] at he
    rw [← he.2]
    simp only [groupOpening?] at hr
    split at hr <;> simp_all <;> omega
  split at h
  · simp_all
  split at h
  · simp_all
  split at h
  · simp_all
  split at h
  · obtain ⟨⟨b, r⟩, hb, he⟩ := Option.map_eq_some_iff.1 h
    simp only [Prod.mk.injEq] at he
    have := length_lt_of_bracket? hb
    rw [← he.2]; omega
  split at h
  · simp at h
  split at h
  · simp only [quantified, Option.some.injEq] at h
    split at h <;> simp_all
  · obtain ⟨⟨u, r⟩, hu, he⟩ := Option.map_eq_some_iff.1 h
    simp only [Prod.mk.injEq] at he
    have := length_le_of_unit? hu
    rw [← he.2]; omega

/-- The symbols of the text. -/
def symbols? : List Char → Option (List Symbol)
  | [] => some []
  | c :: cs =>
    match _h : symbol? c cs with
    | some (x, rest) => (symbols? rest).map (x :: ·)
    | none => none
termination_by cs => cs.length
decreasing_by
  have := length_le_of_symbol? (by assumption)
  simp only [List.length_cons]; omega

/-- The deepest of the parts, and one level more if there are several. -/
def jointDepth (parts : List Parsed) : Nat :=
  (parts.foldl (fun d p => max d p.depth) 0) + (if parts.length ≤ 1 then 0 else 1)

namespace OpenGroup

/-- The last branch. -/
def branch (g : OpenGroup) : Parsed :=
  ⟨sequence (g.items.reverse.map (·.regex)), jointDepth g.items⟩

/-- All branches. -/
def contents (g : OpenGroup) : Parsed :=
  let branches := g.branch :: g.branches
  ⟨alternation (branches.reverse.map (·.regex)), jointDepth branches⟩

def push (g : OpenGroup) (p : Parsed) : OpenGroup := { g with items := p :: g.items }

/-- Applies a quantifier to the last item. -/
def quantify? (g : OpenGroup) (q : Quantifier) (isLazy : Bool) : Option OpenGroup :=
  match g.items with
  | [] => none
  | p :: items => some { g with items := ⟨.repeated q isLazy p.regex, p.depth + 1⟩ :: items }

end OpenGroup

/-- Takes one symbol. The innermost open group stands first; the last one is the expression. -/
def accept? (stack : List OpenGroup) (x : Symbol) : Option (List OpenGroup) :=
  match stack with
  | [] => none
  | g :: outer =>
    match x with
    | .groupOpen => some ({} :: g :: outer)
    | .groupClose =>
      match outer with
      | [] => none
      | h :: outer => some (h.push ⟨.group g.contents.regex, g.contents.depth + 1⟩ :: outer)
    | .bar => some ({ branches := g.branch :: g.branches } :: outer)
    | .quantifier q isLazy => (g.quantify? q isLazy).map (· :: outer)
    | .atom s depth => some (g.push ⟨.set s, depth⟩ :: outer)

/-- The expression that the symbols spell. -/
def assemble? (symbols : List Symbol) : Option Parsed :=
  match symbols.foldlM accept? [{}] with
  | some [g] => some g.contents
  | _ => none

/-- The most levels that an expression may have. -/
def maxDepth : Nat := 250

/-- The expression that the text spells. -/
def parse? (text : List Char) : Option Parsed := do
  let p ← assemble? (← symbols? text)
  if p.depth ≤ maxDepth then some p else none

end GrammarLab.Regex
