import GrammarLab.Body.Command

/-!
# References

The names that a body refers to. Literals, classes and actions are single tokens, so names within
them do not count; labels, options and commands are passed over.
-/

namespace GrammarLab.Body

/-- Words of the rule language, which no reference can be. -/
def reservedWords : List String :=
  ["catch", "channels", "finally", "fragment", "grammar", "import", "lexer", "locals", "mode",
    "options", "parser", "returns", "throws", "tokens"]

structure Reference where
  name : String
  /-- The byte offset within the body. -/
  offset : Nat
deriving DecidableEq, Repr

/-- What follows the first `>`; nothing if there is none. -/
def afterOptions (ts : List Token) : List Token := (ts.dropWhile (·.kind ≠ .gt)).drop 1

theorem length_afterOptions_le (ts : List Token) : (afterOptions ts).length ≤ ts.length := by
  have := (List.dropWhile_suffix (fun t : Token => decide (t.kind ≠ .gt)) (l := ts)).length_le
  simp only [afterOptions, List.length_drop]; omega

/-- What follows an identifier that stands in front. -/
def afterIdent : List Token → List Token
  | [] => []
  | t :: ts => if t.kind = .ident then ts else t :: ts

theorem length_afterIdent_le (ts : List Token) : (afterIdent ts).length ≤ ts.length := by
  cases ts with
  | nil => simp [afterIdent]
  | cons t ts => simp only [afterIdent]; split <;> simp

/-- A `=` or `+=` stands in front, which makes the name before it a label. -/
def startsWithAssign : List Token → Bool
  | [] => false
  | t :: _ => t.kind = .equals || t.kind = .plusEquals

/-- The references among the tokens. -/
def referencesIn : List Token → List Reference
  | [] => []
  | t :: ts =>
    if t.kind = .arrow then referencesIn (commandList ts).2
    else if t.kind = .lt then referencesIn (afterOptions ts)
    else if t.kind = .hash then referencesIn (afterIdent ts)
    else if t.kind = .ident then
      if startsWithAssign ts then referencesIn (ts.drop 1)
      else if t.name ∈ reservedWords then referencesIn ts
      else ⟨t.name, t.offset⟩ :: referencesIn ts
    else referencesIn ts
termination_by ts => ts.length
decreasing_by
  all_goals
    have := length_commandList_le ts
    have := length_afterOptions_le ts
    have := length_afterIdent_le ts
    simp only [List.length_cons, List.length_drop]
    omega

/-- Every reference of a body in order, repetitions included. -/
def references (body : List Char) : List Reference := referencesIn (significant body)

/-- The names referred to, each at its first occurrence. -/
def referencedNames (body : List Char) : List String :=
  ((references body).map (·.name)).eraseDups

end GrammarLab.Body
