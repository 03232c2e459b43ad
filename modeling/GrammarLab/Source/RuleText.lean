import GrammarLab.Source.Draft
import GrammarLab.Body.Reference
import GrammarLab.Config

/-!
# Rules in a source

A rule is a header, a colon and a body. The header's name opens it; a body ends at its `;`, at a
line that opens another rule or a mode, or at the last line it may take.

    endOfBody … = ⟨.terminator, n⟩ → cs[n]? = some ';'
-/

namespace GrammarLab.Source

open Text

/-- A rule whose name has been read. -/
structure Header where
  name : List Char
  isFragment : Bool
  /-- The line of the name. -/
  line : Nat
  /-- A `throws` has been read, behind which exceptions are named. -/
  afterThrows : Bool := false
deriving DecidableEq, Repr

/-! ## Names -/

/-- The word that makes the next name a fragment or says who may use it. -/
def modifier? (c : Cursor) : Option (Bool × Nat) :=
  if c.hasKeyword "fragment" then some (true, 8)
  else if c.hasKeyword "public" then some (false, 6)
  else if c.hasKeyword "private" then some (false, 7)
  else if c.hasKeyword "protected" then some (false, 9)
  else none

theorem modifier?_pos {c : Cursor} {f : Bool} {n : Nat} (h : modifier? c = some (f, n)) :
    0 < n ∧ c.rest ≠ [] := by
  have key : ∀ kw : String, kw.toList ≠ [] → c.hasKeyword kw = true → c.rest ≠ [] := by
    intro kw hkw hc hr
    simp only [Cursor.hasKeyword, Cursor.word, hr, List.takeWhile_nil, beq_iff_eq] at hc
    exact hkw hc.symm
  unfold modifier? at h
  split at h
  · rename_i hc
    have := key "fragment" (by decide) hc
    simp_all; omega
  split at h
  · rename_i hc
    have := key "public" (by decide) hc
    simp_all; omega
  split at h
  · rename_i hc
    have := key "private" (by decide) hc
    simp_all; omega
  split at h
  · rename_i hc
    have := key "protected" (by decide) hc
    simp_all; omega
  · simp at h

/-- Passes over the modifiers in front of a rule, and tells whether `fragment` was among them. -/
def passModifiers (isFragment : Bool) (c : Cursor) : Bool × Cursor :=
  match _h : modifier? c with
  | none => (isFragment, c)
  | some (f, n) => passModifiers (isFragment || f) (c.advance n).passBlank
termination_by c.rest.length
decreasing_by
  obtain ⟨hn, hc⟩ := modifier?_pos _h
  exact Nat.lt_of_le_of_lt (Cursor.length_pass_le _ _) (Cursor.length_advance_lt hn hc)

/-- The header that opens here, and the place behind its name. -/
def header? (c : Cursor) : Option (Header × Cursor) :=
  let (isFragment, c₁) := passModifiers false c
  if isIdentifier c₁.word then
    some (⟨c₁.word, isFragment, c₁.line, false⟩, c₁.passWord)
  else none

/-- A rule or a mode seems to open here, at the start of a line. -/
def opensRule (c : Cursor) : Bool :=
  if c.hasKeyword "fragment" then true
  else if c.hasKeyword "mode" then
    let c₁ := (c.advance 4).passInlineBlank
    !c₁.word.isEmpty && c₁.passWord.passInlineBlank.startsWith ';'
  else if isIdentifier c.word then
    let c₁ := c.passWord.passInlineBlank
    c₁.startsWith ':' && !(c₁.advance 1).startsWith ':'
  else false

/-! ## Bodies -/

inductive BodyEnd
  /-- The `;`. -/
  | terminator
  /-- A line that opens another rule or a mode. -/
  | nextRule
  /-- The first line past the cap. -/
  | capped
  | exhausted
deriving DecidableEq, Repr

/-- How a body ends and how many characters it has before that. -/
structure BodyReach where
  reason : BodyEnd
  length : Nat
deriving DecidableEq, Repr

def BodyReach.beyond (r : BodyReach) : BodyReach := ⟨r.reason, r.length + 1⟩

/-- What a body is in the middle of. -/
inductive BodyState
  | code
  | quoted (mark : Char)
  | quotedEscape (mark : Char)
  | inClass
  | classEscape
deriving DecidableEq, Repr

/-- The state and the number of open braces behind a character of code. Double quotes count within
actions only, and classes outside them only. -/
def afterBodyCode (braces : Nat) (c : Char) : BodyState × Nat :=
  if c = '\'' then (.quoted c, braces)
  else if c = '"' && 0 < braces then (.quoted c, braces)
  else if c = '[' && braces = 0 then (.inClass, braces)
  else if c = '\x7b' then (.code, braces + 1)
  else if c = '\x7d' then (.code, braces - 1)
  else (.code, braces)

/-- The state and the number of open braces behind a character other than a line feed. -/
def BodyState.next (braces : Nat) (c : Char) : BodyState → BodyState × Nat
  | .code => afterBodyCode braces c
  | .quoted mark =>
    (if c = '\\' then .quotedEscape mark else if c = mark then .code else .quoted mark, braces)
  | .quotedEscape mark => (.quoted mark, braces)
  | .inClass => (if c = '\\' then .classEscape else if c = ']' then .code else .inClass, braces)
  | .classEscape => (.inClass, braces)

/-- Where the body ends that goes on here, `left` lines before the cap. -/
def bodyReach (left braces : Nat) (state : BodyState) : List Char → BodyReach
  | [] => ⟨.exhausted, 0⟩
  | c :: cs =>
    if c = '\n' then
      if left ≤ 1 then ⟨.capped, 1⟩
      else if braces = 0 && opensRule ⟨0, cs⟩ then ⟨.nextRule, 1⟩
      else (bodyReach (left - 1) braces .code cs).beyond
    else if c = ';' && braces = 0 && state = .code then ⟨.terminator, 0⟩
    else
      let (state', braces') := state.next braces c
      (bodyReach left braces' state' cs).beyond

/-! ## Finished rules -/

/-- The body with the blanks at the ends of its lines and around it removed. -/
def definitionOf (raw : List Char) : List Char :=
  trim (['\n'].intercalate ((lines raw).map trimEnd))

/-- The line on which a body from `c` on begins; an empty one begins at its colon. -/
def bodyLine (c : Cursor) (raw : List Char) : Nat :=
  if (trimStart raw).isEmpty then c.line
  else c.line + lineFeeds (raw.takeWhile isWhiteSpace)

/-- The line on which a body from `c` on ends. -/
def endLine (c : Cursor) (raw : List Char) (terminated : Bool) : Nat :=
  if terminated then c.line + lineFeeds raw
  else if (trimStart raw).isEmpty then bodyLine c raw
  else c.line + lineFeeds (trimEnd raw)

namespace Draft

def missingColon (h : Header) (d : Draft) : Draft :=
  let name := String.ofList h.name
  d.report ((Diagnostic.ofKind .missingColon).onLine h.line
    |>.onRule name |>.withDetail name)

def missingTerminator (h : Header) (d : Draft) : Draft :=
  let name := String.ofList h.name
  d.report ((Diagnostic.ofKind .missingTerminator).onLine h.line
    |>.onRule name |>.withDetail name)

def duplicateRule (h : Header) (first : Rule) (d : Draft) : Draft :=
  let name := String.ofList h.name
  d.report ((Diagnostic.ofKind .duplicateRule).onLine h.line
    |>.onRule name |>.withDetail name |>.relatedTo "first defined here" first.lineNumber)

/-- Adds a rule at the end, and a token rule to its mode. -/
def addRule (r : Rule) (d : Draft) : Draft :=
  let g := d.grammar
  let place (m : LexerMode) : LexerMode :=
    if m.name = d.mode then { m with rules := insertOnce m.rules r.name } else m
  let modes := if r.isToken then g.modes.map place else g.modes
  { d with grammar := { g with rules := g.rules ++ [r], modes } }

/-- The rule with body `raw` from `c` on. -/
def ruleOf (h : Header) (c : Cursor) (raw : List Char) (terminated : Bool) (d : Draft) : Rule :=
  let name := String.ofList h.name
  let definition := definitionOf raw
  { name, isFragment := h.isFragment, definition, lineNumber := h.line
    bodyLine := bodyLine c raw
    endLine := endLine c raw terminated
    referencedRules := Body.referencedNames definition
    mode := if isLexerName name then some d.mode else none }

/-- Closes a rule. Of two rules of one name only the first is kept. -/
def finishRule (h : Header) (c : Cursor) (raw : List Char) (terminated : Bool) (d : Draft) :
    Draft :=
  let d := if terminated then d else d.missingTerminator h
  match d.grammar.rule? (String.ofList h.name) with
  | some first => d.duplicateRule h first
  | none => d.addRule (d.ruleOf h c raw terminated)

end Draft

end GrammarLab.Source
