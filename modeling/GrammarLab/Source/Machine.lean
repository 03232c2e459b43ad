import GrammarLab.Source.RuleText

/-!
# Steps through a source

A machine of three states. Outside rules it reads declarations and rule names, behind a name the
rest of the header, and behind the colon a body. It refuses nothing: what it cannot read becomes a
diagnostic.
-/

namespace GrammarLab.Source

open Text

inductive State
  | outside
  | header (h : Header)
  | body (h : Header)
deriving DecidableEq, Repr

structure Machine where
  state : State := .outside
  draft : Draft := {}
  cursor : Cursor

namespace Machine

/-! ## Steps -/

/-- Reads the declaration that stands here, if one does. -/
def declaration? (d : Draft) (c : Cursor) : Option (Draft × Cursor) :=
  if c.hasKeyword "grammar" || c.hasKeyword "lexer" || c.hasKeyword "parser" then
    some (d.grammarDeclaration c)
  else if c.hasKeyword "import" then some (d.importDeclaration c)
  else if c.hasKeyword "options" then some (d.blockDeclaration .options c)
  else if c.hasKeyword "tokens" then some (d.blockDeclaration .tokens c)
  else if c.hasKeyword "channels" then some (d.blockDeclaration .channels c)
  else if c.hasKeyword "mode" then some (d.modeDeclaration c)
  else if c.hasKeyword "catch" || c.hasKeyword "finally" then some (d.handler c)
  else if c.startsWith '@' then some (d.namedAction c)
  else none

/-- One step outside rules, in front of `first`. -/
def stepOutside (first : Char) (d : Draft) (c : Cursor) : Machine :=
  if isWhiteSpace first then ⟨.outside, d, c.advance 1⟩
  else match declaration? d c with
    | some (d', c') => ⟨.outside, d', c'⟩
    | none =>
      match header? c with
      | some (h, c') => ⟨.header h, d, c'⟩
      | none =>
        let (d', c') := d.unrecognized c
        ⟨.outside, d', c'⟩

/-- Gives up a header in front of something that belongs to no header. On the line of its name the
rest of the line goes with it; on a later line only a `;` does. -/
def abandonHeader (h : Header) (first : Char) (d : Draft) (c : Cursor) : Machine :=
  let d' := d.missingColon h
  if c.line = h.line then ⟨.outside, d', c.passLine⟩
  else if first = ';' then ⟨.outside, d', c.advance 1⟩
  else ⟨.outside, d', c⟩

/-- Passes over a bracketed part of a header. -/
def headerBlock (h : Header) (opening closing : Char) (d : Draft) (c : Cursor) : Machine :=
  match c.block? opening closing with
  | some (_, c') => ⟨.header h, d, c'⟩
  | none =>
    let (d', c') := (d.missingColon h).unterminated c
    ⟨.outside, d', c'⟩

/-- Reads a word of a header: a clause, or an exception behind `throws`. -/
def headerWord (h : Header) (first : Char) (d : Draft) (c : Cursor) : Machine :=
  if c.hasKeyword "returns" || c.hasKeyword "locals" || c.hasKeyword "options" then
    ⟨.header { h with afterThrows := false }, d, c.passWord⟩
  else if c.hasKeyword "throws" then ⟨.header { h with afterThrows := true }, d, c.passWord⟩
  else if h.afterThrows && !c.word.isEmpty then ⟨.header h, d, c.passWord⟩
  else abandonHeader h first d c

/-- One step behind a rule name, in front of `first`. -/
def stepHeader (limits : ScanLimits) (h : Header) (first : Char) (d : Draft) (c : Cursor) :
    Machine :=
  if isWhiteSpace first then
    if first = '\n' && limits.maxRuleLines ≤ (c.advance 1).line - h.line then
      ⟨.outside, d.missingColon h, c.advance 1⟩
    else ⟨.header h, d, c.advance 1⟩
  else if first = ':' then ⟨.body h, d, c.advance 1⟩
  else if first = '[' then headerBlock h '[' ']' d c
  else if first = '\x7b' then headerBlock h '\x7b' '\x7d' d c
  else if first = '@' then ⟨.header h, d, (c.advance 1).passWord⟩
  else if first = ',' && h.afterThrows then ⟨.header h, d, c.advance 1⟩
  else headerWord h first d c

/-- Reads a whole body and closes its rule. -/
def stepBody (limits : ScanLimits) (h : Header) (d : Draft) (c : Cursor) : Machine :=
  let reach := bodyReach (limits.maxRuleLines - (c.line - h.line)) 0 .code c.rest
  let raw := c.rest.take reach.length
  let terminated := reach.reason = .terminator
  let consumed := if terminated then reach.length + 1 else reach.length
  ⟨.outside, d.finishRule h c raw terminated, c.advance (max consumed 1)⟩

/-- One step in front of `first`. -/
def step (limits : ScanLimits) (first : Char) (m : Machine) : Machine :=
  match m.state with
  | .outside => stepOutside first m.draft m.cursor
  | .header h => stepHeader limits h first m.draft m.cursor
  | .body h => stepBody limits h m.draft m.cursor

end Machine

end GrammarLab.Source
