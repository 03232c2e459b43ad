import GrammarLab.Diagnostic.Basic
import GrammarLab.Grammar
import GrammarLab.Source.Cursor

/-!
# Declarations

What stands outside rules: the grammar's own declaration, imports, blocks, modes, actions and
handlers. Each reader takes the draft of the grammar and the place of the declaration and gives
back both behind it; none stands still.

    (d.declaration c).2.rest.length < c.rest.length
-/

namespace GrammarLab.Source

open Text

/-- A grammar as far as it has been read. -/
structure Draft where
  grammar : Grammar := {}
  diagnostics : Diagnostics := []
  /-- The lexer mode that new rules belong to. -/
  mode : String := defaultMode
  /-- A declaration of the grammar has been seen. -/
  declared : Bool := false

namespace Draft

def report (diagnostic : Diagnostic) (d : Draft) : Draft :=
  { d with diagnostics := d.diagnostics ++ [diagnostic] }

def backticked (text : List Char) : String := "`" ++ String.ofList text ++ "`"

/-- Passes over the line. -/
def unrecognized (d : Draft) (c : Cursor) : Draft × Cursor :=
  (d.report ((Diagnostic.ofKind .unrecognizedLine).onLine c.line
      |>.withDetail (backticked (trim c.restOfLine))),
    c.advance (max c.restOfLine.length 1))

/-- Passes over everything that is left. -/
def unterminated (d : Draft) (c : Cursor) : Draft × Cursor :=
  (d.report ((Diagnostic.ofKind .unterminatedBlock).onLine c.line), c.finish)

/-- Takes over the declared name and kind. Only the first declaration counts. -/
def declare (kind : GrammarKind) (name : List Char) (line : Nat) (d : Draft) : Draft :=
  if d.declared then
    d.report ((Diagnostic.ofKind .unrecognizedLine).onLine line
      |>.withDetail "grammar is declared more than once")
  else if name.isEmpty then
    { d.report ((Diagnostic.ofKind .missingGrammarDeclaration).onLine line
        |>.withMessage "grammar declaration has no name") with declared := true }
  else
    { d with grammar := { d.grammar with name := String.ofList name, kind }, declared := true }

/-- The kind of grammar named in front of `grammar`, and the place behind that word. -/
def grammarKindAt (c : Cursor) : GrammarKind × Cursor :=
  if c.hasKeyword "lexer" then (.lexer, (c.advance 5).passBlank)
  else if c.hasKeyword "parser" then (.parser, (c.advance 6).passBlank)
  else (.combined, c)

/-- `grammar G;`, `lexer grammar G;` or `parser grammar G;` -/
def grammarDeclaration (d : Draft) (c : Cursor) : Draft × Cursor :=
  let (kind, c₁) := grammarKindAt c
  if c₁.hasKeyword "grammar" then
    let c₂ := (c₁.advance 7).passBlank
    (d.declare kind c₂.word c.line, c₂.passStatement)
  else d.unrecognized c

/-- What stands behind the last `=`, or all of it. -/
def afterLastEquals (s : List Char) : List Char := (s.reverse.takeWhile (· ≠ '=')).reverse

/-- `import A, B = C;` imports by the names behind the `=`. -/
def importDeclaration (d : Draft) (c : Cursor) : Draft × Cursor :=
  let c₁ := c.advance 6
  let items := splitOn (· = ',') (c₁.restOfLine.takeWhile (· ≠ ';'))
  let names := (items.map fun item => trim (afterLastEquals item)).filter isIdentifier
  let imports := (names.map String.ofList).foldl insertOnce d.grammar.imports
  ({ d with grammar := { d.grammar with imports } }, c₁.passStatement)

/-- Sets the option of a `key = value` entry, if the key is an identifier. -/
def addOption (options : List (String × String)) (entry : List Char) : List (String × String) :=
  let key := trim (entry.takeWhile (· ≠ '='))
  if entry.contains '=' && isIdentifier key then
    let value := trim ((entry.dropWhile (· ≠ '=')).drop 1)
    setOption options (String.ofList key) (String.ofList value)
  else options

def addOptions (content : List Char) (d : Draft) : Draft :=
  let options := (splitOn (· = ';') content).foldl addOption d.grammar.options
  { d with grammar := { d.grammar with options } }

/-- The names of a `tokens` or `channels` block. -/
def blockNames (content : List Char) : List String :=
  (((splitOn (fun c => c = ',' || c = ';') content).map fun n =>
    trim (n.takeWhile (· ≠ '='))).filter isIdentifier).map String.ofList

/-- The blocks that may stand outside rules. -/
inductive Block
  | options
  | tokens
  | channels

def Block.keyword : Block → String
  | .options => "options"
  | .tokens => "tokens"
  | .channels => "channels"

def addBlock (block : Block) (content : List Char) (d : Draft) : Draft :=
  match block with
  | .options => d.addOptions content
  | .tokens =>
    let tokens := (blockNames content).foldl insertOnce d.grammar.tokens
    { d with grammar := { d.grammar with tokens } }
  | .channels =>
    let channels := (blockNames content).foldl insertOnce d.grammar.channels
    { d with grammar := { d.grammar with channels } }

/-- `options {..}`, `tokens {..}` or `channels {..}` -/
def blockDeclaration (block : Block) (d : Draft) (c : Cursor) : Draft × Cursor :=
  let c₁ := (c.advance block.keyword.length).passBlank
  if c₁.startsWith '\x7b' then
    match c₁.block? '\x7b' '\x7d' with
    | some (content, c₂) => (d.addBlock block content, c₂)
    | none =>
      (d.report ((Diagnostic.ofKind .unterminatedBlock).onLine c.line
        |>.withMessage ("`" ++ block.keyword ++ "` block is never closed")), c.finish)
  else d.unrecognized c

/-- Later rules belong to the mode, which is declared where it is first named. -/
def enterMode (name : String) (line : Nat) (d : Draft) : Draft :=
  let g := d.grammar
  let modes := if (g.mode? name).isSome then g.modes else g.modes ++ [{ name, lineNumber := line }]
  { d with grammar := { g with modes }, mode := name }

/-- `mode M;` -/
def modeDeclaration (d : Draft) (c : Cursor) : Draft × Cursor :=
  let c₁ := (c.advance 4).passBlank
  if c₁.word.isEmpty then d.unrecognized c
  else (d.enterMode (String.ofList c₁.word) c.line, c₁.passStatement)

/-- The place behind a block that opens behind blank space, or `c` itself when none does. There is
none when the block is not closed. -/
def passBlock? (opening closing : Char) (c : Cursor) : Option Cursor :=
  let c₁ := c.passBlank
  if c₁.startsWith opening then (c₁.block? opening closing).map (·.2) else some c

/-- `catch [..] {..}` and `finally {..}` behind a rule. -/
def handler (d : Draft) (c : Cursor) : Draft × Cursor :=
  match (passBlock? '[' ']' c.passWord).bind (passBlock? '\x7b' '\x7d') with
  | some c' => (d, c')
  | none => d.unterminated c

/-- `@header {..}` and `@lexer::members {..}` -/
def namedAction (d : Draft) (c : Cursor) : Draft × Cursor :=
  let c₁ := ((c.advance 1).pass fun d => isWordChar d || d = ':').passBlank
  if c₁.startsWith '\x7b' then
    match c₁.block? '\x7b' '\x7d' with
    | some (_, c₂) => (d, c₂)
    | none => d.unterminated c
  else d.unrecognized c

end Draft

end GrammarLab.Source
