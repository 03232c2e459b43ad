import GrammarLab.Inspection

/-!
# Dumps

What an inspection knows, as text with a line for each thing, every line ended.
-/

namespace GrammarLab

/-- The lines, each ended. -/
def endedLines (lines : List String) : String := String.join (lines.map (· ++ "\n"))

/-- Name, kind, flags and line of a rule, then its body in regular form and its commands. -/
def Rule.dump (r : Rule) : String :=
  let fragment := if r.isFragment then " fragment" else ""
  let mode := match r.mode with
    | some m => if m = defaultMode then "" else s!" mode={m}"
    | none => ""
  let commands := if r.isLexer then Body.commandsOf r.definition else []
  s!"{r.name} {r.kind.text}" ++ fragment ++ mode ++
    s!" @{r.lineNumber}: {String.ofList r.structure.render}" ++
    String.join (commands.map fun c => s!" -> {c.text}")

/-- Type, text, offsets and place of a token, then where it goes if that is not to the parser. -/
def Tokenizer.Token.dump (t : Tokenizer.Token) : String :=
  let skipped := if t.skipped then " skipped" else ""
  let channel := t.channel.elim "" fun c => s!" channel={c}"
  s!"{t.type} {Text.quote t.value} {t.start}..{t.stop} @{t.place.line}:{t.place.column}" ++
    skipped ++ channel

/-- All tokens, then all characters that no rule matches. -/
def Tokenizer.Result.dump (r : Tokenizer.Result) : String :=
  endedLines (r.tokens.map (·.dump) ++ r.errors.map fun u => s!"error: {u.text}")

def RuleMetrics.dump (r : RuleMetrics) : String :=
  s!"{r.rule} complexity={r.complexity} alternatives={r.alternatives} depth={r.depth}" ++
    s!" in={r.fanIn} out={r.fanOut} recursion={r.recursionDepth}"

/-- The names in a row; a dash stands for none. -/
def nameRow (names : List String) : String :=
  if names.isEmpty then "-" else ", ".intercalate names

def GrammarMetrics.dump (m : GrammarMetrics) : String :=
  let sizes := s!"rules: {m.rules.length} (parser {m.parserRules}, lexer {m.lexerRules}, " ++
    s!"fragments {m.fragments}), modes: {m.modes}"
  let average := (m.meanOf (·.complexity)).decimal 2
  endedLines <|
    [sizes, s!"complexity: avg {average}, max {m.maxOf (·.complexity)}"] ++
      m.rules.map (·.dump) ++ [s!"orphans: {nameRow m.orphans}", s!"hubs: {nameRow m.hubs}"]

namespace Inspection

def dumpRules (i : Inspection) : String := endedLines (i.grammar.rules.map (·.dump))

def dumpDiagnostics (i : Inspection) : String := i.diagnostics.plain

def dumpTokens (i : Inspection) (input : List Char) : String := (i.tokenize input).dump

def dumpMetrics (i : Inspection) : String := i.metrics.dump

end Inspection

end GrammarLab
