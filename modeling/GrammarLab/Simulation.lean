import GrammarLab.Source.Scan
import GrammarLab.Tokenizer.Basic

/-!
# Simulation

Tokenizing with the grammar's text at hand: its errors come before those of the input and make the
simulation fail, but whatever could be read of the grammar is used.
-/

namespace GrammarLab

structure Simulation where
  tokens : List Tokenizer.Token
  errors : List String
deriving DecidableEq, Repr

namespace Simulation

def succeeds (s : Simulation) : Bool := s.errors.isEmpty

/-- The simulation of a result under the diagnostics of its grammar. -/
def ofResult (ds : Diagnostics) (r : Tokenizer.Result) : Simulation :=
  { tokens := r.tokens
    errors := (ds.filter (·.isError)).map (·.text) ++ r.errors.map (·.text) }

/-- Tokenizes the input by the grammar that the source spells. -/
def run (limits : ScanLimits) (o : TokenizeOptions) (source input : List Char) : Simulation :=
  let (g, ds) := Source.scan limits source
  ofResult ds ((Tokenizer.ofGrammar g o).tokenize input)

end Simulation

end GrammarLab
