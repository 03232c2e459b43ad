import GrammarLab.Text.Utf8
import GrammarLab.Tokenizer.Candidate
import GrammarLab.Tokenizer.Token

/-!
# Tokenizing

The simulated lexer. At each place the candidate with the longest match wins, the earliest of
several; its text is a token, or the beginning of one when more is to come. A character that no
candidate matches is recorded and passed over. Modes are not switched.

    (t.tokenize s).events.flatMap Event.text = s
-/

namespace GrammarLab

open Text

structure Tokenizer where
  candidates : List Tokenizer.Candidate
  /-- What was wrong with the rules that take no part. -/
  diagnostics : Diagnostics

namespace Tokenizer

def ofGrammar (g : Grammar) (o : TokenizeOptions) : Tokenizer :=
  let compiled := g.compileRules (selectedRules g o)
  { candidates :=
      (if o.implicitLiterals then implicitCandidates g else []) ++ compiled.filterMap candidateOf?
    diagnostics := selectionDiagnostics g o ++ compiled.filterMap failureOf? }

/-! ## Algorithm -/

/-- The candidate with the longest match, the first of several, and the number of characters. -/
def winner? (s : List Char) : List Candidate → Option (Candidate × Nat)
  | [] => none
  | c :: cs =>
    match c.pattern.prefixLength? s, winner? s cs with
    | none, best => best
    | some n, none => some (c, n)
    | some n, some (d, m) => if n < m then some (d, m) else some (c, n)

/-- A token that is being put together. -/
structure Draft where
  start : Nat
  place : Place
  text : List Char
  /-- The candidate of the last match. -/
  candidate : Candidate

namespace Draft

def extend (d : Draft) (text : List Char) (c : Candidate) : Draft :=
  { d with text := d.text ++ text, candidate := c }

def token (d : Draft) : Token :=
  { type := d.candidate.type
    value := d.text
    start := d.start
    stop := d.start + byteLength d.text
    place := d.place
    skipped := d.candidate.skipped
    channel := d.candidate.channel }

end Draft

/-- A token of what is left when no more comes. -/
def flushed (pending : Option Draft) : List Event := pending.toList.map fun d => .token d.token

/-- The events of the text that begins at an offset and a place. `pending` is what earlier matches
left for the next token. -/
def scan (cs : List Candidate) (offset : Nat) (place : Place) (pending : Option Draft) :
    List Char → List Event
  | [] => flushed pending
  | c :: s =>
    match winner? (c :: s) cs with
    | none =>
      flushed pending ++
        .unmatched ⟨offset, place, c⟩ :: scan cs (offset + c.utf8Size) (place.next c) none s
    | some (winner, n) =>
      let taken := c :: s.take (n - 1)
      let draft := (pending.getD ⟨offset, place, [], winner⟩).extend taken winner
      let offset := offset + byteLength taken
      let place := place.along taken
      if winner.more then scan cs offset place (some draft) (s.drop (n - 1))
      else .token draft.token :: scan cs offset place none (s.drop (n - 1))
termination_by s => s.length
decreasing_by
  all_goals simp only [List.length_cons, List.length_drop]
  all_goals omega

def tokenize (t : Tokenizer) (s : List Char) : Result := ⟨scan t.candidates 0 .start none s⟩

end Tokenizer

end GrammarLab
