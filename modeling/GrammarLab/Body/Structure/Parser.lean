import GrammarLab.Body.Structure
import GrammarLab.Body.Reference

/-!
# Reading the structure of a body

Recursive descent over the tokens. Nothing is refused: an unclosed group ends with the body, a
stray `)` starts a new alternative, and a token that fits nowhere is passed over.

Each function takes fuel and returns the tokens it leaves; four units for each token and four
more are enough.
-/

namespace GrammarLab.Body

/-! ## Algorithm -/

/-- The modifier that a quantifier stands for, and whether it is greedy. -/
def TokenKind.modifier? : TokenKind → Option (Modifier × Bool)
  | question => some (.optional, true)
  | star => some (.zeroOrMore, true)
  | plus => some (.oneOrMore, true)
  | questionQuestion => some (.optional, false)
  | starQuestion => some (.zeroOrMore, false)
  | plusQuestion => some (.oneOrMore, false)
  | _ => none

/-- The tokens behind options that stand in front. -/
def passOptions : List Token → List Token
  | [] => []
  | t :: ts => if t.kind = .lt then afterOptions (t :: ts) else t :: ts

/-- The content with the modifier in front of the tokens, if there is one. -/
def quantified (content : Content) : List Token → Element × List Token
  | [] => (⟨content, .once, true⟩, [])
  | t :: ts =>
    match t.kind.modifier? with
    | some (modifier, greedy) => (⟨content, modifier, greedy⟩, ts)
    | none => (⟨content, .once, true⟩, t :: ts)

/-- The content of a name. -/
def Content.ofName (name : String) : Content :=
  if name = GrammarLab.endOfInput then .endOfInput
  else if isLexerName name then .token name
  else .rule name

/-- A literal, or the range that it begins. -/
def literalOrRange (first : Token) : List Token → Content × List Token
  | op :: last :: rest =>
    if op.kind = .range && last.kind = .literal then (.range first.text last.text, rest)
    else (.literal first.text, op :: last :: rest)
  | ts => (.literal first.text, ts)

/-- The name in front of the tokens, if one stands there. -/
def labelAt : List Token → Option String
  | [] => none
  | t :: _ => if t.kind = .ident then some t.name else none

/-- Drops the `?` that makes an action a predicate. -/
def passPredicate : List Token → List Token
  | [] => []
  | t :: ts => if t.kind = .question then ts else t :: ts

/-- The offset at which an alternative begins; at the end of the body, that of its last token. -/
def startOffset (last : Nat) : List Token → Nat
  | [] => last
  | t :: _ => t.offset

/-- A negation cannot begin here. -/
def endsAtom : List Token → Bool
  | [] => true
  | t :: _ => t.kind = .pipe || t.kind = .parenClose

mutual

/-- Alternatives between pipes, up to a `)` or the end. -/
def branches (last : Nat) : Nat → List Token → List Branch × List Token
  | 0, ts => ([], ts)
  | fuel + 1, ts =>
    match branch last fuel { offset := startOffset last ts } ts with
    | (b, []) => ([b], [])
    | (b, p :: rest) =>
      if p.kind = .pipe then
        let (bs, rest') := branches last fuel rest
        (b :: bs, rest')
      else ([b], p :: rest)

/-- The rest of the alternative `b`, up to a pipe, a `)` or the end. -/
def branch (last : Nat) : Nat → Branch → List Token → Branch × List Token
  | 0, b, ts => (b, ts)
  | _ + 1, b, [] => (b, [])
  | fuel + 1, b, t :: ts =>
    match t.kind with
    | .pipe => (b, t :: ts)
    | .parenClose => (b, t :: ts)
    | .hash => branch last fuel { b with label := labelAt ts <|> b.label } (afterIdent ts)
    | .arrow =>
      let (commands, rest) := commandList ts
      branch last fuel { b with commands := b.commands ++ commands } rest
    | .action => branch last fuel b (passPredicate ts)
    | .lt => branch last fuel b (afterOptions ts)
    | .ident =>
      if startsWithAssign ts then branch last fuel b (ts.drop 1)
      else branchElement last fuel b (t :: ts)
    | _ => branchElement last fuel b (t :: ts)

/-- The next element of the alternative, if one can be read, and then its rest. -/
def branchElement (last : Nat) : Nat → Branch → List Token → Branch × List Token
  | 0, b, ts => (b, ts)
  | fuel + 1, b, ts =>
    match atom last fuel ts with
    | (none, rest) => branch last fuel b rest
    | (some content, rest) =>
      let (element, rest') := quantified content (passOptions rest)
      branch last fuel { b with elements := b.elements ++ [element] } rest'

/-- One element without its modifier. A token that begins none is passed over. -/
def atom (last : Nat) : Nat → List Token → Option Content × List Token
  | 0, ts => (none, ts)
  | _ + 1, [] => (none, [])
  | fuel + 1, t :: ts =>
    match t.kind with
    | .ident => (some (Content.ofName t.name), ts)
    | .literal =>
      let (content, rest) := literalOrRange t ts
      (some content, rest)
    | .charClass => (some (.charSet t.text), ts)
    | .dot => (some .wildcard, ts)
    | .tilde =>
      if endsAtom ts then (none, ts)
      else
        let (inner, rest) := atom last fuel ts
        (inner.map .negated, rest)
    | .parenOpen =>
      match branches last fuel ts with
      | (bs, []) => (some (.group bs), [])
      | (bs, c :: rest) =>
        (some (.group bs), if c.kind = .parenClose then rest else c :: rest)
    | _ => (none, ts)

end

/-- All alternatives of the tokens: where reading stops at a stray `)`, it goes on behind it. -/
def allBranches (last : Nat) : Nat → List Token → List Branch
  | 0, _ => []
  | fuel + 1, ts =>
    match branches last (4 * ts.length + 4) ts with
    | (bs, []) => bs
    | (bs, _ :: rest) => bs ++ allBranches last fuel rest

/-- The structure of a body. -/
def Structure.parse (body : List Char) : Structure :=
  let ts := significant body
  let last := (ts.getLast?.map (·.offset)).getD 0
  ⟨allBranches last (ts.length + 1) ts⟩

end GrammarLab.Body
