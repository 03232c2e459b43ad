import GrammarLab.Body.Token
import GrammarLab.Text.Classes

/-!
# Lexing rule bodies

At each place the longest token wins. Where none begins, the longest stretch that a token could
still have gone on from is garbage, one character at least, and garbage next to garbage is one
token.

    (lex s).flatMap (·.text) = s
    lex s = locate 0 (joinGarbage (lexemes s))
-/

namespace GrammarLab.Body

open Text

/-- A token before its place is known. -/
structure Lexeme where
  kind : TokenKind
  text : List Char
deriving DecidableEq, Repr

/-- How far a delimited token reaches behind its opening: whether it is closed, and the number of
characters, the closing ones included. Unclosed, it reaches as far as it could still be closed. -/
structure Reach where
  closed : Bool
  length : Nat
deriving DecidableEq, Repr

def Reach.beyond (n : Nat) (r : Reach) : Reach := ⟨r.closed, n + r.length⟩

/-! ## Algorithm -/

/-- A token closed by `close`; a backslash takes any character but a line feed with it. -/
def quotedReach (close : Char) : List Char → Reach
  | [] => ⟨false, 0⟩
  | c :: cs =>
    if c = close then ⟨true, 1⟩
    else if c = '\\' then
      match cs with
      | [] => ⟨false, 1⟩
      | d :: ds => if d = '\n' then ⟨false, 1⟩ else (quotedReach close ds).beyond 2
    else (quotedReach close cs).beyond 1

/-- A comment closed by a star and a slash. A star takes the character behind it with it, so only
a star at an even place in its run of stars closes. -/
def commentReach : List Char → Reach
  | [] => ⟨false, 0⟩
  | c :: cs =>
    if c = '*' then
      match cs with
      | [] => ⟨false, 1⟩
      | d :: ds => if d = '/' then ⟨true, 2⟩ else (commentReach ds).beyond 2
    else (commentReach cs).beyond 1

/-- What an action is in the middle of. -/
inductive ActionState
  | code
  | quoted (mark : Char)
  | escaped (mark : Char)

/-- The length of an action behind its opening brace, with `depth` more braces open. Braces within
quotes do not count; an unclosed action takes all. -/
def actionLength (depth : Nat) : ActionState → List Char → Nat
  | _, [] => 0
  | .escaped q, _ :: cs => 1 + actionLength depth (.quoted q) cs
  | .quoted q, c :: cs =>
    if c = '\\' then 1 + actionLength depth (.escaped q) cs
    else if c = q then 1 + actionLength depth .code cs
    else 1 + actionLength depth (.quoted q) cs
  | .code, c :: cs =>
    if c = '"' || c = '\'' then 1 + actionLength depth (.quoted c) cs
    else if c = '\x7b' then 1 + actionLength (depth + 1) .code cs
    else if c = '\x7d' then
      match depth with
      | 0 => 1
      | d + 1 => 1 + actionLength d .code cs
    else 1 + actionLength depth .code cs

def isBlank (c : Char) : Bool := c = ' ' || c = '\t' || c = '\r' || c = '\n' || c = '\x0c'

/-- The operators of one character. -/
def operator? (c : Char) : Option TokenKind :=
  if c = '(' then some .parenOpen
  else if c = ')' then some .parenClose
  else if c = '|' then some .pipe
  else if c = '?' then some .question
  else if c = '*' then some .star
  else if c = '+' then some .plus
  else if c = '~' then some .tilde
  else if c = '.' then some .dot
  else if c = '#' then some .hash
  else if c = '=' then some .equals
  else if c = ',' then some .comma
  else if c = ':' then some .colon
  else if c = ';' then some .semicolon
  else if c = '<' then some .lt
  else if c = '>' then some .gt
  else none

/-- The operators of two characters. -/
def operatorPair? (c d : Char) : Option TokenKind :=
  if c = '*' && d = '?' then some .starQuestion
  else if c = '+' && d = '?' then some .plusQuestion
  else if c = '?' && d = '?' then some .questionQuestion
  else if c = '.' && d = '.' then some .range
  else if c = '-' && d = '>' then some .arrow
  else if c = '+' && d = '=' then some .plusEquals
  else none

/-- A delimited token, or garbage as far as it reaches when it is not closed. -/
def delimited (kind : TokenKind) (r : Reach) : TokenKind × Nat :=
  (if r.closed then kind else .garbage, r.length)

/-- A single character: an operator or garbage. -/
def single (c : Char) : TokenKind × Nat := ((operator? c).getD .garbage, 0)

/-- An operator of two characters, or of one. -/
def operatorAt (c : Char) (cs : List Char) : TokenKind × Nat :=
  match cs with
  | [] => single c
  | d :: _ =>
    match operatorPair? c d with
    | some kind => (kind, 1)
    | none => single c

/-- The token that starts with `c`: its kind, and how many of the characters `cs` behind `c`
belong to it. -/
def leading (c : Char) (cs : List Char) : TokenKind × Nat :=
  if c = '\'' then delimited .literal (quotedReach '\'' cs)
  else if c = '[' then delimited .charClass (quotedReach ']' cs)
  else if c = '\x7b' then (.action, actionLength 0 .code cs)
  else if c = '/' then
    match cs with
    | '/' :: rest => (.lineComment, 1 + (rest.takeWhile (· ≠ '\n')).length)
    | '*' :: rest => delimited .blockComment ((commentReach rest).beyond 1)
    | _ => (.garbage, 0)
  else if isBlank c then (.blank, (cs.takeWhile isBlank).length)
  else if isWordStart c then (.ident, (cs.takeWhile isWordChar).length)
  else operatorAt c cs

/-- The text cut into tokens and stretches of garbage. -/
def lexemes : List Char → List Lexeme
  | [] => []
  | c :: cs =>
    let (kind, n) := leading c cs
    ⟨kind, c :: cs.take n⟩ :: lexemes (cs.drop n)
termination_by s => s.length
decreasing_by simp only [List.length_cons, List.length_drop]; omega

/-- Puts `l` in front, joined to the first of `ls` if both are garbage. -/
def Lexeme.joinTo (l : Lexeme) : List Lexeme → List Lexeme
  | [] => [l]
  | m :: ls =>
    if l.kind = .garbage && m.kind = .garbage then ⟨.garbage, l.text ++ m.text⟩ :: ls
    else l :: m :: ls

/-- Neighbouring stretches of garbage made one. -/
def joinGarbage : List Lexeme → List Lexeme
  | [] => []
  | l :: ls => l.joinTo (joinGarbage ls)

/-- The lexemes at their offsets, the first at `offset`. -/
def locate (offset : Nat) : List Lexeme → List Token
  | [] => []
  | l :: ls => ⟨l.kind, l.text, offset⟩ :: locate (offset + byteLength l.text) ls

/-- The tokens of a body, blank space and comments included. -/
def lex (body : List Char) : List Token := locate 0 (joinGarbage (lexemes body))

/-- The tokens of a body without blank space and comments. -/
def significant (body : List Char) : List Token := (lex body).filter (!·.kind.isTrivia)

/-! ## Lemmas -/

theorem lexemes_cons (c : Char) (cs : List Char) :
    lexemes (c :: cs) =
      ⟨(leading c cs).1, c :: cs.take (leading c cs).2⟩ :: lexemes (cs.drop (leading c cs).2) := by
  rw [lexemes]

theorem flatMap_text_lexemes (s : List Char) : (lexemes s).flatMap (·.text) = s := by
  induction h : s.length using Nat.strongRecOn generalizing s with
  | _ n ih =>
    cases s with
    | nil => simp [lexemes]
    | cons c cs =>
      rw [lexemes_cons, List.flatMap_cons, ih _ _ _ rfl]
      · simp
      · simp only [List.length_drop, List.length_cons] at h ⊢; omega

theorem flatMap_text_joinTo (l : Lexeme) (ls : List Lexeme) :
    (l.joinTo ls).flatMap (·.text) = l.text ++ ls.flatMap (·.text) := by
  cases ls with
  | nil => simp [Lexeme.joinTo]
  | cons m ls => simp only [Lexeme.joinTo]; split <;> simp

theorem flatMap_text_joinGarbage (ls : List Lexeme) :
    (joinGarbage ls).flatMap (·.text) = ls.flatMap (·.text) := by
  induction ls with
  | nil => rfl
  | cons l ls ih => rw [joinGarbage, flatMap_text_joinTo, ih, List.flatMap_cons]

theorem flatMap_text_locate (n : Nat) (ls : List Lexeme) :
    (locate n ls).flatMap (·.text) = ls.flatMap (·.text) := by
  induction ls generalizing n with
  | nil => rfl
  | cons l ls ih => simp [locate, ih]

/-- Nothing of the body is lost. -/
theorem flatMap_text_lex (s : List Char) : (lex s).flatMap (·.text) = s := by
  rw [lex, flatMap_text_locate, flatMap_text_joinGarbage, flatMap_text_lexemes]

end GrammarLab.Body
