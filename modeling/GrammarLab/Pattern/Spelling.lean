import GrammarLab.Body.Command
import GrammarLab.Literal
import GrammarLab.Name
import GrammarLab.Pattern.ClassText
import GrammarLab.Pattern.Error

/-!
# Spelling patterns

The body of a lexer rule becomes the text of an expression: literals and classes are escaped,
commands left out, and references replaced by the spellings of the rules they name. The body
is first cut into pieces, so that looking up references is kept apart from reading it.

    pieces ts = ps → assemble resolve ps           spells what the tokens say
-/

namespace GrammarLab.Pattern

open Body

structure Spelling where
  text : List Char
  /-- A lazy quantifier is written somewhere, inlined rules included. -/
  isLazy : Bool
deriving DecidableEq, Repr

/-- A part of a spelling. -/
inductive Piece
  | text (s : List Char)
  /-- The text of a lazy quantifier. -/
  | lazyText (s : List Char)
  | reference (name : String)
  /-- What makes the rest meaningless. -/
  | failure (e : PatternError)
deriving DecidableEq, Repr

/-! ## Algorithm -/

/-- The character that a literal stands for alone. -/
def singleChar (t : Token) : Except PatternError Char :=
  match Literal.unescape t.text with
  | [c] => .ok c
  | _ => .error (.invalid (.notSingle t.name))

/-- The end of a range of literals behind its first, and the tokens behind it. -/
def rangeEnd? : List Token → Option (Token × List Token)
  | op :: last :: rest =>
    if op.kind = .range && last.kind = .literal then some (last, rest) else none
  | _ => none

/-- The characters from one literal to another, for the inside of a class. -/
def rangeText (first last : Token) : Except PatternError (List Char) := do
  let lo ← singleChar first
  let hi ← singleChar last
  return charText lo ++ ['-'] ++ charText hi

/-- The inside of a class token, as an expression writes it. -/
def classBody (t : Token) : Except PatternError (List Char) :=
  match classText? ((t.text.drop 1).dropLast) with
  | some s => .ok s
  | none => .error (.invalid (.dangling t.name))

/-- A literal or a range of them inside a set, and the tokens behind it. -/
def literalMember (t : Token) (ts : List Token) : Except PatternError (List Char × List Token) :=
  match rangeEnd? ts with
  | some (last, rest) => do return (← rangeText t last, rest)
  | none => do return (charText (← singleChar t), ts)

theorem length_le_of_rangeEnd? {ts rest : List Token} {last : Token}
    (h : rangeEnd? ts = some (last, rest)) : rest.length ≤ ts.length := by
  match ts with
  | [] => simp [rangeEnd?] at h
  | [_] => simp [rangeEnd?] at h
  | _ :: _ :: _ =>
    simp only [rangeEnd?] at h
    split at h
    · simp only [Option.some.injEq, Prod.mk.injEq] at h
      simp only [h.2, List.length_cons]; omega
    · simp at h

theorem length_le_of_literalMember {t : Token} {ts rest : List Token} {s : List Char}
    (h : literalMember t ts = .ok (s, rest)) : rest.length ≤ ts.length := by
  simp only [literalMember] at h
  split at h
  · rename_i last r hr
    have := length_le_of_rangeEnd? hr
    cases ht : rangeText t last with
    | error e => simp [ht, bind, Except.bind] at h
    | ok x =>
      simp only [ht, bind, Except.bind, pure, Except.pure, Except.ok.injEq, Prod.mk.injEq] at h
      rw [← h.2]; exact this
  · cases ht : singleChar t with
    | error e => simp [ht, bind, Except.bind] at h
    | ok x =>
      simp only [ht, bind, Except.bind, pure, Except.pure, Except.ok.injEq, Prod.mk.injEq] at h
      exact Nat.le_of_eq (by rw [h.2])

/-- The members of a set up to its closing parenthesis, and the tokens behind it. -/
def setMembers : List Token → Except PatternError (List Char × List Token)
  | [] => .error (.invalid .unclosedNegation)
  | t :: ts =>
    if t.kind = .parenClose then .ok ([], ts)
    else if t.kind = .pipe then setMembers ts
    else if t.kind = .charClass then do
      let s ← classBody t
      let (more, rest) ← setMembers ts
      return (s ++ more, rest)
    else if t.kind = .literal then
      match _h : literalMember t ts with
      | .error e => .error e
      | .ok (s, behind) => do
        let (more, rest) ← setMembers behind
        return (s ++ more, rest)
    else .error (.unsupported (.inNegatedSet t.name))
termination_by ts => ts.length
decreasing_by
  all_goals simp only [List.length_cons]
  · omega
  · omega
  · have := length_le_of_literalMember (by assumption); omega

/-- The inside of the set that a negation takes the complement of, and the tokens behind it. -/
def negatedSet : List Token → Except PatternError (List Char × List Token)
  | [] => .error (.invalid .bareNegation)
  | t :: ts =>
    if t.kind = .charClass then do return (← classBody t, ts)
    else if t.kind = .literal then literalMember t ts
    else if t.kind = .parenOpen then setMembers ts
    else .error (.unsupported (.negated t.name))

/-- A class that matches nothing. -/
def emptyClass : List Char := "[^\\x00-\\x\x7b10FFFF\x7d]".toList

/-- The class with the given inside, which may be empty. -/
def classOf (inside : List Char) : List Char :=
  if inside.isEmpty then emptyClass else ['['] ++ inside ++ [']']

def negatedClassOf (inside : List Char) : List Char := ['[', '^'] ++ inside ++ [']']

/-- A group around the text. -/
def grouped (s : List Char) : List Char := ['(', '?', ':'] ++ s ++ [')']

/-- A dot, which matches line feeds too. -/
def anyText : List Char := "(?s:.)".toList

/-- The failure of an action; a question mark behind it makes it a predicate. -/
def actionError (t : Token) (ts : List Token) : PatternError :=
  if ts.head?.any (·.kind = .question) then .unsupported (.predicate t.name)
  else .unsupported (.action t.name)

/-- The piece of a token that stands alone. -/
def lonePiece (t : Token) (ts : List Token) : Piece :=
  match t.kind with
  | .dot => .text anyText
  | .parenOpen => .text ['(', '?', ':']
  | .parenClose => .text [')']
  | .pipe => .text ['|']
  | .question | .star | .plus => .text t.text
  | .starQuestion | .plusQuestion | .questionQuestion => .lazyText t.text
  | .ident =>
    if t.name = endOfInput then .failure (.unsupported .endOfInput) else .reference t.name
  | .action => .failure (actionError t ts)
  | .lt => .failure (.unsupported .elementOptions)
  | _ => .failure (.invalid (.unexpected t.name))

/-- The piece that starts with the token, and the tokens behind it. -/
def leadingPiece (t : Token) (ts : List Token) : Except PatternError (Piece × List Token) :=
  if t.kind = .literal then
    match rangeEnd? ts with
    | some (last, rest) => do return (.text (classOf (← rangeText t last)), rest)
    | none => .ok (.text (grouped (literalText (Literal.unescape t.text))), ts)
  else if t.kind = .charClass then do return (.text (classOf (← classBody t)), ts)
  else if t.kind = .tilde then do
    let (inside, rest) ← negatedSet ts
    return (.text (negatedClassOf inside), rest)
  else if t.kind = .arrow then .ok (.text [], (commandList ts).2)
  else .ok (lonePiece t ts, ts)

theorem length_lt_of_setMembers {ts rest : List Token} {s : List Char}
    (h : setMembers ts = .ok (s, rest)) : rest.length < ts.length := by
  fun_induction setMembers ts generalizing s rest with
  | case1 => simp at h
  | case2 => simp_all
  | case3 t ts _ _ ih => have := ih h; simp only [List.length_cons]; omega
  | case4 t ts _ _ _ ih =>
    cases hc : classBody t with
    | error e => simp [hc, bind, Except.bind] at h
    | ok x =>
      cases hs : setMembers ts with
      | error e => simp [hc, hs, bind, Except.bind] at h
      | ok y =>
        simp only [hc, hs, bind, Except.bind, pure, Except.pure, Except.ok.injEq,
          Prod.mk.injEq] at h
        have := ih hs
        simp only [List.length_cons]; rw [← h.2]; omega
  | case5 => simp at h
  | case6 t ts _ _ _ _ s' behind hm ih =>
    have hle := length_le_of_literalMember hm
    cases hs : setMembers behind with
    | error e => simp [hs, bind, Except.bind] at h
    | ok y =>
      simp only [hs, bind, Except.bind, pure, Except.pure, Except.ok.injEq, Prod.mk.injEq] at h
      have := ih hs
      simp only [List.length_cons]; rw [← h.2]; omega
  | case7 => simp at h

theorem length_le_of_negatedSet {ts rest : List Token} {s : List Char}
    (h : negatedSet ts = .ok (s, rest)) : rest.length ≤ ts.length := by
  cases ts with
  | nil => simp [negatedSet] at h
  | cons t ts =>
    simp only [negatedSet] at h
    split at h
    · cases hc : classBody t with
      | error e => simp [hc, bind, Except.bind] at h
      | ok x =>
        simp only [hc, bind, Except.bind, pure, Except.pure, Except.ok.injEq, Prod.mk.injEq] at h
        simp [← h.2]
    split at h
    · have := length_le_of_literalMember h
      simp only [List.length_cons]; omega
    split at h
    · have := length_lt_of_setMembers h
      simp only [List.length_cons]; omega
    · simp at h

theorem length_le_of_leadingPiece {t : Token} {ts rest : List Token} {p : Piece}
    (h : leadingPiece t ts = .ok (p, rest)) : rest.length ≤ ts.length := by
  simp only [leadingPiece] at h
  split at h
  · split at h
    · rename_i last r hr
      have := length_le_of_rangeEnd? hr
      cases ht : rangeText t last with
      | error e => simp [ht, bind, Except.bind] at h
      | ok x =>
        simp only [ht, bind, Except.bind, pure, Except.pure, Except.ok.injEq, Prod.mk.injEq] at h
        rw [← h.2]; exact this
    · simp_all
  split at h
  · cases hc : classBody t with
    | error e => simp [hc, bind, Except.bind] at h
    | ok x =>
      simp only [hc, bind, Except.bind, pure, Except.pure, Except.ok.injEq, Prod.mk.injEq] at h
      simp [← h.2]
  split at h
  · cases hn : negatedSet ts with
    | error e => simp [hn, bind, Except.bind] at h
    | ok x =>
      have := length_le_of_negatedSet hn
      simp only [hn, bind, Except.bind, pure, Except.pure, Except.ok.injEq, Prod.mk.injEq] at h
      rw [← h.2]; exact this
  split at h
  · have := length_commandList_le ts
    simp only [Except.ok.injEq, Prod.mk.injEq] at h
    rw [← h.2]; exact this
  · simp_all

/-- The pieces of a pattern, up to the first failure. -/
def pieces : List Token → List Piece
  | [] => []
  | t :: ts =>
    match _h : leadingPiece t ts with
    | .error e => [.failure e]
    | .ok (p, rest) => p :: pieces rest
termination_by ts => ts.length
decreasing_by
  have := length_le_of_leadingPiece (by assumption)
  simp only [List.length_cons]; omega

/-- What a piece contributes. -/
def Piece.spell {m : Type → Type} [Monad m]
    (resolve : String → m (Except PatternError Spelling)) :
    Piece → m (Except PatternError Spelling)
  | .text s => pure (.ok ⟨s, false⟩)
  | .lazyText s => pure (.ok ⟨s, true⟩)
  | .reference name => do
    match ← resolve name with
    | .ok t => pure (.ok ⟨grouped t.text, t.isLazy⟩)
    | .error e => pure (.error e)
  | .failure e => pure (.error e)

/-- The spelling of the pieces; the first of them that fails decides. References are looked up
from left to right, none of them behind a failure. -/
def assemble {m : Type → Type} [Monad m]
    (resolve : String → m (Except PatternError Spelling)) :
    List Piece → m (Except PatternError Spelling)
  | [] => pure (.ok ⟨[], false⟩)
  | p :: ps => do
    match ← p.spell resolve with
    | .error e => pure (.error e)
    | .ok t =>
      match ← assemble resolve ps with
      | .error e => pure (.error e)
      | .ok u => pure (.ok ⟨t.text ++ u.text, t.isLazy || u.isLazy⟩)

/-- The spelling of a body. -/
def spell {m : Type → Type} [Monad m]
    (resolve : String → m (Except PatternError Spelling)) (body : List Char) :
    m (Except PatternError Spelling) :=
  assemble resolve (pieces (significant body))

/-- The spelling of a pattern that belongs to no grammar; all its references fail. -/
def spellAlone (body : List Char) : Except PatternError Spelling :=
  Id.run (spell (fun name => pure (.error (.unsupported (.loose name)))) body)

end GrammarLab.Pattern
