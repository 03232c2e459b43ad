/-!
# Comments

Blanking out comments before a source is read. Every character of a comment becomes a blank and
line feeds stay, so each character keeps its place and its line. Literals and classes end with
their line at the latest; only a block comment runs on.

    (strip s).length = s.length                     (length_strip)
-/

namespace GrammarLab.Source

/-- What the text is in the middle of. -/
inductive CommentState
  | code
  | lineComment
  | blockComment
  | quoted (mark : Char)
  | quotedEscape (mark : Char)
  | inClass
  | classEscape
deriving DecidableEq, Repr

/-- A line feed ends everything but a block comment. -/
def CommentState.afterLineFeed : CommentState → CommentState
  | .blockComment => .blockComment
  | _ => .code

/-- The state behind a character of code that begins no comment. -/
def CommentState.afterCode (c : Char) : CommentState :=
  if c = '\'' || c = '"' then .quoted c else if c = '[' then .inClass else .code

/-- The state behind a character of a literal. -/
def CommentState.afterQuoted (mark c : Char) : CommentState :=
  if c = '\\' then .quotedEscape mark else if c = mark then .code else .quoted mark

/-- The state behind a character of a class. -/
def CommentState.afterClass (c : Char) : CommentState :=
  if c = '\\' then .classEscape else if c = ']' then .code else .inClass

def stripFrom : CommentState → List Char → List Char
  | _, [] => []
  | state, c :: cs =>
    if c = '\n' then '\n' :: stripFrom state.afterLineFeed cs
    else match state with
      | .lineComment => ' ' :: stripFrom .lineComment cs
      | .blockComment =>
        match cs with
        | [] => [' ']
        | d :: ds =>
          if c = '*' && d = '/' then ' ' :: ' ' :: stripFrom .code ds
          else ' ' :: stripFrom .blockComment (d :: ds)
      | .quoted mark => c :: stripFrom (.afterQuoted mark c) cs
      | .quotedEscape mark => c :: stripFrom (.quoted mark) cs
      | .inClass => c :: stripFrom (.afterClass c) cs
      | .classEscape => c :: stripFrom .inClass cs
      | .code =>
        match cs with
        | [] => [c]
        | d :: ds =>
          if c = '/' && d = '/' then ' ' :: ' ' :: stripFrom .lineComment ds
          else if c = '/' && d = '*' then ' ' :: ' ' :: stripFrom .blockComment ds
          else c :: stripFrom (.afterCode c) (d :: ds)
termination_by _ s => s.length

/-- The source with its comments blanked out. -/
def strip (source : List Char) : List Char := stripFrom .code source

/-! ## Lemmas -/

theorem length_stripFrom (state : CommentState) (s : List Char) :
    (stripFrom state s).length = s.length := by
  fun_induction stripFrom state s <;> simp_all

theorem length_strip (s : List Char) : (strip s).length = s.length := length_stripFrom _ s

end GrammarLab.Source
