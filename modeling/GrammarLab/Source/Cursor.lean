import GrammarLab.Text.Classes

/-!
# Cursors

A place in a source: the rest of the text and the line it begins on. Moving on never leaves the
text and counts the lines passed.

    (c.advance n).rest = c.rest.drop n
-/

namespace GrammarLab.Source

open Text

structure Cursor where
  line : Nat
  rest : List Char
deriving DecidableEq, Repr

namespace Cursor

def start (text : List Char) : Cursor := ⟨1, text⟩

/-- The place `n` characters on, or the end of the text. -/
def advance (n : Nat) (c : Cursor) : Cursor :=
  ⟨c.line + lineFeeds (c.rest.take n), c.rest.drop n⟩

/-- The place behind the characters that satisfy `p`. -/
def pass (p : Char → Bool) (c : Cursor) : Cursor := c.advance (c.rest.takeWhile p).length

def passBlank (c : Cursor) : Cursor := c.pass isWhiteSpace

/-- Blanks and tabs only. -/
def passInlineBlank (c : Cursor) : Cursor := c.pass fun d => d = ' ' || d = '\t'

/-- The end of the text. -/
def finish (c : Cursor) : Cursor := c.advance c.rest.length

/-- The letters, digits and underscores in front. -/
def word (c : Cursor) : List Char := c.rest.takeWhile isWordChar

def passWord (c : Cursor) : Cursor := c.pass isWordChar

/-- The word in front is `keyword` and no longer one. -/
def hasKeyword (keyword : String) (c : Cursor) : Bool := c.word == keyword.toList

def startsWith (d : Char) (c : Cursor) : Bool := c.rest.head? == some d

def restOfLine (c : Cursor) : List Char := c.rest.takeWhile (· ≠ '\n')

/-- The end of the line. -/
def passLine (c : Cursor) : Cursor := c.advance c.restOfLine.length

/-- What is left of a statement: up to its `;`, or to the end of the line if that comes first. -/
def statement (c : Cursor) : List Char :=
  let line := c.restOfLine
  if line.contains ';' then line.takeWhile (· ≠ ';') ++ [';'] else line

def passStatement (c : Cursor) : Cursor := c.advance c.statement.length

/-! ## Lemmas -/

@[simp] theorem rest_advance (n : Nat) (c : Cursor) : (c.advance n).rest = c.rest.drop n := rfl

@[simp] theorem line_advance (n : Nat) (c : Cursor) :
    (c.advance n).line = c.line + lineFeeds (c.rest.take n) := rfl

theorem length_advance_le (n : Nat) (c : Cursor) :
    (c.advance n).rest.length ≤ c.rest.length := by simp

theorem length_advance_lt {n : Nat} {c : Cursor} (hn : 0 < n) (hc : c.rest ≠ []) :
    (c.advance n).rest.length < c.rest.length := by
  have := List.length_pos_iff.2 hc
  simp only [rest_advance, List.length_drop]; omega

theorem length_pass_le (p : Char → Bool) (c : Cursor) :
    (c.pass p).rest.length ≤ c.rest.length := length_advance_le _ c

end Cursor

/-! ## Balanced blocks -/

/-- What a block is in the middle of. -/
inductive BlockState
  | code
  | quoted (mark : Char)
  | escaped (mark : Char)

/-- The length of a block behind its opening delimiter, the closing one included, with `depth` more
of them open. Delimiters within quotes do not count, and a quote ends with its line. -/
def blockLength (opening closing : Char) (depth : Nat) : BlockState → List Char → Option Nat
  | _, [] => none
  | .escaped q, _ :: cs => (blockLength opening closing depth (.quoted q) cs).map (· + 1)
  | .quoted q, c :: cs =>
    if c = '\\' then (blockLength opening closing depth (.escaped q) cs).map (· + 1)
    else if c = q || c = '\n' then (blockLength opening closing depth .code cs).map (· + 1)
    else (blockLength opening closing depth (.quoted q) cs).map (· + 1)
  | .code, c :: cs =>
    if c = '\'' || c = '"' then
      (blockLength opening closing depth (.quoted c) cs).map (· + 1)
    else if c = opening then
      (blockLength opening closing (depth + 1) .code cs).map (· + 1)
    else if c = closing then
      match depth with
      | 0 => some 1
      | d + 1 => (blockLength opening closing d .code cs).map (· + 1)
    else (blockLength opening closing depth .code cs).map (· + 1)

namespace Cursor

/-- The inside of the block that opens in front, and the place behind it. -/
def block? (opening closing : Char) (c : Cursor) : Option (List Char × Cursor) :=
  match c.rest with
  | [] => none
  | _ :: cs =>
    (blockLength opening closing 0 .code cs).map fun n =>
      (cs.take (n - 1), c.advance (n + 1))

theorem length_block?_lt {opening closing : Char} {c c' : Cursor} {inside : List Char}
    (h : c.block? opening closing = some (inside, c')) : c'.rest.length < c.rest.length := by
  unfold block? at h
  cases hc : c.rest with
  | nil => simp [hc] at h
  | cons d ds =>
    simp only [hc, Option.map_eq_some_iff, Prod.mk.injEq] at h
    obtain ⟨n, _, _, rfl⟩ := h
    simp only [rest_advance, hc, List.length_drop, List.length_cons]; omega

end Cursor

end GrammarLab.Source
