import GrammarLab.Matcher.Terminal

/-!
# Walking an alternative

The elements of an alternative take tokens in turn, each as many as it can, and none gives any
back. Loops and optional elements leave as many tokens as the rest needs at least. Another parser
rule is taken to be one token, and whether that was done anywhere is kept.

    (walk r).result = .ok d → d.left is a suffix of the tokens
-/

namespace GrammarLab.Matcher

open Body

/-- Why an element did not match, with the number of tokens left by then. -/
structure Failure where
  left : Nat
  expected : List String
deriving DecidableEq, Repr

/-- Where a sequence stopped. -/
structure Done where
  left : List String
  /-- What was left out or could have gone on there. -/
  openNames : List String
deriving DecidableEq, Repr

/-- The outcome of a walk, and whether a parser rule was taken to be a token on the way. -/
structure Walk (α : Type) where
  assumed : Bool
  result : Except Failure α

namespace Walk

variable {α β : Type}

def ok (a : α) : Walk α := ⟨false, .ok a⟩

def error (f : Failure) : Walk α := ⟨false, .error f⟩

/-- Goes on from a success. -/
def andThen (w : Walk α) (f : α → Walk β) : Walk β :=
  match w.result with
  | .ok a => ⟨w.assumed || (f a).assumed, (f a).result⟩
  | .error e => ⟨w.assumed, .error e⟩

/-- Goes on from a failure. -/
def orElse (w : Walk α) (f : Failure → Walk α) : Walk α :=
  match w.result with
  | .ok a => ⟨w.assumed, .ok a⟩
  | .error e => ⟨w.assumed || (f e).assumed, (f e).result⟩

end Walk

/-- Repeats `once` as long as it takes tokens, more than `reserve` are left and `halts` does not
hold. `rounds` bounds how often. -/
def loop (once : List String → Walk (List String)) (reserve : Nat) (halts : List String → Bool) :
    Nat → List String → Walk (List String)
  | 0, left => .ok left
  | rounds + 1, left =>
    if left.length ≤ reserve || halts left then .ok left
    else
      let w := once left
      match w.result with
      | .ok next =>
        if next.length < left.length then
          let v := loop once reserve halts rounds next
          ⟨w.assumed || v.assumed, v.result⟩
        else ⟨w.assumed, .ok left⟩
      | .error _ => ⟨w.assumed, .ok left⟩

/-- A parser rule that is repeated stops before a token that the next element accepts. -/
def haltsBefore (ls : Literals) (content : Content) (stop : Option Content)
    (left : List String) : Bool :=
  match content, stop, left with
  | .rule _, some terminal, type :: _ => terminalAccepts ls type terminal
  | _, _, _ => false

/-- An element by its modifier, where `once` is one occurrence of its content. -/
def applyModifier (modifier : Modifier) (once : List String → Walk (List String)) (reserve : Nat)
    (halts : List String → Bool) (left : List String) : Walk (List String) :=
  match modifier with
  | .once => once left
  | .optional => loop once reserve halts 1 left
  | .zeroOrMore => loop once reserve halts left.length left
  | .oneOrMore => (once left).andThen fun next => loop once reserve halts next.length next

/-- Of two failures the one that got further; of equals the first, with the names of both. -/
def Failure.furthest (best f : Failure) : Failure :=
  if best.left < f.left then best
  else if best.left = f.left then ⟨best.left, mergeNames best.expected f.expected⟩
  else f

/-- One occurrence of a content other than a group. -/
def simpleOnce (ls : Literals) (content : Content) (left : List String) : Walk (List String) :=
  match left with
  | [] =>
    match content with
    | .endOfInput => .ok []
    | _ => .error ⟨0, expectedNames content⟩
  | type :: rest =>
    match content with
    | .rule _ => ⟨true, .ok rest⟩
    | .wildcard => .ok rest
    | .negated inner =>
      if terminalAccepts ls type inner then .error ⟨left.length, expectedNames content⟩
      else .ok rest
    | _ =>
      if terminalAccepts ls type content then .ok rest
      else .error ⟨left.length, expectedNames content⟩

/-- What a failed element tells: at the place where it began, also what else could stand there. -/
def Failure.atElement (left : List String) (openNames : List String) (f : Failure) : Failure :=
  if f.left = left.length then { f with expected := mergeNames openNames f.expected } else f

/-- The open names behind an element that went from `left` to `next`. -/
def openAfter (content : Content) (modifier : Modifier) (left next openNames : List String) :
    List String :=
  let kept := if next.length < left.length then [] else openNames
  if modifier.isRepeating || (modifier.isOptional && next.length = left.length) then
    mergeNames kept (expectedNames content)
  else kept

mutual

/-- The elements in turn. -/
def walkElements (ls : Literals) :
    List (ElementOf Content) → List String → List String → Walk Done
  | [], left, openNames => .ok ⟨left, openNames⟩
  | ⟨content, modifier, _⟩ :: rest, left, openNames =>
    let w := applyModifier modifier (walkContent ls content) (minTokens rest)
      (haltsBefore ls content (nextTerminal? rest)) left
    match w.result with
    | .error f => ⟨w.assumed, .error (f.atElement left openNames)⟩
    | .ok next =>
      let v := walkElements ls rest next (openAfter content modifier left next openNames)
      ⟨w.assumed || v.assumed, v.result⟩

/-- One occurrence of a content. -/
def walkContent (ls : Literals) : Content → List String → Walk (List String)
  | .group branches, left => walkBranches ls branches left none
  | .token name, left => simpleOnce ls (.token name) left
  | .rule name, left => simpleOnce ls (.rule name) left
  | .literal quoted, left => simpleOnce ls (.literal quoted) left
  | .charSet text, left => simpleOnce ls (.charSet text) left
  | .range first last, left => simpleOnce ls (.range first last) left
  | .wildcard, left => simpleOnce ls .wildcard left
  | .negated inner, left => simpleOnce ls (.negated inner) left
  | .endOfInput, left => simpleOnce ls .endOfInput left

/-- The first alternative that matches, or the failure that got furthest. -/
def walkBranches (ls : Literals) :
    List (AlternativeOf Content) → List String → Option Failure → Walk (List String)
  | [], left, best => .error (best.getD ⟨left.length, []⟩)
  | ⟨elements, _, _, _⟩ :: rest, left, best =>
    let w := walkElements ls elements left []
    match w.result with
    | .ok d => ⟨w.assumed, .ok d.left⟩
    | .error f =>
      let v := walkBranches ls rest left (some (best.elim f (·.furthest f)))
      ⟨w.assumed || v.assumed, v.result⟩

end

end GrammarLab.Matcher
