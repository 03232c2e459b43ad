import GrammarLab.Body.Lexer

/-!
# Lexer commands

What stands behind `->` in a lexer rule: a list of names, each with an optional argument in
parentheses. A command with a name of its own and the wrong shape is one of the others.

    commandList ts = (cs, rest) → rest.length ≤ ts.length        (length_commandList_le)
-/

namespace GrammarLab.Body

inductive Command
  | skip
  | more
  | popMode
  | channel (name : String)
  | type (name : String)
  | pushMode (target : String)
  | mode (target : String)
  /-- A command without effect on the tokens, by its text. -/
  | other (text : String)
deriving DecidableEq, Repr

namespace Command

/-- A command of a name alone. -/
def plain (name : String) : Command :=
  if name = "skip" then .skip
  else if name = "more" then .more
  else if name = "popMode" then .popMode
  else .other name

/-- A command with an argument. -/
def applied (name arg : String) : Command :=
  if name = "channel" then .channel arg
  else if name = "type" then .type arg
  else if name = "pushMode" then .pushMode arg
  else if name = "mode" then .mode arg
  else .other (name ++ "(" ++ arg ++ ")")

def ofName (name : String) : Option String → Command
  | none => plain name
  | some arg => applied name arg

def text : Command → String
  | .skip => "skip"
  | .more => "more"
  | .popMode => "popMode"
  | .channel c => "channel(" ++ c ++ ")"
  | .type t => "type(" ++ t ++ ")"
  | .pushMode m => "pushMode(" ++ m ++ ")"
  | .mode m => "mode(" ++ m ++ ")"
  | .other t => t

/-- The mode that the command enters. -/
def target? : Command → Option String
  | .pushMode m => some m
  | .mode m => some m
  | _ => none

end Command

/-! ## Algorithm -/

/-- The argument in front of the tokens: the first token in the parentheses, if there are any and
something stands in them, and the tokens behind them. -/
def argument : List Token → Option String × List Token
  | [] => (none, [])
  | p :: ts =>
    if p.kind = .parenOpen then
      ((ts.takeWhile (·.kind ≠ .parenClose)).head?.map Token.name,
        (ts.dropWhile (·.kind ≠ .parenClose)).drop 1)
    else (none, p :: ts)

theorem length_argument_le (ts : List Token) : (argument ts).2.length ≤ ts.length := by
  cases ts with
  | nil => simp [argument]
  | cons p ts =>
    simp only [argument]
    split
    · have := (List.dropWhile_suffix (fun t : Token => decide (t.kind ≠ .parenClose))
        (l := ts)).length_le
      simp only [List.length_drop, List.length_cons]; omega
    · simp

/-- The commands in front of the tokens, separated by commas, and the tokens behind them. -/
def commandList : List Token → List Command × List Token
  | [] => ([], [])
  | t :: ts =>
    if t.kind = .ident then
      let command := Command.ofName t.name (argument ts).1
      match _h : (argument ts).2 with
      | [] => ([command], [])
      | c :: more =>
        if c.kind = .comma then
          let (commands, rest) := commandList more
          (command :: commands, rest)
        else ([command], c :: more)
    else ([], t :: ts)
termination_by ts => ts.length
decreasing_by
  have := length_argument_le ts
  simp_all; omega

theorem length_commandList_le (ts : List Token) : (commandList ts).2.length ≤ ts.length := by
  fun_induction commandList ts with
  | case1 => simp
  | case2 => simp
  | case3 t ts _ _ c more h _ commands rest heq ih =>
    have := length_argument_le ts
    simp only [heq] at ih
    simp_all; omega
  | case4 t ts _ _ c more h =>
    have := length_argument_le ts
    simp_all; omega
  | case5 => simp

/-- The commands outside parentheses, with `depth` of them open. -/
def commandsFrom (depth : Nat) : List Token → List Command
  | [] => []
  | t :: ts =>
    if t.kind = .parenOpen then commandsFrom (depth + 1) ts
    else if t.kind = .parenClose then commandsFrom (depth - 1) ts
    else if t.kind = .arrow && depth = 0 then
      (commandList ts).1 ++ commandsFrom depth (commandList ts).2
    else commandsFrom depth ts
termination_by ts => ts.length
decreasing_by
  all_goals
    have := length_commandList_le ts
    simp only [List.length_cons]
    omega

/-- The commands of a lexer rule in order of their first occurrence, each once. -/
def commandsOf (body : List Char) : List Command :=
  (commandsFrom 0 (significant body)).eraseDups

end GrammarLab.Body
