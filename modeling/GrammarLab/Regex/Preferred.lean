import GrammarLab.Regex.Extent

/-!
# Preferred matches

Matching in order of preference: an earlier alternative before a later one, one more round of a
greedy loop before its end, the end of a lazy loop before one more round. All candidates are
followed at once, the preferred ones first, and each instruction is entered once a place.

    code base next r has codeSize r instructions          (length_code)
-/

namespace GrammarLab.Regex

/-- An instruction of a program; the targets are places in it. -/
inductive Instruction
  /-- Takes a character of the set. -/
  | take (s : CharSet) (next : Nat)
  /-- Goes on at both places, at the first one by preference. -/
  | fork (first second : Nat)
  | goto (next : Nat)
  | accept
deriving DecidableEq, Repr

/-! ## Programs -/

def choice (isLazy : Bool) (body exit : Nat) : Instruction :=
  if isLazy then .fork exit body else .fork body exit

/-- The number of instructions of an expression. -/
def codeSize : Regex → Nat
  | .empty => 1
  | .set _ => 1
  | .group r => r.codeSize
  | .seq a b => a.codeSize + b.codeSize
  | .or a b => 1 + a.codeSize + b.codeSize
  | .repeated .optional _ r => 1 + r.codeSize
  | .repeated .plus _ r => r.codeSize + 1
  | .repeated .star _ r =>
    match r.least? with
    | some (_ + 1) => 1 + r.codeSize
    | _ => 1 + r.codeSize + 1

/-- The instructions of an expression from the place `base` on, going on at `next`. The end of a
round of a loop is an instruction of its own where a round can be empty. -/
def code (base next : Nat) : Regex → List Instruction
  | .empty => [.goto next]
  | .set s => [.take s next]
  | .group r => code base next r
  | .seq a b =>
    let middle := base + a.codeSize
    code base middle a ++ code middle next b
  | .or a b =>
    let second := base + 1 + a.codeSize
    .fork (base + 1) second :: code (base + 1) next a ++ code second next b
  | .repeated .optional isLazy r => choice isLazy (base + 1) next :: code (base + 1) next r
  | .repeated .plus isLazy r =>
    let round := base + r.codeSize
    code base round r ++ [choice isLazy base next]
  | .repeated .star isLazy r =>
    match r.least? with
    | some (_ + 1) => choice isLazy (base + 1) next :: code (base + 1) base r
    | _ =>
      let round := base + 1 + r.codeSize
      choice isLazy (base + 1) next :: code (base + 1) round r ++ [choice isLazy (base + 1) next]

/-- The program of an expression; it ends with its only `accept`. -/
def program (r : Regex) : Array Instruction :=
  (code 0 r.codeSize r ++ [Instruction.accept]).toArray

/-! ## Algorithm -/

/-- The instructions other than jumps that the places in `work` lead to, in order of preference.
Only places in `fresh` are entered. -/
def closure (p : Array Instruction) (fresh : List Nat) : List Nat → List Instruction
  | [] => []
  | i :: work =>
    if _h : i ∈ fresh then
      match p[i]? with
      | some (.fork a b) => closure p (fresh.erase i) (a :: b :: work)
      | some (.goto a) => closure p (fresh.erase i) (a :: work)
      | some x => x :: closure p (fresh.erase i) work
      | none => closure p (fresh.erase i) work
    else closure p fresh work
termination_by work => (fresh.length, work.length)
decreasing_by
  all_goals simp_wf
  all_goals first
    | (apply Prod.Lex.left; rw [List.length_erase_of_mem _h]
       have := List.length_pos_of_mem _h; omega)
    | (apply Prod.Lex.right; omega)

/-- The instructions before the first `accept`, and whether there is one. -/
def preferredTo (xs : List Instruction) : List Instruction × Bool :=
  (xs.takeWhile (· ≠ .accept), xs.contains .accept)

/-- The places that the instructions lead to by taking `c`. -/
def taking (c : Char) (xs : List Instruction) : List Nat :=
  xs.filterMap fun
    | .take s next => if s.contains c then some next else none
    | _ => none

/-- The number of characters of the preferred match, where `xs` may go on. -/
def preferredFrom (p : Array Instruction) (xs : List Instruction) : List Char → Option Nat
  | [] => if (preferredTo xs).2 then some 0 else none
  | c :: cs =>
    let (active, accepts) := preferredTo xs
    let next := closure p (List.range p.size) (taking c active)
    match if next.isEmpty then none else preferredFrom p next cs with
    | some n => some (n + 1)
    | none => if accepts then some 0 else none

/-- The number of characters of the preferred match at the beginning of the text. -/
def preferred? (p : Array Instruction) (s : List Char) : Option Nat :=
  preferredFrom p (closure p (List.range p.size) [0]) s

/-! ## Lemmas -/

theorem length_code (base next : Nat) (r : Regex) : (code base next r).length = r.codeSize := by
  induction r generalizing base next with
  | empty => rfl
  | set => rfl
  | group r ih => exact ih base next
  | seq a b iha ihb => simp [code, codeSize, iha, ihb]
  | or a b iha ihb => simp [code, codeSize, iha, ihb]; omega
  | repeated q isLazy r ih =>
    cases q with
    | optional => simp [code, codeSize, ih]; omega
    | plus => simp [code, codeSize, ih]
    | star => simp only [code, codeSize]; split <;> simp [ih] <;> omega

end GrammarLab.Regex
