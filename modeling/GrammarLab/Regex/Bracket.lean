import GrammarLab.Regex.Escape

/-!
# Character classes in brackets

A class lists characters and ranges; `--`, `&&` and `~~` combine what stands before them with the
list behind them, from left to right, and a `^` in front takes the complement of it all. Classes do
not nest.

    bracket? ['a', '-', 'c', ']'] = some (⟨.between 'a' 'c', 1⟩, [])
-/

namespace GrammarLab.Regex

inductive SetOperator
  | difference
  | intersection
  | symmetricDifference
deriving DecidableEq, Repr

def SetOperator.apply : SetOperator → CharSet → CharSet → CharSet
  | .difference, s, t => s.diff t
  | .intersection, s, t => s.inter t
  | .symmetricDifference, s, t => s.symmDiff t

/-- A part of a class. -/
inductive ClassPart
  | member (s : CharSet)
  | operator (op : SetOperator)
deriving DecidableEq, Repr

/-- A class and how deep it nests: one level for the brackets, one for each operator above a list
and one for a list of several members. -/
structure Bracketed where
  set : CharSet
  depth : Nat
deriving DecidableEq, Repr

/-! ## Algorithm -/

def operatorAt? (c : Char) (cs : List Char) : Option (SetOperator × List Char) :=
  match cs with
  | [] => none
  | d :: rest =>
    if c ≠ d then none
    else if c = '-' then some (.difference, rest)
    else if c = '&' then some (.intersection, rest)
    else if c = '~' then some (.symmetricDifference, rest)
    else none

/-- The set from one unit to another; both must be characters in ascending order. -/
def range? : TextUnit → TextUnit → Option CharSet
  | .char lo, .char hi => if lo ≤ hi then some (.between lo hi) else none
  | _, _ => none

/-- The member that starts with `c`, a range if a `-` follows that can join it to something, and
the text behind it. -/
def member? (c : Char) (cs : List Char) : Option (CharSet × List Char) :=
  match unit? c cs with
  | none => none
  | some (u, rest) =>
    match rest with
    | [] => none
    | m :: behind =>
      if m = '-' then
        match behind with
        | [] => none
        | d :: ds =>
          if d = ']' || d = '-' then some (u.toSet, rest)
          else match unit? d ds with
            | none => none
            | some (v, rest) => (range? u v).map (·, rest)
      else some (u.toSet, rest)

theorem length_le_of_operatorAt? {c : Char} {cs rest : List Char} {op : SetOperator}
    (h : operatorAt? c cs = some (op, rest)) : rest.length ≤ cs.length := by
  cases cs with
  | nil => simp [operatorAt?] at h
  | cons d ds =>
    simp only [operatorAt?] at h
    repeat' split at h
    all_goals simp_all

theorem length_le_of_member? {c : Char} {cs rest : List Char} {s : CharSet}
    (h : member? c cs = some (s, rest)) : rest.length ≤ cs.length := by
  simp only [member?] at h
  split at h
  · simp at h
  rename_i u r hu
  have hr := length_le_of_unit? hu
  split at h
  · simp at h
  split at h
  · split at h
    · simp at h
    split at h
    · simp only [Option.some.injEq, Prod.mk.injEq] at h
      simpa [← h.2] using hr
    split at h
    · simp at h
    · rename_i hv
      have := length_le_of_unit? hv
      obtain ⟨_, _, he⟩ := Option.map_eq_some_iff.1 h
      simp only [Prod.mk.injEq] at he
      simp only [List.length_cons] at hr
      rw [← he.2]; omega
  · simp only [Option.some.injEq, Prod.mk.injEq] at h
    simpa [← h.2] using hr

/-- The parts up to the closing bracket, and the text behind it. -/
def parts? : List Char → Option (List ClassPart × List Char)
  | [] => none
  | c :: cs =>
    if c = ']' then some ([], cs)
    else if c = '[' then none
    else match _h : operatorAt? c cs with
      | some (op, rest) => (parts? rest).map fun (parts, rest) => (.operator op :: parts, rest)
      | none =>
        match _h : member? c cs with
        | some (s, rest) => (parts? rest).map fun (parts, rest) => (.member s :: parts, rest)
        | none => none
termination_by cs => cs.length
decreasing_by
  · have := length_le_of_operatorAt? (by assumption)
    simp only [List.length_cons]; omega
  · have := length_le_of_member? (by assumption)
    simp only [List.length_cons]; omega

/-- The parts of a class behind its opening. Dashes in front stand for themselves; if there are
none, so does a closing bracket in front. -/
def opening? (cs : List Char) : Option (List ClassPart × List Char) :=
  let dashes := cs.takeWhile (· = '-')
  let rest := cs.dropWhile (· = '-')
  let literal (c : Char) : ClassPart := .member (.single c)
  match dashes, rest with
  | [], ']' :: rest => (parts? rest).map fun (parts, rest) => (literal ']' :: parts, rest)
  | _, _ => (parts? rest).map fun (parts, rest) => (dashes.map literal ++ parts, rest)

/-- The members in front of the first operator. -/
def members : List ClassPart → List CharSet
  | .member s :: parts => s :: members parts
  | _ => []

/-- The union of the members, and its depth. -/
def unionOf (sets : List CharSet) : Bracketed :=
  ⟨sets.foldl .union .empty, if sets.length ≤ 1 then 0 else 1⟩

/-- Applies the operators from left to right to what `acc` holds and the lists behind them. -/
def combine (acc : Bracketed) : List ClassPart → Bracketed
  | [] => acc
  | .operator op :: parts =>
    let operand := unionOf (members parts)
    combine ⟨op.apply acc.set operand.set, 1 + max acc.depth operand.depth⟩ parts
  | .member _ :: parts => combine acc parts

/-- The class behind an opening bracket, and the text behind it. -/
def bracket? (cs : List Char) : Option (Bracketed × List Char) :=
  let negated := decide (cs.head? = some '^')
  (opening? (if negated then cs.drop 1 else cs)).map fun (parts, rest) =>
    let b := combine (unionOf (members parts)) parts
    (⟨if negated then b.set.compl else b.set, 1 + b.depth⟩, rest)

/-! ## Lemmas -/

theorem length_lt_of_parts? {cs rest : List Char} {parts : List ClassPart}
    (h : parts? cs = some (parts, rest)) : rest.length < cs.length := by
  fun_induction parts? cs generalizing parts rest with
  | case1 => simp at h
  | case2 => simp_all
  | case3 => simp at h
  | case4 c cs _ _ op r ho ih =>
    obtain ⟨⟨ps, r'⟩, hp, he⟩ := Option.map_eq_some_iff.1 h
    simp only [Prod.mk.injEq] at he
    have := ih hp
    have := length_le_of_operatorAt? ho
    rw [← he.2]; simp only [List.length_cons]; omega
  | case5 c cs _ _ _ s r hm ih =>
    obtain ⟨⟨ps, r'⟩, hp, he⟩ := Option.map_eq_some_iff.1 h
    simp only [Prod.mk.injEq] at he
    have := ih hp
    have := length_le_of_member? hm
    rw [← he.2]; simp only [List.length_cons]; omega
  | case6 => simp at h

theorem length_lt_of_opening? {cs rest : List Char} {parts : List ClassPart}
    (h : opening? cs = some (parts, rest)) : rest.length < cs.length := by
  have hd := (List.dropWhile_suffix (fun c : Char => decide (c = '-')) (l := cs)).length_le
  simp only [opening?] at h
  split at h
  · rename_i r _ hr
    obtain ⟨⟨ps, r'⟩, hp, he⟩ := Option.map_eq_some_iff.1 h
    simp only [Prod.mk.injEq] at he
    have := length_lt_of_parts? hp
    rw [hr] at hd
    simp only [List.length_cons] at hd
    rw [← he.2]; omega
  · obtain ⟨⟨ps, r'⟩, hp, he⟩ := Option.map_eq_some_iff.1 h
    simp only [Prod.mk.injEq] at he
    have := length_lt_of_parts? hp
    rw [← he.2]; omega

theorem length_lt_of_bracket? {cs rest : List Char} {b : Bracketed}
    (h : bracket? cs = some (b, rest)) : rest.length < cs.length := by
  obtain ⟨⟨ps, r'⟩, hp, he⟩ := Option.map_eq_some_iff.1 h
  simp only [Prod.mk.injEq] at he
  have := length_lt_of_opening? hp
  have hl : (if decide (cs.head? = some '^') = true then cs.drop 1 else cs).length ≤ cs.length := by
    split <;> simp
  rw [← he.2]; omega

end GrammarLab.Regex
