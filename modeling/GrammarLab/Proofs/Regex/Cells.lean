import Mathlib.Data.List.Chain
import Mathlib.Data.Option.NAry
import GrammarLab.Proofs.Regex.Assembly
import GrammarLab.Proofs.Regex.Symbols

/-!
# Quantifiers that fuse

A text that is written piece by piece has the symbols of its pieces, with one exception: a question
mark that comes to stand behind a quantifier makes it lazy, whatever the two were written for. In
the text `a*?` the star and the question mark are cells of their own that make one symbol.

    symbols? (writing cells) = fuse cells                                   (symbols?_writing)
-/

namespace GrammarLab

/-- The character that the quantifier is written as. -/
def Quantifier.char : Quantifier → Char
  | .optional => '?'
  | .star => '*'
  | .plus => '+'

namespace Regex

/-- In front of a text that satisfies `F`, the symbols of `t` are those that it has alone. -/
def Apart (F : List Char → Prop) (t : List Char) : Prop :=
  ∀ rest, F rest → symbols? (t ++ rest) = Option.map₂ (· ++ ·) (symbols? t) (symbols? rest)

/-- A text that neither fuses with a quantifier in front of it nor with what stands behind it. -/
structure Solid (t : List Char) : Prop where
  follows : ∀ rest, Outside rest → Follows (t ++ rest)
  apart : Apart Outside t

/-- A text that may begin with a question mark or end in a quantifier. -/
structure Loose (t : List Char) : Prop where
  outside : ∀ rest, Outside rest → Outside (t ++ rest)
  apart : Apart Follows t

/-- A stretch of a text. -/
inductive Cell
  | mark (q : Quantifier)
  | solid (s : List Char)

def Cell.text : Cell → List Char
  | .mark q => [q.char]
  | .solid s => s

def writing (cells : List Cell) : List Char := cells.flatMap Cell.text

/-- The symbols of the cells, where a question mark goes with the quantifier in front of it. -/
def fuse : List Cell → Option (List Symbol)
  | [] => some []
  | .solid s :: cells => Option.map₂ (· ++ ·) (symbols? s) (fuse cells)
  | .mark q :: .mark .optional :: cells => (fuse cells).map (.quantifier q true :: ·)
  | .mark q :: cells => (fuse cells).map (.quantifier q false :: ·)

/-- Two cells next to each other that do not make one symbol. -/
def Cell.Unfused (a b : Cell) : Prop := b = .mark .optional → ∀ q, a ≠ .mark q

/-- The number of open groups behind the cell. -/
def Cell.nest? (n : Nat) : Cell → Option Nat
  | .mark _ => some n
  | .solid s => (symbols? s).bind fun ys => nesting? n ys

section

variable {F : List Char → Prop} {s t rest : List Char} {xs ys : List Symbol} {cells : List Cell}

/-! ## Texts that stand apart -/

theorem symbols?_nil : symbols? [] = some [] := by rw [symbols?]

theorem apart_of_symbols (hnil : F [])
    (h : ∀ rest, F rest → symbols? (t ++ rest) = (symbols? rest).map (ys ++ ·)) :
    symbols? t = some ys ∧ Apart F t := by
  have ht : symbols? t = some ys := by
    have halone := h [] hnil
    rwa [List.append_nil, symbols?_nil, Option.map_some, List.append_nil] at halone
  refine ⟨ht, fun rest hrest => ?_⟩
  rw [h rest hrest, ht]
  rfl

theorem apart_of_none (hnil : F []) (h : ∀ rest, F rest → symbols? (t ++ rest) = none) :
    symbols? t = none ∧ Apart F t := by
  have ht : symbols? t = none := by
    have halone := h [] hnil
    rwa [List.append_nil] at halone
  refine ⟨ht, fun rest hrest => ?_⟩
  rw [h rest hrest, ht]
  rfl

theorem symbols?_groupOpen (rest : List Char) :
    symbols? (['(', '?', ':'] ++ rest) = (symbols? rest).map (.groupOpen :: ·) := symbols?_cons rfl

theorem symbols?_groupClose (rest : List Char) :
    symbols? ([')'] ++ rest) = (symbols? rest).map (.groupClose :: ·) := symbols?_cons rfl

/-- A text of one symbol. -/
theorem solid_of_symbol? {c : Char} {cs : List Char} {x : Symbol}
    (hfollows : ∀ rest, Outside rest → Follows (c :: cs ++ rest))
    (h : ∀ rest, symbol? c (cs ++ rest) = some (x, rest)) :
    symbols? (c :: cs) = some [x] ∧ Solid (c :: cs) := by
  have hsymbols : ∀ rest, Outside rest →
      symbols? (c :: cs ++ rest) = (symbols? rest).map ([x] ++ ·) :=
    fun rest _ => symbols?_cons (h rest)
  obtain ⟨halone, hapart⟩ := apart_of_symbols (F := Outside) .nil hsymbols
  exact ⟨halone, hfollows, hapart⟩

/-- A text that no expression begins with. -/
theorem solid_of_unread {c : Char} {cs : List Char}
    (hfollows : ∀ rest, Outside rest → Follows (c :: cs ++ rest))
    (h : ∀ rest, Outside rest → symbol? c (cs ++ rest) = none) :
    symbols? (c :: cs) = none ∧ Solid (c :: cs) := by
  obtain ⟨halone, hapart⟩ := apart_of_none (F := Outside) (t := c :: cs) .nil
    fun rest hrest => symbols?_eq_none (h rest hrest)
  exact ⟨halone, hfollows, hapart⟩

/-- A group holds a loose text together. -/
theorem symbols?_group (h : Loose t) (hrest : Outside rest) :
    symbols? (['(', '?', ':'] ++ t ++ [')'] ++ rest) =
      Option.map₂ (fun ys zs => .groupOpen :: ys ++ [.groupClose] ++ zs) (symbols? t)
        (symbols? rest) := by
  have hclose : Follows ([')'] ++ rest) := follows_cons (by decide) hrest
  rw [List.append_assoc, List.append_assoc, symbols?_groupOpen, h.apart _ hclose,
    symbols?_groupClose]
  cases symbols? t with
  | none => rfl
  | some ys =>
    cases symbols? rest with
    | none => rfl
    | some zs => simp

theorem symbols?_group_alone (h : Loose t) : symbols? (['(', '?', ':'] ++ t ++ [')']) =
    (symbols? t).map fun ys => .groupOpen :: ys ++ [.groupClose] := by
  have halone := symbols?_group h .nil
  rw [List.append_nil, symbols?_nil] at halone
  rw [halone]
  cases symbols? t <;> simp

theorem solid_group (h : Loose t) : Solid (['(', '?', ':'] ++ t ++ [')']) where
  follows := by
    intro rest hrest
    have hclose : Outside ([')'] ++ rest) := .plain (by decide) hrest
    rw [List.append_assoc, List.append_assoc]
    exact follows_cons (by decide) (outside_append (t := ['?', ':']) (by simp) (h.outside _ hclose))
  apart := by
    intro rest hrest
    rw [symbols?_group h hrest, symbols?_group_alone h]
    cases symbols? t <;> cases symbols? rest <;> rfl

/-! ## Texts written in cells -/

theorem quantifier?_char (q : Quantifier) : quantifier? q.char = some q := by cases q <;> rfl

theorem outside_writing (h : ∀ s, .solid s ∈ cells → Solid s) (hrest : Outside rest) :
    Outside (writing cells ++ rest) := by
  induction cells with
  | nil => exact hrest
  | cons cell cells ih =>
    have hcells := ih fun s hs => h s (List.mem_cons_of_mem _ hs)
    rw [writing, List.flatMap_cons, List.append_assoc]
    cases cell with
    | mark q => exact .plain (by cases q <;> decide) hcells
    | solid s => exact ((h s List.mem_cons_self).follows _ hcells).outside

theorem follows_writing (h : ∀ s, .solid s ∈ cells → Solid s)
    (hhead : cells.head? ≠ some (.mark .optional)) (hrest : Follows rest) :
    Follows (writing cells ++ rest) := by
  cases cells with
  | nil => exact hrest
  | cons cell cells =>
    have hcells : Outside (writing cells ++ rest) :=
      outside_writing (fun s hs => h s (List.mem_cons_of_mem _ hs)) hrest.outside
    rw [writing, List.flatMap_cons, List.append_assoc]
    cases cell with
    | mark q =>
      have hq : q ≠ .optional := by
        rintro rfl
        exact hhead rfl
      exact follows_cons (by cases q <;> first | exact absurd rfl hq | decide) hcells
    | solid s => exact (h s List.mem_cons_self).follows _ hcells

theorem symbols?_lazyMark (q : Quantifier) (rest : List Char) :
    symbols? (q.char :: '?' :: rest) = (symbols? rest).map (.quantifier q true :: ·) :=
  symbols?_cons (symbol?_of_quantifier? (quantifier?_char q) _)

theorem symbols?_mark (q : Quantifier) (hrest : Follows rest) :
    symbols? (q.char :: rest) = (symbols? rest).map (.quantifier q false :: ·) := by
  have hsymbol : symbol? q.char rest = some (quantified q rest) :=
    symbol?_of_quantifier? (quantifier?_char q) rest
  have hgreedy : quantified q rest = (.quantifier q false, rest) := by
    unfold quantified
    split
    · exact absurd rfl hrest.unquestioned
    · rfl
  rw [hgreedy] at hsymbol
  exact symbols?_cons hsymbol

theorem symbols?_writing_append (h : ∀ s, .solid s ∈ cells → Solid s) (hrest : Follows rest) :
    symbols? (writing cells ++ rest) = Option.map₂ (· ++ ·) (fuse cells) (symbols? rest) := by
  fun_induction fuse cells with
  | case1 =>
    show symbols? rest = _
    cases symbols? rest <;> rfl
  | case2 s cells ih =>
    have hcells : ∀ s, .solid s ∈ cells → Solid s := fun s hs => h s (List.mem_cons_of_mem _ hs)
    have hs : Solid s := h s List.mem_cons_self
    rw [writing, List.flatMap_cons, List.append_assoc]
    show symbols? (s ++ (writing cells ++ rest)) = _
    rw [hs.apart _ (outside_writing hcells hrest.outside), ih hcells]
    cases symbols? s <;> cases fuse cells <;> cases symbols? rest <;> simp
  | case3 q cells ih =>
    have hcells : ∀ s, .solid s ∈ cells → Solid s := fun s hs =>
      h s (List.mem_cons_of_mem _ (List.mem_cons_of_mem _ hs))
    show symbols? (q.char :: '?' :: (writing cells ++ rest)) = _
    rw [symbols?_lazyMark, ih hcells]
    cases fuse cells <;> cases symbols? rest <;> rfl
  | case4 q cells hnext ih =>
    have hcells : ∀ s, .solid s ∈ cells → Solid s := fun s hs => h s (List.mem_cons_of_mem _ hs)
    have hhead : cells.head? ≠ some (.mark .optional) := by
      intro hhead
      obtain ⟨behind, rfl⟩ := List.head?_eq_some_iff.1 hhead
      exact hnext behind rfl
    show symbols? (q.char :: (writing cells ++ rest)) = _
    rw [symbols?_mark q (follows_writing hcells hhead hrest), ih hcells]
    cases fuse cells <;> cases symbols? rest <;> rfl

theorem symbols?_writing (h : ∀ s, .solid s ∈ cells → Solid s) :
    symbols? (writing cells) = fuse cells := by
  have halone := symbols?_writing_append h follows_nil
  rw [List.append_nil, symbols?_nil] at halone
  rw [halone]
  cases fuse cells <;> simp

theorem loose_writing (h : ∀ s, .solid s ∈ cells → Solid s) : Loose (writing cells) where
  outside _ hrest := outside_writing h hrest
  apart _ hrest := by rw [symbols?_writing h, symbols?_writing_append h hrest]

/-! ## Symbols of cells -/

theorem map₂_append_eq_some {a b : Option (List Symbol)} :
    Option.map₂ (· ++ ·) a b = some xs ↔ ∃ ys zs, a = some ys ∧ b = some zs ∧ ys ++ zs = xs := by
  cases a <;> cases b <;> simp

/-- The symbols of a solid cell stand next to each other. -/
theorem infix_of_fuse (h : fuse cells = some xs) (hs : .solid s ∈ cells) :
    ∃ ys, symbols? s = some ys ∧ ys <:+: xs := by
  fun_induction fuse cells generalizing xs with
  | case1 => cases hs
  | case2 s' cells ih =>
    obtain ⟨ys, zs, hy, hz, rfl⟩ := map₂_append_eq_some.1 h
    rcases List.mem_cons.1 hs with heq | hs
    · obtain rfl := Cell.solid.inj heq
      exact ⟨ys, hy, (List.prefix_append ys zs).isInfix⟩
    · obtain ⟨ws, hw, hin⟩ := ih hz hs
      exact ⟨ws, hw, hin.trans (List.suffix_append ys zs).isInfix⟩
  | case3 q cells ih =>
    obtain ⟨zs, hz, rfl⟩ := Option.map_eq_some_iff.1 h
    have hs' : .solid s ∈ cells := by simpa using hs
    obtain ⟨ys, hy, hin⟩ := ih hz hs'
    exact ⟨ys, hy, List.infix_cons hin⟩
  | case4 q cells _ ih =>
    obtain ⟨zs, hz, rfl⟩ := Option.map_eq_some_iff.1 h
    have hs' : .solid s ∈ cells := by simpa using hs
    obtain ⟨ys, hy, hin⟩ := ih hz hs'
    exact ⟨ys, hy, List.infix_cons hin⟩

/-- Quantifiers open and close no groups, fused or not. -/
theorem nesting?_of_fuse (h : fuse cells = some xs) (n : Nat) :
    nesting? n xs = cells.foldlM Cell.nest? n := by
  fun_induction fuse cells generalizing xs n with
  | case1 =>
    obtain rfl := Option.some.inj h
    rfl
  | case2 s cells ih =>
    obtain ⟨ys, zs, hy, hz, rfl⟩ := map₂_append_eq_some.1 h
    rw [List.foldlM_cons, nesting?_append]
    show _ = (Cell.nest? n (.solid s)).bind _
    rw [Cell.nest?, hy, Option.bind_some]
    exact congrArg _ (funext fun m => ih hz m)
  | case3 q cells ih =>
    obtain ⟨zs, hz, rfl⟩ := Option.map_eq_some_iff.1 h
    exact ih hz n
  | case4 q cells _ ih =>
    obtain ⟨zs, hz, rfl⟩ := Option.map_eq_some_iff.1 h
    exact ih hz n

theorem isChain_solid_cons :
    (Cell.solid s :: cells).IsChain Cell.Unfused ↔ cells.IsChain Cell.Unfused := by
  rw [List.isChain_cons]
  exact and_iff_right fun _ _ _ _ => nofun

/-- A lazy quantifier stands in a solid cell, or two cells make one. -/
theorem lazy_of_fuse (h : fuse cells = some xs) :
    (∃ q, .quantifier q true ∈ xs) ↔ ¬cells.IsChain Cell.Unfused ∨
      ∃ s, .solid s ∈ cells ∧ ∃ ys, symbols? s = some ys ∧ ∃ q, .quantifier q true ∈ ys := by
  fun_induction fuse cells generalizing xs with
  | case1 =>
    obtain rfl := Option.some.inj h
    simp
  | case2 s cells ih =>
    obtain ⟨ys, zs, hy, hz, rfl⟩ := map₂_append_eq_some.1 h
    simp only [List.mem_append, exists_or, ih hz, isChain_solid_cons, List.mem_cons, Cell.solid.injEq,
      or_and_right, exists_eq_left, hy, Option.some.injEq, exists_eq_left']
    rw [or_left_comm]
  | case3 q cells ih =>
    obtain ⟨zs, hz, rfl⟩ := Option.map_eq_some_iff.1 h
    have hchain : ¬(Cell.mark q :: .mark .optional :: cells).IsChain Cell.Unfused := by
      intro hchain
      exact (List.isChain_cons_cons.1 hchain).1 rfl q rfl
    exact iff_of_true ⟨q, List.mem_cons_self⟩ (.inl hchain)
  | case4 q cells hnext ih =>
    obtain ⟨zs, hz, rfl⟩ := Option.map_eq_some_iff.1 h
    have hchain : (Cell.mark q :: cells).IsChain Cell.Unfused ↔ cells.IsChain Cell.Unfused := by
      rw [List.isChain_cons]
      refine and_iff_right fun cell hcell heq => ?_
      subst heq
      obtain ⟨behind, rfl⟩ := List.head?_eq_some_iff.1 hcell
      exact absurd rfl (hnext behind)
    simp [ih hz, hchain]

end

end Regex

end GrammarLab
