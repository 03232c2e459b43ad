import GrammarLab.Text.Classes

/-!
# Sets of characters

A set is a list of code point ranges, ends included. Only ranges of scalar values are built, so a
range that is not empty holds a character.

    (s.union t).contains c = (s.contains c || t.contains c)        (contains_union)
    (s.diff t).contains c = (s.contains c && !t.contains c)        (contains_diff)
-/

namespace GrammarLab

structure CharSet where
  ranges : List (Nat × Nat)
deriving DecidableEq, Repr

namespace CharSet

open Text

def contains (s : CharSet) (c : Char) : Bool := inRanges s.ranges c

/-! ## Algorithm -/

def empty : CharSet := ⟨[]⟩

/-- Every character: the code points before and behind the surrogates. -/
def all : CharSet := ⟨[(0, 0xD7FF), (0xE000, 0x10FFFF)]⟩

def single (c : Char) : CharSet := ⟨[(c.toNat, c.toNat)]⟩

def union (s t : CharSet) : CharSet := ⟨s.ranges ++ t.ranges⟩

/-- What two ranges share. -/
def overlap (a b : Nat × Nat) : List (Nat × Nat) :=
  if max a.1 b.1 ≤ min a.2 b.2 then [(max a.1 b.1, min a.2 b.2)] else []

def inter (s t : CharSet) : CharSet :=
  ⟨s.ranges.flatMap fun a => t.ranges.flatMap fun b => overlap a b⟩

/-- The characters from `lo` to `hi`. -/
def between (lo hi : Char) : CharSet := inter ⟨[(lo.toNat, hi.toNat)]⟩ all

/-- The part of `a` before `b` and the part behind it. -/
def cut (b a : Nat × Nat) : List (Nat × Nat) :=
  (if a.1 < b.1 then [(a.1, min a.2 (b.1 - 1))] else []) ++
    (if b.2 < a.2 then [(max a.1 (b.2 + 1), a.2)] else [])

def diff (s t : CharSet) : CharSet :=
  ⟨t.ranges.foldl (fun ranges b => ranges.flatMap (cut b)) s.ranges⟩

def compl (s : CharSet) : CharSet := all.diff s

/-- The characters of one of the two sets that are not in the other. -/
def symmDiff (s t : CharSet) : CharSet := (s.diff t).union (t.diff s)

def isEmpty (s : CharSet) : Bool := s.ranges.all fun r => decide (r.2 < r.1)

/-- The ranges, in order of their beginnings and none before `r`, with those that meet made one. -/
def joinFrom (r : Nat × Nat) : List (Nat × Nat) → List (Nat × Nat)
  | [] => [r]
  | a :: ranges =>
    if a.1 ≤ r.2 + 1 then joinFrom (r.1, max r.2 a.2) ranges else r :: joinFrom a ranges

def joined : List (Nat × Nat) → List (Nat × Nat)
  | [] => []
  | r :: ranges => joinFrom r ranges

/-- The same set with the fewest ranges in ascending order. -/
def normal (s : CharSet) : CharSet := ⟨joined (s.ranges.mergeSort fun a b => decide (a.1 ≤ b.1))⟩

/-- The one character of a set in its normal form that has no other. -/
def only? (s : CharSet) : Option Char :=
  match s.ranges with
  | [(lo, hi)] => if lo = hi then some (Char.ofNat lo) else none
  | _ => none

/-! ## Lemmas -/

@[simp] theorem contains_empty (c : Char) : empty.contains c = false := rfl

@[simp] theorem contains_single (a c : Char) : (single a).contains c = decide (c = a) := by
  simp only [contains, single, inRanges, List.any_cons, List.any_nil, Bool.or_false]
  by_cases h : c = a
  · simp [h]
  · have : c.toNat ≠ a.toNat := fun e => h (Char.ext (UInt32.toNat_inj.1 e))
    simp only [h, decide_false, Bool.and_eq_false_iff, decide_eq_false_iff_not]
    omega

@[simp] theorem contains_union (s t : CharSet) (c : Char) :
    (s.union t).contains c = (s.contains c || t.contains c) := by
  simp [contains, union, inRanges]

theorem inRanges_cut (b a : Nat × Nat) (c : Char) :
    inRanges (cut b a) c = (inRanges [a] c && !inRanges [b] c) := by
  rw [Bool.eq_iff_iff]
  simp only [cut, inRanges, List.any_append, List.any_cons, List.any_nil, Bool.or_false]
  split <;> split <;>
    simp only [List.any_cons, List.any_nil, Bool.or_false, Bool.or_eq_true, Bool.and_eq_true,
      decide_eq_true_eq, Bool.not_eq_true', Bool.and_eq_false_iff, decide_eq_false_iff_not,
      Bool.false_or, Bool.or_self, Bool.false_eq_true, false_iff] <;> omega

theorem inRanges_flatMap_cut (b : Nat × Nat) (ranges : List (Nat × Nat)) (c : Char) :
    inRanges (ranges.flatMap (cut b)) c = (inRanges ranges c && !inRanges [b] c) := by
  induction ranges with
  | nil => rfl
  | cons a ranges ih =>
    have h := inRanges_cut b a c
    simp only [inRanges, List.flatMap_cons, List.any_append, List.any_cons, List.any_nil,
      Bool.or_false] at h ih ⊢
    rw [h, ih, Bool.and_or_distrib_right]

@[simp] theorem contains_diff (s t : CharSet) (c : Char) :
    (s.diff t).contains c = (s.contains c && !t.contains c) := by
  obtain ⟨bs⟩ := t
  simp only [contains, diff]
  induction bs generalizing s with
  | nil => simp [inRanges]
  | cons b bs ih =>
    rw [List.foldl_cons, ih ⟨s.ranges.flatMap (cut b)⟩, inRanges_flatMap_cut]
    simp [inRanges, Bool.and_assoc]

@[simp] theorem contains_all (c : Char) : all.contains c = true := by
  have := c.valid
  simp only [contains, all, inRanges, List.any_cons, List.any_nil, Bool.or_false, Bool.or_eq_true,
    Bool.and_eq_true, decide_eq_true_eq]
  rcases this with h | h <;> simp only [Char.toNat] <;> omega

@[simp] theorem contains_compl (s : CharSet) (c : Char) : s.compl.contains c = !s.contains c := by
  simp [compl]

@[simp] theorem contains_symmDiff (s t : CharSet) (c : Char) :
    (s.symmDiff t).contains c = (s.contains c != t.contains c) := by
  simp only [symmDiff, contains_union, contains_diff]
  cases s.contains c <;> cases t.contains c <;> rfl

theorem inRanges_overlap (a b : Nat × Nat) (c : Char) :
    inRanges (overlap a b) c = (inRanges [a] c && inRanges [b] c) := by
  rw [Bool.eq_iff_iff]
  simp only [overlap, inRanges]
  split <;> simp <;> omega

theorem inRanges_flatMap_overlap (a : Nat × Nat) (ranges : List (Nat × Nat)) (c : Char) :
    inRanges (ranges.flatMap (overlap a)) c = (inRanges [a] c && inRanges ranges c) := by
  induction ranges with
  | nil => simp [inRanges]
  | cons b ranges ih =>
    have h := inRanges_overlap a b c
    simp only [inRanges, List.flatMap_cons, List.any_append, List.any_cons, List.any_nil,
      Bool.or_false] at h ih ⊢
    rw [h, ih, Bool.and_or_distrib_left]

@[simp] theorem contains_inter (s t : CharSet) (c : Char) :
    (s.inter t).contains c = (s.contains c && t.contains c) := by
  obtain ⟨as⟩ := s
  simp only [contains, inter]
  induction as with
  | nil => rfl
  | cons a as ih =>
    have h := inRanges_flatMap_overlap a t.ranges c
    simp only [inRanges, List.flatMap_cons, List.any_append, List.any_cons, List.any_nil,
      Bool.or_false] at h ih ⊢
    rw [h, ih, Bool.and_or_distrib_right]

@[simp] theorem contains_between (lo hi c : Char) :
    (between lo hi).contains c = (decide (lo ≤ c) && decide (c ≤ hi)) := by
  simp only [between, contains_inter, contains_all, Bool.and_true]
  simp only [contains, inRanges, List.any_cons, List.any_nil, Bool.or_false]
  rfl

end CharSet

end GrammarLab
