import GrammarLab.Body.Structure.Parser
import GrammarLab.Proofs.Regex.First
import GrammarLab.Proofs.Regex.Longest
import GrammarLab.Proofs.Regex.Normal
import GrammarLab.Redos

/-!
# Alternatives that start apart

What it says of the alternatives of a group that they pass for disjoint. The characters that each is
taken to start with are those that its matches begin with, unless a match leaves something empty in
front that holds a set without members; such an alternative also passes when it can be empty.

    r.Matches (c :: s) → (r.normal.first.contains c = true ↔ r.normal.BeginsPlainly c)
    pairwiseDisjoint g bs = true → no character begins two of the alternatives plainly
                                                              (pairwiseDisjoint_starts_apart)
-/

namespace GrammarLab

theorem CharSet.contains_of_isEmpty {s : CharSet} (h : s.isEmpty = true) (c : Char) :
    s.contains c = false := by
  refine Bool.eq_false_iff.2 fun hc => ?_
  obtain ⟨range, hrange, hin⟩ := List.any_eq_true.1 hc
  have hlt := List.all_eq_true.1 h range hrange
  simp only [Bool.and_eq_true, decide_eq_true_eq] at hin hlt
  omega

namespace Redos

open Body

variable {g : Grammar} {b b' : Branch} {bs : List Branch} {s t : CharSet}

/-- The expression that the alternative is spelled as. -/
def expression? (g : Grammar) (b : Branch) : Option Regex := do
  let spelling ← (g.spellPattern b.render).toOption
  return (← Regex.parse? spelling.text).regex

/-! ## First characters -/

/-- The characters that an alternative can start with are known when it is spelled as an expression
that does not pass for empty. -/
theorem firstChars?_eq_some (h : firstChars? g b = some s) :
    ∃ r, expression? g b = some r ∧ r.normal.least? ≠ some 0 ∧ r.normal.first = s := by
  unfold firstChars? at h
  simp only [bind, Option.bind_eq_some_iff] at h
  obtain ⟨spelling, hspelling, parsed, hparsed, hfirst⟩ := h
  split at hfirst
  · simp at hfirst
  · rename_i hleast
    exact ⟨parsed.regex, by simp [expression?, hspelling, hparsed], hleast,
      Option.some.inj hfirst⟩

/-- An alternative of which the first characters are known takes something, or it holds a set
without members. -/
theorem hasEmptySet_of_matches_nil {r : Regex} (hleast : r.normal.least? ≠ some 0)
    (h : r.Matches []) : r.normal.hasEmptySet = true := by
  have hnullable : r.normal.nullable = true := Regex.matches_nil_iff.1 (Regex.matches_normal.2 h)
  rw [Ne, Regex.least?_eq_zero_iff, not_and, Bool.not_eq_false] at hleast
  exact hleast hnullable

/-! ## Disjoint alternatives -/

theorem exists_of_areDisjoint {x y : Option CharSet} (h : areDisjoint x y = true) :
    ∃ s t, x = some s ∧ y = some t ∧ ∀ c, ¬(s.contains c = true ∧ t.contains c = true) := by
  unfold areDisjoint at h
  split at h
  · rename_i s t
    refine ⟨s, t, rfl, rfl, fun c hc => ?_⟩
    have hnone := CharSet.contains_of_isEmpty h c
    rw [CharSet.contains_inter, hc.1, hc.2] at hnone
    contradiction
  · simp at h

theorem pairwiseDisjoint_iff : pairwiseDisjoint g bs = true ↔ bs.Pairwise fun b b' =>
    areComplementary b b' = true ∨ areDisjoint (firstChars? g b) (firstChars? g b') = true := by
  induction bs with
  | nil => simp [pairwiseDisjoint]
  | cons b bs ih => simp [pairwiseDisjoint, ih]

/-- What holds of both members of each pair holds of all, if there are two. -/
theorem forall_mem_of_pairwise {α : Type} {R : α → α → Prop} {P : α → Prop} {xs : List α}
    (h : xs.Pairwise R) (hlength : 2 ≤ xs.length) (hR : ∀ x y, R x y → P x ∧ P y) :
    ∀ x ∈ xs, P x := by
  obtain _ | ⟨x, _ | ⟨y, xs⟩⟩ := xs
  · simp at hlength
  · simp at hlength
  · have hfirst := (List.pairwise_cons.1 h).1
    refine List.forall_mem_cons.2 ⟨(hR x y (hfirst y List.mem_cons_self)).1, fun z hz => ?_⟩
    exact (hR x z (hfirst z hz)).2

/-- For every expression and each match that is not empty, the first characters contain that of the
match iff some match begins with it plainly, which is so at least where every set has members. When
alternatives pass for disjoint, none being the complement of another by name, each that can be empty
holds a set without members, and of two with matches that begin with the same character one begins
with it only behind such a part. -/
theorem pairwiseDisjoint_starts_apart (g : Grammar) :
    (∀ (r : Regex) c s, r.Matches (c :: s) →
      (r.normal.first.contains c = true ↔ r.normal.BeginsPlainly c) ∧
      (r.normal.hasEmptySet = false → r.normal.BeginsPlainly c)) ∧
    ∀ bs : List Branch, 2 ≤ bs.length →
      bs.Pairwise (fun b b' => areComplementary b b' = false) → pairwiseDisjoint g bs = true →
        (∀ b ∈ bs, ∃ r, expression? g b = some r ∧
          (r.Matches [] → r.normal.hasEmptySet = true)) ∧
        bs.Pairwise fun b b' => ∀ r r' c s s', expression? g b = some r →
          expression? g b' = some r' → r.Matches (c :: s) → r'.Matches (c :: s') →
            ¬(r.normal.BeginsPlainly c ∧ r'.normal.BeginsPlainly c) := by
  refine ⟨fun r c s h => ⟨Regex.contains_first_iff, fun hr => ?_⟩,
    fun bs hlength hplain hdisjoint => ?_⟩
  · exact Regex.beginsPlainly_of_matches hr (Regex.matches_normal.2 h)
  have hpairs : bs.Pairwise fun b b' =>
      areDisjoint (firstChars? g b) (firstChars? g b') = true := by
    refine (hplain.and (pairwiseDisjoint_iff.1 hdisjoint)).imp fun {b b'} h => ?_
    simpa [h.1] using h.2
  have hknown : ∀ b ∈ bs, ∃ s, firstChars? g b = some s :=
    forall_mem_of_pairwise hpairs hlength fun b b' h => by
      obtain ⟨s, t, hs, ht, -⟩ := exists_of_areDisjoint h
      exact ⟨⟨s, hs⟩, t, ht⟩
  constructor
  · intro b hb
    obtain ⟨s, hs⟩ := hknown b hb
    obtain ⟨r, hr, hleast, -⟩ := firstChars?_eq_some hs
    exact ⟨r, hr, hasEmptySet_of_matches_nil hleast⟩
  · refine hpairs.imp fun {b b'} h r r' c _ _ hr hr' _ _ hbegin => ?_
    obtain ⟨s, t, hs, ht, hnone⟩ := exists_of_areDisjoint h
    obtain ⟨q, hq, -, rfl⟩ := firstChars?_eq_some hs
    obtain ⟨q', hq', -, rfl⟩ := firstChars?_eq_some ht
    obtain rfl := Option.some.inj (hq.symm.trans hr)
    obtain rfl := Option.some.inj (hq'.symm.trans hr')
    exact hnone c ⟨Regex.contains_first_iff.2 hbegin.1, Regex.contains_first_iff.2 hbegin.2⟩

/-- Two alternatives for a run of the same letter. The set in front of the first has no members. -/
def lettersGroup : List Branch := (Structure.parse "[]? 'b'+ | 'b'+".toList).alternatives

def lettersRegex : Regex := .repeated .plus false (.group (.ofChar 'b'))

theorem pairwiseDisjoint_lettersGroup : ∃ b b' r, lettersGroup = [b, b'] ∧
    areComplementary b b' = false ∧ pairwiseDisjoint {} lettersGroup = true ∧
    expression? {} b = some r ∧ expression? {} b' = some lettersRegex ∧
    r.Matches ['b'] ∧ lettersRegex.Matches ['b'] ∧
    lettersRegex.normal.first.contains 'b' = true ∧ ¬r.normal.BeginsPlainly 'b' := by
  have hlist : lettersGroup.map (expression? {}) =
      [some (.seq (.repeated .optional false (.set .empty)) lettersRegex), some lettersRegex] := by
    decide +kernel
  have hplain : lettersGroup.Pairwise fun b b' => areComplementary b b' = false := by
    decide +kernel
  have hdisjoint : pairwiseDisjoint {} lettersGroup = true := by decide +kernel
  have hletter : lettersRegex.Matches ['b'] := (Regex.accepts_iff _ _).1 (by decide +kernel)
  obtain ⟨b, rest, hgroup, hb, hrest⟩ := List.map_eq_cons_iff.1 hlist
  obtain ⟨b', hrest, hb'⟩ := List.map_eq_singleton_iff.1 hrest
  subst hrest
  obtain ⟨hfirst, hapart⟩ := pairwiseDisjoint_starts_apart {}
  obtain ⟨hcontains, hbegins⟩ := hfirst lettersRegex 'b' [] hletter
  have hbegins := hbegins (by decide +kernel)
  obtain ⟨-, hpairs⟩ := hapart lettersGroup (by rw [hgroup]; simp) hplain hdisjoint
  rw [hgroup] at hplain hpairs
  have hletters : (Regex.seq (.repeated .optional false (.set .empty)) lettersRegex).Matches
      ['b'] :=
    .seq (s := []) .absent hletter
  refine ⟨b, b', _, hgroup, List.rel_of_pairwise_cons hplain (by simp), hdisjoint, hb, hb',
    hletters, hletter, hcontains.2 hbegins, fun hplainly => ?_⟩
  exact List.rel_of_pairwise_cons hpairs (List.mem_singleton.2 rfl) _ _ _ _ _ hb hb' hletters
    hletter ⟨hplainly, hbegins⟩

end Redos

end GrammarLab
