import Mathlib.Data.List.Forall2
import GrammarLab.Proofs.Body.Legible
import GrammarLab.Proofs.Body.References
import GrammarLab.Proofs.Source.Bodies
import GrammarLab.Proofs.Text.TrimmedLines
import GrammarLab.Reference.Usage

/-!
# Tokens in the source

The body that a rule keeps is not a stretch of the source: comments are blank, and blank space is
gone at the ends of lines and around the body. Still each token of it stands at one place of the
source, and its line is counted right. So the usages of a name are where it stands in the source.

    r.lineAt t.offset = 1 + lineFeeds (source.take i), t beginning at index i of the source
-/

namespace GrammarLab.Source

open Body Text

/-! ## Blanked comments -/

variable {source : List Char} {p q : PlacedRule (strip source)} {t u : Token} {i j : Nat}

/-- The token of the rule begins at the index of the source. -/
structure Stands (source : List Char) (p : PlacedRule (strip source)) (t : Token) (i : Nat) :
    Prop where
  start_le : p.start ≤ i
  lt_stop : i < p.stop
  /-- The definition goes on from the token as the body does from the index. -/
  reads : ∃ before after, p.rule.definition = before ++ t.text ++ after ∧
    byteLength before = t.offset ∧ readLines (p.raw.drop (i - p.start)) = t.text ++ after
  /-- But for comments, the first line of the token is found in the source. -/
  firstLine : t.text.takeWhile (· ≠ '\n') <+: (strip source).drop i
  head : ∃ c, t.text.head? = some c ∧ source[i]? = some c
  line : p.rule.lineAt t.offset = 1 + lineFeeds (source.take i)

/-- Behind the later of two places less is left. -/
theorem length_lt_of_byteLength_lt {a b s t : List Char} (h : a ++ s = b ++ t)
    (hlt : byteLength a < byteLength b) : t.length < s.length := by
  obtain ⟨w, rfl, rfl⟩ | ⟨w, rfl, rfl⟩ := List.append_eq_append_iff.1 h
  · have hw : w ≠ [] := by
      rintro rfl
      simp at hlt
    have := List.length_pos_iff.2 hw
    simp only [List.length_append]
    omega
  · rw [byteLength_append] at hlt
    omega

/-- From a later index on no more is read. -/
theorem length_readLines_drop_le (s : List Char) {m n : Nat} (h : m ≤ n) :
    (readLines (s.drop n)).length ≤ (readLines (s.drop m)).length := by
  obtain ⟨k, rfl⟩ := Nat.exists_eq_add_of_le h
  have hle := length_readLines_le ((s.drop m).take k) ((s.drop m).drop k)
  rwa [List.take_append_drop, List.drop_drop] at hle

/-- A token that begins earlier in the body begins earlier in the source. -/
theorem Stands.lt (ht : Stands source p t i) (hu : Stands source p u j) (h : t.offset < u.offset) :
    i < j := by
  obtain ⟨before, after, hsplit, hoffset, hreads⟩ := ht.reads
  obtain ⟨before', after', hsplit', hoffset', hreads'⟩ := hu.reads
  have hshort : (u.text ++ after').length < (t.text ++ after).length := by
    refine length_lt_of_byteLength_lt (a := before) (b := before') ?_ (by omega)
    rw [← List.append_assoc, ← List.append_assoc, ← hsplit, ← hsplit']
  by_contra hij
  have hle := length_readLines_drop_le p.raw (Nat.sub_le_sub_right (Nat.le_of_not_lt hij) p.start)
  rw [hreads, hreads'] at hle
  omega

/-- A token begins at one index only: from the next one on less is read. -/
theorem Stands.le (ht : t ∈ significant p.rule.definition) (hi : Stands source p t i)
    (hj : Stands source p t j) : j ≤ i := by
  obtain ⟨before, after, hsplit, hoffset, hreads⟩ := hi.reads
  obtain ⟨before', after', hsplit', hoffset', hreads'⟩ := hj.reads
  obtain ⟨c, cs, htext, hblank⟩ := exists_head_of_mem_significant ht
  have hfeed : c ≠ '\n' := by
    rintro rfl
    exact absurd hblank (by decide)
  have hsame : t.text ++ after' = t.text ++ after := by
    rw [hsplit, List.append_assoc, List.append_assoc] at hsplit'
    exact (append_inj_of_byteLength hsplit' (by omega)).2.symm
  rw [htext] at hreads
  obtain ⟨s', hs', hrest⟩ := exists_cons_of_readLines hreads hfeed
  have hnext : p.raw.drop (i - p.start + 1) = s' := by rw [← List.drop_drop, hs']; rfl
  by_contra hij
  have hle := length_readLines_drop_le p.raw (m := i - p.start + 1) (n := j - p.start)
    (by have := hi.start_le; omega)
  rw [hnext, hrest, hreads', hsame, htext] at hle
  exact absurd hle (Nat.not_succ_le_self _)

/-- A reference of a body, and the index of the source at which it begins. -/
structure Occurrence (source : List Char) where
  placed : PlacedRule (strip source)
  ref : Reference
  index : Nat
  stands : ∃ t ∈ significant placed.rule.definition, t.kind = .ident ∧ t.reference = ref ∧
    Stands source placed t index

namespace Occurrence

/-- Later references begin later in the source. -/
def InOrder (os : List (Occurrence source)) : Prop := os.Pairwise fun o o' => o.index < o'.index

theorem line_eq (o : Occurrence source) :
    o.placed.rule.lineAt o.ref.offset = 1 + lineFeeds (source.take o.index) := by
  obtain ⟨t, -, -, href, hstands⟩ := o.stands
  rw [← href]
  exact hstands.line

end Occurrence

/-! ## Scanned grammars -/

end GrammarLab.Source
