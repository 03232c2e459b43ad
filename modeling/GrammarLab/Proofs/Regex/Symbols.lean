import GrammarLab.Proofs.Regex.Bracket
import GrammarLab.Proofs.Regex.Stack

/-!
# Symbols of texts put together

The symbols of a text are those of its parts one after the other, as long as no part can run on
into what stands behind it: a quantifier is not followed by a question mark, and what follows the
complement of nothing closes no class.

    Reads F t R → Reads G u S → Reads G (t ++ u) (fun xs => ∃ ys zs, xs = ys ++ zs ∧ R ys ∧ S zs)
-/

namespace GrammarLab.Regex

/-- Text that may stand behind a quantifier. -/
structure Follows (s : List Char) : Prop where
  outside : Outside s
  unquestioned : s.head? ≠ some '?'

/-- In front of a text that satisfies `F`, the symbols of `t` are set apart and satisfy `R`. -/
def Reads (F : List Char → Prop) (t : List Char) (R : List Symbol → Prop) : Prop :=
  ∀ rest xs, F rest → symbols? (t ++ rest) = some xs →
    ∃ ys zs, xs = ys ++ zs ∧ R ys ∧ symbols? rest = some zs

/-! ## Lemmas -/

theorem follows_nil : Follows [] := ⟨.nil, by simp⟩

theorem outside_append {t rest : List Char} (h : ∀ c ∈ t, c ∉ ['\\', '[', ']', '-', '&', '~'])
    (hr : Outside rest) : Outside (t ++ rest) := by
  induction t with
  | nil => exact hr
  | cons c t ih =>
    obtain ⟨hc, ht⟩ := List.forall_mem_cons.1 h
    exact .plain hc (ih ht)

theorem follows_cons {c : Char} {rest : List Char}
    (hc : c ∉ ['\\', '[', ']', '-', '&', '~', '?']) (hr : Outside rest) : Follows (c :: rest) := by
  simp only [List.mem_cons, List.not_mem_nil, or_false, not_or] at hc
  exact ⟨.plain (by simp [hc]) hr, by simp [hc]⟩

theorem symbols?_cons {c : Char} {cs rest : List Char} {x : Symbol}
    (h : symbol? c cs = some (x, rest)) : symbols? (c :: cs) = (symbols? rest).map (x :: ·) := by
  rw [symbols?]
  split
  · rename_i x' rest' hx
    obtain ⟨rfl, rfl⟩ := Prod.mk.inj (Option.some.inj (hx.symm.trans h))
    rfl
  · simp_all

theorem symbols?_eq_none {c : Char} {cs : List Char} (h : symbol? c cs = none) :
    symbols? (c :: cs) = none := by
  rw [symbols?]
  split
  · simp_all
  · rfl

theorem symbols?_cons_eq_some {c : Char} {cs : List Char} {xs : List Symbol}
    (h : symbols? (c :: cs) = some xs) :
    ∃ x rest ys, symbol? c cs = some (x, rest) ∧ symbols? rest = some ys ∧ xs = x :: ys := by
  rw [symbols?] at h
  split at h
  · rename_i x rest hx
    obtain ⟨ys, hy, rfl⟩ := Option.map_eq_some_iff.1 h
    exact ⟨x, rest, ys, hx, hy, rfl⟩
  · simp at h

namespace Reads

variable {F G : List Char → Prop} {R S : List Symbol → Prop} {t u : List Char}

theorem mono (h : Reads F t R) (hF : ∀ rest, G rest → F rest) (hR : ∀ ys, R ys → S ys) :
    Reads G t S := by
  intro rest xs hrest hx
  obtain ⟨ys, zs, rfl, hy, hz⟩ := h rest xs (hF rest hrest) hx
  exact ⟨ys, zs, rfl, hR ys hy, hz⟩

theorem nil (h : R []) : Reads F [] R := fun _ xs _ hx => ⟨[], xs, rfl, h, hx⟩

theorem append (ht : Reads F t R) (hu : Reads G u S) (hF : ∀ rest, G rest → F (u ++ rest)) :
    Reads G (t ++ u) (fun xs => ∃ ys zs, xs = ys ++ zs ∧ R ys ∧ S zs) := by
  intro rest xs hrest hx
  rw [List.append_assoc] at hx
  obtain ⟨ys, ws, rfl, hy, hw⟩ := ht _ xs (hF rest hrest) hx
  obtain ⟨zs, vs, rfl, hz, hv⟩ := hu rest ws hrest hw
  exact ⟨ys ++ zs, vs, (List.append_assoc ..).symm, ⟨ys, zs, rfl, hy, hz⟩, hv⟩

theorem of_symbol? {c : Char} {cs : List Char} {x : Symbol}
    (h : ∀ rest, F rest → symbol? c (cs ++ rest) = some (x, rest)) :
    Reads F (c :: cs) (· = [x]) := by
  intro rest xs hrest hx
  rw [List.cons_append] at hx
  obtain ⟨x', rest', zs, hx', hz, rfl⟩ := symbols?_cons_eq_some hx
  rw [h rest hrest] at hx'
  obtain ⟨rfl, rfl⟩ := Prod.mk.inj (Option.some.inj hx')
  exact ⟨[x], zs, rfl, rfl, hz⟩

end Reads

/-! ## Single symbols -/

theorem reads_groupOpen : Reads (fun _ => True) ['(', '?', ':'] (· = [.groupOpen]) :=
  .of_symbol? fun _ _ => rfl

theorem reads_groupClose : Reads (fun _ => True) [')'] (· = [.groupClose]) :=
  .of_symbol? fun _ _ => rfl

theorem reads_bar : Reads (fun _ => True) ['|'] (· = [.bar]) := .of_symbol? fun _ _ => rfl

theorem symbol?_of_quantifier? {c : Char} {q : Quantifier} (h : quantifier? c = some q)
    (cs : List Char) : symbol? c cs = some (quantified q cs) := by
  simp only [quantifier?] at h
  split at h
  · rename_i hc
    subst hc
    simp only [Option.some.injEq] at h
    subst h
    rfl
  split at h
  · rename_i hc
    subst hc
    simp only [Option.some.injEq] at h
    subst h
    rfl
  split at h
  · rename_i hc
    subst hc
    simp only [Option.some.injEq] at h
    subst h
    rfl
  · simp at h

theorem reads_quantifier {c : Char} {q : Quantifier} (h : quantifier? c = some q) :
    Reads Follows [c] (· = [.quantifier q false]) := by
  refine .of_symbol? fun rest hrest => ?_
  rw [symbol?_of_quantifier? h, List.nil_append]
  cases rest with
  | nil => rfl
  | cons d rest =>
    have hd : d ≠ '?' := by simpa using hrest.unquestioned
    simp only [quantified]
    split
    · rename_i heq
      exact absurd (List.cons.inj heq).1 hd
    · rfl

theorem reads_lazyQuantifier {c : Char} {q : Quantifier} (h : quantifier? c = some q) :
    Reads (fun _ => True) [c, '?'] (· = [.quantifier q true]) :=
  .of_symbol? fun _ _ => by rw [symbol?_of_quantifier? h]; rfl

/-- A class with something between its brackets is read as when it stands alone. -/
theorem reads_class {body : List Char} (hin : Inside body) (hne : body ≠ [])
    (hcaret : body ≠ ['^']) :
    Reads (fun _ => True) ('[' :: body ++ [']'])
      (fun ys => ∃ s d, symbol? '[' (body ++ [']']) = some (.atom s d, []) ∧ ys = [.atom s d]) := by
  intro rest xs _ hx
  rw [List.cons_append, List.cons_append, List.append_assoc, List.cons_append] at hx
  obtain ⟨x, r, zs, hx', hz, rfl⟩ := symbols?_cons_eq_some hx
  obtain ⟨⟨b, r'⟩, hb, he⟩ := Option.map_eq_some_iff.1 (show (bracket? _).map _ = _ from hx')
  simp only [Prod.mk.injEq] at he
  obtain ⟨rfl, rfl⟩ := he
  obtain ⟨rfl, hmore⟩ := bracket?_append hin hne hcaret hb
  refine ⟨[.atom b.set b.depth], zs, rfl, ⟨b.set, b.depth, ?_, rfl⟩, hz⟩
  show (bracket? _).map _ = _
  rw [hmore]
  rfl

theorem reads_emptyComplement : Reads Outside ['[', '^', ']'] (fun _ => False) := by
  intro rest xs hrest hx
  simp only [List.cons_append, List.nil_append] at hx
  obtain ⟨x, r, zs, hx', -, -⟩ := symbols?_cons_eq_some hx
  obtain ⟨⟨b, r'⟩, hb, -⟩ := Option.map_eq_some_iff.1 (show (bracket? _).map _ = _ from hx')
  rw [bracket?_emptyComplement hrest] at hb
  simp at hb

end GrammarLab.Regex
