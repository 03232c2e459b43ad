import GrammarLab.Regex.Property

/-!
# Names of properties

The names by which a set can be asked for are made of letters and a few marks, so a text that is
one holds neither a backslash nor a closing bracket.

    property? text = some s → Plain text                    (plain_of_property?)
-/

namespace GrammarLab.Regex

/-- Text without backslashes and closing brackets. -/
def Plain (s : List Char) : Prop := ∀ c ∈ s, c ≠ '\\' ∧ c ≠ ']'

namespace Plain

instance (s : List Char) : Decidable (Plain s) := List.decidableBAll _ s

theorem append {s t : List Char} (hs : Plain s) (ht : Plain t) : Plain (s ++ t) :=
  List.forall_mem_append.2 ⟨hs, ht⟩

theorem cons {c : Char} {s : List Char} (h₁ : c ≠ '\\') (h₂ : c ≠ ']') (hs : Plain s) :
    Plain (c :: s) :=
  List.forall_mem_cons.2 ⟨⟨h₁, h₂⟩, hs⟩

end Plain

open CharSet

/-- A loose name keeps all ASCII characters but blanks, `_` and `-`. -/
theorem plain_of_looseName {s : List Char} (h : Plain (looseName s).toList) : Plain s := by
  have hkeep : ∀ c ∈ withoutIs s, c ≠ '\\' ∧ c ≠ ']' := by
    intro c hc
    constructor
    · rintro rfl
      have hm : '\\' ∈ (looseName s).toList := by
        simp only [looseName, String.toList_ofList, List.mem_map, List.mem_filter]
        exact ⟨'\\', ⟨hc, by decide⟩, by decide⟩
      exact (h _ hm).1 rfl
    · rintro rfl
      have hm : ']' ∈ (looseName s).toList := by
        simp only [looseName, String.toList_ofList, List.mem_map, List.mem_filter]
        exact ⟨']', ⟨hc, by decide⟩, by decide⟩
      exact (h _ hm).2 rfl
  match s with
  | [] => exact hkeep
  | [c] => exact hkeep
  | i :: t :: rest =>
    by_cases hi : ((i = 'i' || i = 'I') && (t = 's' || t = 'S')) = true
    · simp only [withoutIs, hi, if_true] at hkeep
      simp only [Bool.and_eq_true, Bool.or_eq_true, decide_eq_true_eq] at hi
      refine Plain.cons ?_ ?_ (Plain.cons ?_ ?_ hkeep)
      · rcases hi.1 with rfl | rfl <;> decide
      · rcases hi.1 with rfl | rfl <;> decide
      · rcases hi.2 with rfl | rfl <;> decide
      · rcases hi.2 with rfl | rfl <;> decide
    · rw [withoutIs, if_neg hi] at hkeep
      exact hkeep

theorem plain_of_category? {name : String} {s : CharSet} (h : category? name = some s) :
    Plain name.toList := by
  simp only [category?, Bool.or_eq_true, decide_eq_true_eq] at h
  repeat' split at h
  all_goals rename_i hn
  all_goals first
    | (rcases hn with (rfl | rfl) | rfl <;> decide)
    | simp at h

theorem plain_of_script? {name : String} {s : CharSet} (h : script? name = some s) :
    Plain name.toList := by
  simp only [script?, Bool.or_eq_true, decide_eq_true_eq] at h
  repeat' split at h
  all_goals rename_i hn
  all_goals first
    | (rcases hn with rfl | rfl <;> decide)
    | simp at h

theorem plain_of_binary? {name : String} {s : CharSet} (h : binary? name = some s) :
    Plain name.toList := by
  simp only [binary?, Bool.or_eq_true, decide_eq_true_eq] at h
  repeat' split at h
  all_goals rename_i hn
  all_goals first
    | (rcases hn with (rfl | rfl) | rfl <;> decide)
    | simp at h

theorem plain_of_named? {name : List Char} {s : CharSet} (h : named? name = some s) :
    Plain name := by
  apply plain_of_looseName
  simp only [named?, Option.or_eq_some_iff] at h
  rcases h with h | ⟨-, h | ⟨-, h⟩⟩
  · exact plain_of_binary? h
  · exact plain_of_category? h
  · exact plain_of_script? h

theorem plain_of_valued? {property value : List Char} {s : CharSet}
    (h : valued? property value = some s) : Plain property ∧ Plain value := by
  simp only [valued?, Bool.or_eq_true, decide_eq_true_eq] at h
  split at h
  · rename_i hp
    refine ⟨plain_of_looseName ?_, plain_of_looseName (plain_of_category? h)⟩
    rcases hp with hp | hp <;> rw [hp] <;> decide
  split at h
  · rename_i hp
    refine ⟨plain_of_looseName ?_, plain_of_looseName (plain_of_script? h)⟩
    rcases hp with hp | hp <;> rw [hp] <;> decide
  · simp at h

theorem eq_append_of_splitAt? {mark s before behind : List Char}
    (h : splitAt? mark s = some (before, behind)) : s = before ++ mark ++ behind := by
  induction s generalizing before behind with
  | nil => simp [splitAt?] at h
  | cons c cs ih =>
    simp only [splitAt?] at h
    split at h
    · rename_i hp
      obtain ⟨t, ht⟩ := List.isPrefixOf_iff_prefix.1 hp
      simp only [Option.some.injEq, Prod.mk.injEq] at h
      obtain ⟨rfl, rfl⟩ := h
      simp [← ht]
    · obtain ⟨⟨b, d⟩, hb, he⟩ := Option.map_eq_some_iff.1 h
      simp only [Prod.mk.injEq] at he
      obtain ⟨rfl, rfl⟩ := he
      simp [ih hb]

theorem plain_of_property? {text : List Char} {s : CharSet} (h : property? text = some s) :
    Plain text := by
  simp only [property?] at h
  split at h
  · rename_i p v hs
    obtain ⟨t, ht, -⟩ := Option.map_eq_some_iff.1 h
    obtain ⟨hp, hv⟩ := plain_of_valued? ht
    rw [eq_append_of_splitAt? hs]
    exact (hp.append (by decide)).append hv
  split at h
  · rename_i p v hs
    obtain ⟨hp, hv⟩ := plain_of_valued? h
    rcases Option.or_eq_some_iff.1 hs with hs | ⟨-, hs⟩
    · rw [eq_append_of_splitAt? hs]
      exact (hp.append (by decide)).append hv
    · rw [eq_append_of_splitAt? hs]
      exact (hp.append (by decide)).append hv
  · exact plain_of_named? h

end GrammarLab.Regex
