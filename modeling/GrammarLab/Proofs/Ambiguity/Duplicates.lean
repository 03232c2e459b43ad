import Mathlib.Data.Nat.Find
import GrammarLab.Proofs.Ambiguity.Reports
import GrammarLab.Proofs.Body.WrittenAlike

/-!
# Reported duplicates

Alternatives are compared by the written forms of their elements. As these tell apart all that is
read from bodies, an alternative is reported exactly if it is an earlier one but for labels,
commands and offsets, at whatever depth these stand. There is one report of it, and that names the
first such alternative.

    the reports are those of the first repetitions, in order              (duplicateReports_exact)
-/

namespace GrammarLab

open Body

/-! ## Repeated alternatives -/

/-- The alternatives at both places are the same without labels, commands and offsets. -/
def Rule.Repeats (r : Rule) (i j : Nat) : Prop :=
  ∃ b b', r.structure.alternatives[i]? = some b ∧ r.structure.alternatives[j]? = some b' ∧
    b.bare = b'.bare

/-- The `i`-th alternative is the first of those that the `j`-th one repeats. -/
structure Rule.IsFirstRepeated (r : Rule) (i j : Nat) : Prop where
  earlier : i < j
  repeats : r.Repeats i j
  first : ∀ k < i, ¬r.Repeats k j

/-- The report is an error on the line of the `j`-th alternative, counts the alternatives from one
and has a note on the line of the `i`-th one. -/
structure Diagnostic.TellsOfDuplicate (x : Diagnostic) (r : Rule) (i j : Nat) : Prop where
  kind : x.kind = .duplicateAlternative
  severity : x.severity = .error
  rule : x.rule = some r.name
  places : ∃ a b, r.structure.alternatives[i]? = some a ∧ r.structure.alternatives[j]? = some b ∧
    x.line = some (r.lineAt b.offset) ∧ x.related = [⟨r.lineAt a.offset, "first occurrence"⟩] ∧
    x.message = "duplicate alternative: " ++
      s!"alternative {j + 1} of `{r.name}` repeats alternative {i + 1}: `{String.ofList b.render}`"

section

variable {r : Rule} {i j : Nat}

theorem readableElements_of_alternative {b : Branch} (h : r.structure.alternatives[i]? = some b) :
    ReadableElements b.elements :=
  readableElements_of_mem (subset_branchesAmong _ (List.mem_of_getElem? h))

theorem repeats_iff : r.Repeats i j ↔
    ∃ n, (r.structure.alternatives.map AlternativeOf.normalized)[i]? = some n ∧
      (r.structure.alternatives.map AlternativeOf.normalized)[j]? = some n := by
  simp only [List.getElem?_map, Option.map_eq_some_iff]
  constructor
  · rintro ⟨b, b', hb, hb', heq⟩
    have halike := (normalized_eq_iff (readableElements_of_alternative hb)
      (readableElements_of_alternative hb')).2 heq
    exact ⟨b.normalized, ⟨b, hb, rfl⟩, b', hb', halike.symm⟩
  · rintro ⟨n, ⟨b, hb, rfl⟩, b', hb', heq⟩
    exact ⟨b, b', hb, hb', (normalized_eq_iff (readableElements_of_alternative hb)
      (readableElements_of_alternative hb')).1 heq.symm⟩

theorem exists_isFirstRepeated_iff : (∃ i, r.IsFirstRepeated i j) ↔ ∃ i < j, r.Repeats i j := by
  classical
  constructor
  · rintro ⟨i, h⟩
    exact ⟨i, h.earlier, h.repeats⟩
  · intro h
    obtain ⟨hlt, hrepeats⟩ := Nat.find_spec h
    exact ⟨Nat.find h, hlt, hrepeats, fun k hk hrep => Nat.find_min h hk ⟨hk.trans hlt, hrep⟩⟩

/-! ## The search for an earlier alternative -/

theorem duplicateOf?_eq_some_iff :
    duplicateOf? (r.structure.alternatives.map AlternativeOf.normalized) j = some i ↔
      r.IsFirstRepeated i j := by
  rw [duplicateOf?, List.findIdx?_eq_some_iff_getElem]
  constructor
  · rintro ⟨hlt, hsame, hfirst⟩
    rw [List.length_take] at hlt
    simp only [List.getElem_take, decide_eq_true_eq] at hsame hfirst
    refine ⟨by omega, repeats_iff.2 ⟨_, List.getElem?_eq_getElem _, hsame.symm⟩, fun k hk hrep => ?_⟩
    obtain ⟨n, hkn, hjn⟩ := repeats_iff.1 hrep
    obtain ⟨_, rfl⟩ := List.getElem?_eq_some_iff.1 hkn
    exact hfirst k hk hjn.symm
  · rintro ⟨hlt, hrep, hfirst⟩
    obtain ⟨n, hin, hjn⟩ := repeats_iff.1 hrep
    obtain ⟨hi, rfl⟩ := List.getElem?_eq_some_iff.1 hin
    refine ⟨by rw [List.length_take]; omega, by simp [hjn], fun k hk hsame => hfirst k hk ?_⟩
    simp only [List.getElem_take, decide_eq_true_eq] at hsame
    exact repeats_iff.2 ⟨_, List.getElem?_eq_getElem _, hsame.symm⟩

end

/-- The places of the alternatives that repeat others, each behind the first one it repeats. -/
def Rule.repetitions (r : Rule) : List (Nat × Nat) :=
  r.structure.alternatives.zipIdx.filterMap fun (_, j) =>
    (duplicateOf? (r.structure.alternatives.map AlternativeOf.normalized) j).map (·, j)

theorem mem_repetitions_iff {r : Rule} {i j : Nat} :
    (i, j) ∈ r.repetitions ↔ r.IsFirstRepeated i j := by
  rw [Rule.repetitions, List.mem_filterMap, ← duplicateOf?_eq_some_iff]
  constructor
  · rintro ⟨⟨b, k⟩, -, h⟩
    obtain ⟨i', hi', heq⟩ := Option.map_eq_some_iff.1 h
    obtain ⟨rfl, rfl⟩ := Prod.mk.inj heq
    exact hi'
  · intro h
    obtain ⟨-, b', -, hb', -⟩ := (duplicateOf?_eq_some_iff.1 h).repeats
    exact ⟨(b', j), List.mem_zipIdx_iff_getElem?.2 hb', Option.map_eq_some_iff.2 ⟨i, h, rfl⟩⟩

theorem pairwise_repetitions (r : Rule) : (r.repetitions.map Prod.snd).Pairwise (· < ·) := by
  have hplaces : (r.structure.alternatives.zipIdx.map Prod.snd).Pairwise (· < ·) := by
    rw [List.zipIdx_map_snd]
    exact List.pairwise_lt_range'
  rw [List.pairwise_map] at hplaces ⊢
  refine List.pairwise_filterMap.2 (hplaces.imp ?_)
  rintro ⟨b, j⟩ ⟨b', j'⟩ hlt p hp q hq
  obtain ⟨i, -, rfl⟩ := Option.map_eq_some_iff.1 hp
  obtain ⟨i', -, rfl⟩ := Option.map_eq_some_iff.1 hq
  exact hlt

/-! ## The reports of a rule -/

theorem forall₂_duplicates (r : Rule) :
    List.Forall₂ (fun x told => x.TellsOfDuplicate r told.1 told.2)
      (r.duplicates r.structure.alternatives) r.repetitions := by
  refine List.rel_filterMap (R := fun p q => p = q ∧ r.structure.alternatives[p.2]? = some p.1)
    ?_ (List.forall₂_same.2 fun p hp => ⟨rfl, List.mem_zipIdx_iff_getElem?.1 hp⟩)
  rintro ⟨b', j⟩ _ ⟨rfl, hb'⟩
  simp only at hb' ⊢
  cases h : duplicateOf? (r.structure.alternatives.map AlternativeOf.normalized) j with
  | none => exact .none
  | some i =>
    obtain ⟨b, -, hb, -, -⟩ := (duplicateOf?_eq_some_iff.1 h).repeats
    simp only [Option.bind_eq_bind, Option.bind_some, hb, Option.map_some]
    exact .some ⟨rfl, rfl, rfl, b, b', hb, hb', rfl, rfl, DiagnosticKind.message_of_appends rfl _⟩

/-- The reports of duplicates tell, rule by rule and in order of the alternatives that repeat
others, of each such alternative once, and of the first one that it repeats. -/
theorem duplicateReports_exact (g : Grammar) (o : AmbiguityOptions) :
    ∃ told : Rule → List (Nat × Nat),
      List.Forall₂ (fun x (t : Rule × Nat × Nat) => x.TellsOfDuplicate t.1 t.2.1 t.2.2)
        ((g.ambiguities o).byKind .duplicateAlternative)
        (if o.duplicateAlternatives then g.rules.flatMap fun r => (told r).map (r, ·) else []) ∧
      ∀ r, ((told r).map Prod.snd).Pairwise (· < ·) ∧
        (∀ i j, (i, j) ∈ told r ↔ r.IsFirstRepeated i j) ∧
        ∀ j, (∃ i, (i, j) ∈ told r) ↔ ∃ i < j, r.Repeats i j := by
  refine ⟨Rule.repetitions, ?_, fun r => ⟨pairwise_repetitions r, fun _ _ => mem_repetitions_iff,
    fun j => ?_⟩⟩
  · rw [byKind_duplicateAlternative]
    split
    · refine List.rel_flatMap (List.forall₂_same.2 fun r _ => rfl) ?_
      rintro r _ rfl
      rw [List.forall₂_map_right_iff]
      exact forall₂_duplicates r
    · exact .nil
  · rw [← exists_isFirstRepeated_iff]
    exact exists_congr fun i => mem_repetitions_iff

end GrammarLab
