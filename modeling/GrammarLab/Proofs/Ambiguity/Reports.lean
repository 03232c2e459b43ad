import GrammarLab.Ambiguity
import GrammarLab.Proofs.LeftRecursion.Hidden

/-!
# Reports of ambiguities

Each check has kinds of its own, so the reports of one kind are those of one check, rule by rule.

    (g.ambiguities o).byKind .duplicateAlternative =
      the duplicates of each rule, if they are asked for            (byKind_duplicateAlternative)
    (g.ambiguities o).byKind .ambiguousOptional =
      the optional elements of each rule, likewise                     (byKind_ambiguousOptional)
-/

namespace GrammarLab

open Body

variable {g : Grammar} {r : Rule} {bs : List Branch} {x : Diagnostic}

/-! ## The kinds of each check -/

@[simp] theorem kind_reportAt (r : Rule) (kind : DiagnosticKind) (b : Branch) (detail : String) :
    (r.reportAt kind b detail).kind = kind := rfl

theorem kind_of_mem_duplicates (h : x ∈ r.duplicates bs) : x.kind = .duplicateAlternative := by
  obtain ⟨⟨b, j⟩, -, h⟩ := List.mem_filterMap.1 h
  obtain ⟨i, -, h⟩ := Option.bind_eq_some_iff.1 h
  obtain ⟨earlier, -, h⟩ := Option.bind_eq_some_iff.1 h
  obtain rfl := Option.some.inj h
  rfl

theorem kind_of_mem_overlaps {least : Nat} (h : x ∈ r.overlaps least bs) :
    x.kind = .overlappingAlternatives := by
  obtain ⟨⟨i, j⟩, -, h⟩ := List.mem_filterMap.1 h
  obtain ⟨a, -, h⟩ := Option.bind_eq_some_iff.1 h
  obtain ⟨b, -, h⟩ := Option.bind_eq_some_iff.1 h
  simp only at h
  split at h
  · simp at h
  · obtain rfl := Option.some.inj h
    rfl

theorem kind_of_mem_ambiguousOptionals (h : x ∈ r.ambiguousOptionals bs) :
    x.kind = .ambiguousOptional := by
  obtain ⟨b, -, h⟩ := List.mem_flatMap.1 h
  obtain ⟨⟨a, b⟩, -, rfl⟩ := List.mem_map.1 h
  rfl

/-- The kinds of the checks that look at more than one rule. -/
def recursionKinds : List DiagnosticKind :=
  [.lexerLeftRecursion, .directLeftRecursion, .hiddenLeftRecursion]

theorem kind_of_mem_leftRecursion (h : x ∈ g.leftRecursion) : x.kind ∈ recursionKinds := by
  rcases List.mem_append.1 h with h | h
  · obtain ⟨r, -, h⟩ := List.mem_filterMap.1 h
    rcases kind_of_directRecursion? h with hk | hk <;> simp [recursionKinds, hk]
  · obtain ⟨c, hc, rfl⟩ := List.mem_map.1 h
    obtain ⟨head, rest, -, htells⟩ := tellsOfRecursion_of_mem_hiddenCycles hc
    rw [htells.kind]
    decide

theorem kind_of_mem_lexerConflicts (h : x ∈ g.lexerConflicts) : x.kind = .lexerConflict := by
  obtain ⟨⟨c, i⟩, -, h⟩ := List.mem_filterMap.1 h
  obtain ⟨literal, -, h⟩ := Option.bind_eq_some_iff.1 h
  obtain ⟨winner, -, h⟩ := Option.bind_eq_some_iff.1 h
  obtain rfl := Option.some.inj h
  rfl

/-! ## The reports of one kind -/

theorem byKind_ambiguities (g : Grammar) (o : AmbiguityOptions) {kind : DiagnosticKind}
    (hrecursion : kind ∉ recursionKinds) (hconflict : kind ≠ .lexerConflict) :
    (g.ambiguities o).byKind kind =
      g.rules.flatMap fun r => (r.alternativeDiagnostics o).byKind kind := by
  have hleft : g.leftRecursion.byKind kind = [] :=
    Diagnostics.byKind_eq_nil fun x hx heq => hrecursion (heq ▸ kind_of_mem_leftRecursion hx)
  have hlexer : g.lexerConflicts.byKind kind = [] :=
    Diagnostics.byKind_eq_nil fun x hx heq => hconflict (heq ▸ kind_of_mem_lexerConflicts hx)
  simp only [Grammar.ambiguities, Diagnostics.byKind_append, Diagnostics.byKind_ite, hleft, hlexer,
    ite_self, List.append_nil, Diagnostics.byKind_flatMap]

theorem byKind_alternativeDiagnostics (r : Rule) (o : AmbiguityOptions) (kind : DiagnosticKind) :
    (r.alternativeDiagnostics o).byKind kind =
      (if o.duplicateAlternatives ∧ kind = .duplicateAlternative then
        r.duplicates r.structure.alternatives else []) ++
      (if (o.overlappingPrefixes && r.isParser) ∧ kind = .overlappingAlternatives then
        r.overlaps o.minSharedPrefix r.structure.alternatives else []) ++
      (if o.ambiguousOptionals ∧ kind = .ambiguousOptional then
        r.ambiguousOptionals r.structure.alternatives else []) := by
  have hchecks {own : DiagnosticKind} {ds : Diagnostics} (asked : Bool)
      (h : ∀ x ∈ ds, x.kind = own) :
      Diagnostics.byKind kind (if asked then ds else []) =
        if asked ∧ kind = own then ds else [] := by
    rw [Diagnostics.byKind_ite, ite_and]
    congr 1
    split
    · rename_i heq
      exact Diagnostics.byKind_eq_self fun x hx => (h x hx).trans heq.symm
    · rename_i hne
      exact Diagnostics.byKind_eq_nil fun x hx heq => hne (heq.symm.trans (h x hx))
  rw [Rule.alternativeDiagnostics, Diagnostics.byKind_append, Diagnostics.byKind_append,
    hchecks _ fun _ => kind_of_mem_duplicates, hchecks _ fun _ => kind_of_mem_overlaps,
    hchecks _ fun _ => kind_of_mem_ambiguousOptionals]

theorem byKind_duplicateAlternative (g : Grammar) (o : AmbiguityOptions) :
    (g.ambiguities o).byKind .duplicateAlternative =
      if o.duplicateAlternatives then g.rules.flatMap fun r => r.duplicates r.structure.alternatives
      else [] := by
  rw [byKind_ambiguities g o (by decide) (by decide)]
  simp only [byKind_alternativeDiagnostics]
  cases o.duplicateAlternatives <;> simp

theorem byKind_ambiguousOptional (g : Grammar) (o : AmbiguityOptions) :
    (g.ambiguities o).byKind .ambiguousOptional =
      if o.ambiguousOptionals then
        g.rules.flatMap fun r => r.ambiguousOptionals r.structure.alternatives
      else [] := by
  rw [byKind_ambiguities g o (by decide) (by decide)]
  simp only [byKind_alternativeDiagnostics]
  cases o.ambiguousOptionals <;> simp

end GrammarLab
