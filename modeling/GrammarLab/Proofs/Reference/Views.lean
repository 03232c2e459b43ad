import Mathlib.Combinatorics.Enumerative.DoubleCounting
import GrammarLab.Proofs.List.Distinct
import GrammarLab.Proofs.Source.Model
import GrammarLab.Reference.Check

/-!
# One relation in four views

Which rule names which is read off the stored names of a rule, the reference graph, the usages of a
name and the reports of names without a definition. In a scanned grammar all of them say the same.

    b ∈ G.successors a ↔ (a, b) ∈ G.edges ↔ a ∈ G.referrers b      (a ≠ b)
    the reports of `name` in a rule = its first usage there, if there is one
                                                             (undefinedDiagnostics_filter)
-/

namespace GrammarLab

open Body

/-! ## Reference graphs -/

namespace ReferenceGraph

variable {G : ReferenceGraph} {a b : String}

theorem mem_successors : b ∈ G.successors a ↔ (a, b) ∈ G.edges := by
  simp [successors]

theorem mem_referrers : a ∈ G.referrers b ↔ (a, b) ∈ G.edges ∧ a ≠ b := by
  simp [referrers]

theorem nodup_successors : (G.successors a).Nodup := nodup_eraseDups _

theorem nodup_referrers : (G.referrers b).Nodup := (nodup_eraseDups _).filter _

/-- Edges lead from nodes to nodes, and no node is listed twice. -/
structure Proper (G : ReferenceGraph) : Prop where
  nodup : G.nodes.Nodup
  fst_mem : ∀ e ∈ G.edges, e.1 ∈ G.nodes
  snd_mem : ∀ e ∈ G.edges, e.2 ∈ G.nodes

/-- One rule names another one. -/
def Links (G : ReferenceGraph) (a b : String) : Prop := (a, b) ∈ G.edges ∧ a ≠ b

instance (G : ReferenceGraph) (a b : String) : Decidable (G.Links a b) :=
  inferInstanceAs (Decidable (_ ∧ _))

theorem fanOut_eq_card (hG : G.Proper) (a : String) :
    G.fanOut a = (G.nodes.toFinset.bipartiteAbove G.Links a).card := by
  rw [fanOut, ← List.toFinset_card_of_nodup (nodup_successors.filter _)]
  congr 1
  ext b
  simp only [List.mem_toFinset, List.mem_filter, mem_successors, Finset.mem_bipartiteAbove, Links]
  constructor
  · rintro ⟨he, hne⟩
    exact ⟨hG.snd_mem _ he, he, by simpa using Ne.symm (of_decide_eq_true hne)⟩
  · rintro ⟨-, he, hne⟩
    exact ⟨he, by simpa using Ne.symm hne⟩

theorem fanIn_eq_card (hG : G.Proper) (b : String) :
    G.fanIn b = (G.nodes.toFinset.bipartiteBelow G.Links b).card := by
  rw [fanIn, ← List.toFinset_card_of_nodup nodup_referrers]
  congr 1
  ext a
  simp only [List.mem_toFinset, mem_referrers, Finset.mem_bipartiteBelow, Links]
  exact ⟨fun h => ⟨hG.fst_mem _ h.1, h⟩, And.right⟩

/-- Each link leaves one node and enters one. -/
theorem sum_fanIn_eq_sum_fanOut (hG : G.Proper) :
    (G.nodes.map G.fanIn).sum = (G.nodes.map G.fanOut).sum := by
  rw [← List.sum_toFinset _ hG.nodup, ← List.sum_toFinset _ hG.nodup,
    Finset.sum_congr rfl fun b _ => fanIn_eq_card hG b,
    Finset.sum_congr rfl fun a _ => fanOut_eq_card hG a]
  exact (Finset.sum_card_bipartiteAbove_eq_sum_card_bipartiteBelow G.Links).symm

/-! ## The graph of a grammar -/

variable {g : Grammar}

theorem mem_nodes_ofGrammar : a ∈ (ofGrammar g).nodes ↔ ∃ r ∈ g.rules, r.name = a := by
  simp [ofGrammar]

theorem mem_edges_ofGrammar : (a, b) ∈ (ofGrammar g).edges ↔
    (∃ r ∈ g.rules, r.name = a ∧ b ∈ r.referencedRules) ∧ b ∈ (ofGrammar g).nodes := by
  simp only [ofGrammar, List.mem_flatMap, List.mem_map, List.mem_filter, Prod.mk.injEq,
    decide_eq_true_eq]
  constructor
  · rintro ⟨r, hr, target, ⟨hmem, hnode⟩, hname, rfl⟩
    exact ⟨⟨r, hr, hname, hmem⟩, hnode⟩
  · rintro ⟨⟨r, hr, hname, hmem⟩, hnode⟩
    exact ⟨r, hr, b, ⟨hmem, hnode⟩, hname, rfl⟩

theorem proper_ofGrammar (g : Grammar) : (ofGrammar g).Proper where
  nodup := nodup_eraseDups _
  fst_mem := fun _ he => by
    obtain ⟨⟨r, hr, hname, -⟩, -⟩ := mem_edges_ofGrammar.1 he
    exact mem_nodes_ofGrammar.2 ⟨r, hr, hname⟩
  snd_mem := fun _ he => (mem_edges_ofGrammar.1 he).2

end ReferenceGraph

/-! ## Usages and reports -/

section

variable {g : Grammar} {a b : Rule} {name : String}

theorem mem_referencedNames {body : List Char} :
    name ∈ referencedNames body ↔ ∃ ref ∈ references body, ref.name = name := by
  simp [referencedNames]

/-- The usages of a name in one rule are the references to it there. -/
theorem usages_filter (hn : (g.rules.map (·.name)).Nodup) (ha : a ∈ g.rules) (name : String) :
    (g.usages name).filter (·.rule = a.name) =
      ((references a.definition).filter (·.name = name)).map fun ref =>
        ⟨a.name, a.lineAt ref.offset⟩ :=
  filter_flatMap_eq (by simp +contextual [eq_comm]) hn ha

/-- What is said of a name that is used without a definition. -/
def Usage.report (u : Usage) (name : String) : Diagnostic :=
  ((Diagnostic.ofKind .undefinedReference).onLine u.line).onRule u.rule |>.withDetail name

/-- A report says that a rule uses a name which nothing defines. -/
def Diagnostic.IsUndefined (d : Diagnostic) (name rule : String) : Prop :=
  d.kind = .undefinedReference ∧ d.rule = some rule ∧
    d.message = DiagnosticKind.undefinedReference.message (some name)

instance (d : Diagnostic) (name rule : String) : Decidable (d.IsUndefined name rule) :=
  inferInstanceAs (Decidable (_ ∧ _))

theorem Template.fill_inj {t : Template} {s s' : String} : t.fill s = t.fill s' ↔ s = s' := by
  refine ⟨fun h => ?_, congrArg _⟩
  have hlist := congrArg String.toList h
  simp only [fill, String.toList_append] at hlist
  exact String.toList_injective (List.append_cancel_left (List.append_cancel_right hlist))

theorem isUndefined_report {u : Usage} {used rule : String} :
    (u.report used).IsUndefined name rule ↔ u.rule = rule ∧ used = name := by
  have hmessage : (u.report used).message =
      DiagnosticKind.undefinedReference.template.fill used := rfl
  have hrule : (u.report used).rule = some u.rule := rfl
  simp only [Diagnostic.IsUndefined, hmessage, hrule, DiagnosticKind.message, Template.fill_inj,
    Option.some.injEq]
  exact ⟨And.right, fun h => ⟨rfl, h⟩⟩

theorem not_isUndefined_of_unused {o : ValidateOptions} {d : Diagnostic}
    (hd : d ∈ g.unusedDiagnostics o) (name rule : String) : ¬d.IsUndefined name rule := by
  obtain ⟨r, -, rfl⟩ := List.mem_map.1 hd
  exact fun h => absurd h.1 (by simp)

/-- A name that nothing defines is listed at its first place in the body. -/
theorem undefinedReferences_filter (hname : g.isUndefined name) (a : Rule) :
    (g.undefinedReferences a).filter (·.name = name) =
      ((references a.definition).find? (·.name = name)).toList := by
  rw [Grammar.undefinedReferences, filter_eraseDupsBy, List.find?_filter]
  congr 2
  funext ref
  by_cases h : ref.name = name <;> simp [h, hname]

/-- The reports of one name in one rule: its first usage there, if there is one. -/
theorem undefinedDiagnostics_filter (hn : (g.rules.map (·.name)).Nodup) (ha : a ∈ g.rules)
    (hname : g.isUndefined name) :
    g.undefinedDiagnostics.filter (·.IsUndefined name a.name) =
      ((g.usages name).find? (·.rule = a.name)).toList.map (·.report name) := by
  have hparts : g.undefinedDiagnostics = g.rules.flatMap fun r =>
      (g.undefinedReferences r).map fun ref =>
        Usage.report ⟨r.name, r.lineAt ref.offset⟩ ref.name := rfl
  have hrule : g.undefinedDiagnostics.filter (·.rule = some a.name) =
      (g.undefinedReferences a).map fun ref =>
        Usage.report ⟨a.name, a.lineAt ref.offset⟩ ref.name := by
    rw [hparts]
    refine filter_flatMap_eq (f := fun r : Rule => some r.name) (fun r d hd => ?_) ?_ ha
    · obtain ⟨ref, -, rfl⟩ := List.mem_map.1 hd
      rfl
    · simpa [Function.comp_def] using hn.map (Option.some_injective _)
  calc g.undefinedDiagnostics.filter (·.IsUndefined name a.name)
      = (g.undefinedDiagnostics.filter (·.rule = some a.name)).filter
          (·.IsUndefined name a.name) := by
        rw [List.filter_filter]
        refine List.filter_congr fun d _ => ?_
        by_cases h : d.IsUndefined name a.name
        · simp [h, h.2.1]
        · simp [h]
    _ = ((g.undefinedReferences a).filter (·.name = name)).map fun ref =>
          Usage.report ⟨a.name, a.lineAt ref.offset⟩ ref.name := by
        rw [hrule, List.filter_map]
        congr 2
        funext ref
        simp [isUndefined_report]
    _ = ((references a.definition).find? (·.name = name)).toList.map fun ref =>
          Usage.report ⟨a.name, a.lineAt ref.offset⟩ ref.name := by
        rw [undefinedReferences_filter hname]
    _ = ((g.usages name).find? (·.rule = a.name)).toList.map (·.report name) := by
        have hfirst : (g.usages name).find? (·.rule = a.name) =
            ((references a.definition).find? (·.name = name)).map fun ref =>
              ⟨a.name, a.lineAt ref.offset⟩ := by
          rw [← List.head?_filter, usages_filter hn ha, List.head?_map, List.head?_filter]
        rw [hfirst]
        cases hfound : (references a.definition).find? (·.name = name) with
        | none => rfl
        | some ref =>
          have hsame : ref.name = name := by simpa using List.find?_some hfound
          simp [hsame]

end

/-! ## Agreement -/

/-- The views of the references tell the same of every rule. -/
structure ReferencesAgree (g : Grammar) : Prop where
  successors : ∀ a ∈ g.rules, ∀ b ∈ g.rules,
    b.name ∈ a.referencedRules ↔ b.name ∈ (ReferenceGraph.ofGrammar g).successors a.name
  usages : ∀ a ∈ g.rules, ∀ b ∈ g.rules,
    b.name ∈ a.referencedRules ↔ ∃ u ∈ g.usages b.name, u.rule = a.name
  referrers : ∀ a ∈ g.rules, ∀ b ∈ g.rules, a ≠ b →
    (b.name ∈ a.referencedRules ↔ a.name ∈ (ReferenceGraph.ofGrammar g).referrers b.name)
  fans : (g.rules.map fun r => (ReferenceGraph.ofGrammar g).fanIn r.name).sum =
    (g.rules.map fun r => (ReferenceGraph.ofGrammar g).fanOut r.name).sum
  /-- A name that nothing defines is reported once for each rule that uses it, where it first
  does. -/
  undefined : g.imports = [] → g.hasForeignTokens = false → ∀ name, g.defines name = false →
    ∀ a ∈ g.rules, ∀ o,
      (g.validate o).filter (·.IsUndefined name a.name) =
        ((g.usages name).find? (·.rule = a.name)).toList.map (·.report name)

section

variable {g : Grammar} (hn : (g.rules.map (·.name)).Nodup)

include hn

theorem mem_edges_iff {a b : Rule} (ha : a ∈ g.rules) (hb : b ∈ g.rules) :
    (a.name, b.name) ∈ (ReferenceGraph.ofGrammar g).edges ↔ b.name ∈ a.referencedRules := by
  rw [ReferenceGraph.mem_edges_ofGrammar, ReferenceGraph.mem_nodes_ofGrammar]
  constructor
  · rintro ⟨⟨r, hr, hname, hmem⟩, -⟩
    rwa [List.inj_on_of_nodup_map hn hr ha hname] at hmem
  · exact fun hmem => ⟨⟨a, ha, rfl, hmem⟩, b, hb, rfl⟩

theorem exists_usage_iff {a : Rule} (ha : a ∈ g.rules)
    (href : a.referencedRules = referencedNames a.definition) (name : String) :
    (∃ u ∈ g.usages name, u.rule = a.name) ↔ name ∈ a.referencedRules := by
  rw [href, mem_referencedNames]
  have hfilter := usages_filter hn ha name
  constructor
  · rintro ⟨u, hu, hrule⟩
    have hmem : u ∈ (g.usages name).filter (·.rule = a.name) :=
      List.mem_filter.2 ⟨hu, by simpa using hrule⟩
    rw [hfilter] at hmem
    obtain ⟨ref, href, -⟩ := List.mem_map.1 hmem
    exact ⟨ref, by simpa using href⟩
  · rintro ⟨ref, href, hname⟩
    have hused : ref ∈ (references a.definition).filter (·.name = name) :=
      List.mem_filter.2 ⟨href, by simpa using hname⟩
    have hmem : ⟨a.name, a.lineAt ref.offset⟩ ∈ (g.usages name).filter (·.rule = a.name) :=
      hfilter ▸ List.mem_map.2 ⟨ref, hused, rfl⟩
    exact ⟨_, (List.mem_filter.1 hmem).1, rfl⟩

theorem referencesAgree_of_nodup
    (href : ∀ r ∈ g.rules, r.referencedRules = referencedNames r.definition) :
    ReferencesAgree g where
  successors := fun a ha b hb => by
    rw [ReferenceGraph.mem_successors, mem_edges_iff hn ha hb]
  usages := fun a ha b _ => (exists_usage_iff hn ha (href a ha) b.name).symm
  referrers := fun a ha b hb hne => by
    have hname : a.name ≠ b.name := fun h => hne (List.inj_on_of_nodup_map hn ha hb h)
    rw [ReferenceGraph.mem_referrers, mem_edges_iff hn ha hb, and_iff_left hname]
  fans := by
    have hnodes : (ReferenceGraph.ofGrammar g).nodes = g.rules.map (·.name) := eraseDups_of_nodup hn
    have hsum := ReferenceGraph.sum_fanIn_eq_sum_fanOut (ReferenceGraph.proper_ofGrammar g)
    rwa [hnodes, List.map_map, List.map_map] at hsum
  undefined := fun himports hforeign name hname a ha o => by
    have hundefined : g.isUndefined name := by simp [Grammar.isUndefined, hname, hforeign]
    have hunused : (g.unusedDiagnostics o).filter (·.IsUndefined name a.name) = [] :=
      List.filter_eq_nil_iff.2 fun d hd => by simpa using not_isUndefined_of_unused hd name a.name
    rw [Grammar.validate, himports, List.isEmpty_nil, if_pos rfl, List.filter_append, hunused,
      List.append_nil, undefinedDiagnostics_filter hn ha hundefined]

end

/-- In the grammar of every source the stored names, the graph, the usages and the reports agree. -/
theorem scan_referencesAgree (limits : ScanLimits) (source : List Char) :
    ReferencesAgree (Source.scan limits source).1 :=
  referencesAgree_of_nodup (Source.nodup_names_scan limits source)
    (Source.Machine.sound_scanned limits source).close.model.references

/-- Two rules that use each other and a name that nothing defines, the first of them twice. -/
def openSource : List Char := "grammar G;\na : b\n  | X X ;\nb : a X EOF ;\n".toList

/-- The name is reported once for the rule that uses it twice. -/
theorem scan_referencesAgree_openSource :
    ((Source.scan {} openSource).1.imports = [] ∧
      (Source.scan {} openSource).1.hasForeignTokens = false ∧
      (Source.scan {} openSource).1.defines "X" = false) ∧
    ((Source.scan {} openSource).1.validate {}).filter (·.IsUndefined "X" "a") =
      [Usage.report ⟨"a", 3⟩ "X"] := by
  have hopen : (Source.scan {} openSource).1.imports = [] ∧
      (Source.scan {} openSource).1.hasForeignTokens = false ∧
      (Source.scan {} openSource).1.defines "X" = false := by decide +kernel
  obtain ⟨a, ha, hname⟩ : ∃ a ∈ (Source.scan {} openSource).1.rules, a.name = "a" := by
    decide +kernel
  have husages : (Source.scan {} openSource).1.usages "X" = [⟨"a", 3⟩, ⟨"a", 3⟩, ⟨"b", 4⟩] := by
    decide +kernel
  have hreports := (scan_referencesAgree {} openSource).undefined hopen.1 hopen.2.1 "X" hopen.2.2
    a ha {}
  rw [hname, husages] at hreports
  exact ⟨hopen, hreports⟩

end GrammarLab
