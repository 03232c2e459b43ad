import GrammarLab.LeftRecursion
import GrammarLab.Proofs.Body.RoundTrip
import GrammarLab.Proofs.Cycle.Components

/-!
# First elements

A parser rule starts with another one that is the first element of one of its alternatives, or
comes first in an alternative of a group that is. These are the edges of the graph in which hidden
left recursion is looked for; a rule that starts with itself has no edge.

    name ∈ content.firstNames ↔ ComesFirst content name                  (mem_firstNames_iff)
    the names do not repeat → Joined g.startEdges = g.StartsWith      (joined_startEdges_eq)
-/

namespace GrammarLab

namespace Body

/-- The name stands in front: it is the content, or comes first in the first element of an
alternative of a group. -/
inductive ComesFirst : Content → String → Prop
  | token (name : String) : ComesFirst (.token name) name
  | rule (name : String) : ComesFirst (.rule name) name
  | group {branches : List Branch} {b : Branch} {e : Element} {name : String} (hb : b ∈ branches)
      (he : b.elements.head? = some e) (hfirst : ComesFirst e.content name) :
      ComesFirst (.group branches) name

/-- The name comes first in the first element of the alternative. -/
def AlternativeOf.StartsWith (b : Branch) (name : String) : Prop :=
  ∃ e, b.elements.head? = some e ∧ ComesFirst e.content name

section

variable {content : Content} {bs : List Branch} {es : List Element} {name : String}

theorem comesFirst_token_iff {n : String} : ComesFirst (.token n) name ↔ name = n := by
  constructor
  · rintro ⟨⟩
    rfl
  · rintro rfl
    exact .token name

theorem comesFirst_rule_iff {n : String} : ComesFirst (.rule n) name ↔ name = n := by
  constructor
  · rintro ⟨⟩
    rfl
  · rintro rfl
    exact .rule name

theorem comesFirst_group_iff : ComesFirst (.group bs) name ↔ ∃ b ∈ bs, b.StartsWith name := by
  constructor
  · rintro (_ | _ | ⟨hb, he, hfirst⟩)
    exact ⟨_, hb, _, he, hfirst⟩
  · rintro ⟨b, hb, e, he, hfirst⟩
    exact .group hb he hfirst

mutual

theorem mem_firstNames_iff : ∀ content : Content,
    name ∈ content.firstNames ↔ ComesFirst content name
  | .token n => by rw [Content.firstNames, List.mem_singleton, comesFirst_token_iff]
  | .rule n => by rw [Content.firstNames, List.mem_singleton, comesFirst_rule_iff]
  | .group bs => by
    rw [Content.firstNames, comesFirst_group_iff]
    exact mem_firstNamesOfBranches_iff bs
  | .literal _ => ⟨by simp [Content.firstNames], nofun⟩
  | .charSet _ => ⟨by simp [Content.firstNames], nofun⟩
  | .range _ _ => ⟨by simp [Content.firstNames], nofun⟩
  | .wildcard => ⟨by simp [Content.firstNames], nofun⟩
  | .negated _ => ⟨by simp [Content.firstNames], nofun⟩
  | .endOfInput => ⟨by simp [Content.firstNames], nofun⟩

theorem mem_firstNamesOfBranches_iff : ∀ bs : List (AlternativeOf Content),
    name ∈ firstNamesOfBranches bs ↔ ∃ b ∈ bs, b.StartsWith name
  | [] => by simp [firstNamesOfBranches]
  | ⟨elements, label, commands, offset⟩ :: rest => by
    rw [firstNamesOfBranches, List.mem_append, mem_firstNamesOfElements_iff elements,
      mem_firstNamesOfBranches_iff rest, List.exists_mem_cons_iff]
    rfl

theorem mem_firstNamesOfElements_iff : ∀ es : List (ElementOf Content),
    name ∈ firstNamesOfElements es ↔ ∃ e, es.head? = some e ∧ ComesFirst e.content name
  | [] => by simp [firstNamesOfElements]
  | ⟨content, modifier, greedy⟩ :: rest => by
    rw [firstNamesOfElements, mem_firstNames_iff content]
    simp

end

mutual

/-- What is not written counts for nothing. -/
theorem firstNames_bare : ∀ content : Content, content.bare.firstNames = content.firstNames
  | .group bs => firstNamesOfBranches_bare bs
  | .token _ => rfl
  | .rule _ => rfl
  | .literal _ => rfl
  | .charSet _ => rfl
  | .range _ _ => rfl
  | .wildcard => rfl
  | .negated _ => rfl
  | .endOfInput => rfl

theorem firstNamesOfBranches_bare : ∀ bs : List (AlternativeOf Content),
    firstNamesOfBranches (bareBranches bs) = firstNamesOfBranches bs
  | [] => rfl
  | ⟨elements, _, _, _⟩ :: rest => by
    rw [bareBranches, firstNamesOfBranches, firstNamesOfBranches, firstNamesOfElements_bare elements,
      firstNamesOfBranches_bare rest]

theorem firstNamesOfElements_bare : ∀ es : List (ElementOf Content),
    firstNamesOfElements (bareElements es) = firstNamesOfElements es
  | [] => rfl
  | ⟨content, _, _⟩ :: _ => firstNames_bare content

end

end

end Body

open Body

/-! ## Bodies -/

section

variable {r : Rule} {name : String}

theorem Rule.firstNames_eq (r : Rule) :
    r.firstNames = firstNamesOfBranches r.structure.alternatives := by
  have hall : ∀ bs : List Branch, bs.flatMap AlternativeOf.firstNames = firstNamesOfBranches bs := by
    intro bs
    induction bs with
    | nil => rfl
    | cons b bs ih => rw [List.flatMap_cons, ih]; rfl
  exact hall _

theorem mem_firstNames_of_rule_iff :
    name ∈ r.firstNames ↔ ∃ b ∈ r.structure.alternatives, b.StartsWith name := by
  rw [Rule.firstNames_eq]
  exact mem_firstNamesOfBranches_iff _

/-- A body that is the name of a parser rule starts with that rule. -/
theorem firstNames_of_name (hwhole : Lexeme.IsWhole ⟨.ident, name.toList⟩)
    (hparser : isLexerName name = false) (hbody : r.definition = name.toList) :
    r.firstNames = [name] := by
  have hname : Content.ofName name = .rule name := by
    have hend : name ≠ endOfInput := by
      rintro rfl
      exact absurd hparser (by decide)
    rw [Content.ofName, if_neg hend, hparser]
    rfl
  let b : Branch := { elements := [⟨.rule name, .once, true⟩] }
  have hrender : b.render = name.toList := by
    simp [b, AlternativeOf.render, renderElements, Content.render, Modifier.symbol]
  have hproper : properElements b.elements = true := by
    simp [b, properElements, Content.isProper, hparser]
  have hlegible : LegibleElements b.elements := ⟨⟨hname, hwhole⟩, trivial⟩
  have hbare := bare_parse_render_alternative hproper hlegible
  rw [hrender] at hbare
  have halternatives : bareBranches r.structure.alternatives = [b.bare] := by
    rw [Rule.structure, hbody]
    exact congrArg Structure.alternatives hbare
  rw [Rule.firstNames_eq, ← firstNamesOfBranches_bare, halternatives]
  rfl

end

/-! ## The graph -/

/-- The parser rule `a` has an alternative that starts with the parser rule `b`, another one. -/
structure Grammar.StartsWith (g : Grammar) (a b : String) : Prop where
  ne : b ≠ a
  source : ∃ r ∈ g.parserRules, r.name = a ∧ ∃ alt ∈ r.structure.alternatives, alt.StartsWith b
  target : ∃ r ∈ g.parserRules, r.name = b

/-- The edges that leave a rule. -/
def Grammar.startEdges (g : Grammar) (name : String) : List (String × Unit) :=
  ((g.firstEdges.lookup name).getD []).map fun target => (target, ())

theorem Grammar.hiddenCycles_eq (g : Grammar) : g.hiddenCycles =
    Cycle.distinct (Walk.cycles g.startEdges (g.parserRules.map (·.name))) := rfl

section

variable {g : Grammar} {r : Rule} {a b name : String}

theorem mem_parserRules_iff : r ∈ g.parserRules ↔ r ∈ g.rules ∧ isLexerName r.name = false := by
  simp [Grammar.parserRules, Rule.isParser, Rule.isLexer]

theorem exists_mem_parserRules_iff : (∃ r ∈ g.parserRules, r.name = name) ↔
    isLexerName name = false ∧ g.contains name = true := by
  simp only [mem_parserRules_iff, Grammar.contains, Grammar.rule?, List.find?_isSome,
    decide_eq_true_eq]
  constructor
  · rintro ⟨r, ⟨hr, hparser⟩, rfl⟩
    exact ⟨hparser, r, hr, rfl⟩
  · rintro ⟨hparser, r, hr, rfl⟩
    exact ⟨r, ⟨hr, hparser⟩, rfl⟩

theorem mem_firstRules_iff : b ∈ g.firstRules r ↔
    b ≠ r.name ∧ (∃ alt ∈ r.structure.alternatives, alt.StartsWith b) ∧
      ∃ r' ∈ g.parserRules, r'.name = b := by
  rw [exists_mem_parserRules_iff, ← mem_firstNames_of_rule_iff, Grammar.firstRules,
    List.mem_eraseDups, List.mem_filter]
  simp only [Bool.and_eq_true, Bool.not_eq_true', decide_eq_true_eq]
  tauto

/-- Where names do not repeat the graph has the edges of each parser rule. -/
theorem lookup_firstEdges (hnames : (g.rules.map (·.name)).Nodup) (hr : r ∈ g.parserRules) :
    g.firstEdges.lookup r.name = some (g.firstRules r) := by
  have hparser : (g.parserRules.map (·.name)).Nodup := hnames.sublist (List.filter_sublist.map _)
  obtain ⟨before, behind, hsplit⟩ := List.append_of_mem hr
  rw [hsplit, List.map_append, List.map_cons, List.nodup_append, List.nodup_cons] at hparser
  obtain ⟨-, ⟨hnew, -⟩, -⟩ := hparser
  rw [List.lookup_eq_some_iff, Grammar.firstEdges, hsplit]
  refine ⟨(behind.map fun r => (r.name, g.firstRules r)).reverse,
    (before.map fun r => (r.name, g.firstRules r)).reverse, by simp, fun entry hentry => ?_⟩
  obtain ⟨r', hr', rfl⟩ := List.mem_map.1 (List.mem_reverse.1 hentry)
  rw [bne_iff_ne]
  exact fun heq => hnew (heq ▸ List.mem_map_of_mem hr')

/-- Only parser rules have edges. -/
theorem exists_of_lookup_firstEdges {targets : List String}
    (h : g.firstEdges.lookup name = some targets) :
    ∃ r ∈ g.parserRules, r.name = name ∧ g.firstRules r = targets := by
  obtain ⟨p, q, hsplit, -⟩ := List.lookup_eq_some_iff.1 h
  have hmem : (name, targets) ∈ g.firstEdges := by rw [hsplit]; simp
  simpa [Grammar.firstEdges] using hmem

theorem joined_startEdges_iff : Joined g.startEdges a b ↔
    ∃ targets, g.firstEdges.lookup a = some targets ∧ b ∈ targets := by
  unfold Joined Grammar.startEdges
  cases g.firstEdges.lookup a <;> simp

theorem startsWith_of_joined (h : Joined g.startEdges a b) : g.StartsWith a b := by
  obtain ⟨targets, hlookup, hb⟩ := joined_startEdges_iff.1 h
  obtain ⟨r, hr, rfl, rfl⟩ := exists_of_lookup_firstEdges hlookup
  obtain ⟨hne, hfirst, htarget⟩ := mem_firstRules_iff.1 hb
  exact ⟨hne, ⟨r, hr, rfl, hfirst⟩, htarget⟩

theorem joined_startEdges_eq (hnames : (g.rules.map (·.name)).Nodup) :
    Joined g.startEdges = g.StartsWith := by
  funext a b
  refine propext ⟨startsWith_of_joined, ?_⟩
  rintro ⟨hne, ⟨r, hr, rfl, hfirst⟩, htarget⟩
  exact joined_startEdges_iff.2
    ⟨_, lookup_firstEdges hnames hr, mem_firstRules_iff.2 ⟨hne, hfirst, htarget⟩⟩

end

end GrammarLab
