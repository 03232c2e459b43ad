import GrammarLab.Matcher.Terminal
import GrammarLab.Proofs.Body.Legible
import GrammarLab.Proofs.List.Distinct
import GrammarLab.Proofs.Tokenizer.Conflict

/-!
# Literals without a rule of their own

The tokenizer makes one token type for each value that literals of parser rules have and no token
rule spells, named by the first of these literals. The matcher accepts that type for all literals
of the value and for no others, and for a value that token rules spell it accepts their names.

    (implicitCandidates g).map (·.value) has no repetitions            (nodup_implicitCandidates)
    ls.accepts quoted c.type = true ↔ Literal.unescape quoted = c.value     (accepts_implicit_iff)
-/

namespace GrammarLab.Tokenizer

open Body Matcher Text

/-- The text that a candidate named by a literal stands for. -/
def Candidate.value (c : Candidate) : List Char := Literal.unescape c.type.toList

/-- A token rule is all of the value. -/
def Spells (g : Grammar) (r : Rule) (value : List Char) : Prop :=
  r ∈ g.tokenRules ∧ r.structure.soleLiteral? = some value

variable {g : Grammar} {quoted value : List Char} {c : Candidate}

/-! ## Literals of parser rules -/

/-- Literals begin with a quote, and names of token rules do not. -/
theorem exists_quote_of_mem_parserLiterals (h : quoted ∈ parserLiterals g) :
    ∃ cs, quoted = '\'' :: cs := by
  obtain ⟨r, -, hr⟩ := List.mem_flatMap.1 h
  obtain ⟨t, ht, rfl⟩ := List.mem_map.1 hr
  obtain ⟨hmem, hkind⟩ := List.mem_filter.1 ht
  have hwhole := allWhole_significant _ t hmem
  have hliteral : t.kind = .literal := by simpa using hkind
  simp only [Token.lexeme, Lexeme.IsWhole, hliteral] at hwhole
  obtain ⟨cs, hcs, -⟩ := hwhole
  exact ⟨cs, hcs⟩

theorem name_ne_of_mem_parserLiterals {r : Rule} (hr : r ∈ g.tokenRules)
    (h : quoted ∈ parserLiterals g) : r.name ≠ String.ofList quoted := by
  obtain ⟨cs, rfl⟩ := exists_quote_of_mem_parserLiterals h
  intro hname
  have htoken : r.isToken = true := (List.mem_filter.1 hr).2
  simp only [Rule.isToken, Rule.isLexer, hname, Bool.and_eq_true] at htoken
  have hlexer : isUppercase '\'' = true := by simpa [isLexerName] using htoken.1
  exact absurd hlexer (by decide)

theorem mem_spelled_iff : value ∈ spelled g ↔ ∃ r, Spells g r value := by
  simp only [spelled, List.mem_filterMap, Spells]

/-! ## Candidates -/

theorem unescape_ofList (s : List Char) :
    Literal.unescape (String.ofList s).toList = Literal.unescape s := by
  rw [String.toList_ofList]

/-- No two of the literals that make types have the same value. -/
theorem nodup_implicitLiterals (g : Grammar) :
    ((implicitLiterals g).map Literal.unescape).Nodup := by
  rw [List.Nodup, List.pairwise_map]
  refine (pairwise_eraseDupsBy _).imp fun hother hsame => ?_
  simp [hsame] at hother

/-- Each literal without a rule makes a type, since every text has a pattern. -/
theorem exists_of_mem_implicitCandidates (h : c ∈ implicitCandidates g) :
    ∃ quoted ∈ implicitLiterals g, c.type = String.ofList quoted ∧
      Pattern.literal (Literal.unescape quoted) = .ok c.pattern := by
  obtain ⟨quoted, hquoted, hc⟩ := List.mem_filterMap.1 h
  obtain ⟨p, hp, rfl⟩ := Option.map_eq_some_iff.1 hc
  exact ⟨quoted, hquoted, rfl, eq_ok_of_toOption hp⟩

theorem map_value_implicitCandidates (g : Grammar) :
    (implicitCandidates g).map (·.value) = (implicitLiterals g).map Literal.unescape := by
  rw [implicitCandidates, List.map_filterMap, ← List.filterMap_eq_map]
  refine List.filterMap_congr fun quoted _ => ?_
  obtain ⟨p, hp⟩ := Pattern.exists_literal (Literal.unescape quoted)
  simp [hp, Except.toOption, Candidate.value]

theorem nodup_implicitCandidates (g : Grammar) : ((implicitCandidates g).map (·.value)).Nodup :=
  map_value_implicitCandidates g ▸ nodup_implicitLiterals g

/-- The values of the types are those of literals of parser rules that no token rule spells. -/
theorem mem_map_value_iff : value ∈ (implicitCandidates g).map (·.value) ↔
    (∃ quoted ∈ parserLiterals g, Literal.unescape quoted = value) ∧ value ≠ [] ∧
      ∀ r, ¬Spells g r value := by
  have hnot : (∀ r, ¬Spells g r value) ↔ value ∉ spelled g := by
    rw [mem_spelled_iff, not_exists]
  rw [map_value_implicitCandidates, hnot, List.mem_map]
  constructor
  · rintro ⟨quoted, hquoted, rfl⟩
    obtain ⟨hmem, hnew⟩ := List.mem_filter.1 ((eraseDupsBy_sublist _).subset hquoted)
    simp only [Bool.and_eq_true, Bool.not_eq_true', List.isEmpty_eq_false_iff,
      List.contains_eq_mem, decide_eq_false_iff_not] at hnew
    exact ⟨⟨quoted, hmem, rfl⟩, hnew⟩
  · rintro ⟨⟨quoted, hquoted, rfl⟩, hnew⟩
    have hmem : quoted ∈ (parserLiterals g).filter fun quoted =>
        !(Literal.unescape quoted).isEmpty && !(spelled g).contains (Literal.unescape quoted) :=
      List.mem_filter.2 ⟨hquoted, by simpa using hnew⟩
    obtain ⟨first, hfirst, hsame⟩ := exists_mem_eraseDupsBy
      (r := fun a b => Literal.unescape a = Literal.unescape b) (fun _ => by simp) _ hmem
    exact ⟨first, hfirst, (by simpa using hsame : Literal.unescape quoted = _).symm⟩

/-! ## Acceptance -/

theorem mem_rules_ofGrammar_iff {name : String} :
    (value, name) ∈ (Literals.ofGrammar g).rules ↔ ∃ r, Spells g r value ∧ r.name = name := by
  simp only [Literals.ofGrammar, List.mem_filterMap, Option.map_eq_some_iff, Prod.mk.injEq, Spells]
  constructor
  · rintro ⟨r, hr, v, hv, rfl, rfl⟩
    exact ⟨r, ⟨hr, hv⟩, rfl⟩
  · rintro ⟨r, ⟨hr, hv⟩, rfl⟩
    exact ⟨r, hr, value, hv, rfl, rfl⟩

/-- A type is accepted by its own spelling, by that of its value, or by the name of a rule. -/
theorem accepts_iff {type : String} : (Literals.ofGrammar g).accepts quoted type = true ↔
    (type.toList = quoted ∨
      (type.toList.head? = some '\'' ∧ Literal.unescape type.toList = Literal.unescape quoted)) ∨
    ∃ r, Spells g r (Literal.unescape quoted) ∧ r.name = type := by
  rw [← mem_rules_ofGrammar_iff, Literals.accepts]
  simp

/-- The name of a rule is accepted for the value that the rule spells. -/
theorem accepts_of_spells {r : Rule} (h : Spells g r (Literal.unescape quoted)) :
    (Literals.ofGrammar g).accepts quoted r.name = true :=
  accepts_iff.2 (.inr ⟨r, h, rfl⟩)

/-- A type that is named by a literal is accepted for the literals of the same value. -/
theorem accepts_literal_iff {first : List Char} (hfirst : first ∈ parserLiterals g) :
    (Literals.ofGrammar g).accepts quoted (String.ofList first) = true ↔
      Literal.unescape quoted = Literal.unescape first := by
  obtain ⟨cs, hcs⟩ := exists_quote_of_mem_parserLiterals hfirst
  have hquote : first.head? = some '\'' := by rw [hcs, List.head?_cons]
  rw [accepts_iff, String.toList_ofList]
  constructor
  · rintro ((rfl | ⟨-, hsame⟩) | ⟨r, hr, hname⟩)
    · rfl
    · exact hsame.symm
    · exact absurd hname (name_ne_of_mem_parserLiterals hr.1 hfirst)
  · exact fun hsame => .inl (.inr ⟨hquote, hsame.symm⟩)

theorem accepts_implicit_iff (hc : c ∈ implicitCandidates g) :
    (Literals.ofGrammar g).accepts quoted c.type = true ↔ Literal.unescape quoted = c.value := by
  obtain ⟨first, hfirst, htype, -⟩ := exists_of_mem_implicitCandidates hc
  have hmem : first ∈ parserLiterals g :=
    (List.mem_filter.1 ((eraseDupsBy_sublist _).subset hfirst)).1
  rw [Candidate.value, htype, unescape_ofList]
  exact accepts_literal_iff hmem

/-- The pattern of a type named by a literal matches the value of the literal. -/
theorem literal_value (hc : c ∈ implicitCandidates g) :
    Pattern.literal c.value = .ok c.pattern := by
  obtain ⟨first, -, htype, hpattern⟩ := exists_of_mem_implicitCandidates hc
  rwa [Candidate.value, htype, unescape_ofList]

/-- What the tokenizer makes of a literal of a parser rule is what the matcher accepts for it. If no
token rule spells its value, exactly one type has the value; it is accepted for the literals of
that value, however they are spelled, and for no other ones. Otherwise no type has the value, and
the names of all rules that spell it are accepted. -/
theorem implicitCandidates_agree (g : Grammar) (quoted : List Char)
    (hquoted : quoted ∈ parserLiterals g) (hne : Literal.unescape quoted ≠ []) :
    ((∀ r, ¬Spells g r (Literal.unescape quoted)) →
      ∃ c, (implicitCandidates g).filter (·.value = Literal.unescape quoted) = [c] ∧
        Pattern.literal (Literal.unescape quoted) = .ok c.pattern ∧
        (Literals.ofGrammar g).accepts quoted c.type = true ∧
        ∀ other ∈ parserLiterals g, (Literals.ofGrammar g).accepts other c.type = true ↔
          Literal.unescape other = Literal.unescape quoted) ∧
    ((∃ r, Spells g r (Literal.unescape quoted)) →
      (∀ c ∈ implicitCandidates g, c.value ≠ Literal.unescape quoted) ∧
        ∀ r, Spells g r (Literal.unescape quoted) →
          (Literals.ofGrammar g).accepts quoted r.name = true) := by
  refine ⟨fun hnone => ?_, fun ⟨r, hr⟩ => ⟨fun c hc hvalue => ?_, fun r hr => ?_⟩⟩
  · obtain ⟨c, hc, hvalue⟩ := List.mem_map.1
      (mem_map_value_iff.2 ⟨⟨quoted, hquoted, rfl⟩, hne, hnone⟩)
    refine ⟨c, ?_, ?_, ?_, fun other _ => ?_⟩
    · exact hvalue ▸ filter_eq_singleton (nodup_implicitCandidates g) hc
    · exact hvalue ▸ literal_value hc
    · exact (accepts_implicit_iff hc).2 hvalue.symm
    · rw [accepts_implicit_iff hc, hvalue]
  · exact (mem_map_value_iff.1 (List.mem_map.2 ⟨c, hc, hvalue⟩)).2.2 r hr
  · exact accepts_of_spells hr

/-- Two spellings of a plus sign that no rule spells, and a minus sign with a rule of its own. -/
def signGrammar : Grammar :=
  (Source.scan {} "grammar G; sign : '+' | '\\u002B' | '-' ; MINUS : '-' ;".toList).1

/-- The second spelling of the plus sign has the type named by the first one, and the minus sign
has its rule. -/
theorem implicitCandidates_signGrammar :
    ("'\\u002B'".toList ∈ parserLiterals signGrammar ∧ Literal.unescape "'\\u002B'".toList ≠ []) ∧
    ("'-'".toList ∈ parserLiterals signGrammar ∧ Literal.unescape "'-'".toList ≠ []) ∧
    (∃ c, (implicitCandidates signGrammar).filter (·.value = ['+']) = [c] ∧
      (Literals.ofGrammar signGrammar).accepts "'\\u002B'".toList c.type = true ∧
      (Literals.ofGrammar signGrammar).accepts "'+'".toList c.type = true) ∧
    (∀ c ∈ implicitCandidates signGrammar, c.value ≠ ['-']) ∧
      (Literals.ofGrammar signGrammar).accepts "'-'".toList "MINUS" = true := by
  have hplus : "'\\u002B'".toList ∈ parserLiterals signGrammar ∧
      Literal.unescape "'\\u002B'".toList = ['+'] := by decide +kernel
  have hfirst : "'+'".toList ∈ parserLiterals signGrammar ∧
      Literal.unescape "'+'".toList = ['+'] := by decide +kernel
  have hminus : "'-'".toList ∈ parserLiterals signGrammar ∧
      Literal.unescape "'-'".toList = ['-'] := by decide +kernel
  have hspelled : spelled signGrammar = [['-']] := by decide +kernel
  have hrule : ∃ r ∈ signGrammar.tokenRules, r.structure.soleLiteral? = some ['-'] ∧
      r.name = "MINUS" := by decide +kernel
  have hplusNe : Literal.unescape "'\\u002B'".toList ≠ [] := by rw [hplus.2]; decide
  have hminusNe : Literal.unescape "'-'".toList ≠ [] := by rw [hminus.2]; decide
  obtain ⟨himplicit, -⟩ := implicitCandidates_agree signGrammar _ hplus.1 hplusNe
  obtain ⟨-, hown⟩ := implicitCandidates_agree signGrammar _ hminus.1 hminusNe
  rw [hplus.2] at himplicit
  rw [hminus.2] at hown
  obtain ⟨r, hr, hsole, hname⟩ := hrule
  obtain ⟨hnone, haccepts⟩ := hown ⟨r, hr, hsole⟩
  obtain ⟨c, hc, -, hself, hothers⟩ := himplicit fun r hr => by
    have hmem := mem_spelled_iff.2 ⟨r, hr⟩
    rw [hspelled] at hmem
    exact absurd hmem (by decide)
  refine ⟨⟨hplus.1, hplusNe⟩, ⟨hminus.1, hminusNe⟩, ⟨c, hc, hself, ?_⟩, hnone, ?_⟩
  · exact (hothers _ hfirst.1).2 hfirst.2
  · exact hname ▸ haccepts r ⟨hr, hsole⟩

end GrammarLab.Tokenizer
