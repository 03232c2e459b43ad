import GrammarLab.Ambiguity
import GrammarLab.Proofs.List.Distinct
import GrammarLab.Proofs.Pattern.Literal
import GrammarLab.Proofs.Source.Orderly
import GrammarLab.Proofs.Tokenizer.Winner

/-!
# Rules that lose every tie

A token rule of one literal is never chosen exactly if an earlier candidate takes all of the
literal, for wherever the literal stands that candidate takes no less. The check for conflicts asks
something else: whether an earlier pattern matches the literal when it is held to all of it.

    Selectable before c behind ↔
      s ≠ [] ∧ ∀ d ∈ before, ¬d.pattern.Takes s          (selectable_of_matchesOnly_iff)
-/

namespace GrammarLab.Tokenizer

open Body Pattern Text

/-- The candidate wins at the offset where it stands behind `before` and in front of `behind`. -/
def Selected (before : List Candidate) (c : Candidate) (behind : List Candidate) (s : List Char)
    (offset : Nat) : Prop :=
  ∃ n, c.pattern.matchAt s offset = some n ∧
    (∀ d ∈ before, ∀ m, d.pattern.matchAt s offset = some m → m < n) ∧
    ∀ d ∈ behind, ∀ m, d.pattern.matchAt s offset = some m → m ≤ n

/-- Somewhere in some text the candidate wins. -/
def Selectable (before : List Candidate) (c : Candidate) (behind : List Candidate) : Prop :=
  ∃ s offset, Selected before c behind s offset

/-- What the tokenizer chooses is a candidate that wins at its place in the list. -/
theorem exists_winner?_iff_selected {cs : List Candidate} {c : Candidate}
    {left right : List Char} :
    (∃ n, winner? right cs = some (c, n)) ↔ ∃ before behind, cs = before ++ c :: behind ∧
      Selected before c behind (left ++ right) (byteLength left) := by
  constructor
  · rintro ⟨n, hn⟩
    obtain ⟨before, behind, hcs, hwins⟩ := wins_append_iff.2 ⟨n, hn, rfl⟩
    exact ⟨before, behind, hcs, _, hwins⟩
  · rintro ⟨before, behind, hcs, n, hwins⟩
    obtain ⟨k, hk, -⟩ := wins_append_iff.1 ⟨before, behind, hcs, hwins⟩
    exact ⟨k, hk⟩

/-! ## Literals -/

/-- Where the literal stands alone, whatever takes less than all of it loses. -/
theorem selectable_of_matchesOnly_iff {before behind : List Candidate} {c : Candidate}
    {s : List Char} (h : c.pattern.MatchesOnly s) :
    Selectable before c behind ↔ s ≠ [] ∧ ∀ d ∈ before, ¬d.pattern.Takes s := by
  constructor
  · rintro ⟨t, offset, n, hn, hbefore, -⟩
    obtain ⟨hs, rfl, left, right, rfl, rfl⟩ := h.exists_of_matchAt hn
    refine ⟨hs, fun d hd htakes => ?_⟩
    obtain ⟨m, hle, hm⟩ := htakes.exists_matchAt left right
    have := hbefore d hd m hm
    omega
  · rintro ⟨hs, hbefore⟩
    refine ⟨s, 0, byteLength s, h.takes hs, fun d hd m hm => ?_, fun d _ m hm => ?_⟩
    · have hle := le_byteLength_of_matchAt hm
      have hne : m ≠ byteLength s := by
        rintro rfl
        exact hbefore d hd hm
      omega
    · exact le_byteLength_of_matchAt hm

/-- A literal takes all of no other text. -/
theorem eq_of_takes {p : Pattern} {s t : List Char} (h : p.MatchesOnly s) (ht : p.Takes t) :
    t = s := by
  obtain ⟨-, hlen, before, behind, rfl, hbefore⟩ := h.exists_of_matchAt ht
  obtain rfl := byteLength_eq_zero hbefore
  simp only [byteLength_append, byteLength] at hlen
  have hempty : byteLength behind = 0 := by omega
  obtain rfl := byteLength_eq_zero hempty
  simp

/-! ## Candidates of a grammar -/

variable {g : Grammar}

@[simp] theorem pattern_ofRule (r : Rule) (p : Pattern) : (Candidate.ofRule r p).pattern = p := by
  have key : ∀ (commands : List Command) (c : Candidate),
      (commands.foldl Candidate.apply c).pattern = c.pattern := by
    intro commands
    induction commands with
    | nil => exact fun _ => rfl
    | cons command commands ih =>
      intro c
      rw [List.foldl_cons, ih]
      cases command <;> simp only [Candidate.apply]
      split <;> rfl
  exact key _ _

theorem mem_filterMap_candidateOf? {compiled : List CompiledRule} {d : Candidate} :
    d ∈ compiled.filterMap candidateOf? ↔
      ∃ r p, (r, .ok p) ∈ compiled ∧ d = .ofRule r p := by
  rw [List.mem_filterMap]
  constructor
  · rintro ⟨⟨r, x⟩, hmem, hd⟩
    cases x with
    | error e => simp [candidateOf?] at hd
    | ok p => exact ⟨r, p, hmem, (Option.some.inj hd).symm⟩
  · rintro ⟨r, p, hmem, rfl⟩
    exact ⟨(r, .ok p), hmem, rfl⟩

theorem eq_ok_of_toOption {x : Except PatternError Pattern} {p : Pattern}
    (h : x.toOption = some p) : x = .ok p := by
  cases x with
  | error e => simp [Except.toOption] at h
  | ok q => rw [Option.some.inj h]

/-- No implicit literal takes all of what a token rule spells. -/
theorem not_takes_of_implicit {d : Candidate} {s : List Char} (hd : d ∈ implicitCandidates g)
    (hs : s ∈ spelled g) : ¬d.pattern.Takes s := by
  obtain ⟨quoted, hquoted, hd⟩ := List.mem_filterMap.1 hd
  obtain ⟨p, hp, rfl⟩ := Option.map_eq_some_iff.1 hd
  intro htakes
  obtain rfl := eq_of_takes (matchesOnly_literal (eq_ok_of_toOption hp)) htakes
  have hspelled := (List.mem_filter.1 ((eraseDupsBy_sublist _).subset hquoted)).2
  simp [hs] at hspelled

/-! ## Reports -/

/-- What stands before a member is fixed by its key. -/
theorem append_inj_of_nodup {α β : Type} {f : α → β} {as bs as' bs' : List α} {x x' : α}
    (hn : ((as ++ x :: bs).map f).Nodup) (h : as ++ x :: bs = as' ++ x' :: bs')
    (hx : f x' = f x) : as' = as ∧ x' = x := by
  induction as generalizing as' with
  | nil =>
    cases as' with
    | nil => exact ⟨rfl, (List.cons.inj h).1.symm⟩
    | cons a as' =>
      obtain ⟨rfl, rfl⟩ := List.cons.inj h
      simp [hx] at hn
  | cons a as ih =>
    simp only [List.cons_append, List.map_cons, List.nodup_cons] at hn
    cases as' with
    | nil =>
      obtain ⟨rfl, rfl⟩ := List.cons.inj h
      simp [hx] at hn
    | cons a' as' =>
      obtain ⟨rfl, htail⟩ := List.cons.inj h
      obtain ⟨rfl, rfl⟩ := ih hn.2 htail
      exact ⟨rfl, rfl⟩

theorem mem_lexerConflicts_iff {d : Diagnostic} :
    d ∈ g.lexerConflicts ↔ ∃ earlier c later,
      g.compileRules g.tokenRules = earlier ++ c :: later ∧ conflict? earlier c.1 = some d := by
  simp only [Grammar.lexerConflicts, List.mem_filterMap]
  constructor
  · rintro ⟨⟨c, i⟩, hmem, hd⟩
    have hi := List.mem_zipIdx_iff_getElem?.1 hmem
    obtain ⟨hlt, hget⟩ := List.getElem?_eq_some_iff.1 hi
    refine ⟨_, c, (g.compileRules g.tokenRules).drop (i + 1), ?_, hd⟩
    simp only at hget
    rw [← hget, List.getElem_cons_drop, List.take_append_drop]
  · rintro ⟨earlier, c, later, hsplit, hd⟩
    refine ⟨(c, earlier.length), ?_, ?_⟩
    · rw [List.mem_zipIdx_iff_getElem?, hsplit]
      simp
    · rw [hsplit, List.take_left]
      exact hd

theorem rule_of_conflict? {earlier : List CompiledRule} {r : Rule} {d : Diagnostic}
    (h : conflict? earlier r = some d) : d.rule = some r.name := by
  simp only [conflict?, bind, Option.bind_eq_some_iff, pure, Option.some.injEq] at h
  obtain ⟨_, -, _, -, rfl⟩ := h
  rfl

theorem isSome_conflict?_iff {earlier : List CompiledRule} {r : Rule} :
    (∃ d, conflict? earlier r = some d) ↔ ∃ s, r.structure.soleLiteral? = some s ∧
      ∃ e ∈ earlier, e.1.mode = r.mode ∧ e.matchesWhole s = true := by
  constructor
  · rintro ⟨d, h⟩
    simp only [conflict?, bind, Option.bind_eq_some_iff] at h
    obtain ⟨s, hs, winner, hw, -⟩ := h
    obtain ⟨e, he, -⟩ := Option.map_eq_some_iff.1 hw
    have hfound := List.find?_some he
    simp only [Bool.and_eq_true, decide_eq_true_eq] at hfound
    exact ⟨s, hs, e, List.mem_of_find?_eq_some he, hfound⟩
  · rintro ⟨s, hs, e, he, hmode, hwhole⟩
    have hfound : (earlier.find? fun c => c.1.mode = r.mode && c.matchesWhole s).isSome := by
      rw [List.find?_isSome]
      exact ⟨e, he, by simp [hmode, hwhole]⟩
    obtain ⟨e', he'⟩ := Option.isSome_iff_exists.1 hfound
    simp [conflict?, hs, shadow?, he']

/-! ## Agreement -/

/-- The check for conflicts reports the rule of the name. -/
def Reported (g : Grammar) (name : String) : Prop := ∃ d ∈ g.lexerConflicts, d.rule = some name

/-- The rule has a pattern, and it takes all of the text. -/
def Takes (e : CompiledRule) (s : List Char) : Prop := ∃ p, e.2 = .ok p ∧ p.Takes s

section

variable {limits : ScanLimits} {source : List Char} {r : Rule} {p : Pattern} {quoted : List Char}
  {earlier later : List CompiledRule}

theorem candidates_ofGrammar (hmodes : g.hasCustomModes = false)
    (hsplit : g.compileRules g.tokenRules = earlier ++ (r, .ok p) :: later) :
    (ofGrammar g {}).candidates = (implicitCandidates g ++ earlier.filterMap candidateOf?) ++
      .ofRule r p :: later.filterMap candidateOf? := by
  have hrules : selectedRules g {} = g.tokenRules := by simp [selectedRules, defaultRules, hmodes]
  simp [ofGrammar, hrules, hsplit, candidateOf?]

theorem mem_tokenRules_of_compileRules {e : CompiledRule}
    (he : e ∈ g.compileRules g.tokenRules) : e.1 ∈ g.tokenRules := by
  have hmem := List.mem_map_of_mem (f := fun e : CompiledRule => e.1) he
  rwa [map_fst_compileRules] at hmem

theorem nodup_compileRules (hscan : (Source.scan limits source).1 = g) :
    ((g.compileRules g.tokenRules).map fun e => e.1.name).Nodup := by
  have hnames := Source.nodup_names_scan limits source
  rw [hscan] at hnames
  have hmap : ((g.compileRules g.tokenRules).map fun e => e.1.name) =
      g.tokenRules.map (·.name) := by
    rw [← map_fst_compileRules (g := g) g.tokenRules, List.map_map, map_fst_compileRules]
    rfl
  rw [hmap]
  exact hnames.sublist (List.filter_sublist.map _)

/-- Whoever is scanned without modes of its own is reported for what stands before it. -/
theorem reported_iff (hscan : (Source.scan limits source).1 = g)
    (hmodes : g.hasCustomModes = false)
    (hsplit : g.compileRules g.tokenRules = earlier ++ (r, .ok p) :: later)
    (hbody : IsLiteral r.structure quoted) :
    Reported g r.name ↔ Literal.unescape quoted ≠ [] ∧
      ∃ e ∈ earlier, e.matchesWhole (Literal.unescape quoted) = true := by
  have hnodup := nodup_compileRules hscan
  have hmode : ∀ e ∈ g.compileRules g.tokenRules, e.1.mode = some defaultMode := by
    intro e he
    obtain ⟨hmem, htoken⟩ := List.mem_filter.1 (mem_tokenRules_of_compileRules he)
    rw [Rule.isToken, Bool.and_eq_true] at htoken
    subst hscan
    exact Source.mode_of_scan hmodes hmem htoken.1
  have hr : r.mode = some defaultMode := hmode (r, .ok p) (by rw [hsplit]; simp)
  have hconflict : (∃ d, conflict? earlier r = some d) ↔ Literal.unescape quoted ≠ [] ∧
      ∃ e ∈ earlier, e.matchesWhole (Literal.unescape quoted) = true := by
    rw [isSome_conflict?_iff, soleLiteral?_of_isLiteral hbody]
    constructor
    · rintro ⟨s, hs, e, he, -, hwhole⟩
      simp only [Option.ite_none_left_eq_some, Option.some.injEq, List.isEmpty_iff] at hs
      obtain ⟨hne, rfl⟩ := hs
      exact ⟨hne, e, he, hwhole⟩
    · rintro ⟨hne, e, he, hwhole⟩
      refine ⟨_, by rw [if_neg (by simpa using hne)], e, he, ?_, hwhole⟩
      rw [hr, hmode e (by rw [hsplit]; simp [he])]
  rw [← hconflict]
  constructor
  · rintro ⟨d, hd, hname⟩
    obtain ⟨earlier', c, later', hsplit', hconf⟩ := mem_lexerConflicts_iff.1 hd
    rw [rule_of_conflict? hconf, Option.some.injEq] at hname
    rw [hsplit] at hnodup
    obtain ⟨rfl, rfl⟩ := append_inj_of_nodup hnodup (hsplit.symm.trans hsplit') hname
    exact ⟨d, hconf⟩
  · rintro ⟨d, hd⟩
    exact ⟨d, mem_lexerConflicts_iff.2 ⟨earlier, _, later, hsplit, hd⟩, rule_of_conflict? hd⟩

theorem selectable_iff (hscan : (Source.scan limits source).1 = g)
    (hsplit : g.compileRules g.tokenRules = earlier ++ (r, .ok p) :: later)
    (hbody : IsLiteral r.structure quoted)
    (hquant : ∀ t ∈ significant r.definition, t.kind.isQuantifier = false) :
    Selectable (implicitCandidates g ++ earlier.filterMap candidateOf?) (.ofRule r p)
        (later.filterMap candidateOf?) ↔
      Literal.unescape quoted ≠ [] ∧ ∀ e ∈ earlier, ¬Takes e (Literal.unescape quoted) := by
  have hmem : (r, .ok p) ∈ g.compileRules g.tokenRules := by rw [hsplit]; simp
  have hrule := mem_tokenRules_of_compileRules hmem
  obtain ⟨c, hc, hp⟩ := exists_state_of_mem_compileRules hmem
  have hfound : g.rule? r.name = some r := by
    subst hscan
    exact Source.rule?_of_mem_scan (List.mem_filter.1 hrule).1
  have honly : (Candidate.ofRule r p).pattern.MatchesOnly (Literal.unescape quoted) := by
    rw [pattern_ofRule]
    exact matchesOnly_of_isLiteral hc hfound hbody hquant hp
  rw [selectable_of_matchesOnly_iff honly]
  refine and_congr_right fun hne => ?_
  have hspelled : Literal.unescape quoted ∈ spelled g := by
    refine List.mem_filterMap.2 ⟨r, hrule, ?_⟩
    rw [soleLiteral?_of_isLiteral hbody, if_neg (by simpa using hne)]
  constructor
  · rintro hno e he ⟨q, hq, htakes⟩
    refine hno (.ofRule e.1 q) (List.mem_append_right _ ?_) (by rwa [pattern_ofRule])
    exact mem_filterMap_candidateOf?.2 ⟨e.1, q, by rw [← hq]; exact he, rfl⟩
  · intro hno d hd
    rcases List.mem_append.1 hd with hd | hd
    · exact not_takes_of_implicit hd hspelled
    · obtain ⟨r', q, he, rfl⟩ := mem_filterMap_candidateOf?.1 hd
      rw [pattern_ofRule]
      exact fun htakes => hno _ he ⟨q, rfl, htakes⟩

/-- A literal that is taken is seen to be matched, except near the limit on nesting. -/
theorem matchesWhole_of_takes {q : Pattern} {e : CompiledRule} {s : List Char}
    (he : e ∈ g.compileRules g.tokenRules) (hq : e.2 = .ok q) (h : q.Takes s) :
    q.matchesWhole s = true ∨ q.isLazy = true ∧ Regex.maxDepth < q.depth + 2 := by
  obtain ⟨c, hc, hp⟩ := exists_state_of_mem_compileRules he
  obtain ⟨t, -, ht⟩ := exists_spelling_of_compileRule hc (hp.trans hq)
  rw [matchesWhole_iff]
  cases hl : q.isLazy with
  | false => exact .inl ⟨h.ne_nil, h.matches ht, .inl rfl⟩
  | true =>
    rcases Nat.lt_or_ge Regex.maxDepth (q.depth + 2) with hdeep | hdepth
    · exact .inr ⟨rfl, hdeep⟩
    · exact .inl ⟨h.ne_nil, h.matches ht, .inr hdepth⟩

theorem matchesWhole_eq_true_iff {e : CompiledRule} {s : List Char} :
    e.matchesWhole s = true ↔ ∃ q, e.2 = .ok q ∧ q.matchesWhole s = true := by
  obtain ⟨r, x⟩ := e
  cases x with
  | error e => simp [CompiledRule.matchesWhole]
  | ok q => simp [CompiledRule.matchesWhole]

/-- The check for conflicts and the tokenizer agree about a rule of one literal exactly if it is
not empty and some earlier rule matches it as a whole just when some earlier rule takes it as a
whole. For greedy patterns these are the same. A lazy one may match a literal of which it takes
less; and near the limit on nesting it takes a literal that it is not seen to match. -/
theorem lexerConflicts_agree_iff (hscan : (Source.scan limits source).1 = g)
    (hmodes : g.hasCustomModes = false)
    (hsplit : g.compileRules g.tokenRules = earlier ++ (r, .ok p) :: later)
    (hbody : IsLiteral r.structure quoted)
    (hquant : ∀ t ∈ significant r.definition, t.kind.isQuantifier = false) :
    let s := Literal.unescape quoted
    let before := implicitCandidates g ++ earlier.filterMap candidateOf?
    let c := Candidate.ofRule r p
    let behind := later.filterMap candidateOf?
    (ofGrammar g {}).candidates = before ++ c :: behind ∧
    (Reported g r.name ↔ s ≠ [] ∧ ∃ e ∈ earlier, e.matchesWhole s = true) ∧
    (Selectable before c behind ↔ s ≠ [] ∧ ∀ e ∈ earlier, ¬Takes e s) ∧
    ((Reported g r.name ↔ ¬Selectable before c behind) ↔
      s ≠ [] ∧ ((∃ e ∈ earlier, e.matchesWhole s = true) ↔ ∃ e ∈ earlier, Takes e s)) ∧
    ((∀ e ∈ earlier, ∀ q, e.2 = .ok q → q.isLazy = false) →
      ((∃ e ∈ earlier, e.matchesWhole s = true) ↔ ∃ e ∈ earlier, Takes e s)) ∧
    ∀ e ∈ earlier, ∀ q, e.2 = .ok q → q.Takes s →
      q.matchesWhole s = true ∨ q.isLazy = true ∧ Regex.maxDepth < q.depth + 2 := by
  intro s before c behind
  have hreported := reported_iff hscan hmodes hsplit hbody
  have hselectable := selectable_iff hscan hsplit hbody hquant
  have hearlier : ∀ e ∈ earlier, e ∈ g.compileRules g.tokenRules := fun e he => by
    rw [hsplit]
    exact List.mem_append_left _ he
  refine ⟨candidates_ofGrammar hmodes hsplit, hreported, hselectable, ?_, ?_, ?_⟩
  · have hnone : (∀ e ∈ earlier, ¬Takes e s) ↔ ¬∃ e ∈ earlier, Takes e s := by
      simp only [not_exists, not_and]
    rw [hreported, hselectable, hnone]
    by_cases hs : s = []
    · have hempty : ¬Literal.unescape quoted ≠ [] := not_not_intro hs
      simp only [hempty, false_and, not_false_eq_true, iff_true, s]
    · have hne : Literal.unescape quoted ≠ [] := hs
      simp only [hne, true_and, not_not, s, ne_eq, not_false_eq_true]
  · intro hgreedy
    simp only [matchesWhole_eq_true_iff, Takes]
    constructor
    · rintro ⟨e, he, q, hq, hwhole⟩
      exact ⟨e, he, q, hq, (takes_iff_of_greedy (hgreedy e he q hq)).2 hwhole⟩
    · rintro ⟨e, he, q, hq, htakes⟩
      exact ⟨e, he, q, hq, (takes_iff_of_greedy (hgreedy e he q hq)).1 htakes⟩
  · intro e he q hq
    exact matchesWhole_of_takes (hearlier e he) hq

end

/-- The rule `R` is a literal that `A` matches and of which it takes less. -/
def lazyGrammar : Grammar :=
  (Source.scan {} "lexer grammar L; A : 'a' 'b'?? ; R : 'ab' ;".toList).1

/-- The program of `ab??` stops behind the first character. -/
theorem not_takes_of_program {q : Pattern} (hlazy : q.isLazy = true)
    (hprogram : q.program =
      #[.take (.single 'a') 1, .fork 3 2, .take (.single 'b') 3, .accept]) :
    ¬q.Takes ['a', 'b'] := by
  have hone : q.prefixLength? ['a', 'b'] = some 1 := by
    rw [prefixLength?_eq_some_iff_of_isLazy hlazy, hprogram]
    simp [Regex.preferred?, Regex.preferredFrom, Regex.closure, Regex.taking, Regex.preferredTo,
      List.range, List.range.loop]
  simp [takes_iff, hone]

/-- What is found out about the patterns of the two rules. -/
theorem patterns_lazyGrammar :
    (lazyGrammar.compileRules lazyGrammar.tokenRules).map (fun e => e.2.toOption.map fun q =>
      (q.isLazy, q.program, q.matchesWhole ['a', 'b'])) =
    [some (true, #[.take (.single 'a') 1, .fork 3 2, .take (.single 'b') 3, .accept], true),
      some (false, #[], true)] := by decide +kernel

theorem literals_lazyGrammar :
    (lazyGrammar.compileRules lazyGrammar.tokenRules).map
      (fun e => (e.1.name, e.1.structure.soleLiteral?)) =
    [("A", none), ("R", some ['a', 'b'])] := by decide +kernel

/-- The rule is reported, and it is chosen for its literal. -/
theorem lexerConflicts_lazyGrammar : ∃ a r q p,
    lazyGrammar.compileRules lazyGrammar.tokenRules = [(a, .ok q), (r, .ok p)] ∧ r.name = "R" ∧
    Reported lazyGrammar "R" ∧
    Selectable (implicitCandidates lazyGrammar ++ [.ofRule a q]) (.ofRule r p) [] := by
  have hmodes : lazyGrammar.hasCustomModes = false := by decide +kernel
  have hplain : ∀ r ∈ lazyGrammar.tokenRules,
      r.name = "R" → ∀ t ∈ significant r.definition, t.kind.isQuantifier = false := by
    decide +kernel
  -- the two rules with their patterns
  have hliterals := literals_lazyGrammar
  obtain ⟨⟨a, x⟩, rest, hsplit, ha, hrest⟩ := List.map_eq_cons_iff.1 patterns_lazyGrammar
  obtain ⟨⟨r, y⟩, rest', rfl, hr, hnil⟩ := List.map_eq_cons_iff.1 hrest
  obtain rfl := List.map_eq_nil_iff.1 hnil
  obtain ⟨q, hq, hq'⟩ := Option.map_eq_some_iff.1 ha
  obtain ⟨p, hp, -⟩ := Option.map_eq_some_iff.1 hr
  simp only [Prod.mk.injEq] at hq'
  obtain ⟨hlazy, hprogram, hwhole⟩ := hq'
  obtain rfl := eq_ok_of_toOption hq
  obtain rfl := eq_ok_of_toOption hp
  rw [hsplit] at hliterals
  simp only [List.map_cons, List.map_nil, List.cons.injEq, Prod.mk.injEq, and_true] at hliterals
  obtain ⟨-, hname, hliteral⟩ := hliterals
  obtain ⟨quoted, hbody, hvalue⟩ := exists_isLiteral_of_soleLiteral? hliteral
  have hmem : r ∈ lazyGrammar.tokenRules :=
    mem_tokenRules_of_compileRules (e := (r, .ok p)) (by rw [hsplit]; simp)
  have hplaces : lazyGrammar.compileRules lazyGrammar.tokenRules =
      [(a, .ok q)] ++ (r, .ok p) :: [] := hsplit
  have hagree := lexerConflicts_agree_iff rfl hmodes hplaces hbody (hplain r hmem hname)
  simp only [hvalue, hname] at hagree
  obtain ⟨-, hreported, hselectable, -⟩ := hagree
  refine ⟨a, r, q, p, hsplit, hname, hreported.2 ⟨by simp, (a, .ok q), by simp, hwhole⟩,
    hselectable.2 ⟨by simp, fun e he htakes => ?_⟩⟩
  obtain rfl := List.mem_singleton.1 he
  obtain ⟨q', hq', htakes⟩ := htakes
  obtain rfl := Except.ok.inj hq'
  exact not_takes_of_program hlazy hprogram htakes

end GrammarLab.Tokenizer
