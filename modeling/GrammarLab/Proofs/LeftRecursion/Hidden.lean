import GrammarLab.Proofs.Cycle.Lasso
import GrammarLab.Proofs.LeftRecursion.FirstElements

/-!
# Reported left recursion

Each report of hidden left recursion tells of a simple cycle of parser rules that can start with
each other, and no two reports are of the same rules. Of a component with a cycle some cycle is
told, as long as the ways into it are not longer than the walk is deep. A walk that has its end in
front of the component leaves rules behind that count as finished, and what they lead to may be
passed by, even if the cycle itself is short.

    the reports tell of simple cycles, each of other rules           (hiddenReports_are_cycles)
    all ways into the component of d have at most maxWalkDepth rules →
      a cycle of that component is told                   (exists_hiddenReport_of_isFirstCycle)
-/

namespace GrammarLab

open Body Text

/-! ## Cycles of rules -/

/-- Each rule can start with the next one, and the last one with the first. -/
structure Grammar.IsFirstCycle (g : Grammar) (c : List String) : Prop where
  ne_nil : c ≠ []
  starts : (c ++ c.take 1).IsChain g.StartsWith

section

variable {g : Grammar} {c : Cycle Unit} {name : String}

theorem isFirstCycle_of_isCycle (h : IsCycle g.startEdges c) : g.IsFirstCycle c.members :=
  ⟨h.members_ne_nil, h.isChain_chain.imp fun _ _ => startsWith_of_joined⟩

/-- No rule has an edge to itself, so there is more than one on a cycle. -/
theorem Grammar.IsFirstCycle.two_le_length {c : List String} (h : g.IsFirstCycle c) :
    2 ≤ c.length := by
  match c, h with
  | [], h => exact absurd rfl h.ne_nil
  | [a], h =>
    have hself : g.StartsWith a a := (List.isChain_cons_cons.1 h.starts).1
    exact absurd rfl hself.ne
  | _ :: _ :: _, _ => simp

theorem exists_rule_of_mem_members (h : IsCycle g.startEdges c) (hname : name ∈ c.members) :
    ∃ r ∈ g.parserRules, r.name = name := by
  obtain ⟨e, he, -⟩ := h.exists_next hname
  have hstarts : g.StartsWith name e.1 := startsWith_of_joined ⟨e, he, rfl⟩
  obtain ⟨r, hr, heq, -⟩ := hstarts.source
  exact ⟨r, hr, heq⟩

end

/-! ## What a report says -/

/-- How the rules of a chain are printed. -/
def chainText (names : List String) : String := " -> ".intercalate names

/-- The report is an error on the line of the head, prints the cycle back to the head, and has a
note for each edge of it in order, with the line of the rule that the edge leaves. -/
structure Diagnostic.TellsOfRecursion (x : Diagnostic) (g : Grammar) (head : String)
    (rest : List String) : Prop where
  kind : x.kind = .hiddenLeftRecursion
  severity : x.severity = .error
  rule : x.rule = some head
  line : ∃ r ∈ g.parserRules, r.name = head ∧ x.line = some r.lineNumber
  message : x.message = "hidden left recursion: " ++
    s!"`{head}` starts with itself through {chainText (head :: rest ++ [head])}"
  related : List.Forall₂ (fun (edge : String × String) (note : Related) =>
      ∃ r ∈ g.parserRules, r.name = edge.1 ∧
        note = ⟨r.lineNumber, s!"`{edge.1}` can start with `{edge.2}`"⟩)
    ((head :: rest).zip (rest ++ [head])) x.related

section

variable {g : Grammar} {c : Cycle Unit} {name head : String} {rest : List String}

theorem exists_ruleLine (h : ∃ r ∈ g.parserRules, r.name = name) :
    ∃ r ∈ g.parserRules, r.name = name ∧ r.lineNumber = g.ruleLine name := by
  obtain ⟨hparser, hcontains⟩ := exists_mem_parserRules_iff.1 h
  obtain ⟨r, hr⟩ := Option.isSome_iff_exists.1 hcontains
  refine ⟨r, mem_parserRules_iff.2 ⟨List.mem_of_find?_eq_some hr, ?_⟩, Grammar.name_of_rule? hr, ?_⟩
  · rw [Grammar.name_of_rule? hr]
    exact hparser
  · rw [Grammar.ruleLine, hr]
    rfl

theorem tellsOfRecursion_hiddenDiagnostic (hc : c.members = head :: rest)
    (hrules : ∀ name ∈ c.members, ∃ r ∈ g.parserRules, r.name = name) :
    (g.hiddenDiagnostic c).TellsOfRecursion g head rest := by
  let detail := s!"`{head}` starts with itself through {chainText (head :: rest ++ [head])}"
  have hreport : g.hiddenDiagnostic c =
      { (((Diagnostic.ofKind .hiddenLeftRecursion).onLine (g.ruleLine head)).onRule head
          |>.withDetail detail) with
        related := ((head :: rest).zip (rest ++ [head])).map fun edge =>
          ⟨g.ruleLine edge.1, s!"`{edge.1}` can start with `{edge.2}`"⟩ } := by
    have hchain : c.chain = head :: rest ++ [head] := by rw [Cycle.chain, hc]; rfl
    unfold Grammar.hiddenDiagnostic
    rw [hchain, hc]
    exact Diagnostic.foldl_relatedTo _ _ _ _
  have hrule : ∀ name ∈ head :: rest, ∃ r ∈ g.parserRules, r.name = name := hc ▸ hrules
  rw [hreport]
  refine ⟨rfl, rfl, rfl, ?_, ?_, ?_⟩
  · obtain ⟨r, hr, hname, hline⟩ := exists_ruleLine (hrule head List.mem_cons_self)
    exact ⟨r, hr, hname, congrArg some hline.symm⟩
  · exact DiagnosticKind.message_of_appends rfl detail
  · rw [List.forall₂_map_right_iff, List.forall₂_same]
    intro edge hedge
    obtain ⟨r, hr, hname, hline⟩ := exists_ruleLine (hrule edge.1 (List.of_mem_zip hedge).1)
    exact ⟨r, hr, hname, by rw [hline]⟩

end

/-! ## Only cycles are reported -/

section

variable {g : Grammar} {r : Rule} {x : Diagnostic}

theorem kind_of_directRecursion? (h : r.directRecursion? = some x) :
    x.kind = .lexerLeftRecursion ∨ x.kind = .directLeftRecursion := by
  obtain ⟨b, -, hx⟩ := Option.bind_eq_some_iff.1 h
  obtain rfl := Option.some.inj hx
  simp only [Diagnostic.kind_withDetail, Diagnostic.kind_onRule, Diagnostic.kind_onLine,
    Diagnostic.kind_ofKind]
  split
  · exact .inl rfl
  · exact .inr rfl

theorem isSimpleCycle_of_mem_hiddenCycles {c : Cycle Unit} (h : c ∈ g.hiddenCycles) :
    IsSimpleCycle g.startEdges c :=
  Walk.isSimpleCycle_of_mem_cycles c (Cycle.mem_of_mem_distinct h)

/-- Each cycle that is kept is told of. -/
theorem tellsOfRecursion_of_mem_hiddenCycles {c : Cycle Unit} (h : c ∈ g.hiddenCycles) :
    ∃ head rest, c.members = head :: rest ∧ (g.hiddenDiagnostic c).TellsOfRecursion g head rest := by
  have hcycle := (isSimpleCycle_of_mem_hiddenCycles h).isCycle
  obtain ⟨head, rest, hc⟩ := List.exists_cons_of_ne_nil hcycle.members_ne_nil
  exact ⟨head, rest, hc, tellsOfRecursion_hiddenDiagnostic hc
    fun _ hname => exists_rule_of_mem_members hcycle hname⟩

/-- The other reports are of direct left recursion. -/
theorem byKind_leftRecursion (g : Grammar) : g.leftRecursion.byKind .hiddenLeftRecursion =
    g.hiddenCycles.map g.hiddenDiagnostic := by
  have hdirect : Diagnostics.byKind .hiddenLeftRecursion
      (g.rules.filterMap (·.directRecursion?)) = [] := by
    refine Diagnostics.byKind_eq_nil fun x hx => ?_
    obtain ⟨r, -, hr⟩ := List.mem_filterMap.1 hx
    rcases kind_of_directRecursion? hr with hk | hk <;> simp [hk]
  have hhidden : Diagnostics.byKind .hiddenLeftRecursion
      (g.hiddenCycles.map g.hiddenDiagnostic) = g.hiddenCycles.map g.hiddenDiagnostic := by
    refine Diagnostics.byKind_eq_self fun x hx => ?_
    obtain ⟨c, hc, rfl⟩ := List.mem_map.1 hx
    obtain ⟨head, rest, -, htells⟩ := tellsOfRecursion_of_mem_hiddenCycles hc
    exact htells.kind
  rw [Grammar.leftRecursion, Diagnostics.byKind_append, hdirect, hhidden, List.nil_append]

end

/-- The reports of hidden left recursion tell of cycles of at least two parser rules, through none
of them twice, and no two reports are of the same rules. -/
theorem hiddenReports_are_cycles (g : Grammar) : ∃ cs : List (List String),
    List.Forall₂ (fun x c => (∃ head rest, c = head :: rest ∧ x.TellsOfRecursion g head rest) ∧
      g.IsFirstCycle c ∧ c.Nodup ∧ 2 ≤ c.length) (g.leftRecursion.byKind .hiddenLeftRecursion) cs ∧
    cs.Pairwise fun c d => ¬∀ name, name ∈ c ↔ name ∈ d := by
  refine ⟨g.hiddenCycles.map Cycle.members, ?_, List.pairwise_map.2 (Cycle.pairwise_distinct _)⟩
  rw [byKind_leftRecursion, List.forall₂_map_left_iff, List.forall₂_map_right_iff, List.forall₂_same]
  intro c hc
  have hcycle := isSimpleCycle_of_mem_hiddenCycles hc
  have hfirst := isFirstCycle_of_isCycle hcycle.isCycle
  exact ⟨tellsOfRecursion_of_mem_hiddenCycles hc, hfirst, hcycle.nodup, hfirst.two_le_length⟩

/-! ## Components with a cycle -/

/-- The rule gets to the other one through first elements. -/
def Grammar.GetsTo (g : Grammar) (a b : String) : Prop := Relation.ReflTransGen g.StartsWith a b

/-- The rules are in one strongly connected component of the graph of first elements. -/
def Grammar.StartEachOther (g : Grammar) (a b : String) : Prop := g.GetsTo a b ∧ g.GetsTo b a

/-- The way goes through no rule twice, from the first parser rule of the grammar that gets to `d`
to some rule of the component of `d`. -/
structure Grammar.IsWayInto (g : Grammar) (d way : List String) : Prop where
  nodup : way.Nodup
  starts : way.IsChain g.StartsWith
  first : ∃ before r behind, g.parserRules = before ++ r :: behind ∧ way.head? = some r.name ∧
    ∀ r' ∈ before, ∀ m ∈ d, ¬g.GetsTo r'.name m
  last : ∃ m, way.getLast? = some m ∧ ∀ m' ∈ d, g.StartEachOther m m'

section

variable {g : Grammar} {way : List String}

theorem connected_startEdges (hnames : (g.rules.map (·.name)).Nodup) :
    Connected g.startEdges = g.StartEachOther := by
  funext a b
  rw [Connected, joined_startEdges_eq hnames]
  rfl

theorem reaches_startEdges_iff (hnames : (g.rules.map (·.name)).Nodup) {a : String}
    {d : Cycle Unit} : Reaches g.startEdges a d ↔ ∃ m ∈ d.members, g.GetsTo a m := by
  rw [Reaches, joined_startEdges_eq hnames]
  rfl

/-- A trail of the walk is a way when it is read from its start on. -/
theorem isWayInto_reverse (hnames : (g.rules.map (·.name)).Nodup) {d : Cycle Unit}
    {before behind : List Rule} {r : Rule} {nodes : List String} {node : String}
    (hrules : g.parserRules = before ++ r :: behind)
    (hbefore : ∀ r' ∈ before, ¬Reaches g.startEdges r'.name d)
    (htrail : Trail g.startEdges r.name (node :: nodes))
    (hnode : ∀ m ∈ d.members, Connected g.startEdges node m) :
    g.IsWayInto d.members (node :: nodes).reverse where
  nodup := List.nodup_reverse.2 htrail.nodup
  starts := by
    rw [List.isChain_reverse, ← joined_startEdges_eq hnames]
    exact htrail.joined
  first := by
    refine ⟨before, r, behind, hrules, by rw [List.head?_reverse, htrail.starts], ?_⟩
    exact fun r' hr' m hm hgets => hbefore r' hr' ((reaches_startEdges_iff hnames).2 ⟨m, hm, hgets⟩)
  last := by
    refine ⟨node, by rw [List.getLast?_reverse, List.head?_cons], ?_⟩
    rwa [← connected_startEdges hnames]

/-- There are no more rules on a way than parser rules in the grammar. -/
theorem Grammar.IsWayInto.length_le {d : List String} (h : g.IsWayInto d way) :
    way.length ≤ g.parserRules.length := by
  have hsub : way ⊆ g.parserRules.map (·.name) := by
    obtain ⟨before, r, behind, hrules, hhead, -⟩ := h.first
    refine h.starts.induction (· ∈ g.parserRules.map (·.name)) _ ?_ fun hne => ?_
    · intro a b hstarts _
      obtain ⟨r, hr, rfl⟩ := hstarts.target
      exact List.mem_map_of_mem hr
    · rw [List.head?_eq_some_head hne, Option.some_inj] at hhead
      rw [hhead, hrules]
      simp
  have hlen := (List.subperm_of_subset h.nodup hsub).length_le
  rwa [List.length_map] at hlen

/-- A cycle of the component is found on a walk that is deep enough. -/
theorem exists_mem_hiddenCycles (hnames : (g.rules.map (·.name)).Nodup) {d : Cycle Unit}
    (hd : IsCycle g.startEdges d)
    (hways : ∀ way, g.IsWayInto d.members way → way.length ≤ maxWalkDepth) :
    ∃ c ∈ g.hiddenCycles, ∀ m ∈ c.members, ∀ m' ∈ d.members, g.StartEachOther m m' := by
  classical
  -- the parser rule from which the walk gets to the cycle first
  obtain ⟨r, hr⟩ : ∃ r, g.parserRules.find? (fun r => Reaches g.startEdges r.name d) = some r := by
    obtain ⟨m, hm⟩ := List.exists_mem_of_ne_nil _ hd.members_ne_nil
    obtain ⟨r, hr, rfl⟩ := exists_rule_of_mem_members hd hm
    rw [← Option.isSome_iff_exists, List.find?_isSome]
    exact ⟨r, hr, decide_eq_true ⟨_, hm, .refl⟩⟩
  obtain ⟨hstart, before, behind, hrules, hbefore⟩ := List.find?_eq_some_iff_append.1 hr
  simp only [decide_eq_true_eq, Bool.not_eq_true', decide_eq_false_iff_not] at hstart hbefore
  have hlasts : Walk.Lasts g.startEdges
      (fun m => ∀ m' ∈ d.members, Connected g.startEdges m m') r.name := by
    intro nodes node htrail hnode
    have hlen := hways _ (isWayInto_reverse hnames hrules hbefore htrail hnode)
    rw [List.length_reverse, List.length_cons] at hlen
    omega
  have hsplit : g.parserRules.map (·.name) =
      before.map (·.name) ++ r.name :: behind.map (·.name) := by
    rw [hrules, List.map_append, List.map_cons]
  obtain ⟨c, hc, hconnected⟩ :=
    Walk.exists_mem_cycles_of_trails hd hsplit (List.forall_mem_map.2 hbefore) hstart hlasts
  obtain ⟨c', hc', hsame⟩ := Cycle.exists_mem_distinct hc
  rw [connected_startEdges hnames] at hconnected
  exact ⟨c', hc', fun m hm => hconnected m ((hsame m).2 hm)⟩

end

/-! ## Chains of rules -/

/-- Parser rules that are numbered. -/
def chainRule (i : Nat) : String := String.ofList ('r' :: Nat.toDigits 10 i)

/-- What the rule of a number starts with: the last rule goes back to the one before. -/
def chainTarget (n i : Nat) : String := if i = n + 1 then chainRule n else chainRule (i + 1)

def linkRule (n i : Nat) : Rule where
  name := chainRule i
  isFragment := false
  definition := (chainTarget n i).toList
  lineNumber := i + 2
  bodyLine := i + 2
  endLine := i + 2
  referencedRules := [chainTarget n i]
  mode := none

/-- The body of each rule is the name of the next one; the last two start with each other. -/
def chainGrammar (n : Nat) : Grammar where
  name := "Chain"
  kind := .parser
  rules := (List.range (n + 2)).map (linkRule n)

section

variable {n i : Nat}

theorem toList_chainRule (i : Nat) : (chainRule i).toList = 'r' :: Nat.toDigits 10 i :=
  String.toList_ofList

theorem chainRule_injective : Function.Injective chainRule := by
  intro i j heq
  have hlist := congrArg String.toList heq
  rw [toList_chainRule, toList_chainRule, List.cons.injEq] at hlist
  exact Walk.toDigits_injective hlist.2

theorem isWhole_chainRule (i : Nat) : Lexeme.IsWhole ⟨.ident, (chainRule i).toList⟩ := by
  refine ⟨'r', Nat.toDigits 10 i, toList_chainRule i, by decide, fun d hd => ?_⟩
  have hdigit := Nat.isDigit_of_mem_toDigits (by decide) (by decide) hd
  simp [isWordChar, Char.isAlphanum, hdigit]

theorem isLexerName_chainRule (i : Nat) : isLexerName (chainRule i) = false := by
  rw [isLexerName, toList_chainRule]
  show isUppercase 'r' = false
  decide

theorem exists_chainTarget (hi : i ≤ n + 1) :
    ∃ j ≤ n + 1, chainTarget n i = chainRule j ∧ j ≠ i := by
  unfold chainTarget
  split
  · exact ⟨n, by omega, rfl, by omega⟩
  · exact ⟨i + 1, by omega, rfl, by omega⟩

theorem parserRules_chainGrammar (n : Nat) :
    (chainGrammar n).parserRules = (List.range (n + 2)).map (linkRule n) := by
  refine List.filter_eq_self.2 fun r hr => ?_
  obtain ⟨i, -, rfl⟩ := List.mem_map.1 hr
  simp [Rule.isParser, Rule.isLexer, linkRule, isLexerName_chainRule]

theorem names_chainGrammar (n : Nat) :
    (chainGrammar n).rules.map (·.name) = (List.range (n + 2)).map chainRule := by
  rw [chainGrammar, List.map_map]
  rfl

theorem nodup_names_chainGrammar (n : Nat) : ((chainGrammar n).rules.map (·.name)).Nodup := by
  rw [names_chainGrammar]
  exact List.nodup_range.map chainRule_injective

theorem firstRules_linkRule (hi : i ≤ n + 1) :
    (chainGrammar n).firstRules (linkRule n i) = [chainTarget n i] := by
  obtain ⟨j, hj, htarget, hne⟩ := exists_chainTarget hi
  have hfirst : (linkRule n i).firstNames = [chainRule j] := by
    refine firstNames_of_name (isWhole_chainRule j) (isLexerName_chainRule j) ?_
    rw [linkRule, htarget]
  have hrule : linkRule n j ∈ (chainGrammar n).rules :=
    List.mem_map_of_mem (List.mem_range.2 (by omega))
  have hcontains : (chainGrammar n).contains (chainRule j) = true := by
    rw [Grammar.contains, Grammar.rule?, List.find?_isSome]
    exact ⟨_, hrule, by simp [linkRule]⟩
  have hother : chainRule j ≠ (linkRule n i).name := fun heq => hne (chainRule_injective heq)
  rw [Grammar.firstRules, hfirst, htarget, List.filter_cons_of_pos, List.filter_nil]
  · rfl
  · simp [isLexerName_chainRule, hother, hcontains]

theorem startEdges_chainRule (hi : i ≤ n + 1) :
    (chainGrammar n).startEdges (chainRule i) = [(chainTarget n i, ())] := by
  have hrule : linkRule n i ∈ (chainGrammar n).parserRules := by
    rw [parserRules_chainGrammar]
    exact List.mem_map_of_mem (List.mem_range.2 (by omega))
  have hlookup : (chainGrammar n).firstEdges.lookup (chainRule i) = some [chainTarget n i] := by
    rw [← firstRules_linkRule hi]
    exact lookup_firstEdges (nodup_names_chainGrammar n) hrule
  rw [Grammar.startEdges, hlookup]
  rfl

theorem lasso_chainGrammar (n : Nat) : Walk.Lasso (chainGrammar n).startEdges chainRule
    (fun _ => ()) n (n + 1) where
  injective := chainRule_injective
  edges_next i hi := by
    rw [startEdges_chainRule (Nat.le_of_lt hi), chainTarget, if_neg (Nat.ne_of_lt hi)]
  edges_last := by
    rw [startEdges_chainRule (Nat.le_refl _), chainTarget, if_pos rfl]

theorem isFirstCycle_chainGrammar (n : Nat) :
    (chainGrammar n).IsFirstCycle [chainRule n, chainRule (n + 1)] := by
  have hlasso := lasso_chainGrammar n
  have hthere : (chainGrammar n).StartsWith (chainRule n) (chainRule (n + 1)) :=
    startsWith_of_joined
      ⟨_, (hlasso.edges_next n (Nat.lt_succ_self n)).symm ▸ List.mem_singleton_self _, rfl⟩
  have hback : (chainGrammar n).StartsWith (chainRule (n + 1)) (chainRule n) :=
    startsWith_of_joined ⟨_, hlasso.edges_last.symm ▸ List.mem_singleton_self _, rfl⟩
  exact ⟨by simp, .cons_cons hthere (.cons_cons hback (.singleton _))⟩

end

/-! ## No component that is near enough is passed by -/

/-- As long as the walk is deep enough for all ways into the component of a cycle, some cycle of
that component is reported. -/
theorem exists_hiddenReport_of_isFirstCycle {g : Grammar} {d : List String}
    (hnames : (g.rules.map (·.name)).Nodup) (hd : g.IsFirstCycle d)
    (hways : ∀ way, g.IsWayInto d way → way.length ≤ maxWalkDepth) :
    ∃ x ∈ g.leftRecursion, ∃ head rest, x.TellsOfRecursion g head rest ∧
      g.IsFirstCycle (head :: rest) ∧
      ∀ m ∈ head :: rest, ∀ m' ∈ d, g.StartEachOther m m' := by
  obtain ⟨d, rfl, hcycle⟩ := exists_isCycle hd.ne_nil (joined_startEdges_eq hnames ▸ hd.starts)
  obtain ⟨c, hc, hmembers⟩ := exists_mem_hiddenCycles hnames hcycle hways
  obtain ⟨head, rest, heq, htells⟩ := tellsOfRecursion_of_mem_hiddenCycles hc
  have hfirst := isFirstCycle_of_isCycle (isSimpleCycle_of_mem_hiddenCycles hc).isCycle
  exact ⟨_, List.mem_append_right _ (List.mem_map_of_mem hc), head, rest, htells, heq ▸ hfirst,
    heq ▸ hmembers⟩

/-- Of 256 rules the last two start with each other, and that is reported. -/
theorem exists_hiddenReport_chainGrammar :
    (((chainGrammar 254).rules.map (·.name)).Nodup ∧
        (chainGrammar 254).IsFirstCycle [chainRule 254, chainRule 255] ∧
        ∀ way, (chainGrammar 254).IsWayInto [chainRule 254, chainRule 255] way →
          way.length ≤ maxWalkDepth) ∧
      ∃ x ∈ (chainGrammar 254).leftRecursion, x.kind = .hiddenLeftRecursion := by
  have hways : ∀ way, (chainGrammar 254).IsWayInto [chainRule 254, chainRule 255] way →
      way.length ≤ maxWalkDepth := by
    intro way hway
    have hlen := hway.length_le
    rwa [parserRules_chainGrammar, List.length_map, List.length_range] at hlen
  refine ⟨⟨nodup_names_chainGrammar 254, isFirstCycle_chainGrammar 254, hways⟩, ?_⟩
  obtain ⟨x, hx, _, _, htells, -⟩ := exists_hiddenReport_of_isFirstCycle
    (nodup_names_chainGrammar 254) (isFirstCycle_chainGrammar 254) hways
  exact ⟨x, hx, htells.kind⟩

/-- Of 257 rules the last two start with each other, and nothing is reported: the walk from the
first rule has its end at the last one, and by then the one before is finished. -/
theorem chainGrammar_unreported :
    (((chainGrammar 255).rules.map (·.name)).Nodup ∧
        (chainGrammar 255).IsFirstCycle [chainRule 255, chainRule 256]) ∧
      ¬∃ x ∈ (chainGrammar 255).leftRecursion, x.kind = .hiddenLeftRecursion := by
  refine ⟨⟨nodup_names_chainGrammar 255, isFirstCycle_chainGrammar 255⟩, ?_⟩
  have hcycles : (chainGrammar 255).hiddenCycles = [] := by
    have hnames : (chainGrammar 255).parserRules.map (·.name) =
        (List.range (maxWalkDepth + 1)).map chainRule := by
      rw [parserRules_chainGrammar, List.map_map]
      rfl
    rw [Grammar.hiddenCycles_eq, hnames, (lasso_chainGrammar 255).cycles_eq_nil (by decide)]
    rfl
  rintro ⟨x, hx, hkind⟩
  have hreport : x ∈ (chainGrammar 255).leftRecursion.byKind .hiddenLeftRecursion :=
    List.mem_filter.2 ⟨hx, decide_eq_true hkind⟩
  rw [byKind_leftRecursion, hcycles] at hreport
  simp at hreport

end GrammarLab
