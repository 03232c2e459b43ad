import GrammarLab.Proofs.Matcher.Attempts
import GrammarLab.Proofs.Matcher.Lengths
import GrammarLab.Proofs.Matcher.Predictable
import GrammarLab.Proofs.Matcher.Soundness

/-!
# Completeness of a match

A walk gives no token back and takes the first alternative of a group that fits, so it does not come
to every word of an alternative. It does where one token tells what comes next. There a walk never
takes what the one way through the word does not take: it would begin with a type that belongs to
something else.

    Predictable ls follow (.elements es) → Fits ls (.elements es) word rest →
      the walk of es over word ++ rest leaves rest                     (walkElements_of_fits)
    a predictable alternative has the tokens in its language → they are matched
                                                                       (matched_of_predictable)
-/

namespace GrammarLab.Matcher

open Body Pattern

section

variable {ls : Literals} {word rest : List String} {type : String}

/-! ## Terminals that come next -/

/-- The terminal in front of which a repeated rule stops may come next. -/
theorem starts_of_nextTerminal {es : List Element} {terminal : Content}
    (h : nextTerminal? es = some terminal) (hacc : terminalAccepts ls type terminal = true)
    (hfits : Fits ls (.elements es) word rest) :
    ∃ word, Fits ls (.elements es) (type :: word) rest := by
  induction es generalizing word with
  | nil => simp [nextTerminal?] at h
  | cons e es ih =>
    obtain ⟨content, modifier, greedy⟩ := e
    obtain ⟨s, t, rfl, he, hes⟩ := fits_cons_iff.1 hfits
    by_cases hoptional : (⟨content, modifier, greedy⟩ : Element).isOptional
    · have hnext : nextTerminal? es = some terminal := by
        simpa [nextTerminal?, hoptional] using h
      obtain ⟨word, hword⟩ := ih hnext hes
      have habsent : Fits ls (.element ⟨content, modifier, greedy⟩) [] (type :: word ++ rest) := by
        cases modifier with
        | optional => exact .absent
        | zeroOrMore => exact .stop
        | _ => simp [ElementOf.isOptional, Modifier.isOptional] at hoptional
      exact ⟨word, .cons habsent hword⟩
    · have hcontent : content = terminal ∧ ∀ bs, content ≠ .group bs := by
        simp only [nextTerminal?, List.find?_cons, hoptional, Bool.not_false] at h
        cases content <;> simp at h <;> exact ⟨h, by simp⟩
      obtain ⟨rfl, hgroup⟩ := hcontent
      have hfirst : Fits ls (.content content) [type] (t ++ rest) :=
        fits_of_terminalAccepts _ hgroup hacc
      have hpresent : Fits ls (.element ⟨content, modifier, greedy⟩) [type] (t ++ rest) := by
        cases modifier with
        | once => exact .once hfirst
        | oneOrMore => exact List.append_nil [type] ▸ .plus hfirst .stop
        | _ => simp [ElementOf.isOptional, Modifier.isOptional] at hoptional
      exact ⟨t, .cons hpresent hes⟩

/-! ## Modifiers -/

/-- In front of the types of `follow`, `once` takes each word that the content stands for. -/
def Completes (ls : Literals) (content : Content) (follow : String → Prop)
    (once : List String → Walk (List String)) : Prop :=
  ∀ word rest, Fits ls (.content content) word rest → Opens follow rest →
    (once (word ++ rest)).result = .ok rest

end

section

variable {ls : Literals} {content : Content} {once : List String → Walk (List String)}
  {reserve rounds : Nat} {halts : List String → Bool} {behind : String → Prop} {greedy : Bool}
  {word rest : List String}

/-- A loop stops in front of what comes behind it. -/
theorem loop_stops (htakes : Takes ls (.content content) once)
    (hne : ∀ word rest, Fits ls (.content content) word rest → word ≠ [])
    (hapart : ∀ type, Starts ls (.content content) type → ¬behind type)
    (hrest : Opens behind rest) (rounds : Nat) :
    (loop once reserve halts rounds rest).result = .ok rest := by
  have honce : ∀ next, (once rest).result ≠ .ok next := by
    intro next hnext
    obtain ⟨word, rfl, hfits⟩ := htakes rest next hnext
    obtain ⟨type, tail, rfl, hstarts⟩ := starts_of_fits hfits (hne _ _ hfits)
    exact hapart type hstarts (hrest type (tail ++ next) rfl)
  cases rounds with
  | zero => rfl
  | succ rounds =>
    rw [loop]
    split
    · rfl
    · cases hfirst : (once rest).result with
      | ok next => exact absurd hfirst (honce next)
      | error f => simp [hfirst]

/-- A loop goes on in front of a word of its content. -/
theorem loop_goes_on (hne : word ≠ []) (hreserve : reserve ≤ rest.length)
    (hhalts : halts (word ++ rest) = false) (honce : (once (word ++ rest)).result = .ok rest) :
    (loop once reserve halts (rounds + 1) (word ++ rest)).result =
      (loop once reserve halts rounds rest).result := by
  have hpos := List.length_pos_iff.2 hne
  have hmore : ¬word.length + rest.length ≤ reserve := by omega
  rw [loop]
  simp [hmore, hhalts, honce, hpos]

section

variable (htakes : Takes ls (.content content) once)
  (hne : ∀ word rest, Fits ls (.content content) word rest → word ≠ [])
  (hapart : ∀ type, Starts ls (.content content) type → ¬behind type)
  (hhalts : ∀ left, halts left = true → ∃ type tail, left = type :: tail ∧ behind type)

include hne hapart hhalts in
theorem halts_eq_false {s tail : List String} (hs : Fits ls (.content content) s tail) :
    halts (s ++ tail) = false := by
  obtain ⟨type, s', rfl, hstarts⟩ := starts_of_fits hs (hne _ _ hs)
  refine Bool.eq_false_iff.2 fun hhalt => ?_
  obtain ⟨_, _, heq, hbehind⟩ := hhalts _ hhalt
  obtain ⟨rfl, -⟩ := List.cons.inj heq
  exact hapart _ hstarts hbehind

include htakes hne hapart hhalts in
theorem loop_completes
    (hcompletes : Completes ls content (fun type => Starts ls (.content content) type ∨ behind type)
      once)
    (hfits : Fits ls (.element ⟨content, .zeroOrMore, greedy⟩) word rest)
    (hrest : Opens behind rest) (hreserve : reserve ≤ rest.length)
    (hrounds : (word ++ rest).length ≤ rounds) :
    (loop once reserve halts rounds (word ++ rest)).result = .ok rest := by
  induction rounds generalizing word with
  | zero =>
    obtain ⟨rfl, rfl⟩ : word = [] ∧ rest = [] := by simpa using hrounds
    rfl
  | succ rounds ih =>
    cases hfits with
    | stop => exact loop_stops htakes hne hapart hrest _
    | @next _ _ s t _ hs ht =>
      have hpos := List.length_pos_iff.2 (hne _ _ hs)
      have hmore : reserve ≤ (t ++ rest).length := by
        rw [List.length_append]
        omega
      have honce := hcompletes s (t ++ rest) hs (opens_next hne ht hrest)
      rw [List.append_assoc] at hrounds ⊢
      rw [loop_goes_on (hne _ _ hs) hmore (halts_eq_false hne hapart hhalts hs) honce]
      refine ih ht ?_
      rw [List.length_append] at hrounds
      omega

include htakes hne hapart hhalts in
/-- An element that can be left out or repeated takes what it stands for. -/
theorem applyModifier_completes {modifier : Modifier} (hmodifier : modifier ≠ .once)
    (hcompletes : Completes ls content (fun type => modifier.isRepeating = true ∧
      Starts ls (.content content) type ∨ behind type) once)
    (hfits : Fits ls (.element ⟨content, modifier, greedy⟩) word rest)
    (hrest : Opens behind rest) (hreserve : reserve ≤ rest.length) :
    (applyModifier modifier once reserve halts (word ++ rest)).result = .ok rest := by
  have hrepeats : modifier.isRepeating = true →
      Completes ls content (fun type => Starts ls (.content content) type ∨ behind type) once :=
    fun hrepeating => by simpa [hrepeating] using hcompletes
  cases hfits with
  | once => exact absurd rfl hmodifier
  | absent => exact loop_stops htakes hne hapart hrest 1
  | present h =>
    have honce := hcompletes word rest h fun type tail heq => .inr (hrest type tail heq)
    rw [applyModifier, loop_goes_on (hne _ _ h) hreserve (halts_eq_false hne hapart hhalts h) honce]
    rfl
  | stop => exact loop_stops htakes hne hapart hrest _
  | next hs ht =>
    exact loop_completes htakes hne hapart hhalts (hrepeats rfl) (.next hs ht) hrest hreserve
      (Nat.le_refl _)
  | @plus _ _ s t _ hs ht =>
    have honce := hrepeats rfl s (t ++ rest) hs (opens_next hne ht hrest)
    rw [applyModifier, Walk.andThen, List.append_assoc, honce]
    exact loop_completes htakes hne hapart hhalts (hrepeats rfl) ht hrest hreserve (Nat.le_refl _)

end

end

/-! ## Walks -/

section

variable {ls : Literals} {follow : String → Prop}

/-- A content other than a group takes its one token. -/
theorem simpleOnce_of_fits {content : Content} {word rest : List String}
    (hend : content ≠ .endOfInput) (hgroup : ∀ bs, content ≠ .group bs)
    (hfits : Fits ls (.content content) word rest) :
    (simpleOnce ls content (word ++ rest)).result = .ok rest := by
  cases hfits with
  | token => simp [simpleOnce, terminalAccepts, Walk.ok]
  | literal hacc => simp [simpleOnce, terminalAccepts, hacc, Walk.ok]
  | wildcard => rfl
  | rule => rfl
  | negated hacc => simp [simpleOnce, hacc, Walk.ok]
  | endOfInput => exact absurd rfl hend
  | atEnd => exact absurd rfl hend
  | group => exact absurd rfl (hgroup _)

/-- A rule in front of the elements stops before types that may come behind it. -/
theorem comes_of_haltsBefore {content : Content} {es : List Element} {left word rest : List String}
    (hes : Fits ls (.elements es) word rest)
    (h : haltsBefore ls content (nextTerminal? es) left = true) :
    ∃ type tail, left = type :: tail ∧ Comes ls es follow type := by
  unfold haltsBefore at h
  split at h
  · rename_i terminal type tail hterminal
    obtain ⟨word, hword⟩ := starts_of_nextTerminal hterminal h hes
    exact ⟨type, tail, rfl, .inl ⟨word, rest, hword⟩⟩
  · simp at h

mutual

/-- The walk over a predictable sequence takes each word that it stands for. -/
theorem walkElements_of_fits : ∀ (es : List (ElementOf Content)) {follow : String → Prop}
    {word rest : List String} (openNames : List String), Predictable ls follow (.elements es) →
      Fits ls (.elements es) word rest → Opens follow rest →
        ∃ names, (walkElements ls es (word ++ rest) openNames).result = .ok ⟨rest, names⟩
  | [], follow, word, rest, openNames, _, hfits, _ => by
    cases hfits with
    | nil => exact ⟨openNames, rfl⟩
  | ⟨content, modifier, greedy⟩ :: es, follow, _, rest, openNames, hpredict, hfits, hrest => by
    obtain ⟨s, t, rfl, he, hes⟩ := fits_cons_iff.1 hfits
    cases hpredict with
    | cons hapart hcontent hbehind =>
      have hopens := opens_comes hes hrest
      have hreserve : minTokens es ≤ (t ++ rest).length := by
        have hlength : minTokens es ≤ t.length := partMinTokens_le_length hes
        rw [List.length_append]
        omega
      have hcompletes := walkContent_of_fits content hcontent
      have hfirst : (applyModifier modifier (walkContent ls content) (minTokens es)
          (haltsBefore ls content (nextTerminal? es)) (s ++ (t ++ rest))).result =
            .ok (t ++ rest) := by
        by_cases honce : modifier = .once
        · subst honce
          cases he with
          | once h =>
            exact hcompletes s (t ++ rest) h fun type tail heq => .inr (hopens type tail heq)
        · exact applyModifier_completes (takes_walkContent content) (fun _ _ => hcontent.ne_nil)
            (hapart honce) (fun _ => comes_of_haltsBefore hes) honce hcompletes he hopens hreserve
      obtain ⟨names, hwalk⟩ := walkElements_of_fits es
        (openAfter content modifier (s ++ (t ++ rest)) (t ++ rest) openNames) hbehind hes hrest
      refine ⟨names, ?_⟩
      rw [List.append_assoc, walkElements]
      simp [hfirst, hwalk]

theorem walkContent_of_fits : ∀ (c : Content) {follow : String → Prop},
    Predictable ls follow (.content c) → Completes ls c follow (walkContent ls c)
  | .group branches, follow, hpredict => fun word rest hfits hrest => by
    cases hpredict with
    | simple _ hgroup => exact absurd rfl (hgroup branches)
    | group hbranches =>
      rw [walkContent]
      exact walkBranches_of_fits branches none hbranches (fits_group_iff.1 hfits) hrest
  | .token name, _, _ => fun _ _ hfits _ => simpleOnce_of_fits (by simp) (by simp) hfits
  | .rule name, _, _ => fun _ _ hfits _ => simpleOnce_of_fits (by simp) (by simp) hfits
  | .literal quoted, _, _ => fun _ _ hfits _ => simpleOnce_of_fits (by simp) (by simp) hfits
  | .charSet text, _, _ => fun _ _ hfits _ => simpleOnce_of_fits (by simp) (by simp) hfits
  | .range first last, _, _ => fun _ _ hfits _ => simpleOnce_of_fits (by simp) (by simp) hfits
  | .wildcard, _, _ => fun _ _ hfits _ => simpleOnce_of_fits (by simp) (by simp) hfits
  | .negated inner, _, _ => fun _ _ hfits _ => simpleOnce_of_fits (by simp) (by simp) hfits
  | .endOfInput, _, hpredict => fun _ _ _ _ => by
    cases hpredict with
    | simple hend => exact absurd rfl hend

/-- The alternatives of a group in front of the one that has the word do not fit: what they stand
for begins with other types. -/
theorem walkBranches_of_fits : ∀ (bs : List (AlternativeOf Content)) {follow : String → Prop}
    {word rest : List String} (best : Option Failure), Predictable ls follow (.branches bs) →
      (∃ b ∈ bs, Fits ls (.elements b.elements) word rest) → Opens follow rest →
        (walkBranches ls bs (word ++ rest) best).result = .ok rest
  | [], _, _, _, _, _, ⟨b, hb, _⟩, _ => absurd hb List.not_mem_nil
  | ⟨elements, label, commands, offset⟩ :: bs, follow, word, rest, best, hpredict,
      ⟨b, hb, hfits⟩, hrest => by
    cases hpredict with
    | branches hvanish hapart hall =>
      rw [List.forall_mem_cons] at hvanish hall
      rw [List.pairwise_cons] at hapart
      rw [walkBranches]
      rcases List.mem_cons.1 hb with rfl | hmem
      · obtain ⟨names, hwalk⟩ := walkElements_of_fits elements [] hall.1 hfits hrest
        simp [hwalk]
      · cases hwalk : (walkElements ls elements (word ++ rest) []).result with
        | ok d =>
          obtain ⟨taken, heq, htaken⟩ := fits_walkElements elements hwalk
          obtain ⟨type, tail, rfl, hstarts⟩ := starts_of_fits htaken fun hnil =>
            hvanish.1 ⟨_, hnil ▸ htaken⟩
          obtain ⟨type', tail', rfl, hstarts'⟩ := starts_of_fits hfits fun hnil =>
            hvanish.2 b hmem ⟨_, hnil ▸ hfits⟩
          obtain ⟨rfl, -⟩ := List.cons.inj heq
          exact absurd hstarts' (hapart.1 b hmem _ hstarts)
        | error f =>
          exact walkBranches_of_fits bs _ (.branches hvanish.2 hapart.2 hall.2) ⟨b, hmem, hfits⟩
            hrest

end

end

end GrammarLab.Matcher

namespace GrammarLab

open Matcher

/-- The tokens match a parser rule if one of its alternatives has them in its language and one token
tells each time how to go on in it. -/
theorem matched_of_predictable {g : Grammar} {name : String} {r : Rule} {b : Body.Branch}
    {tokens : List String} (hr : g.rule? name = some r) (hparser : r.isParser = true)
    (hb : b ∈ r.structure.alternatives)
    (hpredict : Predictable (Literals.ofGrammar g) (fun _ => False) (.elements b.elements))
    (hlang : Language (Literals.ofGrammar g) b tokens) :
    ∃ v, g.testRule name tokens = .ok v ∧ v.matched = true := by
  obtain ⟨names, hwalk⟩ := walkElements_of_fits b.elements [] hpredict hlang (by simp [Opens])
  rw [List.append_nil] at hwalk
  refine ⟨decideFrom (Literals.ofGrammar g) tokens 0 none r.structure.alternatives, ?_,
    matched_decideFrom_iff.2 ⟨b, hb, ?_⟩⟩
  · simp [Grammar.testRule, hr, hparser]
  · simp [Attempt.ofWalk?, hwalk]

/-- Names with commas between them, each with or without a value. -/
def bindingsGrammar : Grammar where
  rules := [
    { name := "bindings", isFragment := false
      definition := "ID ( '=' expr )? ( ',' ID ( '=' expr )? )*".toList, lineNumber := 1
      bodyLine := 1, endLine := 1, referencedRules := ["ID", "expr"], mode := none }]

/-- A group with a literal in front, which stands at the offset. -/
def markedGroup (mark : String) (rest : List Body.Element) (offset : Nat) : Body.Content :=
  .group [⟨⟨.literal mark.toList, .once, true⟩ :: rest, none, [], offset⟩]

def valueGroup (offset : Nat) : Body.Content :=
  markedGroup "'='" [⟨.rule "expr", .once, true⟩] offset

def nextGroup : Body.Content :=
  markedGroup "','" [⟨.token "ID", .once, true⟩, ⟨valueGroup 28, .optional, true⟩] 19

/-- The elements of the rule. -/
def bindingsElements : List Body.Element :=
  [⟨.token "ID", .once, true⟩, ⟨valueGroup 5, .optional, true⟩, ⟨nextGroup, .zeroOrMore, true⟩]

theorem accepts_bindingsGrammar {quoted : List Char} {type : String}
    (h : (Literals.ofGrammar bindingsGrammar).accepts quoted type = true) :
    Literal.unescape type.toList = Literal.unescape quoted := by
  have hrules : (Literals.ofGrammar bindingsGrammar).rules = [] := by decide +kernel
  simp only [Literals.accepts, hrules, List.any_nil, Bool.or_false, Bool.or_eq_true,
    decide_eq_true_eq, Bool.and_eq_true] at h
  rcases h with h | ⟨-, h⟩
  · rw [h]
  · exact h

section

variable {ls : Literals} {mark : String} {rest : List Body.Element} {offset : Nat}

/-- A marked group begins with its mark. -/
theorem starts_markedGroup {type : String}
    (h : Starts ls (.content (markedGroup mark rest offset)) type) :
    ls.accepts mark.toList type = true := by
  have hmark : Predictable ls (fun _ => False) (.content (.literal mark.toList)) :=
    .simple (by simp) (by simp)
  rcases starts_cons (starts_sole_branch h) with hfirst | ⟨hvanish, -⟩
  · exact accepts_of_starts (starts_content (fun _ _ => hmark.ne_nil) hfirst)
  · exact absurd hvanish (not_vanishes_once fun _ _ => hmark.ne_nil)

theorem fits_markedGroup {word tail : List String} (hmark : ls.accepts mark.toList mark = true)
    (h : Fits ls (.elements rest) word tail) :
    Fits ls (.content (markedGroup mark rest offset)) (mark :: word) tail :=
  .group (.branch (List.mem_singleton.2 rfl) (.cons (s := [mark]) (.once (.literal hmark)) h))

theorem not_vanishes_markedGroup :
    ¬Vanishes ls (.elements (⟨.literal mark.toList, .once, true⟩ :: rest)) := by
  have hmark : Predictable ls (fun _ => False) (.content (.literal mark.toList)) :=
    .simple (by simp) (by simp)
  exact not_vanishes_cons (not_vanishes_once fun _ _ => hmark.ne_nil)

theorem fits_markedGroup_ne_nil (word tail : List String)
    (h : Fits ls (.content (markedGroup mark rest offset)) word tail) : word ≠ [] := by
  rintro rfl
  obtain ⟨b, hb, h⟩ := fits_group_iff.1 h
  obtain rfl := List.mem_singleton.1 hb
  exact not_vanishes_markedGroup ⟨tail, h⟩

theorem predictable_markedGroup {follow : String → Prop}
    (h : Predictable ls follow (.elements rest)) :
    Predictable ls follow (.content (markedGroup mark rest offset)) := by
  refine .group (.branches ?_ (List.pairwise_singleton _ _) ?_)
  · rw [List.forall_mem_singleton]
    exact not_vanishes_markedGroup
  · rw [List.forall_mem_singleton]
    exact .cons (absurd rfl) (.simple (by simp) (by simp)) h

end

theorem predictable_bindingsElements :
    Predictable (.ofGrammar bindingsGrammar) (fun _ => False) (.elements bindingsElements) := by
  have hapart : ∀ {type} {rest rest' : List Body.Element} {offset offset' : Nat},
      Starts (.ofGrammar bindingsGrammar) (.content (markedGroup "'='" rest offset)) type →
        ¬Starts (.ofGrammar bindingsGrammar) (.content (markedGroup "','" rest' offset')) type := by
    intro type rest rest' offset offset' h h'
    have hvalue := accepts_bindingsGrammar (starts_markedGroup h)
    rw [accepts_bindingsGrammar (starts_markedGroup h')] at hvalue
    exact absurd hvalue (by decide)
  have hvalue : ∀ follow, Predictable (.ofGrammar bindingsGrammar) follow
      (.elements [⟨.rule "expr", .once, true⟩]) :=
    fun _ => .cons (absurd rfl) (.simple (by simp) (by simp)) .nil
  refine .cons (absurd rfl) (.simple (by simp) (by simp)) (.cons (fun _ type h hcomes => ?_)
    (predictable_markedGroup (hvalue _)) (.cons (fun _ type h hcomes => ?_) ?_ .nil))
  · -- a comma comes behind the first value
    rcases hcomes with hcomma | ⟨-, hfalse⟩
    · rcases starts_cons hcomma with hcomma | ⟨-, hnil⟩
      · exact hapart h (starts_content fits_markedGroup_ne_nil hcomma)
      · exact not_starts_nil hnil
    · exact hfalse
  · -- nothing comes behind the last name
    rcases hcomes with hnil | ⟨-, hfalse⟩
    · exact not_starts_nil hnil
    · exact hfalse
  · refine predictable_markedGroup (.cons (absurd rfl) (.simple (by simp) (by simp))
      (.cons (fun _ type h hcomes => ?_) (predictable_markedGroup (hvalue _)) .nil))
    -- behind another value comes the comma of the next round
    rcases hcomes with hnil | ⟨-, ⟨-, hcomma⟩ | hnil | ⟨-, hfalse⟩⟩
    · exact not_starts_nil hnil
    · exact hapart h hcomma
    · exact not_starts_nil hnil
    · exact hfalse

theorem matched_bindingsGrammar : ∃ (r : Rule) (b : Body.Branch) (v : Verdict),
    bindingsGrammar.rule? "bindings" = some r ∧ r.isParser = true ∧ b ∈ r.structure.alternatives ∧
      Predictable (.ofGrammar bindingsGrammar) (fun _ => False) (.elements b.elements) ∧
      Language (.ofGrammar bindingsGrammar) b ["ID", "','", "ID", "'='", "INT"] ∧
      bindingsGrammar.testRule "bindings" ["ID", "','", "ID", "'='", "INT"] = .ok v ∧
      v.matched = true := by
  have hparse : (bindingsGrammar.rule? "bindings").map (fun r =>
      r.structure.alternatives.map (·.elements)) = some [bindingsElements] := by decide +kernel
  have haccepts : ∀ mark ∈ ["'='", "','"],
      (Literals.ofGrammar bindingsGrammar).accepts mark.toList mark = true := by decide +kernel
  obtain ⟨r, hr, helements⟩ := Option.map_eq_some_iff.1 hparse
  obtain ⟨b, hb, hsame⟩ : ∃ b ∈ r.structure.alternatives, b.elements = bindingsElements :=
    List.mem_map.1 (helements ▸ List.mem_singleton.2 rfl)
  have hpredict : Predictable (.ofGrammar bindingsGrammar) (fun _ => False)
      (.elements b.elements) :=
    hsame ▸ predictable_bindingsElements
  have hlang : Language (.ofGrammar bindingsGrammar) b ["ID", "','", "ID", "'='", "INT"] := by
    have hvalue : Fits (.ofGrammar bindingsGrammar) (.content (valueGroup 28)) ["'='", "INT"] [] :=
      fits_markedGroup (haccepts _ (by simp)) (.cons (s := ["INT"]) (.once .rule) .nil)
    have hnext : Fits (.ofGrammar bindingsGrammar) (.content nextGroup) ["','", "ID", "'='", "INT"]
        [] :=
      fits_markedGroup (haccepts _ (by simp))
        (.cons (s := ["ID"]) (.once .token) (.cons (t := []) (.present hvalue) .nil))
    rw [Matcher.Language, hsame]
    exact .cons (s := ["ID"]) (.once .token)
      (.cons (s := []) .absent (.cons (t := []) (.next (t := []) hnext .stop) .nil))
  have hparser : r.isParser = true := by
    rw [Rule.isParser, Rule.isLexer, Grammar.name_of_rule? hr]
    decide +kernel
  obtain ⟨v, hv, hmatched⟩ := matched_of_predictable hr hparser hb hpredict hlang
  exact ⟨r, b, v, hr, hparser, hb, hpredict, hlang, hv, hmatched⟩

end GrammarLab
