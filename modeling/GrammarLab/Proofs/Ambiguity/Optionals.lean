import GrammarLab.Proofs.Ambiguity.Reports
import GrammarLab.Proofs.Body.GroupOffsets

/-!
# Reported optional elements

An optional element right before one that is written the same is looked for in the alternatives of
a rule and of all groups in it. Their contents are compared as they were read, with the offsets
within groups. So of contents that are written alike all are reported but groups, and groups never
are.

    x and y are written alike → (x before y is reported ↔ x is no group)     (optionalReport_iff)
-/

namespace GrammarLab

open Body

/-! ## Alternatives within groups -/

/-- `IsWithin bs b`: `b` is one of the alternatives, or one of a group in them at any depth. -/
inductive IsWithin : List Branch → Branch → Prop
  | top {bs b} : b ∈ bs → IsWithin bs b
  | group {bs c e inner b} : c ∈ bs → e ∈ c.elements → e.content = .group inner →
      IsWithin inner b → IsWithin bs b

theorem IsWithin.mono {bs cs : List Branch} {b : Branch} (h : IsWithin bs b) (hs : bs ⊆ cs) :
    IsWithin cs b := by
  cases h with
  | top hb => exact .top (hs hb)
  | group hc he hinner hb => exact .group (hs hc) he hinner hb

mutual

theorem isWithin_of_groupBranches : ∀ c : Content, ∀ b ∈ groupBranches c,
    ∃ inner, c = .group inner ∧ IsWithin inner b
  | .group inner, b, hb => ⟨inner, rfl, isWithin_of_branchesWithin inner b hb⟩
  | .negated _, b, hb => by simp [groupBranches] at hb
  | .token _, b, hb => by simp [groupBranches] at hb
  | .rule _, b, hb => by simp [groupBranches] at hb
  | .literal _, b, hb => by simp [groupBranches] at hb
  | .charSet _, b, hb => by simp [groupBranches] at hb
  | .range _ _, b, hb => by simp [groupBranches] at hb
  | .wildcard, b, hb => by simp [groupBranches] at hb
  | .endOfInput, b, hb => by simp [groupBranches] at hb

theorem isWithin_of_branchesWithin : ∀ bs : List (AlternativeOf Content), ∀ b ∈ branchesWithin bs,
    IsWithin bs b
  | [], b, hb => by simp [branchesWithin] at hb
  | ⟨elements, label, commands, offset⟩ :: rest, b, hb => by
    rw [branchesWithin, List.cons_append, List.mem_cons, List.mem_append] at hb
    rcases hb with rfl | hb | hb
    · exact .top List.mem_cons_self
    · obtain ⟨e, he, inner, hinner, hb⟩ := isWithin_of_innerBranches elements b hb
      exact .group List.mem_cons_self he hinner hb
    · exact (isWithin_of_branchesWithin rest b hb).mono (List.subset_cons_self _ _)

theorem isWithin_of_innerBranches : ∀ es : List (ElementOf Content), ∀ b ∈ innerBranches es,
    ∃ e ∈ es, ∃ inner, e.content = .group inner ∧ IsWithin inner b
  | [], b, hb => by simp [innerBranches] at hb
  | ⟨content, modifier, greedy⟩ :: rest, b, hb => by
    rw [List.exists_mem_cons_iff]
    exact (List.mem_append.1 hb).imp (isWithin_of_groupBranches content b)
      (isWithin_of_innerBranches rest b)

end

section

variable {bs : List Branch} {b : Branch} {x y : Element} {es : List Element}

theorem innerBranches_eq (es : List Element) :
    innerBranches es = es.flatMap (groupBranches ·.content) := by
  induction es with
  | nil => rfl
  | cons e es ih => rw [innerBranches, ih, List.flatMap_cons]

theorem branchesWithin_eq (bs : List Branch) :
    branchesWithin bs = bs.flatMap fun b => b :: innerBranches b.elements := by
  induction bs with
  | nil => rfl
  | cons b bs ih => rw [branchesWithin, ih, List.flatMap_cons]

theorem mem_branchesWithin_iff : b ∈ branchesWithin bs ↔ IsWithin bs b := by
  refine ⟨isWithin_of_branchesWithin bs b, fun h => ?_⟩
  induction h with
  | top hb =>
    rw [branchesWithin_eq]
    exact List.mem_flatMap.2 ⟨_, hb, List.mem_cons_self⟩
  | @group bs c e inner b hc he hinner _ ih =>
    rw [branchesWithin_eq]
    refine List.mem_flatMap.2 ⟨c, hc, List.mem_cons_of_mem c ?_⟩
    rw [innerBranches_eq]
    exact List.mem_flatMap.2 ⟨e, he, by rwa [hinner]⟩

theorem IsWithin.mem_branchesAmong (h : IsWithin bs b) : b ∈ branchesAmong bs := by
  induction h with
  | top hb => exact subset_branchesAmong _ hb
  | @group bs c e inner b hc he hinner _ ih =>
    rw [branchesAmong_eq]
    refine List.mem_flatMap.2 ⟨c, hc, List.mem_cons_of_mem c ?_⟩
    rw [branchesOfElements_eq]
    exact List.mem_flatMap.2 ⟨e, he, by rwa [hinner]⟩

/-! ## Contents that are written alike -/

theorem isAmbiguousPair_iff : isAmbiguousPair x y = true ↔
    x.modifier = .optional ∧ x.content = y.content ∧
      (y.modifier = .once ∨ y.modifier = .zeroOrMore) := by
  simp [isAmbiguousPair, and_assoc]

theorem mem_ambiguousPairs_iff :
    (x, y) ∈ ambiguousPairs es ↔ [x, y] <:+: es ∧ isAmbiguousPair x y = true := by
  fun_induction ambiguousPairs es with
  | case1 a b rest ih =>
    have hhere : (x, y) ∈ (if isAmbiguousPair a b then [(a, b)] else []) ↔
        (x = a ∧ y = b) ∧ isAmbiguousPair x y = true := by
      split <;> simp_all
    have hcons : [x, y] <:+: a :: b :: rest ↔ (x = a ∧ y = b) ∨ [x, y] <:+: b :: rest := by
      rw [List.infix_cons_iff, List.cons_prefix_cons, List.cons_prefix_cons]
      simp
    rw [List.mem_append, hhere, ih, hcons, or_and_right]
  | case2 es hes =>
    have hshort : ¬[x, y] <:+: es := by
      intro h
      have hlen := h.length_le
      match es, hes with
      | [], _ => simp at hlen
      | [_], _ => simp at hlen
      | a :: b :: rest, hes => exact hes a b rest rfl
    simp [hshort]

end

/-! ## Reports -/

/-- The report is a warning on the line of the alternative, with both elements as they are
written. -/
structure Diagnostic.TellsOfOptional (d : Diagnostic) (r : Rule) (b : Branch) (x y : Element) :
    Prop where
  kind : d.kind = .ambiguousOptional
  severity : d.severity = .warning
  rule : d.rule = some r.name
  line : d.line = some (r.lineAt b.offset)
  message : d.message = "ambiguous optional element: " ++
    s!"`{String.ofList x.render} {String.ofList y.render}` in `{r.name}`"

section

variable {g : Grammar} {o : AmbiguityOptions} {r : Rule} {b : Branch} {x y : Element}
  {d : Diagnostic}

theorem renderElements_pair (x y : Element) :
    renderElements [x, y] = x.render ++ ' ' :: y.render := by
  simp [renderElements, ElementOf.render]

theorem mem_ambiguousOptionals_iff : d ∈ r.ambiguousOptionals r.structure.alternatives ↔
    ∃ b, IsWithin r.structure.alternatives b ∧ ∃ x y, (x, y) ∈ ambiguousPairs b.elements ∧
      d = r.reportAt .ambiguousOptional b
        s!"`{String.ofList x.render} {String.ofList y.render}` in `{r.name}`" := by
  simp only [Rule.ambiguousOptionals, List.mem_flatMap, mem_branchesWithin_iff, List.mem_map,
    Prod.exists, eq_comm]

theorem tellsOfOptional_reportAt (r : Rule) (b : Branch) (x y : Element) :
    (r.reportAt .ambiguousOptional b
      s!"`{String.ofList x.render} {String.ofList y.render}` in `{r.name}`").TellsOfOptional
        r b x y :=
  ⟨rfl, rfl, rfl, rfl, DiagnosticKind.message_of_appends rfl _⟩

/-- Reports on rules of one name with the same message are of elements that are written alike. -/
theorem Diagnostic.TellsOfOptional.render_eq {r' : Rule} {b' : Branch} {x' y' : Element}
    (h : d.TellsOfOptional r b x y) (h' : d.TellsOfOptional r' b' x' y') :
    renderElements [x, y] = renderElements [x', y'] := by
  have hname : r.name = r'.name := Option.some.inj (h.rule.symm.trans h'.rule)
  have hmessage := h.message.symm.trans h'.message
  rw [hname, String.append_right_inj] at hmessage
  have hpair : "`" ++ String.ofList x.render ++ " " ++ String.ofList y.render =
      "`" ++ String.ofList x'.render ++ " " ++ String.ofList y'.render := by
    -- the name and the marks around it are the same at the end of both
    have htail := (String.append_left_inj _).1 hmessage
    exact (String.append_left_inj _).1 ((String.append_left_inj _).1 htail)
  have hchars := congrArg String.toList hpair
  simpa [renderElements_pair] using hchars

theorem exists_optionalReport (ho : o.ambiguousOptionals = true) (hr : r ∈ g.rules)
    (hb : IsWithin r.structure.alternatives b) (hpair : (x, y) ∈ ambiguousPairs b.elements) :
    ∃ d ∈ g.ambiguities o, d.TellsOfOptional r b x y := by
  obtain ⟨d, hmem, htells⟩ : ∃ d ∈ r.ambiguousOptionals r.structure.alternatives,
      d.TellsOfOptional r b x y :=
    ⟨_, mem_ambiguousOptionals_iff.2 ⟨b, hb, x, y, hpair, rfl⟩, tellsOfOptional_reportAt r b x y⟩
  have hreport : d ∈ (g.ambiguities o).byKind .ambiguousOptional := by
    rw [byKind_ambiguousOptional, if_pos ho]
    exact List.mem_flatMap.2 ⟨r, hr, hmem⟩
  exact ⟨d, (List.mem_filter.1 hreport).1, htells⟩

theorem exists_pair_of_optionalReport (hd : d ∈ g.ambiguities o)
    (htells : d.TellsOfOptional r b x y) :
    ∃ (r' : Rule) (b' : Branch) (x' y' : Element), IsWithin r'.structure.alternatives b' ∧
      (x', y') ∈ ambiguousPairs b'.elements ∧
        renderElements [x, y] = renderElements [x', y'] := by
  have hreport : d ∈ (g.ambiguities o).byKind .ambiguousOptional :=
    List.mem_filter.2 ⟨hd, decide_eq_true htells.kind⟩
  rw [byKind_ambiguousOptional] at hreport
  split at hreport
  · obtain ⟨r', -, hmem⟩ := List.mem_flatMap.1 hreport
    obtain ⟨b', hb', x', y', hpair, rfl⟩ := mem_ambiguousOptionals_iff.1 hmem
    exact ⟨r', b', x', y', hb', hpair, htells.render_eq (tellsOfOptional_reportAt r' b' x' y')⟩
  · simp at hreport

/-- An optional element right before one with a content that is written the same is reported
exactly if the content is no group. -/
theorem optionalReport_iff (ho : o.ambiguousOptionals = true) (hr : r ∈ g.rules)
    (hb : IsWithin r.structure.alternatives b) (hxy : [x, y] <:+: b.elements)
    (hx : x.modifier = .optional) (hy : y.modifier = .once ∨ y.modifier = .zeroOrMore)
    (halike : x.content.render = y.content.render) :
    (∃ d ∈ g.ambiguities o, d.TellsOfOptional r b x y) ↔ x.content.isGroup = false := by
  have hreadable := (readableElements_of_mem hb.mem_branchesAmong).of_subset hxy.subset
  have hcontent := hreadable.content
  simp only [List.forall_mem_cons] at hcontent
  constructor
  · rintro ⟨d, hd, htells⟩
    obtain ⟨r', b', x', y', hb', hpair, hrender⟩ := exists_pair_of_optionalReport hd htells
    obtain ⟨hxy', hambiguous⟩ := mem_ambiguousPairs_iff.1 hpair
    obtain ⟨-, hsame, -⟩ := isAmbiguousPair_iff.1 hambiguous
    have hreadable' := (readableElements_of_mem hb'.mem_branchesAmong).of_subset hxy'.subset
    have hbare := bareElements_eq_of_render hreadable hreadable' hrender
    have hgroup : x.content.isGroup = x'.content.isGroup := by
      simp only [bareElements, List.cons.injEq, ElementOf.mk.injEq] at hbare
      rw [← isGroup_bare, hbare.1.1, isGroup_bare]
    rw [hgroup, ← Bool.not_eq_true]
    exact fun h => content_ne_of_isGroup hb'.mem_branchesAmong hxy' h hsame
  · intro hgroup
    have hsame := eq_of_render hcontent.1 hcontent.2.1 hgroup halike
    exact exists_optionalReport ho hr hb
      (mem_ambiguousPairs_iff.2 ⟨hxy, isAmbiguousPair_iff.2 ⟨hx, hsame, hy⟩⟩)

end

/-- An optional group right before the same group. -/
def optionalRule : Rule where
  name := "r"
  isFragment := false
  definition := "( A? A )? ( A? A )".toList
  lineNumber := 1
  bodyLine := 1
  endLine := 1
  referencedRules := ["A"]
  mode := none

/-- An alternative with an optional token right before that token. -/
def optionalBranch (offset : Nat) : Branch where
  elements := [⟨.token "A", .optional, true⟩, ⟨.token "A", .once, true⟩]
  offset := offset

/-- Of the optional group nothing is said, of the optional token in it there is a report. -/
theorem optionalReport_optionalRule :
    let g : Grammar := { rules := [optionalRule] }
    let x : Element := ⟨.group [optionalBranch 2], .optional, true⟩
    let y : Element := ⟨.group [optionalBranch 12], .once, true⟩
    optionalRule.structure.alternatives = [{ elements := [x, y] }] ∧
      x.content.render = y.content.render ∧
      (¬∃ d ∈ g.ambiguities {}, d.TellsOfOptional optionalRule { elements := [x, y] } x y) ∧
      ∃ d ∈ g.ambiguities {}, d.TellsOfOptional optionalRule (optionalBranch 2)
        ⟨.token "A", .optional, true⟩ ⟨.token "A", .once, true⟩ := by
  intro g x y
  have hparse : optionalRule.structure.alternatives = [{ elements := [x, y] }] := by decide +kernel
  have halike : x.content.render = y.content.render := by decide
  have hr : optionalRule ∈ g.rules := List.mem_cons_self
  have houter : IsWithin optionalRule.structure.alternatives { elements := [x, y] } := by
    rw [hparse]
    exact .top List.mem_cons_self
  have hinner : IsWithin optionalRule.structure.alternatives (optionalBranch 2) := by
    rw [hparse]
    exact .group List.mem_cons_self List.mem_cons_self rfl (.top List.mem_cons_self)
  refine ⟨hparse, halike, fun h => ?_, ?_⟩
  · have hgroup := (optionalReport_iff rfl hr houter (List.infix_refl _) rfl (.inl rfl) halike).1 h
    simp [x, Content.isGroup] at hgroup
  · exact (optionalReport_iff rfl hr hinner (List.infix_refl _) rfl (.inl rfl) rfl).2 rfl

end GrammarLab
