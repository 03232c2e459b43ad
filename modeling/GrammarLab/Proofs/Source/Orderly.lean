import Mathlib.Data.List.Nodup
import GrammarLab.Proofs.Source.Step

/-!
# Scanned grammars

What holds of a grammar however its source is written: no two rules have one name, and each lexer
rule belongs to a mode that is declared.

    Orderly m.draft → Orderly (m.run limits).draft                (orderly_run)
-/

namespace GrammarLab.Source

/-- What every step of the scanner keeps. -/
structure Orderly (d : Draft) : Prop where
  names : (d.grammar.rules.map (·.name)).Nodup
  current : ∃ m ∈ d.grammar.modes, m.name = d.mode
  owned : ∀ r ∈ d.grammar.rules, r.isLexer = true → ∃ m ∈ d.grammar.modes, r.mode = some m.name

variable {d d' : Draft} {limits : ScanLimits}

theorem Orderly.of_alike (h : Orderly d) (ha : Alike d d') : Orderly d' := by
  obtain ⟨hnames, hcurrent, howned⟩ := h
  constructor
  · rwa [ha.rules]
  · rwa [ha.modes, ha.mode]
  · rwa [ha.rules, ha.modes]

/-! ## Modes -/

/-- A mode that is declared again is entered again. -/
theorem orderly_enterMode (name : String) (line : Nat) (h : Orderly d) :
    Orderly (d.enterMode name line) := by
  obtain ⟨hnames, hcurrent, howned⟩ := h
  unfold Draft.enterMode
  cases hm : d.grammar.mode? name with
  | some m =>
    have hname : m.name = name := by simpa using List.find?_some hm
    simp only [hm, Option.isSome_some, if_true]
    exact ⟨hnames, ⟨m, List.mem_of_find?_eq_some hm, hname⟩, howned⟩
  | none =>
    simp only [hm, Option.isSome_none, Bool.false_eq_true, if_false]
    refine ⟨hnames, ⟨_, List.mem_append_right _ List.mem_cons_self, rfl⟩, fun r hr hl => ?_⟩
    obtain ⟨m, hmem, hmode⟩ := howned r hr hl
    exact ⟨m, List.mem_append_left _ hmem, hmode⟩

/-! ## Rules -/

/-- A new rule is put down in its mode, but no mode changes its name. -/
theorem map_name_modes_addRule (r : Rule) (d : Draft) :
    (d.addRule r).grammar.modes.map (·.name) = d.grammar.modes.map (·.name) := by
  unfold Draft.addRule
  simp only
  split
  · rw [List.map_map]
    refine List.map_congr_left fun m _ => ?_
    simp only [Function.comp]
    split <;> rfl
  · rfl

theorem orderly_addRule {r : Rule} (h : Orderly d) (hr : d.grammar.rule? r.name = none)
    (hm : r.isLexer = true → r.mode = some d.mode) : Orderly (d.addRule r) := by
  obtain ⟨hnames, hcurrent, howned⟩ := h
  have hmem : ∀ name, (∃ m ∈ d.grammar.modes, m.name = name) →
      ∃ m ∈ (d.addRule r).grammar.modes, m.name = name := by
    intro name hname
    have := List.mem_map.2 hname
    rw [← map_name_modes_addRule r d] at this
    exact List.mem_map.1 this
  refine ⟨?_, hmem d.mode hcurrent, fun s hs hl => ?_⟩
  · show ((d.grammar.rules ++ [r]).map (·.name)).Nodup
    rw [List.map_append, List.nodup_append]
    refine ⟨hnames, by simp, ?_⟩
    rintro name hname _ hr' rfl
    obtain ⟨s, hs, hsame⟩ := List.mem_map.1 hname
    have := List.find?_eq_none.1 hr s hs
    simp only [List.map_cons, List.map_nil, List.mem_singleton] at hr'
    simp [hsame, hr'] at this
  · have hs' : s ∈ d.grammar.rules ++ [r] := hs
    rcases List.mem_append.1 hs' with hs | hs
    · obtain ⟨m, hm', hmode⟩ := howned s hs hl
      obtain ⟨m', hm', hname⟩ := hmem m.name ⟨m, hm', rfl⟩
      exact ⟨m', hm', by rw [hmode, hname]⟩
    · obtain rfl := List.mem_singleton.1 hs
      obtain ⟨m', hm', hname⟩ := hmem d.mode hcurrent
      exact ⟨m', hm', by rw [hm hl, hname]⟩

theorem orderly_finishRule (header : Header) (c : Cursor) (raw : List Char) (terminated : Bool)
    (h : Orderly d) : Orderly (d.finishRule header c raw terminated) := by
  obtain ⟨d', hd', hcases⟩ := finishRule_cases header c raw terminated d
  have h' : Orderly d' := h.of_alike (hd' ▸ alike_terminated terminated header d)
  obtain ⟨first, _, hclosed⟩ | ⟨hnone, hclosed⟩ := hcases
  · rw [hclosed]
    exact h'.of_alike (alike_report _ d')
  · rw [hclosed]
    refine orderly_addRule h' hnone fun hl => ?_
    have hl' : isLexerName (String.ofList header.name) = true := hl
    simp [Draft.ruleOf, hl']

/-! ## Runs -/

namespace Machine

theorem orderly_step (m m' : Machine) (hs : Step limits m m') (h : Orderly m.draft) :
    Orderly m'.draft := by
  cases hs with
  | reads hr => exact h.of_alike hr.alike
  | mode name line hc => exact orderly_enterMode name line h
  | opens ho => exact h
  | header afterThrows hc => exact h
  | abandons hr => exact (h.of_alike (alike_report _ _)).of_alike hr.alike
  | colon rest hrest => exact h
  | body => exact orderly_finishRule _ _ _ _ h

theorem orderly_run {m : Machine} (h : Orderly m.draft) : Orderly (m.run limits).draft :=
  invariant_run (I := fun m => Orderly m.draft) orderly_step h

theorem orderly_close {m : Machine} (h : Orderly m.draft) : Orderly m.close := by
  unfold close
  split
  · exact h
  · exact h.of_alike (alike_report _ _)
  · exact orderly_finishRule _ _ _ _ h

end Machine

/-! ## Results -/

theorem orderly_start : Orderly {} where
  names := by simp
  current := ⟨_, List.mem_cons_self, rfl⟩
  owned := by simp

theorem exists_orderly_scan (limits : ScanLimits) (source : List Char) :
    ∃ d, Orderly d ∧ (scan limits source).1 = d.grammar :=
  ⟨_, Machine.orderly_close (Machine.orderly_run orderly_start), rfl⟩

/-- No two scanned rules have one name. -/
theorem nodup_names_scan (limits : ScanLimits) (source : List Char) :
    ((scan limits source).1.rules.map (·.name)).Nodup := by
  obtain ⟨d, hd, heq⟩ := exists_orderly_scan limits source
  rw [heq]
  exact hd.names

/-- A scanned rule is the one of its name. -/
theorem rule?_of_mem_scan {limits : ScanLimits} {source : List Char} {r : Rule}
    (hr : r ∈ (scan limits source).1.rules) : (scan limits source).1.rule? r.name = some r := by
  cases h : (scan limits source).1.rule? r.name with
  | none => simpa using List.find?_eq_none.1 h r hr
  | some r' =>
    have hname := Grammar.name_of_rule? h
    have hmem := List.mem_of_find?_eq_some h
    rw [List.inj_on_of_nodup_map (nodup_names_scan limits source) hmem hr hname]

/-- Without modes of its own a grammar has all its lexer rules in the default mode. -/
theorem mode_of_scan {limits : ScanLimits} {source : List Char} {r : Rule}
    (hmodes : (scan limits source).1.hasCustomModes = false) (hr : r ∈ (scan limits source).1.rules)
    (hl : r.isLexer = true) : r.mode = some defaultMode := by
  obtain ⟨d, hd, heq⟩ := exists_orderly_scan limits source
  rw [heq] at hmodes hr
  obtain ⟨m, hm, hmode⟩ := hd.owned r hr hl
  have hdefault := List.any_eq_false.1 hmodes m hm
  simp only [Bool.not_eq_true', Bool.not_eq_false, LexerMode.isDefault, decide_eq_true_eq]
    at hdefault
  rw [hmode, hdefault]

end GrammarLab.Source
