import GrammarLab.Proofs.Regex.Language
import GrammarLab.Regex.Parser

/-!
# What symbols leave on the stack

Symbols are put together with a stack of open groups. Those of an item leave one more item in the
innermost group, those of a sequence several, and those of an alternation the branches of a group
that was empty. Each of them matches a language, provided that it does not nest too deep.

    IsItem P ys → IsItem (Quantified q P) (ys ++ [.quantifier q l])          (isItem_quantified)
    IsBranches P ys → IsItem P (.groupOpen :: ys ++ [.groupClose])           (isItem_group)
-/

namespace GrammarLab.Regex

/-- What `P` becomes under a quantifier. -/
def Quantified (P : List Char → Prop) (q : Quantifier) (s : List Char) : Prop :=
  match q with
  | .optional => s = [] ∨ P s
  | .star => Iterated P s
  | .plus => ∃ t u, s = t ++ u ∧ P t ∧ Iterated P u

/-- A text that satisfies `P` and behind it one that satisfies `Q`. -/
def Chained (P Q : List Char → Prop) (s : List Char) : Prop := ∃ t u, s = t ++ u ∧ P t ∧ Q u

/-- Unless it nests too deep, the expression matches the texts that satisfy `P`. -/
def Denotes (p : Parsed) (P : List Char → Prop) : Prop :=
  p.depth ≤ maxDepth → ∀ s, p.regex.Matches s ↔ P s

/-- The symbols leave one item. -/
def IsItem (P : List Char → Prop) (ys : List Symbol) : Prop :=
  ∃ p, Denotes p P ∧
    ∀ g outer, ys.foldlM accept? (g :: outer) = some (g.push p :: outer)

/-- The symbols leave the items of a sequence. -/
def IsSequence (P : List Char → Prop) (ys : List Symbol) : Prop :=
  ∃ ps : List Parsed,
    ((∀ p ∈ ps, p.depth ≤ maxDepth) → ∀ s, (sequence (ps.map (·.regex))).Matches s ↔ P s) ∧
    ∀ branches items outer, ys.foldlM accept? (⟨branches, items⟩ :: outer) =
      some (⟨branches, ps.reverse ++ items⟩ :: outer)

/-- The symbols leave the branches of an alternation, the last of them open. -/
def IsBranches (P : List Char → Prop) (ys : List Symbol) : Prop :=
  ∃ ps : List Parsed, ps ≠ [] ∧
    ((∀ p ∈ ps, p.depth ≤ maxDepth) → ∀ s, (alternation (ps.map (·.regex))).Matches s ↔ P s) ∧
    ∀ prior outer, ∃ g, g.branch :: g.branches = ps.reverse ++ prior ∧
      ys.foldlM accept? (⟨prior, []⟩ :: outer) = some (g :: outer)

/-! ## Lemmas -/

theorem Quantified.congr {P Q : List Char → Prop} (h : ∀ s, P s ↔ Q s) (q : Quantifier)
    (s : List Char) : Quantified P q s ↔ Quantified Q q s := by
  cases q with
  | optional => simp only [Quantified, h]
  | star => exact Iterated.congr h s
  | plus => simp only [Quantified, h, Iterated.congr h]

theorem matches_repeated_iff {q : Quantifier} {l : Bool} {r : Regex} {s : List Char} :
    (Regex.repeated q l r).Matches s ↔ Quantified r.Matches q s := by
  cases q with
  | optional => exact matches_optional_iff
  | star => exact matches_star_iff
  | plus => exact matches_plus_iff

theorem le_foldl_max (parts : List Parsed) (d : Nat) :
    d ≤ parts.foldl (fun d p => max d p.depth) d ∧
      ∀ p ∈ parts, p.depth ≤ parts.foldl (fun d p => max d p.depth) d := by
  induction parts generalizing d with
  | nil => simp
  | cons p parts ih =>
    obtain ⟨h₁, h₂⟩ := ih (max d p.depth)
    rw [List.foldl_cons]
    refine ⟨by omega, fun x hx => ?_⟩
    rcases List.mem_cons.1 hx with rfl | hx
    · omega
    · exact h₂ x hx

theorem depth_le_jointDepth {p : Parsed} {parts : List Parsed} (h : p ∈ parts) :
    p.depth ≤ jointDepth parts :=
  Nat.le_trans ((le_foldl_max parts 0).2 p h) (Nat.le_add_right _ _)

variable {P Q : List Char → Prop} {ys zs : List Symbol}

theorem IsItem.congr (h : IsItem P ys) (hPQ : ∀ s, P s ↔ Q s) : IsItem Q ys := by
  obtain ⟨p, hp, hrun⟩ := h
  exact ⟨p, fun hd s => (hp hd s).trans (hPQ s), hrun⟩

theorem IsSequence.congr (h : IsSequence P ys) (hPQ : ∀ s, P s ↔ Q s) : IsSequence Q ys := by
  obtain ⟨ps, hp, hrun⟩ := h
  exact ⟨ps, fun hd s => (hp hd s).trans (hPQ s), hrun⟩

theorem IsBranches.congr (h : IsBranches P ys) (hPQ : ∀ s, P s ↔ Q s) : IsBranches Q ys := by
  obtain ⟨ps, hne, hp, hrun⟩ := h
  exact ⟨ps, hne, fun hd s => (hp hd s).trans (hPQ s), hrun⟩

/-! ## Items -/

theorem isItem_set {cs : CharSet} {d : Nat}
    (h : d ≤ maxDepth → ∀ s, (∃ c, s = [c] ∧ cs.contains c = true) ↔ P s) :
    IsItem P [.atom cs d] :=
  ⟨⟨.set cs, d⟩, fun hd s => matches_set_iff.trans (h hd s), fun _ _ => rfl⟩

theorem isItem_quantified {q : Quantifier} {l : Bool} (h : IsItem P ys) :
    IsItem (Quantified P q) (ys ++ [.quantifier q l]) := by
  obtain ⟨p, hp, hrun⟩ := h
  refine ⟨⟨.repeated q l p.regex, p.depth + 1⟩, fun hd s => ?_, fun g outer => ?_⟩
  · exact matches_repeated_iff.trans (Quantified.congr (hp (Nat.le_of_succ_le hd)) q s)
  · rw [List.foldlM_append, hrun]
    rfl

/-! ## Sequences -/

theorem isSequence_nil : IsSequence (· = []) [] :=
  ⟨[], fun _ _ => matches_empty_iff, fun _ _ _ => rfl⟩

theorem isSequence_cons (hy : IsItem P ys) (hz : IsSequence Q zs) :
    IsSequence (Chained P Q) (ys ++ zs) := by
  obtain ⟨p, hp, hrun⟩ := hy
  obtain ⟨ps, hps, hruns⟩ := hz
  refine ⟨p :: ps, fun hd s => ?_, fun branches items outer => ?_⟩
  · obtain ⟨hd₁, hd₂⟩ := List.forall_mem_cons.1 hd
    simp only [List.map_cons, matches_sequence_cons, Chained, hp hd₁, hps hd₂]
  · rw [List.foldlM_append, hrun]
    show zs.foldlM accept? (⟨branches, p :: items⟩ :: outer) = _
    rw [hruns, List.reverse_cons, List.append_assoc]
    rfl

theorem isSequence_singleton (h : IsItem P ys) : IsSequence P ys := by
  have hs := isSequence_cons h isSequence_nil
  rw [List.append_nil] at hs
  exact hs.congr fun s => by simp [Chained]

/-! ## Branches -/

theorem denotes_branch {ps : List Parsed} {branches : List Parsed}
    (h : (∀ p ∈ ps, p.depth ≤ maxDepth) →
      ∀ s, (sequence (ps.map (·.regex))).Matches s ↔ P s) :
    Denotes (OpenGroup.branch ⟨branches, ps.reverse⟩) P := by
  intro hd s
  simp only [OpenGroup.branch, List.reverse_reverse] at hd ⊢
  refine h (fun p hp => Nat.le_trans ?_ hd) s
  exact depth_le_jointDepth (List.mem_reverse.2 hp)

theorem isBranches_singleton (h : IsSequence P ys) : IsBranches P ys := by
  obtain ⟨ps, hp, hrun⟩ := h
  have hb : Denotes (OpenGroup.branch ⟨[], ps.reverse⟩) P := denotes_branch hp
  refine ⟨[OpenGroup.branch ⟨[], ps.reverse⟩], by simp, fun hd s => ?_, fun prior outer => ?_⟩
  · simp only [List.map_cons, List.map_nil, alternation]
    exact hb (hd _ (List.mem_singleton.2 rfl)) s
  · exact ⟨⟨prior, ps.reverse⟩, rfl, by rw [hrun, List.append_nil]⟩

theorem isBranches_cons (hy : IsSequence P ys) (hz : IsBranches Q zs) :
    IsBranches (fun s => P s ∨ Q s) (ys ++ .bar :: zs) := by
  obtain ⟨ps, hp, hrun⟩ := hy
  obtain ⟨qs, hne, hq, hruns⟩ := hz
  have hb : Denotes (OpenGroup.branch ⟨[], ps.reverse⟩) P := denotes_branch hp
  refine ⟨OpenGroup.branch ⟨[], ps.reverse⟩ :: qs, by simp, fun hd s => ?_, fun prior outer => ?_⟩
  · obtain ⟨hd₁, hd₂⟩ := List.forall_mem_cons.1 hd
    show _ ↔ P s ∨ Q s
    rw [← hb hd₁ s, ← hq hd₂ s, matches_alternation (by simp), matches_alternation (by simpa)]
    simp
  · obtain ⟨g, hg, hz⟩ := hruns (OpenGroup.branch ⟨[], ps.reverse⟩ :: prior) outer
    refine ⟨g, by simp [hg], ?_⟩
    rw [List.foldlM_append, hrun, List.append_nil]
    exact hz

/-- The contents of a group are what its symbols denote. -/
theorem exists_of_isBranches (h : IsBranches P ys) (outer : List OpenGroup) :
    ∃ g, Denotes g.contents P ∧ ys.foldlM accept? ({} :: outer) = some (g :: outer) := by
  obtain ⟨ps, hne, hp, hrun⟩ := h
  obtain ⟨g, hg, hy⟩ := hrun [] outer
  rw [List.append_nil] at hg
  refine ⟨g, fun hd s => ?_, hy⟩
  simp only [OpenGroup.contents, hg, List.reverse_reverse] at hd ⊢
  exact hp (fun p h => Nat.le_trans (depth_le_jointDepth (List.mem_reverse.2 h)) hd) s

theorem isItem_group (h : IsBranches P ys) : IsItem P (.groupOpen :: ys ++ [.groupClose]) := by
  -- the group is the same for every stack below it
  obtain ⟨ps, hne, hp, hrun⟩ := h
  refine ⟨⟨.group (alternation (ps.map (·.regex))), jointDepth ps.reverse + 1⟩, fun hd s => ?_,
    fun g outer => ?_⟩
  · rw [matches_group_iff]
    refine hp (fun p h => ?_) s
    have := depth_le_jointDepth (List.mem_reverse.2 h)
    simp only at hd
    omega
  · obtain ⟨h, hh, hy⟩ := hrun [] (g :: outer)
    rw [List.append_nil] at hh
    show (ys ++ [Symbol.groupClose]).foldlM accept? ({} :: g :: outer) = _
    rw [List.foldlM_append, hy]
    show some _ = some _
    simp only [OpenGroup.contents, hh, List.reverse_reverse]

/-- The expression of a text whose symbols are the branches of an alternation. -/
theorem denotes_of_parse? {text : List Char} {xs : List Symbol} {p : Parsed}
    (hx : symbols? text = some xs) (h : IsBranches P xs) (hp : parse? text = some p) :
    ∀ s, p.regex.Matches s ↔ P s := by
  obtain ⟨g, hg, hrun⟩ := exists_of_isBranches h []
  simp only [parse?, hx, assemble?, hrun, bind, Option.bind_some] at hp
  split at hp
  · rename_i hd
    simp only [Option.some.injEq] at hp
    exact hp ▸ hg hd
  · simp at hp

/-! ## Depth -/

/-- Parts without levels of their own make at most one. -/
theorem jointDepth_le_one {parts : List Parsed} (h : ∀ p ∈ parts, p.depth = 0) :
    jointDepth parts ≤ 1 := by
  have hfold : parts.foldl (fun d p => max d p.depth) 0 = 0 := by
    induction parts with
    | nil => rfl
    | cons p parts ih =>
      obtain ⟨hp, hparts⟩ := List.forall_mem_cons.1 h
      rw [List.foldl_cons, hp]
      exact ih hparts
  rw [jointDepth, hfold]
  split <;> omega

theorem foldlM_atoms (sets : List CharSet) (branches items : List Parsed)
    (outer : List OpenGroup) :
    (sets.map (Symbol.atom · 0)).foldlM accept? (⟨branches, items⟩ :: outer) =
      some (⟨branches, (sets.map fun s => ⟨.set s, 0⟩).reverse ++ items⟩ :: outer) := by
  induction sets generalizing items with
  | nil => rfl
  | cons s sets ih =>
    rw [List.map_cons, List.foldlM_cons]
    show (sets.map (Symbol.atom · 0)).foldlM accept? (⟨branches, ⟨.set s, 0⟩ :: items⟩ :: outer) = _
    rw [ih, List.map_cons, List.reverse_cons, List.append_assoc]
    rfl

theorem jointDepth_singleton (p : Parsed) : jointDepth [p] = p.depth := by simp [jointDepth]

/-- A sequence of single characters makes at most one level. -/
theorem depth_contents_of_sets (sets : List CharSet) :
    (OpenGroup.contents ⟨[], (sets.map fun s => ⟨.set s, 0⟩).reverse ++ []⟩).depth ≤ 1 := by
  rw [OpenGroup.contents, jointDepth_singleton, OpenGroup.branch]
  refine jointDepth_le_one fun p hp => ?_
  rw [List.append_nil, List.mem_reverse, List.mem_map] at hp
  obtain ⟨s, -, rfl⟩ := hp
  rfl

theorem parse?_of_run {text : List Char} {xs : List Symbol} {g : OpenGroup}
    (h : symbols? text = some xs) (hrun : xs.foldlM accept? [{}] = some [g])
    (hd : g.contents.depth ≤ maxDepth) : parse? text = some g.contents := by
  simp only [parse?, h, assemble?, hrun, bind, Option.bind_some, if_pos hd]

/-- A sequence of single characters never nests too deep. -/
theorem exists_parse?_of_atoms {text : List Char} {sets : List CharSet}
    (h : symbols? text = some (sets.map (Symbol.atom · 0))) : ∃ p, parse? text = some p :=
  ⟨_, parse?_of_run h (foldlM_atoms sets [] [] [])
    (Nat.le_trans (depth_contents_of_sets sets) (by decide))⟩

theorem depth_contents_push (p : Parsed) : (OpenGroup.push {} p).contents.depth = p.depth := by
  show jointDepth [⟨_, jointDepth [p]⟩] = p.depth
  rw [jointDepth_singleton]
  exact jointDepth_singleton p

/-- Nor does a group of one. -/
theorem exists_parse?_of_groupedAtoms {text : List Char} {sets : List CharSet}
    (h : symbols? text = some (.groupOpen :: (sets.map (Symbol.atom · 0) ++ [.groupClose]))) :
    ∃ p, parse? text = some p := by
  have hatoms := foldlM_atoms sets [] [] [{}]
  have hdepth := depth_contents_of_sets sets
  generalize (⟨[], (sets.map fun s => ⟨.set s, 0⟩).reverse ++ []⟩ : OpenGroup) = g at hatoms hdepth
  have hrun : (Symbol.groupOpen :: (sets.map (Symbol.atom · 0) ++ [.groupClose])).foldlM accept?
      [{}] = some [OpenGroup.push {} ⟨.group g.contents.regex, g.contents.depth + 1⟩] := by
    rw [List.foldlM_cons]
    show List.foldlM accept? [{}, {}] _ = _
    rw [List.foldlM_append, hatoms]
    rfl
  refine ⟨_, parse?_of_run h hrun ?_⟩
  rw [depth_contents_push]
  exact Nat.le_trans (Nat.succ_le_succ hdepth) (by decide)

end GrammarLab.Regex
