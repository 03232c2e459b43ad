import Mathlib.Data.Nat.PSub
import GrammarLab.Proofs.Regex.Stack

/-!
# What symbols are put together to

How many groups are open behind symbols depends on the symbols alone. Symbols that close no group
but their own do not touch the stack below, so the contents of a group are put together as if they
stood alone; they nest less deep than the whole. An expression has a lazy quantifier iff one of its
symbols is one.

    Neutral ys → ys.foldlM accept? ([{}] ++ S) = (ys.foldlM accept? [{}]).map (· ++ S)   (run_append)
-/

namespace GrammarLab.Regex

/-- The number of open groups behind the symbol, with `n` of them in front of it. -/
def Symbol.nest? (n : Nat) : Symbol → Option Nat
  | .groupOpen => some (n + 1)
  | .groupClose => n.ppred
  | _ => some n

/-- The number of open groups behind the symbols, unless they close more than there are. -/
def nesting? (n : Nat) (xs : List Symbol) : Option Nat := xs.foldlM Symbol.nest? n

/-- The symbols close the groups that they open and no others. -/
def Neutral (xs : List Symbol) : Prop := ∀ n, nesting? n xs = some n

/-- No part of the open groups nests deeper than `d`. -/
def Within (d : Nat) (stack : List OpenGroup) : Prop :=
  ∀ g ∈ stack, ∀ p ∈ g.branches ++ g.items, p.depth ≤ d

/-- A lazy quantifier stands in the open group. -/
def OpenGroup.HasLazy (g : OpenGroup) : Prop :=
  ∃ p ∈ g.branches ++ g.items, p.regex.hasLazy = true

/-- A lazy quantifier stands in one of the open groups. -/
def LazyIn (stack : List OpenGroup) : Prop := ∃ g ∈ stack, g.HasLazy

section

variable {G G' S S' : List OpenGroup} {x : Symbol} {xs ys : List Symbol} {n m k d : Nat}
  {p : Parsed}

theorem nesting?_cons : nesting? n (x :: xs) = (x.nest? n).bind fun m => nesting? m xs :=
  List.foldlM_cons

theorem nesting?_append : nesting? n (xs ++ ys) = (nesting? n xs).bind fun m => nesting? m ys :=
  List.foldlM_append

theorem assemble?_eq_some :
    assemble? xs = some p ↔ ∃ g, xs.foldlM accept? [{}] = some [g] ∧ g.contents = p := by
  unfold assemble?
  constructor
  · intro h
    split at h
    · rename_i g hrun
      exact ⟨g, hrun, Option.some.inj h⟩
    · cases h
  · rintro ⟨g, hrun, rfl⟩
    rw [hrun]

theorem parse?_eq_some_iff {text : List Char} : parse? text = some p ↔
    ∃ xs, symbols? text = some xs ∧ assemble? xs = some p ∧ p.depth ≤ maxDepth := by
  unfold parse?
  constructor
  · intro h
    obtain ⟨xs, hx, h⟩ := Option.bind_eq_some_iff.1 h
    obtain ⟨q, hq, h⟩ := Option.bind_eq_some_iff.1 h
    split at h
    · rename_i hd
      obtain rfl := Option.some.inj h
      exact ⟨xs, hx, hq, hd⟩
    · cases h
  · rintro ⟨xs, hx, hp, hd⟩
    simp [hx, hp, hd]

/-! ## Open groups -/

theorem Symbol.nest?_add (h : x.nest? n = some m) (k : Nat) : x.nest? (n + k) = some (m + k) := by
  cases x with
  | groupOpen =>
    obtain rfl : n + 1 = m := Option.some.inj h
    show some (n + k + 1) = some (n + 1 + k)
    congr 1
    omega
  | groupClose =>
    rw [nest?, Nat.ppred_eq_some] at h ⊢
    omega
  | _ =>
    obtain rfl : n = m := Option.some.inj h
    rfl

/-- More open groups below change nothing. -/
theorem nesting?_add (h : nesting? n xs = some m) (k : Nat) :
    nesting? (n + k) xs = some (m + k) := by
  induction xs generalizing n with
  | nil =>
    obtain rfl : n = m := Option.some.inj h
    rfl
  | cons x xs ih =>
    rw [nesting?_cons] at h ⊢
    obtain ⟨l, hl, h⟩ := Option.bind_eq_some_iff.1 h
    rw [Symbol.nest?_add hl k]
    exact ih h

theorem neutral_of_nesting? (h : nesting? 0 xs = some 0) : Neutral xs := by
  intro n
  have hn := nesting?_add h n
  rwa [Nat.zero_add] at hn

theorem neutral_atoms (sets : List CharSet) : Neutral (sets.map (Symbol.atom · 0)) := by
  intro n
  induction sets with
  | nil => rfl
  | cons s sets ih => exact ih

theorem neutral_group (h : Neutral xs) : Neutral (.groupOpen :: xs ++ [.groupClose]) := by
  intro n
  have hopen : nesting? n (.groupOpen :: xs) = some (n + 1) := h (n + 1)
  rw [nesting?_append, hopen]
  rfl

theorem nest?_of_accept? (hG : G.length = n + 1) (h : accept? G x = some G') :
    ∃ m, x.nest? n = some m ∧ G'.length = m + 1 := by
  cases G with
  | nil => simp at hG
  | cons g outer =>
    rw [List.length_cons] at hG
    cases x with
    | groupOpen =>
      obtain rfl := Option.some.inj h
      refine ⟨n + 1, rfl, ?_⟩
      simp only [List.length_cons]
      omega
    | groupClose =>
      cases outer with
      | nil => cases h
      | cons g' outer =>
        obtain rfl := Option.some.inj h
        rw [List.length_cons] at hG
        refine ⟨outer.length, ?_, List.length_cons⟩
        show n.ppred = some outer.length
        rw [Nat.ppred_eq_some]
        omega
    | quantifier q isLazy =>
      obtain ⟨g', -, rfl⟩ := Option.map_eq_some_iff.1 h
      exact ⟨n, rfl, hG⟩
    | _ =>
      obtain rfl := Option.some.inj h
      exact ⟨n, rfl, hG⟩

theorem nesting?_of_run (hG : G.length = n + 1) (h : xs.foldlM accept? G = some G') :
    ∃ m, nesting? n xs = some m ∧ G'.length = m + 1 := by
  induction xs generalizing n G with
  | nil =>
    obtain rfl := Option.some.inj h
    exact ⟨n, rfl, hG⟩
  | cons x xs ih =>
    rw [List.foldlM_cons] at h
    obtain ⟨H, hH, h⟩ := Option.bind_eq_some_iff.1 h
    obtain ⟨l, hl, hlength⟩ := nest?_of_accept? hG hH
    obtain ⟨m, hm, hG'⟩ := ih hlength h
    refine ⟨m, ?_, hG'⟩
    rw [nesting?_cons, hl]
    exact hm

/-- An expression closes the groups that it opens and no others. -/
theorem neutral_of_assemble? (h : assemble? xs = some p) : Neutral xs := by
  obtain ⟨g, hrun, -⟩ := assemble?_eq_some.1 h
  obtain ⟨m, hm, hlength⟩ := nesting?_of_run (n := 0) rfl hrun
  obtain rfl : m = 0 := by
    rw [List.length_singleton] at hlength
    omega
  exact neutral_of_nesting? hm

/-! ## The stack below -/

theorem accept?_append (hG : G.length = n + 1) (hn : x.nest? n = some m) (S : List OpenGroup) :
    accept? (G ++ S) x = (accept? G x).map (· ++ S) := by
  cases G with
  | nil => simp at hG
  | cons g outer =>
    cases x with
    | groupClose =>
      cases outer with
      | nil =>
        obtain rfl : n = 0 := by simpa using hG.symm
        cases hn
      | cons g' outer => rfl
    | quantifier q isLazy =>
      show (g.quantify? q isLazy).map (· :: (outer ++ S)) = _
      cases hq : g.quantify? q isLazy with
      | none => simp [accept?, hq]
      | some g' => simp [accept?, hq]
    | _ => rfl

theorem run_append (hG : G.length = n + 1) (hn : nesting? n xs = some m) (S : List OpenGroup) :
    xs.foldlM accept? (G ++ S) = (xs.foldlM accept? G).map (· ++ S) := by
  induction xs generalizing n G with
  | nil => rfl
  | cons x xs ih =>
    rw [nesting?_cons] at hn
    obtain ⟨l, hl, hn⟩ := Option.bind_eq_some_iff.1 hn
    rw [List.foldlM_cons, List.foldlM_cons, accept?_append hG hl]
    cases hx : accept? G x with
    | none => rfl
    | some H =>
      obtain ⟨l', hl', hlength⟩ := nest?_of_accept? hG hx
      obtain rfl : l = l' := Option.some.inj (hl.symm.trans hl')
      exact ih hlength hn

/-! ## Depth -/

theorem depth_le_of_contents {g : OpenGroup} (h : g.contents.depth ≤ d) :
    ∀ p ∈ g.branches ++ g.items, p.depth ≤ d := by
  intro p hp
  have hbranch : g.branch.depth ≤ g.contents.depth := depth_le_jointDepth List.mem_cons_self
  rcases List.mem_append.1 hp with hp | hp
  · have hle : p.depth ≤ g.contents.depth := depth_le_jointDepth (List.mem_cons_of_mem _ hp)
    omega
  · have hle : p.depth ≤ g.branch.depth := depth_le_jointDepth hp
    omega

/-- Whatever is in the open groups stays in them, or goes into what nests deeper. -/
theorem Within.of_accept? (h : accept? S x = some S') (hd : Within d S') : Within d S := by
  cases S with
  | nil => cases h
  | cons g outer =>
    cases x with
    | groupOpen =>
      obtain rfl := Option.some.inj h
      exact (List.forall_mem_cons.1 hd).2
    | groupClose =>
      cases outer with
      | nil => cases h
      | cons g' outer =>
        obtain rfl := Option.some.inj h
        obtain ⟨htop, houter⟩ := List.forall_mem_cons.1 hd
        have hgroup : g.contents.depth + 1 ≤ d := htop ⟨.group g.contents.regex, _⟩ (by
          simp [OpenGroup.push])
        refine List.forall_mem_cons.2 ⟨depth_le_of_contents (by omega), ?_⟩
        refine List.forall_mem_cons.2 ⟨fun p hp => htop p ?_, houter⟩
        rcases List.mem_append.1 hp with hp | hp
        · exact List.mem_append_left _ hp
        · exact List.mem_append_right _ (List.mem_cons_of_mem _ hp)
    | bar =>
      obtain rfl := Option.some.inj h
      obtain ⟨htop, houter⟩ := List.forall_mem_cons.1 hd
      refine List.forall_mem_cons.2 ⟨fun p hp => ?_, houter⟩
      rcases List.mem_append.1 hp with hp | hp
      · exact htop p (List.mem_append_left _ (List.mem_cons_of_mem _ hp))
      · have hbranch : g.branch.depth ≤ d := htop g.branch (by simp)
        have hle : p.depth ≤ g.branch.depth := depth_le_jointDepth hp
        omega
    | quantifier q isLazy =>
      obtain ⟨g', hg', rfl⟩ := Option.map_eq_some_iff.1 h
      obtain ⟨htop, houter⟩ := List.forall_mem_cons.1 hd
      refine List.forall_mem_cons.2 ⟨fun p hp => ?_, houter⟩
      obtain ⟨branches, items⟩ := g
      cases items with
      | nil => cases hg'
      | cons last items =>
        obtain rfl := Option.some.inj hg'
        have hlast : last.depth + 1 ≤ d := htop ⟨.repeated q isLazy last.regex, _⟩ (by simp)
        rcases List.mem_append.1 hp with hp | hp
        · exact htop p (List.mem_append_left _ hp)
        rcases List.mem_cons.1 hp with rfl | hp
        · omega
        · exact htop p (List.mem_append_right _ (List.mem_cons_of_mem _ hp))
    | atom s depth =>
      obtain rfl := Option.some.inj h
      obtain ⟨htop, houter⟩ := List.forall_mem_cons.1 hd
      refine List.forall_mem_cons.2 ⟨fun p hp => htop p ?_, houter⟩
      rcases List.mem_append.1 hp with hp | hp
      · exact List.mem_append_left _ hp
      · exact List.mem_append_right _ (List.mem_cons_of_mem _ hp)

theorem Within.of_run (h : xs.foldlM accept? S = some S') (hd : Within d S') : Within d S := by
  induction xs generalizing S with
  | nil =>
    obtain rfl := Option.some.inj h
    exact hd
  | cons x xs ih =>
    rw [List.foldlM_cons] at h
    obtain ⟨T, hT, h⟩ := Option.bind_eq_some_iff.1 h
    exact (ih h).of_accept? hT

/-- The contents of a group make an expression if they close no group but their own, and the
expression nests less deep than the one that the group stands in. -/
theorem exists_assemble?_of_group (hys : Neutral ys)
    (hgroup : (.groupOpen :: ys ++ [.groupClose]) <:+: xs) (h : assemble? xs = some p) :
    ∃ q, assemble? ys = some q ∧ q.depth < p.depth := by
  obtain ⟨before, behind, rfl⟩ := hgroup
  obtain ⟨g, hrun, rfl⟩ := assemble?_eq_some.1 h
  rw [List.append_assoc, List.foldlM_append] at hrun
  obtain ⟨S, -, hrun⟩ := Option.bind_eq_some_iff.1 hrun
  rw [List.foldlM_append, List.foldlM_append] at hrun
  obtain ⟨T, hT, hbehind⟩ := Option.bind_eq_some_iff.1 hrun
  obtain ⟨R, hR, hclose⟩ := Option.bind_eq_some_iff.1 hT
  rw [List.foldlM_cons] at hR
  obtain ⟨R', hopen, hR⟩ := Option.bind_eq_some_iff.1 hR
  cases S with
  | nil => cases hopen
  | cons top outer =>
    obtain rfl := Option.some.inj hopen
    have hinner : ys.foldlM accept? ([({} : OpenGroup)] ++ top :: outer) = some R := hR
    rw [run_append (n := 0) rfl (hys 0)] at hinner
    obtain ⟨H, hH, rfl⟩ := Option.map_eq_some_iff.1 hinner
    -- exactly the group that was opened in front of `ys` is open behind them
    obtain ⟨m, hm, hlength⟩ := nesting?_of_run (n := 0) rfl hH
    obtain rfl : 0 = m := Option.some.inj ((hys 0).symm.trans hm)
    obtain ⟨inner, rfl⟩ := List.length_eq_one_iff.1 hlength
    refine ⟨inner.contents, assemble?_eq_some.2 ⟨inner, hH, rfl⟩, ?_⟩
    have hfinal : Within g.contents.depth [g] := by
      intro g' hg'
      obtain rfl := List.mem_singleton.1 hg'
      exact depth_le_of_contents (Nat.le_refl _)
    have hwithin : Within g.contents.depth T := hfinal.of_run hbehind
    rw [List.foldlM_cons] at hclose
    obtain rfl := Option.some.inj hclose
    exact hwithin _ List.mem_cons_self ⟨.group inner.contents.regex, inner.contents.depth + 1⟩
      (by simp [OpenGroup.push])

/-! ## Lazy quantifiers -/

theorem hasLazy_sequence (rs : List Regex) :
    (sequence rs).hasLazy = true ↔ ∃ r ∈ rs, r.hasLazy = true := by
  fun_induction sequence rs with
  | case1 => simp [hasLazy]
  | case2 r => simp
  | case3 r rs _ ih => simp [hasLazy, ih]

theorem hasLazy_alternation (rs : List Regex) :
    (alternation rs).hasLazy = true ↔ ∃ r ∈ rs, r.hasLazy = true := by
  fun_induction alternation rs with
  | case1 => simp [hasLazy]
  | case2 r => simp
  | case3 r rs _ ih => simp [hasLazy, ih]

theorem hasLazy_branch (g : OpenGroup) :
    g.branch.regex.hasLazy = true ↔ ∃ p ∈ g.items, p.regex.hasLazy = true := by
  show (sequence _).hasLazy = true ↔ _
  rw [hasLazy_sequence]
  simp

theorem hasLazy_contents (g : OpenGroup) : g.contents.regex.hasLazy = true ↔ g.HasLazy := by
  show (alternation _).hasLazy = true ↔ _
  rw [hasLazy_alternation]
  simp [OpenGroup.HasLazy, or_and_right, exists_or, hasLazy_branch, or_comm]

theorem lazyIn_cons {g : OpenGroup} : LazyIn (g :: S) ↔ g.HasLazy ∨ LazyIn S := by
  simp [LazyIn]

theorem lazyIn_singleton {g : OpenGroup} : LazyIn [g] ↔ g.HasLazy := by simp [LazyIn]

theorem not_hasLazy_empty : ¬OpenGroup.HasLazy {} := by simp [OpenGroup.HasLazy]

theorem hasLazy_push {g : OpenGroup} {p : Parsed} :
    (g.push p).HasLazy ↔ p.regex.hasLazy = true ∨ g.HasLazy := by
  simp [OpenGroup.HasLazy, OpenGroup.push, or_and_right, exists_or, or_left_comm]

theorem hasLazy_bar {g : OpenGroup} :
    OpenGroup.HasLazy { branches := g.branch :: g.branches } ↔ g.HasLazy := by
  simp [OpenGroup.HasLazy, or_and_right, exists_or, hasLazy_branch, or_comm]

theorem hasLazy_of_quantify? {g g' : OpenGroup} {q : Quantifier} {isLazy : Bool}
    (h : g.quantify? q isLazy = some g') : g'.HasLazy ↔ g.HasLazy ∨ isLazy = true := by
  obtain ⟨branches, items⟩ := g
  cases items with
  | nil => cases h
  | cons last items =>
    obtain rfl := Option.some.inj h
    simp only [OpenGroup.HasLazy, List.mem_append, List.mem_cons, or_and_right, exists_or,
      exists_eq_left, hasLazy, Bool.or_eq_true]
    grind

/-- A lazy quantifier is where it was, or it is the symbol that was taken. -/
theorem lazyIn_of_accept? (h : accept? S x = some S') :
    LazyIn S' ↔ LazyIn S ∨ ∃ q, x = .quantifier q true := by
  cases S with
  | nil => cases h
  | cons g outer =>
    cases x with
    | groupOpen =>
      obtain rfl := Option.some.inj h
      rw [lazyIn_cons, or_iff_right not_hasLazy_empty]
      simp
    | groupClose =>
      cases outer with
      | nil => cases h
      | cons g' outer =>
        obtain rfl := Option.some.inj h
        have hgroup : (Regex.group g.contents.regex).hasLazy = true ↔ g.HasLazy :=
          hasLazy_contents g
        rw [lazyIn_cons, hasLazy_push, hgroup, lazyIn_cons (g := g), lazyIn_cons (g := g'), or_assoc]
        simp
    | bar =>
      obtain rfl := Option.some.inj h
      rw [lazyIn_cons, hasLazy_bar, lazyIn_cons (g := g)]
      simp
    | quantifier q isLazy =>
      obtain ⟨g', hg', rfl⟩ := Option.map_eq_some_iff.1 h
      rw [lazyIn_cons, hasLazy_of_quantify? hg', lazyIn_cons (g := g), or_right_comm]
      simp
    | atom s depth =>
      obtain rfl := Option.some.inj h
      rw [lazyIn_cons, hasLazy_push, lazyIn_cons (g := g)]
      simp [hasLazy]

theorem lazyIn_of_run (h : xs.foldlM accept? S = some S') :
    LazyIn S' ↔ LazyIn S ∨ ∃ q, .quantifier q true ∈ xs := by
  induction xs generalizing S with
  | nil =>
    obtain rfl := Option.some.inj h
    simp
  | cons x xs ih =>
    rw [List.foldlM_cons] at h
    obtain ⟨T, hT, h⟩ := Option.bind_eq_some_iff.1 h
    rw [ih h, lazyIn_of_accept? hT, or_assoc, ← exists_or]
    refine or_congr_right (exists_congr fun q => ?_)
    rw [List.mem_cons, eq_comm]

theorem hasLazy_of_assemble? (h : assemble? xs = some p) :
    p.regex.hasLazy = true ↔ ∃ q, .quantifier q true ∈ xs := by
  obtain ⟨g, hrun, rfl⟩ := assemble?_eq_some.1 h
  rw [hasLazy_contents, ← lazyIn_singleton, lazyIn_of_run hrun, lazyIn_singleton]
  exact or_iff_right not_hasLazy_empty

end

end GrammarLab.Regex
