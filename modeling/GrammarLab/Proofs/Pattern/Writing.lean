import GrammarLab.Proofs.Pattern.Memo
import GrammarLab.Proofs.Regex.Cells

/-!
# What the tokens of a body write

Outside command lists the tokens of a body are put into pieces one stretch after the other. A
quantifier is a piece of its own and so is a reference; all other pieces are texts that stand apart
from what is around them and open as many groups as their tokens open parentheses.

    pieces ts = p :: ps → freeTokens ts = W ++ freeTokens rest ∧ Writes W p    (exists_writes_of_pieces)
-/

namespace GrammarLab

/-- The token that the quantifier is written as. -/
def Quantifier.greedyKind : Quantifier → Body.TokenKind
  | .optional => .question
  | .star => .star
  | .plus => .plus

/-- The token of the lazy quantifier. -/
def Quantifier.lazyKind : Quantifier → Body.TokenKind
  | .optional => .questionQuestion
  | .star => .starQuestion
  | .plus => .plusQuestion

namespace Pattern

open Body Regex

/-- The tokens outside command lists. -/
def freeTokens : List Token → List Token
  | [] => []
  | t :: ts => if t.kind = .arrow then freeTokens (commandList ts).2 else t :: freeTokens ts
termination_by ts => ts.length
decreasing_by
  all_goals
    have := length_commandList_le ts
    simp only [List.length_cons]
    omega

/-- The number of open parentheses behind the token, with `n` of them in front of it. -/
def parenNest? (n : Nat) (t : Token) : Option Nat :=
  match t.kind with
  | .parenOpen => some (n + 1)
  | .parenClose => n.ppred
  | _ => some n

/-- The tokens do not make one quantifier when they are written next to each other. -/
def Unfused (t u : Token) : Prop := t.kind.isGreedy = true → u.kind ≠ .question

/-- Tokens without quantifiers, references and open parentheses. -/
structure Operand (W : List Token) : Prop where
  nonempty : W ≠ []
  kinds : ∀ t ∈ W, t.kind.isQuantifier = false ∧ t.kind ≠ .ident ∧ t.kind ≠ .arrow
  nesting : ∀ n, W.foldlM parenNest? n = some n

/-- Tokens that write a text without quantifiers and references. -/
structure Plain (W : List Token) (s : List Char) : Prop where
  nonempty : W ≠ []
  kinds : ∀ t ∈ W, t.kind.isQuantifier = false ∧ t.kind ≠ .ident ∧ t.kind ≠ .arrow
  solid : Solid s
  nesting : ∀ ys n, symbols? s = some ys → nesting? n ys = W.foldlM parenNest? n
  greedy : ∀ ys q, symbols? s = some ys → .quantifier q true ∉ ys

/-- `Writes W p`: the tokens are one piece. -/
inductive Writes : List Token → Piece → Prop
  | greedy {t} {q : Quantifier} : t.kind = q.greedyKind → Writes [t] (.text [q.char])
  | lazily {t} {q : Quantifier} : t.kind = q.lazyKind → Writes [t] (.lazyText [q.char, '?'])
  | plain {W s} : Plain W s → Writes W (.text s)
  | reference {t} : t.kind = .ident → Writes [t] (.reference t.name)

/-! ## Tokens outside command lists -/

section

variable {t : Token} {ts rest W : List Token} {s : List Char} {p : Piece}

theorem freeTokens_cons (harrow : t.kind ≠ .arrow) : freeTokens (t :: ts) = t :: freeTokens ts := by
  rw [freeTokens, if_neg harrow]

theorem freeTokens_append (h : ∀ u ∈ W, u.kind ≠ .arrow) :
    freeTokens (W ++ ts) = W ++ freeTokens ts := by
  induction W with
  | nil => rfl
  | cons u W ih =>
    obtain ⟨hu, hW⟩ := List.forall_mem_cons.1 h
    rw [List.cons_append, freeTokens_cons hu, ih hW]
    rfl

theorem identifiersIn_eq (ts : List Token) :
    identifiersIn ts = ((freeTokens ts).filter (·.kind = .ident)).map Token.name := by
  fun_induction freeTokens ts with
  | case1 => rw [identifiersIn]; rfl
  | case2 t ts hk ih => rw [identifiersIn, if_pos hk, ih]
  | case3 t ts hk ih =>
    rw [identifiersIn, if_neg hk, List.filter_cons]
    by_cases hident : t.kind = .ident
    · simp [hident, ih]
    · simp [hident, ih]

theorem mem_identifiers {body : List Char} {name : String} :
    name ∈ identifiers body ↔
      ∃ t ∈ freeTokens (significant body), t.kind = .ident ∧ t.name = name := by
  rw [identifiers, identifiersIn_eq, List.mem_map]
  simp [and_assoc]

/-! ## Texts without quantifiers -/

theorem parenNest?_of_ne (h₁ : t.kind ≠ .parenOpen) (h₂ : t.kind ≠ .parenClose) (n : Nat) :
    parenNest? n t = some n := by
  unfold parenNest?
  split
  · exact absurd ‹_› h₁
  · exact absurd ‹_› h₂
  · rfl

theorem foldlM_parenNest? (h : ∀ u ∈ W, u.kind ≠ .parenOpen ∧ u.kind ≠ .parenClose) (n : Nat) :
    W.foldlM parenNest? n = some n := by
  induction W with
  | nil => rfl
  | cons u W ih =>
    obtain ⟨hu, hW⟩ := List.forall_mem_cons.1 h
    rw [List.foldlM_cons, parenNest?_of_ne hu.1 hu.2]
    exact ih hW

theorem kind_mem_mono {ks ls : List TokenKind} (hsub : ks ⊆ ls) (h : ∀ u ∈ W, u.kind ∈ ks) :
    ∀ u ∈ W, u.kind ∈ ls := fun u hu => hsub (h u hu)

/-- Tokens of kinds that tell nothing about the structure. -/
theorem operand_of_kinds (hne : W ≠ [])
    (h : ∀ t ∈ W, t.kind ∈ [.literal, .range, .charClass, .tilde, .pipe, .dot]) : Operand W where
  nonempty := hne
  kinds t ht := by
    have hk := h t ht
    revert hk
    cases t.kind <;> decide
  nesting := foldlM_parenNest? fun t ht => by
    have hk := h t ht
    revert hk
    cases t.kind <;> decide

theorem plain_of_neutral (hW : Operand W) (hs : Solid s)
    (hys : ∀ ys, symbols? s = some ys → Neutral ys ∧ ∀ q, .quantifier q true ∉ ys) : Plain W s where
  nonempty := hW.nonempty
  kinds := hW.kinds
  solid := hs
  nesting ys n h := by rw [hW.nesting, (hys ys h).1]
  greedy ys q h := (hys ys h).2 q

/-- A class is read the same whatever stands behind it, or not at all. -/
theorem symbol?_class {body : List Char} (hin : Inside body) (hne : body ≠ [])
    (hcaret : body ≠ ['^']) :
    (∃ cs d, ∀ rest, symbol? '[' (body ++ [']'] ++ rest) = some (.atom cs d, rest)) ∨
      ∀ rest, symbol? '[' (body ++ [']'] ++ rest) = none := by
  have hassoc : ∀ rest, body ++ [']'] ++ rest = body ++ ']' :: rest := by simp
  by_cases hread : ∃ rest b r, bracket? (body ++ ']' :: rest) = some (b, r)
  · left
    obtain ⟨rest, b, r, hb⟩ := hread
    obtain ⟨-, hmore⟩ := bracket?_append hin hne hcaret hb
    refine ⟨b.set, b.depth, fun more => ?_⟩
    show (bracket? _).map _ = _
    rw [hassoc, hmore]
    rfl
  · right
    intro more
    show (bracket? _).map _ = _
    rw [hassoc]
    cases hb : bracket? (body ++ ']' :: more) with
    | none => rfl
    | some r => exact absurd ⟨more, r.1, r.2, hb⟩ hread

theorem plain_class (hW : Operand W) (hs : ClassWhole s) : Plain W s := by
  rcases hs with ⟨body, rfl, hin, hne, hcaret⟩ | rfl
  · have hfollows : ∀ rest, Outside rest → Follows ('[' :: (body ++ [']']) ++ rest) :=
      fun rest _ => ⟨.opening, by simp⟩
    rcases symbol?_class hin hne hcaret with ⟨cs, d, hsymbol⟩ | hnone
    · obtain ⟨halone, hsolid⟩ := solid_of_symbol? hfollows hsymbol
      refine plain_of_neutral hW hsolid fun ys hys => ?_
      obtain rfl := Option.some.inj (hys.symm.trans halone)
      exact ⟨fun _ => rfl, by simp⟩
    · obtain ⟨halone, hsolid⟩ := solid_of_unread hfollows fun rest _ => hnone rest
      refine plain_of_neutral hW hsolid fun ys hys => ?_
      rw [List.cons_append, halone] at hys
      cases hys
  · have hfollows : ∀ rest, Outside rest → Follows (['[', '^', ']'] ++ rest) :=
      fun rest _ => ⟨.opening, by simp⟩
    obtain ⟨halone, hsolid⟩ := solid_of_unread hfollows fun rest hrest => by
      show (bracket? ('^' :: ']' :: rest)).map _ = none
      rw [bracket?_emptyComplement hrest]
      rfl
    refine plain_of_neutral hW hsolid fun ys hys => ?_
    rw [halone] at hys
    cases hys

theorem loose_literalText (s : List Char) : Loose (literalText s) where
  outside _ hrest := outside_literalText s hrest
  apart rest _ := by
    rw [symbols?_literalText_append, symbols?_literalText]
    cases symbols? rest <;> rfl

theorem plain_literal (hW : Operand W) (s : List Char) : Plain W (grouped (literalText s)) := by
  have hloose := loose_literalText s
  refine plain_of_neutral hW (solid_group hloose) fun ys hys => ?_
  rw [grouped, symbols?_group_alone hloose, symbols?_literalText] at hys
  obtain rfl := Option.some.inj hys
  refine ⟨neutral_group ?_, by simp⟩
  have hatoms := neutral_atoms (s.map CharSet.single)
  rwa [List.map_map] at hatoms

theorem plain_any (hW : Operand W) : Plain W anyText := by
  have hsymbols : ∀ rest, symbols? (anyText ++ rest) =
      (symbols? rest).map ([.groupOpen, .atom .all 0, .groupClose] ++ ·) := by
    intro rest
    have hopen : symbol? '(' ('?' :: 's' :: ':' :: '.' :: ')' :: rest) =
        some (.groupOpen, '.' :: ')' :: rest) := rfl
    have hdot : symbol? '.' (')' :: rest) = some (.atom .all 0, ')' :: rest) := rfl
    have hclose : symbol? ')' rest = some (.groupClose, rest) := rfl
    rw [anyText_eq]
    show symbols? ('(' :: '?' :: 's' :: ':' :: '.' :: ')' :: rest) = _
    rw [symbols?_cons hopen, symbols?_cons hdot, symbols?_cons hclose, Option.map_map,
      Option.map_map]
    rfl
  obtain ⟨halone, hapart⟩ := apart_of_symbols (F := Outside) .nil fun rest _ => hsymbols rest
  refine plain_of_neutral hW ⟨spells_any.follows, hapart⟩ fun ys hys => ?_
  obtain rfl := Option.some.inj (hys.symm.trans halone)
  exact ⟨fun _ => rfl, by simp⟩

/-- A token that is written as one symbol. -/
theorem plain_symbol {c : Char} {cs : List Char} {x : Symbol}
    (hk : t.kind.isQuantifier = false ∧ t.kind ≠ .ident ∧ t.kind ≠ .arrow)
    (hfollows : ∀ rest, Outside rest → Follows (c :: cs ++ rest))
    (h : ∀ rest, symbol? c (cs ++ rest) = some (x, rest)) (hx : ∀ q, x ≠ .quantifier q true)
    (hnest : ∀ n, x.nest? n = parenNest? n t) : Plain [t] (c :: cs) := by
  obtain ⟨halone, hsolid⟩ := solid_of_symbol? hfollows h
  refine ⟨List.cons_ne_nil _ _, by simpa using hk, hsolid, fun ys n hys => ?_, fun ys q hys => ?_⟩
  · obtain rfl := Option.some.inj (hys.symm.trans halone)
    rw [List.foldlM_cons, ← hnest]
    rfl
  · obtain rfl := Option.some.inj (hys.symm.trans halone)
    rw [List.mem_singleton]
    exact fun heq => hx q heq.symm

theorem plain_opening (hk : t.kind = .parenOpen) : Plain [t] ['(', '?', ':'] :=
  plain_symbol (by rw [hk]; decide)
    (fun _ hrest => follows_cons (by decide) (outside_append (t := ['?', ':']) (by simp) hrest))
    (fun _ => rfl) nofun (fun n => by rw [parenNest?, hk]; rfl)

theorem plain_closing (hk : t.kind = .parenClose) : Plain [t] [')'] :=
  plain_symbol (by rw [hk]; decide) (fun _ hrest => follows_cons (by decide) hrest)
    (fun _ => rfl) nofun (fun n => by rw [parenNest?, hk]; rfl)

theorem plain_bar (hk : t.kind = .pipe) : Plain [t] ['|'] :=
  plain_symbol (by rw [hk]; decide) (fun _ hrest => follows_cons (by decide) hrest)
    (fun _ => rfl) nofun (fun n => by rw [parenNest?, hk]; rfl)

/-! ## Sets -/

theorem literalMember_tokens (h : literalMember t ts = .ok (s, rest)) :
    ∃ used, ts = used ++ rest ∧ ∀ u ∈ used, u.kind ∈ [.literal, .range] := by
  unfold literalMember at h
  split at h
  · rename_i last behind hrange
    obtain ⟨x, -, h⟩ := bind_eq_ok.1 h
    obtain ⟨-, rfl⟩ := Prod.mk.inj (Except.ok.inj h)
    obtain ⟨op, rfl, hop, hlast⟩ := rangeEnd?_eq_some hrange
    exact ⟨[op, last], rfl, by simp [hop, hlast]⟩
  · obtain ⟨x, -, h⟩ := bind_eq_ok.1 h
    obtain ⟨-, rfl⟩ := Prod.mk.inj (Except.ok.inj h)
    exact ⟨[], rfl, by simp⟩

theorem setMembers_tokens (h : setMembers ts = .ok (s, rest)) :
    ∃ used c, ts = used ++ c :: rest ∧ c.kind = .parenClose ∧
      ∀ u ∈ used, u.kind ∈ [.literal, .range, .charClass, .pipe] := by
  fun_induction setMembers ts generalizing s rest with
  | case1 => cases h
  | case2 t ts hk =>
    obtain ⟨-, rfl⟩ := Prod.mk.inj (Except.ok.inj h)
    exact ⟨[], t, rfl, hk, by simp⟩
  | case3 t ts _ hk ih =>
    obtain ⟨used, c, rfl, hc, hused⟩ := ih h
    exact ⟨t :: used, c, rfl, hc, List.forall_mem_cons.2 ⟨by simp [hk], hused⟩⟩
  | case4 t ts _ _ hk ih =>
    obtain ⟨x, -, h⟩ := bind_eq_ok.1 h
    obtain ⟨⟨more, behind⟩, hmore, h⟩ := bind_eq_ok.1 h
    obtain ⟨-, rfl⟩ := Prod.mk.inj (Except.ok.inj h)
    obtain ⟨used, c, rfl, hc, hused⟩ := ih hmore
    exact ⟨t :: used, c, rfl, hc, List.forall_mem_cons.2 ⟨by simp [hk], hused⟩⟩
  | case5 => cases h
  | case6 t ts _ _ _ hk x behind hliteral ih =>
    obtain ⟨⟨more, rest'⟩, hmore, h⟩ := bind_eq_ok.1 h
    obtain ⟨-, rfl⟩ := Prod.mk.inj (Except.ok.inj h)
    obtain ⟨first, rfl, hfirst⟩ := literalMember_tokens hliteral
    obtain ⟨used, c, rfl, hc, hused⟩ := ih hmore
    refine ⟨t :: first ++ used, c, by simp, hc, fun u hu => ?_⟩
    rcases List.mem_append.1 hu with hu | hu
    · rcases List.mem_cons.1 hu with rfl | hu
      · simp [hk]
      · exact kind_mem_mono (by simp) hfirst u hu
    · exact hused u hu
  | case7 => cases h

theorem inside_of_negatedSet (hreg : ∀ u ∈ ts, u.lexeme.Regular)
    (h : negatedSet ts = .ok (s, rest)) : Inside s := by
  cases ts with
  | nil => cases h
  | cons u ts =>
    obtain ⟨hu, hts⟩ := List.forall_mem_cons.1 hreg
    simp only [negatedSet] at h
    split at h
    · rename_i hk
      obtain ⟨x, hx, h⟩ := bind_eq_ok.1 h
      obtain ⟨rfl, -⟩ := Prod.mk.inj (Except.ok.inj h)
      exact (classInside_of_classBody hu hk hx).1
    split at h
    · exact (exists_of_literalMember h).1.1
    split at h
    · exact (exists_of_setMembers hts h).1.1
    · cases h

/-- A negation is one operand up to the end of its set. -/
theorem operand_of_negatedSet (ht : t.kind = .tilde) (h : negatedSet ts = .ok (s, rest)) :
    ∃ W, t :: ts = W ++ rest ∧ Operand W := by
  cases ts with
  | nil => cases h
  | cons u ts =>
    simp only [negatedSet] at h
    split at h
    · rename_i hk
      obtain ⟨x, -, h⟩ := bind_eq_ok.1 h
      obtain ⟨-, rfl⟩ := Prod.mk.inj (Except.ok.inj h)
      exact ⟨[t, u], rfl, operand_of_kinds (by simp) (by simp [ht, hk])⟩
    split at h
    · rename_i hk
      obtain ⟨used, rfl, hused⟩ := literalMember_tokens h
      refine ⟨t :: u :: used, rfl, operand_of_kinds (by simp) ?_⟩
      refine List.forall_mem_cons.2 ⟨by simp [ht], List.forall_mem_cons.2 ⟨by simp [hk], ?_⟩⟩
      exact kind_mem_mono (by simp) hused
    split at h
    · rename_i hk
      obtain ⟨used, c, rfl, hc, hused⟩ := setMembers_tokens h
      have hkinds : ∀ v ∈ used, v.kind ∈ [.literal, .range, .charClass, .tilde, .pipe, .dot] :=
        kind_mem_mono (by simp) hused
      refine ⟨t :: u :: used ++ [c], by simp, by simp, ?_, fun n => ?_⟩
      · intro v hv
        simp only [List.cons_append, List.mem_cons, List.mem_append, List.not_mem_nil,
          or_false] at hv
        rcases hv with rfl | rfl | hv | rfl
        · rw [ht]; decide
        · rw [hk]; decide
        · have hne := List.ne_nil_of_mem hv
          exact (operand_of_kinds hne hkinds).kinds v hv
        · rw [hc]; decide
      · have hn : used.foldlM parenNest? (n + 1) = some (n + 1) := foldlM_parenNest? (fun v hv => by
          have hkind := hused v hv
          revert hkind
          cases v.kind <;> decide) _
        simp [parenNest?, ht, hk, hc, hn]
    · cases h

/-! ## Pieces -/

theorem text_of_kind {k : TokenKind} {s : List Char} (hr : t.lexeme.Regular) (hk : t.kind = k)
    (hs : k.spelled? = some s) : t.text = s := by
  refine hr.spelled s ?_
  show t.kind.spelled? = some s
  rw [hk, hs]

theorem writes_of_greedy {q : Quantifier} (hr : t.lexeme.Regular) (hk : t.kind = q.greedyKind)
    (ts : List Token) : Writes [t] (lonePiece t ts) := by
  have htext : t.text = [q.char] := text_of_kind hr hk (by cases q <;> rfl)
  have hpiece : lonePiece t ts = .text [q.char] := by
    rw [lonePiece, hk, htext]
    cases q <;> rfl
  rw [hpiece]
  exact .greedy hk

theorem writes_of_lazy {q : Quantifier} (hr : t.lexeme.Regular) (hk : t.kind = q.lazyKind)
    (ts : List Token) : Writes [t] (lonePiece t ts) := by
  have htext : t.text = [q.char, '?'] := text_of_kind hr hk (by cases q <;> rfl)
  have hpiece : lonePiece t ts = .lazyText [q.char, '?'] := by
    rw [lonePiece, hk, htext]
    cases q <;> rfl
  rw [hpiece]
  exact .lazily hk

theorem writes_lonePiece (hr : t.lexeme.Regular)
    (hk : t.kind ∉ [.literal, .charClass, .tilde, .arrow])
    (hp : ∀ e, lonePiece t ts ≠ .failure e) : Writes [t] (lonePiece t ts) := by
  cases hkind : t.kind with
  | question => exact writes_of_greedy (q := .optional) hr hkind ts
  | star => exact writes_of_greedy (q := .star) hr hkind ts
  | plus => exact writes_of_greedy (q := .plus) hr hkind ts
  | questionQuestion => exact writes_of_lazy (q := .optional) hr hkind ts
  | starQuestion => exact writes_of_lazy (q := .star) hr hkind ts
  | plusQuestion => exact writes_of_lazy (q := .plus) hr hkind ts
  | dot =>
    rw [lonePiece, hkind]
    exact .plain (plain_any (operand_of_kinds (by simp) (by simp [hkind])))
  | parenOpen =>
    rw [lonePiece, hkind]
    exact .plain (plain_opening hkind)
  | parenClose =>
    rw [lonePiece, hkind]
    exact .plain (plain_closing hkind)
  | pipe =>
    rw [lonePiece, hkind]
    exact .plain (plain_bar hkind)
  | ident =>
    by_cases hend : t.name = endOfInput
    · exact absurd (by simp [lonePiece, hkind, hend]) (hp (.unsupported .endOfInput))
    · have hpiece : lonePiece t ts = .reference t.name := by simp [lonePiece, hkind, hend]
      rw [hpiece]
      exact .reference hkind
  | literal => simp [hkind] at hk
  | charClass => simp [hkind] at hk
  | tilde => simp [hkind] at hk
  | arrow => simp [hkind] at hk
  | _ => simp [lonePiece, hkind] at hp

theorem exists_writes_of_leadingPiece (hreg : ∀ u ∈ t :: ts, u.lexeme.Regular)
    (harrow : t.kind ≠ .arrow) (hp : ∀ e, p ≠ .failure e) (h : leadingPiece t ts = .ok (p, rest)) :
    ∃ W, t :: ts = W ++ rest ∧ Writes W p := by
  obtain ⟨ht, hts⟩ := List.forall_mem_cons.1 hreg
  by_cases hlone : t.kind ∈ [.literal, .charClass, .tilde, .arrow]
  · simp only [List.mem_cons, List.not_mem_nil, or_false] at hlone
    rcases hlone with hk | hk | hk | hk
    · simp only [leadingPiece, hk, if_true] at h
      split at h
      · rename_i last behind hrange
        obtain ⟨x, hx, h⟩ := bind_eq_ok.1 h
        obtain ⟨rfl, rfl⟩ := Prod.mk.inj (Except.ok.inj h)
        obtain ⟨op, rfl, hop, hlast⟩ := rangeEnd?_eq_some hrange
        have hW : Operand [t, op, last] := operand_of_kinds (by simp) (by simp [hk, hop, hlast])
        exact ⟨[t, op, last], rfl,
          .plain (plain_class hW (classWhole_classOf (classInside_of_rangeText hx)))⟩
      · obtain ⟨rfl, rfl⟩ := Prod.mk.inj (Except.ok.inj h)
        exact ⟨[t], rfl, .plain (plain_literal (operand_of_kinds (by simp) (by simp [hk])) _)⟩
    · simp only [leadingPiece, hk, reduceCtorEq, if_false, if_true] at h
      obtain ⟨x, hx, h⟩ := bind_eq_ok.1 h
      obtain ⟨rfl, rfl⟩ := Prod.mk.inj (Except.ok.inj h)
      have hW : Operand [t] := operand_of_kinds (by simp) (by simp [hk])
      exact ⟨[t], rfl, .plain (plain_class hW (classWhole_classOf (classInside_of_classBody ht hk hx)))⟩
    · simp only [leadingPiece, hk, reduceCtorEq, if_false, if_true] at h
      obtain ⟨⟨inside, behind⟩, hset, h⟩ := bind_eq_ok.1 h
      obtain ⟨rfl, rfl⟩ := Prod.mk.inj (Except.ok.inj h)
      obtain ⟨W, heq, hW⟩ := operand_of_negatedSet hk hset
      exact ⟨W, heq, .plain (plain_class hW (classWhole_negatedClassOf (inside_of_negatedSet hts hset)))⟩
    · exact absurd hk harrow
  · rw [leadingPiece_lone ts hlone] at h
    obtain ⟨rfl, rfl⟩ := Prod.mk.inj (Except.ok.inj h)
    exact ⟨[t], rfl, writes_lonePiece ht hlone hp⟩

theorem Writes.ne_arrow (h : Writes W p) : ∀ u ∈ W, u.kind ≠ .arrow := by
  cases h with
  | @greedy t q hk =>
    rw [List.forall_mem_singleton, hk]
    cases q <;> decide
  | @lazily t q hk =>
    rw [List.forall_mem_singleton, hk]
    cases q <;> decide
  | plain h => exact fun u hu => (h.kinds u hu).2.2
  | reference hk =>
    rw [List.forall_mem_singleton, hk]
    decide

/-- A piece is written by the tokens in front, unless it is what is left of a command list. -/
theorem exists_writes_of_pieces {ps : List Piece} (hreg : ∀ u ∈ ts, u.lexeme.Regular)
    (h : pieces ts = p :: ps) (hp : ∀ e, p ≠ .failure e) :
    ∃ W rest, (Writes W p ∨ W = [] ∧ p = .text []) ∧ freeTokens ts = W ++ freeTokens rest ∧
      pieces rest = ps ∧ ∀ u ∈ rest, u.lexeme.Regular := by
  cases ts with
  | nil => simp [pieces] at h
  | cons t ts =>
    cases hlead : leadingPiece t ts with
    | error e =>
      rw [pieces_of_error hlead] at h
      exact absurd (List.cons.inj h).1.symm (hp e)
    | ok r =>
      obtain ⟨p', rest⟩ := r
      rw [pieces_of_leadingPiece hlead] at h
      obtain ⟨rfl, rfl⟩ := List.cons.inj h
      by_cases harrow : t.kind = .arrow
      · simp only [leadingPiece, harrow, reduceCtorEq, if_false, if_true] at hlead
        obtain ⟨rfl, rfl⟩ := Prod.mk.inj (Except.ok.inj hlead)
        refine ⟨[], (commandList ts).2, .inr ⟨rfl, rfl⟩, ?_, rfl, fun u hu => ?_⟩
        · rw [freeTokens, if_pos harrow]
          rfl
        · exact hreg u (List.mem_cons_of_mem _ ((commandList_suffix ts).subset hu))
      · obtain ⟨W, heq, hW⟩ := exists_writes_of_leadingPiece hreg harrow hp hlead
        refine ⟨W, rest, .inl hW, ?_, rfl, fun u hu => ?_⟩
        · rw [heq, freeTokens_append hW.ne_arrow]
        · exact hreg u (heq ▸ List.mem_append_right _ hu)

end

end Pattern

end GrammarLab
