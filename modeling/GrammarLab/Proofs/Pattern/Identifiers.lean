import GrammarLab.Proofs.Pattern.Translation

/-!
# Identifiers of a pattern

A body that has a spelling as soon as its references have one refers to the identifiers that stand
in it outside command lists, and to nothing else. What comes between, such as the members of a
negated set, has no identifiers.

    IsTranslatable body → (name ∈ identifiers body ↔ .reference name ∈ pieces (significant body))
                                                                  (mem_identifiers_iff)
-/

namespace GrammarLab.Pattern

open Body

/-! ## Names -/

/-- The names of the identifiers among the tokens, but for those in command lists. -/
def identifiersIn : List Token → List String
  | [] => []
  | t :: ts =>
    if t.kind = .arrow then identifiersIn (commandList ts).2
    else if t.kind = .ident then t.name :: identifiersIn ts
    else identifiersIn ts
termination_by ts => ts.length
decreasing_by
  all_goals
    have := length_commandList_le ts
    simp only [List.length_cons]
    omega

/-- The identifiers of a body. -/
def identifiers (body : List Char) : List String := identifiersIn (significant body)

/-- The body has a spelling if every reference in it is answered. -/
def IsTranslatable (body : List Char) : Prop :=
  ∃ t, Id.run (spell (fun _ => pure (.ok ⟨[], false⟩)) body) = .ok t

/-- The names that a piece refers to. -/
def Piece.names : Piece → List String
  | .reference name => [name]
  | _ => []

theorem Piece.mem_names_iff {p : Piece} {name : String} : name ∈ p.names ↔ p = .reference name := by
  cases p <;> simp [Piece.names, eq_comm]

section

variable {t : Token} {ts rest : List Token} {s : List Char} {p : Piece}

/-! ## What comes between identifiers -/

theorem identifiersIn_cons (harrow : t.kind ≠ .arrow) (hident : t.kind ≠ .ident) :
    identifiersIn (t :: ts) = identifiersIn ts := by
  rw [identifiersIn, if_neg harrow, if_neg hident]

theorem identifiersIn_of_rangeEnd? {last : Token} (h : rangeEnd? ts = some (last, rest)) :
    identifiersIn ts = identifiersIn rest := by
  obtain ⟨op, rfl, hop, hlast⟩ := rangeEnd?_eq_some h
  rw [identifiersIn_cons (by simp [hop]) (by simp [hop]),
    identifiersIn_cons (by simp [hlast]) (by simp [hlast])]

theorem identifiersIn_of_literalMember (h : literalMember t ts = .ok (s, rest)) :
    identifiersIn ts = identifiersIn rest := by
  unfold literalMember at h
  split at h
  · rename_i last behind hrange
    obtain ⟨x, -, h⟩ := bind_eq_ok.1 h
    obtain ⟨-, rfl⟩ := Prod.mk.inj (Except.ok.inj h)
    exact identifiersIn_of_rangeEnd? hrange
  · obtain ⟨x, -, h⟩ := bind_eq_ok.1 h
    obtain ⟨-, rfl⟩ := Prod.mk.inj (Except.ok.inj h)
    rfl

theorem identifiersIn_of_setMembers (h : setMembers ts = .ok (s, rest)) :
    identifiersIn ts = identifiersIn rest := by
  fun_induction setMembers ts generalizing s rest with
  | case1 => simp at h
  | case2 t ts hk =>
    obtain ⟨-, rfl⟩ := Prod.mk.inj (Except.ok.inj h)
    exact identifiersIn_cons (by simp [hk]) (by simp [hk])
  | case3 t ts _ hk ih =>
    rw [identifiersIn_cons (by simp [hk]) (by simp [hk]), ih h]
  | case4 t ts _ _ hk ih =>
    obtain ⟨x, -, h⟩ := bind_eq_ok.1 h
    obtain ⟨⟨more, behind⟩, hmore, h⟩ := bind_eq_ok.1 h
    obtain ⟨-, rfl⟩ := Prod.mk.inj (Except.ok.inj h)
    rw [identifiersIn_cons (by simp [hk]) (by simp [hk]), ih hmore]
  | case5 => simp at h
  | case6 t ts _ _ _ hk x behind hliteral ih =>
    obtain ⟨⟨more, rest'⟩, hmore, h⟩ := bind_eq_ok.1 h
    obtain ⟨-, rfl⟩ := Prod.mk.inj (Except.ok.inj h)
    rw [identifiersIn_cons (by simp [hk]) (by simp [hk]), identifiersIn_of_literalMember hliteral,
      ih hmore]
  | case7 => simp at h

theorem identifiersIn_of_negatedSet (h : negatedSet ts = .ok (s, rest)) :
    identifiersIn ts = identifiersIn rest := by
  cases ts with
  | nil => simp [negatedSet] at h
  | cons t ts =>
    simp only [negatedSet] at h
    split at h
    · rename_i hk
      obtain ⟨x, -, h⟩ := bind_eq_ok.1 h
      obtain ⟨-, rfl⟩ := Prod.mk.inj (Except.ok.inj h)
      exact identifiersIn_cons (by simp [hk]) (by simp [hk])
    split at h
    · rename_i hk
      rw [identifiersIn_cons (by simp [hk]) (by simp [hk]), identifiersIn_of_literalMember h]
    split at h
    · rename_i hk
      rw [identifiersIn_cons (by simp [hk]) (by simp [hk]), identifiersIn_of_setMembers h]
    · simp at h

/-! ## Pieces -/

theorem identifiersIn_of_leadingPiece (h : leadingPiece t ts = .ok (p, rest))
    (hp : ∀ e, p ≠ .failure e) : identifiersIn (t :: ts) = p.names ++ identifiersIn rest := by
  cases hk : t.kind with
  | literal =>
    rw [identifiersIn_cons (by simp [hk]) (by simp [hk])]
    simp only [leadingPiece, hk, if_true] at h
    split at h
    · rename_i last behind hrange
      obtain ⟨x, -, h⟩ := bind_eq_ok.1 h
      obtain ⟨rfl, rfl⟩ := Prod.mk.inj (Except.ok.inj h)
      exact identifiersIn_of_rangeEnd? hrange
    · obtain ⟨rfl, rfl⟩ := Prod.mk.inj (Except.ok.inj h)
      rfl
  | charClass =>
    rw [identifiersIn_cons (by simp [hk]) (by simp [hk])]
    simp only [leadingPiece, hk, reduceCtorEq, if_false, if_true] at h
    obtain ⟨x, -, h⟩ := bind_eq_ok.1 h
    obtain ⟨rfl, rfl⟩ := Prod.mk.inj (Except.ok.inj h)
    rfl
  | tilde =>
    rw [identifiersIn_cons (by simp [hk]) (by simp [hk])]
    simp only [leadingPiece, hk, reduceCtorEq, if_false, if_true] at h
    obtain ⟨⟨inside, behind⟩, hset, h⟩ := bind_eq_ok.1 h
    obtain ⟨rfl, rfl⟩ := Prod.mk.inj (Except.ok.inj h)
    exact identifiersIn_of_negatedSet hset
  | arrow =>
    simp only [leadingPiece, hk, reduceCtorEq, if_false, if_true] at h
    obtain ⟨rfl, rfl⟩ := Prod.mk.inj (Except.ok.inj h)
    rw [identifiersIn, if_pos hk]
    rfl
  | ident =>
    rw [leadingPiece_lone ts (by rw [hk]; decide)] at h
    obtain ⟨rfl, rfl⟩ := Prod.mk.inj (Except.ok.inj h)
    by_cases hend : t.name = endOfInput
    · simp [lonePiece, hk, hend] at hp
    · simp [lonePiece, identifiersIn, hk, hend, Piece.names]
  | _ =>
    rw [leadingPiece_lone ts (by rw [hk]; decide)] at h
    obtain ⟨rfl, rfl⟩ := Prod.mk.inj (Except.ok.inj h)
    rw [identifiersIn_cons (by simp [hk]) (by simp [hk])]
    simp [lonePiece, hk, Piece.names]

theorem identifiersIn_eq_flatMap (h : ∀ e, .failure e ∉ pieces ts) :
    identifiersIn ts = (pieces ts).flatMap Piece.names := by
  fun_induction pieces ts with
  | case1 => simp [identifiersIn]
  | case2 t ts e he => exact absurd List.mem_cons_self (h e)
  | case3 t ts p rest hp ih =>
    rw [identifiersIn_of_leadingPiece hp fun e he => h e (he ▸ List.mem_cons_self),
      List.flatMap_cons, ih fun e he => h e (List.mem_cons_of_mem _ he)]

end

/-! ## Bodies that have a spelling -/

theorem assemble_answered_eq_ok_iff {ps : List Piece} :
    (∃ t, Id.run (assemble (fun _ => pure (.ok ⟨[], false⟩)) ps) = .ok t) ↔
      ∀ e, .failure e ∉ ps := by
  induction ps with
  | nil => simp [assemble]
  | cons p ps ih =>
    simp only [assemble, Id.run, bind, pure] at ih ⊢
    cases p with
    | failure e =>
      constructor
      · rintro ⟨t, h⟩
        simp [Piece.spell, pure] at h
      · exact fun h => absurd List.mem_cons_self (h e)
    | _ =>
      simp only [List.mem_cons, reduceCtorEq, false_or, ← ih, Piece.spell, bind, pure]
      cases assemble (m := Id) (fun _ => .ok ⟨[], false⟩) ps <;> simp

theorem isTranslatable_iff {body : List Char} :
    IsTranslatable body ↔ ∀ e, .failure e ∉ pieces (significant body) :=
  assemble_answered_eq_ok_iff

theorem mem_identifiers_iff {body : List Char} {name : String} (h : IsTranslatable body) :
    name ∈ identifiers body ↔ .reference name ∈ pieces (significant body) := by
  rw [identifiers, identifiersIn_eq_flatMap (isTranslatable_iff.1 h), List.mem_flatMap]
  simp [Piece.mem_names_iff]

end GrammarLab.Pattern
