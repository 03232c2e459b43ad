import GrammarLab.Proofs.Regex.Bracket
import GrammarLab.Proofs.Regex.Normal
import GrammarLab.Regex.Parser

/-!
# Members in a row

Texts that list the members of a class may be written one after the other as long as no text runs
on into the next: then the class holds what one of them lists. A character listed alone runs on
into a dash, and a dash into a second dash.

    Lists F s P → Lists G t Q → (∀ more, G more → F (t ++ more)) →
      Lists G (s ++ t) (fun c => P c ∨ Q c)                                  (Lists.append)
-/

namespace GrammarLab.Regex

/-- In front of text that satisfies `F`, the text lists members, and a character is in one of them
when it satisfies `P`. -/
def Lists (F : List Char → Prop) (s : List Char) (P : Char → Prop) : Prop :=
  ∃ sets : List CharSet, (∀ c, (∃ m ∈ sets, m.contains c = true) ↔ P c) ∧
    ∀ more, F more → parts? (s ++ more) =
      (parts? more).map fun (ps, rest) => (sets.map .member ++ ps, rest)

/-- Text of one character that begins with nothing special to a class. -/
def Writes (t : List Char) (c : Char) : Prop :=
  ∃ d used, t = d :: used ∧ d ∉ ['[', ']', '-', '&', '~', '^'] ∧
    ∀ more, unit? d (used ++ more) = some (.char c, more)

/-- The set of the parts of a class. -/
def denoted (ps : List ClassPart) : Bracketed := combine (unionOf (members ps)) ps

/-! ## Lists of members -/

section

variable {F G : List Char → Prop} {P Q : Char → Prop} {s t u : List Char} {c lo hi : Char}

theorem lists_nil : Lists F [] (fun _ => False) :=
  ⟨[], by simp, fun more _ => by simp⟩

theorem Lists.congr (h : Lists F s P) (hPQ : ∀ c, P c ↔ Q c) : Lists F s Q := by
  obtain ⟨sets, hsets, hmore⟩ := h
  exact ⟨sets, fun c => (hsets c).trans (hPQ c), hmore⟩

theorem Lists.mono (h : Lists F s P) (hF : ∀ more, G more → F more) : Lists G s P := by
  obtain ⟨sets, hsets, hmore⟩ := h
  exact ⟨sets, hsets, fun more hg => hmore more (hF more hg)⟩

theorem Lists.append (hs : Lists F s P) (ht : Lists G t Q)
    (hF : ∀ more, G more → F (t ++ more)) : Lists G (s ++ t) (fun c => P c ∨ Q c) := by
  obtain ⟨ms, hms, hs⟩ := hs
  obtain ⟨ns, hns, ht⟩ := ht
  refine ⟨ms ++ ns, fun c => ?_, fun more hg => ?_⟩
  · simp only [List.mem_append, or_and_right, exists_or, hms, hns]
  · rw [List.append_assoc, hs _ (hF more hg), ht more hg, Option.map_map, List.map_append]
    simp only [Function.comp_def, List.append_assoc]

/-- What is read up to the closing bracket without an operator. -/
theorem lists_of_parts? {sets : List CharSet} {rest : List Char} (hin : Inside s)
    (h : parts? (s ++ ']' :: rest) = some (sets.map .member, rest)) :
    Lists (Fits s) s (fun c => ∃ m ∈ sets, m.contains c = true) := by
  obtain ⟨used, he, hin', hmore⟩ := exists_of_parts? h
  obtain ⟨rfl, -⟩ := hin.unique hin' he
  exact ⟨sets, fun _ => Iff.rfl, hmore⟩

theorem Writes.ne_nil (h : Writes t c) : t ≠ [] := by
  obtain ⟨d, used, rfl, -, -⟩ := h
  simp

theorem Writes.head (h : Writes t c) (more : List Char) :
    ∃ d u, t ++ more = d :: u ∧ d ∉ ['[', ']', '-', '&', '~', '^'] := by
  obtain ⟨d, used, rfl, hd, -⟩ := h
  exact ⟨d, used ++ more, rfl, hd⟩

theorem Writes.head?_ne_dash (h : Writes t c) (more : List Char) :
    (t ++ more).head? ≠ some '-' := by
  obtain ⟨d, u, hd, hne⟩ := h.head more
  rw [hd]
  intro he
  obtain rfl : d = '-' := by simpa using he
  simp at hne

/-- A member that begins with the text of a character. -/
theorem parts?_of_writes {d : Char} {rest : List Char} {m : CharSet}
    (hd : d ∉ ['[', ']', '-', '&', '~', '^']) (hm : member? d u = some (m, rest)) :
    parts? (d :: u) = (parts? rest).map fun (ps, r) => (.member m :: ps, r) := by
  simp only [List.mem_cons, List.not_mem_nil, or_false, not_or] at hd
  exact parts?_of_member hd.2.1 hd.1 (operatorAt?_eq_none_iff.2 fun _ => by simp [hd]) hm

theorem lists_single (h : Writes t c) : Lists EndsUnit t (· = c) := by
  obtain ⟨d, used, rfl, hd, hunit⟩ := h
  refine ⟨[.single c], by simp, fun more hmore => ?_⟩
  rw [List.cons_append, parts?_of_writes hd (member?_of_endsUnit (hunit more) hmore)]
  rfl

theorem lists_between (hlo : Writes t lo) (hhi : Writes u hi) (hle : lo ≤ hi) :
    Lists (fun _ => True) (t ++ '-' :: u) (fun c => lo ≤ c ∧ c ≤ hi) := by
  obtain ⟨d, used, rfl, hd, hunit⟩ := hlo
  obtain ⟨e, used', rfl, he, hunit'⟩ := hhi
  refine ⟨[.between lo hi], by simp, fun more _ => ?_⟩
  simp only [List.mem_cons, List.not_mem_nil, or_false, not_or] at he
  have hm : member? d (used ++ '-' :: e :: (used' ++ more)) = some (.between lo hi, more) := by
    rw [member?_of_range he.2.1 he.2.2.1 (hunit _) (hunit' more), range?, if_pos hle]
    rfl
  rw [List.append_assoc, List.cons_append, List.cons_append, List.cons_append,
    parts?_of_writes hd hm]
  rfl

/-- A range the wrong way round is not read. -/
theorem parts?_of_descending (hlo : Writes t lo) (hhi : Writes u hi) (hlt : ¬lo ≤ hi)
    (more : List Char) : parts? (t ++ '-' :: u ++ more) = none := by
  obtain ⟨d, used, rfl, hd, hunit⟩ := hlo
  obtain ⟨e, used', rfl, he, hunit'⟩ := hhi
  simp only [List.mem_cons, List.not_mem_nil, or_false, not_or] at hd he
  have hm : member? d (used ++ '-' :: e :: (used' ++ more)) = none := by
    rw [member?_of_range he.2.1 he.2.2.1 (hunit _) (hunit' more), range?, if_neg hlt]
    rfl
  have hop : operatorAt? d (used ++ '-' :: e :: (used' ++ more)) = none :=
    operatorAt?_eq_none_iff.2 fun _ => by simp [hd]
  rw [List.append_assoc, List.cons_append, List.cons_append, List.cons_append, parts?]
  simp only [hd.2.1, hd.1, if_false]
  split
  · simp_all
  · split
    · simp_all
    · rfl

/-- A dash in front of something else stands for itself. -/
theorem lists_dash : Lists (fun more => ∃ c s, more = c :: s ∧ c ≠ '-') ['-'] (· = '-') := by
  refine ⟨[.single '-'], by simp, ?_⟩
  rintro _ ⟨c, s, rfl, hc⟩
  have hop : operatorAt? '-' (c :: s) = none :=
    operatorAt?_eq_none_iff.2 fun h => absurd (Option.some.inj h) hc
  have hm : member? '-' (c :: s) = some (.single '-', c :: s) :=
    member?_of_endsUnit (u := .char '-') rfl ⟨c, s, rfl, fun h => absurd h hc⟩
  rw [List.singleton_append, parts?_of_member (by decide) (by decide) hop hm]
  rfl

end

/-! ## Sets of classes -/

theorem exists_sets_of_no_operator {ps : List ClassPart} (h : ∀ op, ClassPart.operator op ∉ ps) :
    ∃ sets : List CharSet, ps = sets.map .member := by
  induction ps with
  | nil => exact ⟨[], rfl⟩
  | cons p ps ih =>
    cases p with
    | operator op => exact absurd List.mem_cons_self (h op)
    | member m =>
      obtain ⟨sets, rfl⟩ := ih fun op hop => h op (List.mem_cons_of_mem _ hop)
      exact ⟨m :: sets, rfl⟩

theorem members_map_member (sets : List CharSet) : members (sets.map .member) = sets := by
  induction sets with
  | nil => rfl
  | cons m sets ih => rw [List.map_cons, members, ih]

theorem combine_map_member (acc : Bracketed) (sets : List CharSet) :
    combine acc (sets.map .member) = acc := by
  induction sets with
  | nil => rfl
  | cons m sets ih => rw [List.map_cons, combine, ih]

/-- Without operators a class is the union of its members, and not deep. -/
theorem denoted_map_member (sets : List CharSet) :
    1 + (denoted (sets.map .member)).depth ≤ maxDepth ∧
      ∀ c, (denoted (sets.map .member)).set.contains c = true ↔
        ∃ m ∈ sets, m.contains c = true := by
  rw [denoted, combine_map_member, members_map_member, unionOf]
  refine ⟨?_, fun c => ?_⟩
  · dsimp only
    split <;> simp [maxDepth]
  · rw [CharSet.contains_foldl_union]
    simp

theorem bracket?_eq {s : List Char} (hs : s.head? ≠ some '^') :
    bracket? s = (opening? s).map fun (ps, rest) =>
      (⟨(denoted ps).set, 1 + (denoted ps).depth⟩, rest) := by
  simp only [bracket?, hs, decide_false, Bool.false_eq_true, if_false, denoted]

theorem bracket?_complement (s : List Char) :
    bracket? ('^' :: s) = (opening? s).map fun (ps, rest) =>
      (⟨(denoted ps).set.compl, 1 + (denoted ps).depth⟩, rest) := by
  simp only [bracket?, List.head?_cons, decide_true, if_true, List.drop_one, List.tail_cons,
    denoted]

/-- A class without operators holds what one of its members holds. -/
theorem exists_bracket?_of_opening? {s : List Char} {sets : List CharSet} (hs : s.head? ≠ some '^')
    (h : opening? s = some (sets.map .member, [])) :
    ∃ b, bracket? s = some (b, []) ∧ b.depth ≤ maxDepth ∧
      ∀ c, b.set.contains c = true ↔ ∃ m ∈ sets, m.contains c = true := by
  obtain ⟨hdepth, hset⟩ := denoted_map_member sets
  exact ⟨⟨_, 1 + _⟩, by rw [bracket?_eq hs, h]; rfl, hdepth, hset⟩

theorem exists_bracket?_complement {s : List Char} {sets : List CharSet}
    (h : opening? s = some (sets.map .member, [])) :
    ∃ b, bracket? ('^' :: s) = some (b, []) ∧ b.depth ≤ maxDepth ∧
      ∀ c, b.set.contains c = true ↔ ¬∃ m ∈ sets, m.contains c = true := by
  obtain ⟨hdepth, hset⟩ := denoted_map_member sets
  refine ⟨⟨_, 1 + _⟩, by rw [bracket?_complement, h]; rfl, hdepth, fun c => ?_⟩
  rw [CharSet.contains_compl, ← hset, Bool.not_eq_true', Bool.not_eq_true]

theorem contains_dashes (dashes : List Char) (sets : List CharSet) (c : Char) :
    (∃ m ∈ dashes.map CharSet.single ++ sets, m.contains c = true) ↔
      c ∈ dashes ∨ ∃ m ∈ sets, m.contains c = true := by
  simp only [List.mem_append, or_and_right, exists_or, List.mem_map, exists_exists_and_eq_and,
    CharSet.contains_single, decide_eq_true_eq]
  simp

theorem Fits.head?_ne_dash {s t more : List Char} (h : Fits s (t ++ more)) :
    t.head? ≠ some '-' := by
  obtain ⟨c, u, he, hc, -⟩ := h
  cases t with
  | nil => simp
  | cons d t =>
    obtain ⟨rfl, -⟩ := List.cons.inj he
    intro hd
    obtain rfl : d = '-' := by simpa using hd
    simp at hc

/-- The dashes in front of a class and what is listed behind them are its members. -/
theorem exists_opening {F : List Char → Prop} {P : Char → Prop} (dashes : List Char)
    {s : List Char} (hd : ∀ c ∈ dashes, c = '-') (hs : s.head? ≠ some '-')
    (hne : dashes ++ s ≠ []) (hin : Inside s) (h : Lists F s P) (hF : F [']']) :
    ∃ sets : List CharSet, opening? (dashes ++ s ++ [']']) = some (sets.map .member, []) ∧
      ∀ c, (∃ m ∈ sets, m.contains c = true) ↔ c ∈ dashes ∨ P c := by
  obtain ⟨sets, hsets, hmore⟩ := h
  refine ⟨dashes.map .single ++ sets, ?_, fun c => ?_⟩
  · rw [List.append_assoc, opening?_dashes hd hs hne hin, hmore _ hF, parts?_close]
    simp
  · rw [contains_dashes, hsets]

/-- A class without operators is dashes in front and a list of members behind them. -/
theorem exists_lists_of_opening? {s : List Char} {sets : List CharSet} (hin : Inside s)
    (hne : s ≠ []) (h : opening? (s ++ [']']) = some (sets.map .member, [])) :
    ∃ dashes t P, s = dashes ++ t ∧ (∀ c ∈ dashes, c = '-') ∧ t.head? ≠ some '-' ∧ Inside t ∧
      Lists (Fits s) t P ∧ ∀ c, (∃ m ∈ sets, m.contains c = true) ↔ c ∈ dashes ∨ P c := by
  obtain ⟨dashes, t, rfl, hd, ht⟩ := exists_dashes s
  have hin' := hin.of_append (inside_of_dashes hd)
  rw [List.append_assoc, opening?_dashes hd ht hne hin'] at h
  obtain ⟨⟨ps, rest⟩, hparts, he⟩ := Option.map_eq_some_iff.1 h
  simp only [Prod.mk.injEq] at he
  obtain ⟨he, rfl⟩ := he
  obtain ⟨front, behind, rfl, hfront, rfl⟩ := List.map_eq_append_iff.1 he.symm
  obtain rfl : front = dashes.map .single := by
    apply List.map_injective_iff.2 (fun _ _ => ClassPart.member.inj)
    rw [hfront, List.map_map]
    rfl
  refine ⟨dashes, t, _, rfl, hd, ht, hin',
    (lists_of_parts? hin' hparts).mono fun more hf => hf.of_append (inside_of_dashes hd),
    contains_dashes dashes behind⟩

end GrammarLab.Regex
