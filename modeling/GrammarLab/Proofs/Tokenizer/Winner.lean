import GrammarLab.Proofs.Pattern.Matching
import GrammarLab.Tokenizer.Basic

/-!
# Winners

Which candidate wins at an offset: the first of those with the longest match. The search for it
counts characters behind a place, the definition bytes at an offset of the input.

    Wins cs (before ++ rest) (byteLength before) c b ↔
      ∃ n, winner? rest cs = some (c, n) ∧ b = byteLength (rest.take n)     (wins_append_iff)
-/

namespace GrammarLab.Tokenizer

open Text

/-- `c` is the first of the candidates for which `f` is greatest, and `n` is that greatest value. -/
def IsFirstGreatest (f : Candidate → Option Nat) (cs : List Candidate) (c : Candidate)
    (n : Nat) : Prop :=
  ∃ before behind, cs = before ++ c :: behind ∧ f c = some n ∧
    (∀ d ∈ before, ∀ m, f d = some m → m < n) ∧ ∀ d ∈ behind, ∀ m, f d = some m → m ≤ n

/-- `c` is the first of the candidates with the longest match at the offset, and `n` the number of
its bytes. -/
def Wins (cs : List Candidate) (s : List Char) (offset : Nat) (c : Candidate) (n : Nat) : Prop :=
  IsFirstGreatest (fun d => d.pattern.matchAt s offset) cs c n

/-- No candidate matches at the offset. -/
def Stuck (cs : List Candidate) (s : List Char) (offset : Nat) : Prop :=
  ∀ c ∈ cs, c.pattern.matchAt s offset = none

/-! ## Lemmas -/

theorem winner?_eq_none_iff {s : List Char} {cs : List Candidate} :
    winner? s cs = none ↔ ∀ c ∈ cs, c.pattern.prefixLength? s = none := by
  induction cs with
  | nil => simp [winner?]
  | cons c cs ih =>
    simp only [winner?, List.forall_mem_cons, ← ih]
    cases c.pattern.prefixLength? s <;> cases winner? s cs <;> simp
    split <;> simp

theorem isFirstGreatest_of_winner? {s : List Char} {cs : List Candidate} {c : Candidate} {n : Nat}
    (h : winner? s cs = some (c, n)) :
    IsFirstGreatest (fun d => d.pattern.prefixLength? s) cs c n := by
  induction cs generalizing c n with
  | nil => simp [winner?] at h
  | cons d cs ih =>
    simp only [winner?] at h
    split at h
    · rename_i hd
      obtain ⟨before, behind, rfl, hc, hb, ha⟩ := ih h
      refine ⟨d :: before, behind, rfl, hc, fun e he m hm => ?_, ha⟩
      rcases List.mem_cons.1 he with rfl | he
      · simp [hd] at hm
      · exact hb e he m hm
    · rename_i k hd hw
      simp only [Option.some.injEq, Prod.mk.injEq] at h
      obtain ⟨rfl, rfl⟩ := h
      refine ⟨[], cs, rfl, hd, by simp, fun e he m hm => ?_⟩
      simp [winner?_eq_none_iff.1 hw e he] at hm
    · rename_i k e m hd hw
      obtain ⟨before, behind, rfl, hc, hb, ha⟩ := ih hw
      split at h
      · rename_i hlt
        simp only [Option.some.injEq, Prod.mk.injEq] at h
        obtain ⟨rfl, rfl⟩ := h
        refine ⟨d :: before, behind, rfl, hc, fun e he m hm => ?_, ha⟩
        rcases List.mem_cons.1 he with rfl | he
        · have := Option.some.inj (hd.symm.trans hm); omega
        · exact hb e he m hm
      · rename_i hle
        simp only [Option.some.injEq, Prod.mk.injEq] at h
        obtain ⟨rfl, rfl⟩ := h
        refine ⟨[], _, rfl, hd, by simp, fun x hx i hi => ?_⟩
        rcases List.mem_append.1 hx with hx | hx
        · have := hb x hx i hi; omega
        rcases List.mem_cons.1 hx with rfl | hx
        · have := Option.some.inj (hc.symm.trans hi); omega
        · have := ha x hx i hi; omega

/-- The first greatest of a list is one: the other would have to be smaller than itself. -/
theorem IsFirstGreatest.unique {f : Candidate → Option Nat} {cs : List Candidate}
    {c d : Candidate} {n m : Nat} (hc : IsFirstGreatest f cs c n)
    (hd : IsFirstGreatest f cs d m) : c = d ∧ n = m := by
  induction cs with
  | nil => obtain ⟨before, behind, h, -⟩ := hc; simp at h
  | cons e cs ih =>
    obtain ⟨b₁, a₁, h₁, hfc, hb₁, ha₁⟩ := hc
    obtain ⟨b₂, a₂, h₂, hfd, hb₂, ha₂⟩ := hd
    cases b₁ with
    | nil =>
      simp only [List.nil_append, List.cons.injEq] at h₁
      obtain ⟨rfl, rfl⟩ := h₁
      cases b₂ with
      | nil =>
        simp only [List.nil_append, List.cons.injEq] at h₂
        obtain ⟨rfl, -⟩ := h₂
        exact ⟨rfl, Option.some.inj (hfc.symm.trans hfd)⟩
      | cons x b₂ =>
        simp only [List.cons_append, List.cons.injEq] at h₂
        obtain ⟨rfl, rfl⟩ := h₂
        have := hb₂ e (by simp) n hfc
        have := ha₁ d (by simp) m hfd
        omega
    | cons x b₁ =>
      simp only [List.cons_append, List.cons.injEq] at h₁
      obtain ⟨rfl, rfl⟩ := h₁
      cases b₂ with
      | nil =>
        simp only [List.nil_append, List.cons.injEq] at h₂
        obtain ⟨rfl, rfl⟩ := h₂
        have := hb₁ e (by simp) m hfd
        have := ha₂ c (by simp) n hfc
        omega
      | cons y b₂ =>
        simp only [List.cons_append, List.cons.injEq] at h₂
        exact ih ⟨b₁, a₁, rfl, hfc, fun d hd => hb₁ d (by simp [hd]), ha₁⟩
          ⟨b₂, a₂, h₂.2, hfd, fun d hd => hb₂ d (by simp [hd]), ha₂⟩

theorem winner?_eq_some_iff {s : List Char} {cs : List Candidate} {c : Candidate} {n : Nat} :
    winner? s cs = some (c, n) ↔ IsFirstGreatest (fun d => d.pattern.prefixLength? s) cs c n := by
  refine ⟨isFirstGreatest_of_winner?, fun h => ?_⟩
  cases hw : winner? s cs with
  | none =>
    obtain ⟨before, behind, rfl, hc, -⟩ := h
    simp [winner?_eq_none_iff.1 hw c (by simp)] at hc
  | some w =>
    obtain ⟨rfl, rfl⟩ := (isFirstGreatest_of_winner? (c := w.1) (n := w.2) hw).unique h
    rfl

/-- Values in the same order have the same winner. -/
theorem isFirstGreatest_map_iff {f g : Candidate → Option Nat} {φ : Nat → Nat}
    (hg : ∀ d, g d = (f d).map φ)
    (hφ : ∀ d e n m, f d = some n → f e = some m → (φ n < φ m ↔ n < m))
    {cs : List Candidate} {c : Candidate} {b : Nat} :
    IsFirstGreatest g cs c b ↔ ∃ n, IsFirstGreatest f cs c n ∧ b = φ n := by
  constructor
  · rintro ⟨before, behind, rfl, hc, hb, ha⟩
    obtain ⟨n, hn, rfl⟩ := Option.map_eq_some_iff.1 ((hg c).symm.trans hc)
    refine ⟨n, ⟨before, behind, rfl, hn, fun d hd m hm => ?_, fun d hd m hm => ?_⟩, rfl⟩
    · exact (hφ d c m n hm hn).1 (hb d hd _ (by rw [hg, hm]; rfl))
    · have := ha d hd (φ m) (by rw [hg, hm]; rfl)
      have := hφ c d n m hn hm
      omega
  · rintro ⟨n, ⟨before, behind, rfl, hn, hb, ha⟩, rfl⟩
    refine ⟨before, behind, rfl, by rw [hg, hn]; rfl, fun d hd m hm => ?_, fun d hd m hm => ?_⟩
    · obtain ⟨k, hk, rfl⟩ := Option.map_eq_some_iff.1 ((hg d).symm.trans hm)
      exact (hφ d c k n hk hn).2 (hb d hd k hk)
    · obtain ⟨k, hk, rfl⟩ := Option.map_eq_some_iff.1 ((hg d).symm.trans hm)
      have := ha d hd k hk
      have := hφ c d n k hn hk
      omega

theorem wins_append_iff {cs : List Candidate} {before rest : List Char} {c : Candidate} {b : Nat} :
    Wins cs (before ++ rest) (byteLength before) c b ↔
      ∃ n, winner? rest cs = some (c, n) ∧ b = byteLength (rest.take n) := by
  simp only [winner?_eq_some_iff]
  exact isFirstGreatest_map_iff (fun d => d.pattern.matchAt_append before rest)
    fun _ _ _ _ hn hm => Pattern.byteLength_lt_iff hn hm

theorem stuck_append_iff {cs : List Candidate} {before rest : List Char} :
    Stuck cs (before ++ rest) (byteLength before) ↔ winner? rest cs = none := by
  simp [Stuck, winner?_eq_none_iff, Pattern.matchAt_append]

/-- A winner takes the beginning of the text, one character at least. -/
theorem winner?_split {s : List Char} {cs : List Candidate} {c : Candidate} {n : Nat}
    (h : winner? s cs = some (c, n)) :
    ∃ taken rest, s = taken ++ rest ∧ n = taken.length ∧ taken ≠ [] := by
  obtain ⟨_, _, _, hc, _⟩ := winner?_eq_some_iff.1 h
  have hpos := Pattern.prefixLength?_pos hc
  have hle := Pattern.le_length_of_prefixLength? hc
  have hlen : (s.take n).length = n := by simp only [List.length_take]; omega
  exact ⟨s.take n, s.drop n, (List.take_append_drop n s).symm, hlen.symm,
    fun hnil => by simp only [hnil, List.length_nil] at hlen; omega⟩

end GrammarLab.Tokenizer
