import GrammarLab.Proofs.Matcher.Confidence
import GrammarLab.Proofs.Matcher.Lengths
import GrammarLab.Proofs.Matcher.Soundness

/-!
# Tokens kept for the rest

A loop or an optional element leaves as many tokens as the rest of its sequence needs at least. That
keeps nothing back that could be taken: where such an element stops though it could go on, the rest
has no word that is shorter than what is left.

    loop stops at next, where it could go on → next.length ≤ reserve   (length_le_of_loop)
    (walkElement ls e rest left).result = .ok next → MayGoOn ls e rest left next →
      Derives v (.elements rest) word → next.length ≤ word.length       (minTokens_reserves)
-/

namespace GrammarLab.Matcher

open Body Pattern

/-! ## What a loop leaves -/

section

variable {once : List String → Walk (List String)} {reserve rounds : Nat}
  {halts : List String → Bool} {left next further : List String}

/-- A loop that could go on where it stops has no more left than it has to leave, or has used up its
rounds. The induction is on the rounds, of which each takes a token. -/
theorem length_le_of_loop (hloop : (loop once reserve halts rounds left).result = .ok next)
    (hhalts : halts next = false) (honce : (once next).result = .ok further)
    (htakes : further.length < next.length) :
    next.length ≤ reserve ∨ next.length + rounds ≤ left.length := by
  induction rounds generalizing left with
  | zero =>
    obtain rfl : left = next := by simpa [loop, Walk.ok] using hloop
    exact .inr (Nat.le_refl _)
  | succ rounds ih =>
    rw [loop] at hloop
    split at hloop
    · rename_i hstop
      obtain rfl : left = next := by simpa [Walk.ok] using hloop
      exact .inl (by simpa [hhalts] using hstop)
    · cases hfirst : (once left).result with
      | error f =>
        obtain rfl : left = next := by simpa [hfirst] using hloop
        simp [hfirst] at honce
      | ok behind =>
        simp only [hfirst] at hloop
        split at hloop
        · have := ih hloop
          omega
        · obtain rfl : left = next := by simpa using hloop
          obtain rfl : behind = further := by simpa [hfirst] using honce
          contradiction

/-- An element that may take more where it stops has no more left than it has to leave. One that is
optional may take more if it has taken nothing. -/
theorem length_le_of_applyModifier {modifier : Modifier} (hmodifier : modifier ≠ .once)
    (h : (applyModifier modifier once reserve halts left).result = .ok next)
    (hmay : modifier.isRepeating = true ∨ next = left) (hhalts : halts next = false)
    (honce : (once next).result = .ok further) (htakes : further.length < next.length) :
    next.length ≤ reserve := by
  cases modifier with
  | once => exact absurd rfl hmodifier
  | optional =>
    obtain rfl : next = left := by simpa [Modifier.isRepeating] using hmay
    have := length_le_of_loop h hhalts honce htakes
    omega
  | zeroOrMore =>
    have := length_le_of_loop h hhalts honce htakes
    omega
  | oneOrMore =>
    simp only [applyModifier, Walk.andThen] at h
    cases hfirst : (once left).result with
    | error f => simp [hfirst] at h
    | ok behind =>
      simp only [hfirst] at h
      have := length_le_of_loop h hhalts honce htakes
      omega

end

/-! ## Walks -/

/-- The element could take more in front of `next`: it is repeated or has not taken anything, no
token that the next terminal accepts stops it, and one more occurrence takes some. -/
structure MayGoOn (ls : Literals) (e : Element) (rest : List Element) (left next : List String) :
    Prop where
  again : e.isRepeating = true ∨ next = left
  not_halted : haltsBefore ls e.content (nextTerminal? rest) next = false
  takes : ∃ further, (walkContent ls e.content next).result = .ok further ∧
    further.length < next.length

theorem length_le_minTokens {ls : Literals} {e : Element} {rest : List Element}
    {left next : List String} (hmodifier : e.modifier ≠ .once)
    (h : (walkElement ls e rest left).result = .ok next) (hmay : MayGoOn ls e rest left next) :
    next.length ≤ minTokens rest := by
  obtain ⟨further, honce, htakes⟩ := hmay.takes
  exact length_le_of_applyModifier hmodifier h hmay.again hmay.not_halted honce htakes

/-- What a sequence needs at least, it needs: its words have as many tokens, whatever vocabulary
they are read by, and a walk that succeeds takes as many, from whichever token on. So what an
element leaves though it could take more is no more than what every word of the rest of its sequence
has. -/
theorem minTokens_reserves (es : List Element) :
    (∀ v word, Derives v (.elements es) word → minTokens es ≤ word.length) ∧
    (∀ ls (tokens : List String) start openNames d,
      (walkElements ls es (tokens.drop start) openNames).result = .ok d →
        ∃ taken, tokens.drop start = taken ++ d.left ∧
          Derives (.ofLiterals ls) (.elements es) taken ∧ minTokens es ≤ taken.length) ∧
    ∀ ls before e rest left next, es = before ++ e :: rest → e.modifier ≠ .once →
      (walkElement ls e rest left).result = .ok next → MayGoOn ls e rest left next →
        ∀ v word, Derives v (.elements rest) word → next.length ≤ word.length := by
  have hwords : ∀ (es : List Element) v word, Derives v (.elements es) word →
      minTokens es ≤ word.length := fun _ _ _ h => partMinTokens_le h
  refine ⟨hwords es, fun ls tokens start openNames d hwalk => ?_,
    fun ls before e rest left next _ hmodifier hwalk hmay v word hword => ?_⟩
  · obtain ⟨taken, hleft, hfits⟩ := fits_walkElements es hwalk
    have hderives := derives_of_fits hfits
    exact ⟨taken, hleft, hderives, hwords es _ _ hderives⟩
  · exact Nat.le_trans (length_le_minTokens hmodifier hwalk hmay) (hwords rest v word hword)

/-- `( '(' args ')' | ID+ ID )` -/
def argumentsElement : Element :=
  ⟨.group [⟨[⟨.literal "'('".toList, .once, true⟩, ⟨.rule "args", .once, true⟩,
      ⟨.literal "')'".toList, .once, true⟩], none, [], 2⟩,
    ⟨[⟨.token "ID", .oneOrMore, true⟩, ⟨.token "ID", .once, true⟩], none, [], 17⟩], .once, true⟩

/-- `ID*` -/
def namesElement : Element := ⟨.token "ID", .zeroOrMore, true⟩

theorem minTokens_argumentsElement :
    (∃ taken, ["INT", "ID", "ID", "ID", "ID"].drop 1 = taken ++ [] ∧
      Derives (.ofLiterals ⟨[]⟩) (.elements [namesElement, argumentsElement]) taken ∧
      minTokens [namesElement, argumentsElement] ≤ taken.length) ∧
    (walkElement ⟨[]⟩ namesElement [argumentsElement] ["ID", "ID", "ID", "ID"]).result =
      .ok ["ID", "ID"] ∧
    MayGoOn ⟨[]⟩ namesElement [argumentsElement] ["ID", "ID", "ID", "ID"] ["ID", "ID"] ∧
    ∃ taken, Derives (.ofLiterals ⟨[]⟩) (.elements [argumentsElement]) taken ∧
      minTokens [argumentsElement] ≤ taken.length ∧ ["ID", "ID"].length ≤ taken.length := by
  have hwalk : (walkElements ⟨[]⟩ [namesElement, argumentsElement]
      (["INT", "ID", "ID", "ID", "ID"].drop 1) []).result = .ok ⟨[], []⟩ := rfl
  have hfirst : (walkElement ⟨[]⟩ namesElement [argumentsElement] ["ID", "ID", "ID", "ID"]).result =
      .ok ["ID", "ID"] := rfl
  have hmay : MayGoOn ⟨[]⟩ namesElement [argumentsElement] ["ID", "ID", "ID", "ID"]
      ["ID", "ID"] :=
    ⟨.inl rfl, rfl, ["ID"], rfl, by decide⟩
  have hrest : (walkElements ⟨[]⟩ [argumentsElement] (["ID", "ID"].drop 0) []).result =
      .ok ⟨[], []⟩ := rfl
  obtain ⟨-, htaken, hleaves⟩ := minTokens_reserves [namesElement, argumentsElement]
  obtain ⟨hwords, hbehind, -⟩ := minTokens_reserves [argumentsElement]
  obtain ⟨taken, -, hderives, -⟩ := hbehind _ _ _ _ _ hrest
  exact ⟨htaken _ _ _ _ _ hwalk, hfirst, hmay, taken, hderives, hwords _ _ hderives,
    hleaves _ [] _ _ _ _ rfl (by decide) hfirst hmay _ _ hderives⟩

end GrammarLab.Matcher
