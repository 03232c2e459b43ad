import GrammarLab.Proofs.Tokenizer.Munch

/-!
# Tokens and errors tile the input

Every byte of the input belongs to one token or to one unmatched character. Both know the text they
stand for and the line and column where it starts, however many matches a token was put together
from.

    (t.tokenize s).events.flatMap Event.text = s                  (flatMap_text_tokenize)
    Tiles 0 (byteLength s) (t.tokenize s).spans
-/

namespace GrammarLab.Tokenizer

open Text

/-! ## Spans -/

def Token.span (t : Token) : Nat × Nat := (t.start, t.stop)

def Unmatched.stop (u : Unmatched) : Nat := u.offset + u.character.utf8Size

def Unmatched.span (u : Unmatched) : Nat × Nat := (u.offset, u.stop)

def Event.span : Event → Nat × Nat
  | .token t => t.span
  | .unmatched u => u.span

def Event.text : Event → List Char
  | .token t => t.value
  | .unmatched u => [u.character]

/-- The spans of tokens and errors, merged in order of their starts. -/
def Result.spans (r : Result) : List (Nat × Nat) :=
  List.merge (r.tokens.map Token.span) (r.errors.map Unmatched.span) fun a b => a.1 ≤ b.1

/-- The spans are not empty, and each begins where the one before it ends. -/
def Tiles (start stop : Nat) : List (Nat × Nat) → Prop
  | [] => start = stop
  | a :: spans => a.1 = start ∧ a.1 < a.2 ∧ Tiles a.2 stop spans

/-- What a result has to be for the input. -/
structure Result.Covers (r : Result) (s : List Char) : Prop where
  tiles : Tiles 0 (byteLength s) r.spans
  tokens_ascending : r.tokens.Pairwise fun t u => t.stop ≤ u.start
  errors_ascending : r.errors.Pairwise fun u v => u.stop ≤ v.offset
  value : ∀ t ∈ r.tokens, slice? s t.start t.stop = some t.value
  character : ∀ u ∈ r.errors, slice? s u.offset u.stop = some [u.character]
  token_place : ∀ t ∈ r.tokens, t.place = placeAt s t.start
  error_place : ∀ u ∈ r.errors, u.place = placeAt s u.offset
  /-- Without errors the tokens spell the input. -/
  spells : r.errors = [] → r.tokens.flatMap (·.value) = s

/-! ## Lemmas on tilings -/

theorem Tiles.start_le {spans : List (Nat × Nat)} {start stop : Nat} (h : Tiles start stop spans) :
    ∀ a ∈ spans, start ≤ a.1 := by
  induction spans generalizing start with
  | nil => simp
  | cons b spans ih =>
    obtain ⟨rfl, hlt, hrest⟩ := h
    intro a ha
    rcases List.mem_cons.1 ha with rfl | ha
    · exact Nat.le_refl _
    · have := ih hrest a ha
      omega

theorem Tiles.pairwise {spans : List (Nat × Nat)} {start stop : Nat}
    (h : Tiles start stop spans) : spans.Pairwise fun a b => a.1 < a.2 ∧ a.2 ≤ b.1 := by
  induction spans generalizing start with
  | nil => exact .nil
  | cons a spans ih =>
    obtain ⟨-, hlt, hrest⟩ := h
    exact .cons (fun b hb => ⟨hlt, hrest.start_le b hb⟩) (ih hrest)

/-! ## Spans of events -/

theorem lt_of_segments {cs : List Candidate} {s : List Char} {start stop : Nat} {c : Candidate}
    (h : Segments cs s start stop c) : start < stop := by
  have hpos : ∀ {p c n}, Wins cs s p c n → 0 < n := by
    rintro p c n ⟨_, _, _, hmatch, _⟩
    exact Pattern.matchAt_pos hmatch
  induction h with
  | first hw => have := hpos hw; omega
  | next _ _ hw ih => have := hpos hw; omega

theorem Munched.tiles {cs : List Candidate} {s : List Char} {offset : Nat} {es : List Event}
    (h : Munched cs s offset es) : Tiles offset (byteLength s) (es.map Event.span) := by
  induction h with
  | finished => rfl
  | @unmatched _ ch _ _ _ _ ih =>
    have := ch.utf8Size_pos
    exact ⟨rfl, by simp only [Event.span, Unmatched.span, Unmatched.stop]; omega, ih⟩
  | token ht _ ih => exact ⟨rfl, lt_of_segments ht.segments, ih⟩

/-- Events hold the text from their offset on. -/
theorem Munched.flatMap_text {cs : List Candidate} {s : List Char} {offset : Nat}
    {es : List Event} (h : Munched cs s offset es) (before rest : List Char)
    (hs : s = before ++ rest) (ho : offset = byteLength before) :
    es.flatMap Event.text = rest := by
  induction h generalizing before rest with
  | finished =>
    rw [hs, byteLength_append] at ho
    exact (byteLength_eq_zero (by omega)).symm
  | @unmatched _ ch _ hch _ _ ih =>
    subst ho
    obtain ⟨b, rest', hs', hb⟩ := charAt?_eq_some hch
    obtain ⟨rfl, rfl⟩ := append_inj_of_byteLength (hs.symm.trans hs') hb.symm
    have := ih (before ++ [ch]) rest' (by simp [hs]) (by simp [byteLength])
    simp [Event.text, this]
  | @token t _ _ ht _ ih =>
    obtain ⟨b, behind, hs', hb, hlen⟩ := slice?_eq_some ht.value
    have hlt := lt_of_segments ht.segments
    obtain ⟨rfl, rfl⟩ := append_inj_of_byteLength
      (hs.symm.trans (hs'.trans (List.append_assoc ..))) (ho.symm.trans hb.symm)
    have := ih (before ++ t.value) behind hs' (by rw [byteLength_append]; omega)
    simp [Event.text, this]

theorem flatMap_text_tokenize (t : Tokenizer) (s : List Char) :
    (t.tokenize s).events.flatMap Event.text = s :=
  (munched_tokenize t s).flatMap_text [] s rfl rfl

/-! ## Tokens and errors apart -/

theorem tokens_cons_token (t : Token) (es : List Event) :
    (Result.mk (.token t :: es)).tokens = t :: (Result.mk es).tokens := rfl

theorem tokens_cons_unmatched (u : Unmatched) (es : List Event) :
    (Result.mk (.unmatched u :: es)).tokens = (Result.mk es).tokens := rfl

theorem errors_cons_token (t : Token) (es : List Event) :
    (Result.mk (.token t :: es)).errors = (Result.mk es).errors := rfl

theorem errors_cons_unmatched (u : Unmatched) (es : List Event) :
    (Result.mk (.unmatched u :: es)).errors = u :: (Result.mk es).errors := rfl

/-- Merging tokens and errors gives back the order of the events. -/
theorem spans_eq (es : List Event)
    (h : (es.map Event.span).Pairwise fun a b => a.1 < b.1) :
    (Result.mk es).spans = es.map Event.span := by
  induction es with
  | nil => simp [Result.spans, Result.tokens, Result.errors]
  | cons e es ih =>
    rw [List.map_cons, List.pairwise_cons] at h
    obtain ⟨hfirst, hrest⟩ := h
    have hes := ih hrest
    unfold Result.spans at hes ⊢
    cases e with
    | token t =>
      rw [tokens_cons_token, errors_cons_token, List.map_cons, List.map_cons, ← hes]
      cases hB : (Result.mk es).errors with
      | nil => simp [Event.span]
      | cons u us =>
        have hu : Event.unmatched u ∈ es := mem_errors.1 (hB ▸ List.mem_cons_self)
        have hle := hfirst u.span (List.mem_map.2 ⟨_, hu, rfl⟩)
        have hle' : t.span.1 ≤ u.span.1 := Nat.le_of_lt hle
        simp [hle', Event.span]
    | unmatched u =>
      rw [tokens_cons_unmatched, errors_cons_unmatched, List.map_cons, List.map_cons, ← hes]
      cases hA : (Result.mk es).tokens with
      | nil => simp [Event.span]
      | cons t ts =>
        have ht : Event.token t ∈ es := mem_tokens.1 (hA ▸ List.mem_cons_self)
        have hlt := hfirst t.span (List.mem_map.2 ⟨_, ht, rfl⟩)
        have hlt' : ¬t.span.1 ≤ u.span.1 := Nat.not_le.2 hlt
        simp [hlt', Event.span]

theorem flatMap_text_of_errors_nil (es : List Event) (h : (Result.mk es).errors = []) :
    es.flatMap Event.text = (Result.mk es).tokens.flatMap (·.value) := by
  induction es with
  | nil => rfl
  | cons e es ih =>
    cases e with
    | token t =>
      rw [tokens_cons_token, List.flatMap_cons, List.flatMap_cons, ih h]
      rfl
    | unmatched u => rw [errors_cons_unmatched] at h; cases h

/-- Order among the events is order among the tokens and among the errors. -/
theorem pairwise_of_events {es : List Event} {R : Nat × Nat → Nat × Nat → Prop}
    (h : (es.map Event.span).Pairwise R) :
    (Result.mk es).tokens.Pairwise (fun t u => R t.span u.span) ∧
      (Result.mk es).errors.Pairwise fun u v => R u.span v.span := by
  rw [List.pairwise_map] at h
  unfold Result.tokens Result.errors
  rw [List.pairwise_filterMap, List.pairwise_filterMap]
  constructor
  · refine h.imp fun hR t ht u hu => ?_
    split at ht <;> split at hu <;> simp_all [Event.span]
  · refine h.imp fun hR u hu v hv => ?_
    split at hu <;> split at hv <;> simp_all [Event.span]

/-! ## Top theorem -/

/-- Tokens and errors tile the input and tell the truth about it. -/
theorem tokenize_covers_input (g : Grammar) (o : TokenizeOptions) (s : List Char) :
    ((ofGrammar g o).tokenize s).Covers s := by
  have hm := munched_tokenize (ofGrammar g o) s
  obtain ⟨htokens, herrors⟩ := hm.boundary .start
  have hpair := hm.tiles.pairwise
  obtain ⟨htok, herr⟩ := pairwise_of_events hpair
  refine ⟨?_, ?_, ?_, ?_, ?_, ?_, ?_, ?_⟩
  · rw [show ((ofGrammar g o).tokenize s).spans = _ from
      spans_eq _ (hpair.imp fun h => Nat.lt_of_lt_of_le h.1 h.2)]
    exact hm.tiles
  · exact htok.imp fun h => h.2
  · exact herr.imp fun h => h.2
  · intro t ht
    obtain ⟨-, c, hc⟩ := htokens t (mem_tokens.1 ht)
    exact hc.value
  · intro u hu
    obtain ⟨-, -, -, hch⟩ := herrors u (mem_errors.1 hu)
    obtain ⟨before, rest, rfl, hb⟩ := charAt?_eq_some hch
    have := slice?_append before [u.character] rest
    simpa [Unmatched.stop, ← hb, byteLength] using this
  · intro t ht
    obtain ⟨-, c, hc⟩ := htokens t (mem_tokens.1 ht)
    exact hc.place
  · intro u hu
    obtain ⟨-, -, he, -⟩ := herrors u (mem_errors.1 hu)
    rw [he]
  · intro hnil
    exact (flatMap_text_of_errors_nil _ hnil).symm.trans (flatMap_text_tokenize (ofGrammar g o) s)

end GrammarLab.Tokenizer
