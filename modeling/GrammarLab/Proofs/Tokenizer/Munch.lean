import GrammarLab.Proofs.Tokenizer.Winner

/-!
# Maximal munch

What tokenizing makes of an input, said without its loop: at which offsets scanning stops, which
stretches are tokens, and the list of all events. The loop makes exactly that list.

    Munched cs s 0 es ↔ es = scan cs 0 .start none s              (munched_iff)
-/

namespace GrammarLab.Tokenizer

open Text

/-! ## The specification -/

/-- The offsets that scanning comes to: behind each match, and behind each character at which it is
stuck. -/
inductive Boundary (cs : List Candidate) (s : List Char) : Nat → Prop
  | start : Boundary cs s 0
  | segment {p c n} : Boundary cs s p → Wins cs s p c n → Boundary cs s (p + n)
  | skipped {p ch} :
      Boundary cs s p → Stuck cs s p → charAt? s p = some ch → Boundary cs s (p + ch.utf8Size)

/-- One match after the other from `start` on. The last one is won by the candidate, all others by
candidates that ask for more. -/
inductive Segments (cs : List Candidate) (s : List Char) (start : Nat) : Nat → Candidate → Prop
  | first {c n} : Wins cs s start c n → Segments cs s start (start + n) c
  | next {p d c n} : Segments cs s start p d → d.more = true → Wins cs s p c n →
      Segments cs s start (p + n) c

/-- `t` is a token whose last match is won by `c`. A candidate that asks for more ends a token only
where no more can come. -/
structure IsToken (cs : List Candidate) (s : List Char) (t : Token) (c : Candidate) : Prop where
  segments : Segments cs s t.start t.stop c
  ends : c.more = true → t.stop = byteLength s ∨ Stuck cs s t.stop
  value : slice? s t.start t.stop = some t.value
  place : t.place = placeAt s t.start
  type : t.type = c.type
  skipped : t.skipped = c.skipped
  channel : t.channel = c.channel

/-- The events from the offset on. -/
inductive Munched (cs : List Candidate) (s : List Char) : Nat → List Event → Prop
  | finished : Munched cs s (byteLength s) []
  | unmatched {p ch es} : charAt? s p = some ch → Stuck cs s p →
      Munched cs s (p + ch.utf8Size) es → Munched cs s p (.unmatched ⟨p, placeAt s p, ch⟩ :: es)
  | token {t c es} : IsToken cs s t c → Munched cs s t.stop es →
      Munched cs s t.start (.token t :: es)

/-! ## Lemmas on the loop -/

theorem scan_stuck {cs : List Candidate} {ch : Char} {s : List Char}
    (h : winner? (ch :: s) cs = none) (offset : Nat) (place : Place) (pending : Option Draft) :
    scan cs offset place pending (ch :: s) =
      flushed pending ++
        .unmatched ⟨offset, place, ch⟩ :: scan cs (offset + ch.utf8Size) (place.next ch) none s := by
  rw [scan]; simp only [h]

/-- The draft that a match of `c` leads to. -/
def drafted (offset : Nat) (place : Place) (pending : Option Draft) (taken : List Char)
    (c : Candidate) : Draft :=
  (pending.getD ⟨offset, place, [], c⟩).extend taken c

theorem scan_wins {cs : List Candidate} {taken rest : List Char} {c : Candidate}
    (h : winner? (taken ++ rest) cs = some (c, taken.length)) (offset : Nat) (place : Place)
    (pending : Option Draft) :
    scan cs offset place pending (taken ++ rest) =
      let d := drafted offset place pending taken c
      if c.more then scan cs (offset + byteLength taken) (place.along taken) (some d) rest
      else .token d.token ::
        scan cs (offset + byteLength taken) (place.along taken) none rest := by
  cases taken with
  | nil =>
    obtain ⟨taken, _, _, hn, hne⟩ := winner?_split h
    exact absurd (List.eq_nil_of_length_eq_zero hn.symm) hne
  | cons ch taken =>
    rw [List.cons_append] at h ⊢
    rw [scan]
    simp [h, drafted]

/-- A token that is pending where nothing matches is closed first. -/
theorem scan_flush {cs : List Candidate} {s : List Char} (h : winner? s cs = none) (offset : Nat)
    (place : Place) (d : Draft) :
    scan cs offset place (some d) s = .token d.token :: scan cs offset place none s := by
  cases s with
  | nil => simp [scan, flushed]
  | cons ch s => rw [scan_stuck h, scan_stuck h]; simp [flushed]

/-! ## What a draft is -/

/-- The draft holds the matches that end in front of `rest`. -/
structure Draft.Fits (cs : List Candidate) (s rest : List Char) (d : Draft) : Prop where
  segments : Segments cs s d.start (d.start + byteLength d.text) d.candidate
  stands : ∃ before, s = before ++ d.text ++ rest ∧ d.start = byteLength before ∧
    d.place = Place.start.along before

/-- A pending draft fits and asks for more. -/
def PendingFits (cs : List Candidate) (s rest : List Char) (pending : Option Draft) : Prop :=
  ∀ d ∈ pending, d.Fits cs s rest ∧ d.candidate.more = true

theorem Draft.Fits.length_eq {cs : List Candidate} {before rest : List Char} {d : Draft}
    (h : d.Fits cs (before ++ rest) rest) : d.start + byteLength d.text = byteLength before := by
  obtain ⟨b, hs, hb, -⟩ := h.stands
  rw [List.append_cancel_right hs, byteLength_append, hb]

/-- One match more keeps the draft fitting. -/
theorem fits_drafted {cs : List Candidate} {taken rest : List Char} {c : Candidate}
    (before : List Char) (pending : Option Draft)
    (hw : winner? (taken ++ rest) cs = some (c, taken.length))
    (hp : PendingFits cs (before ++ (taken ++ rest)) (taken ++ rest) pending) :
    (drafted (byteLength before) (Place.start.along before) pending taken c).Fits cs
      (before ++ (taken ++ rest)) rest := by
  have hwins : Wins cs (before ++ (taken ++ rest)) (byteLength before) c (byteLength taken) :=
    wins_append_iff.2 ⟨taken.length, hw, by simp⟩
  cases pending with
  | none =>
    refine ⟨?_, before, ?_, rfl, rfl⟩
    · simpa [drafted, Draft.extend] using Segments.first hwins
    · simp [drafted, Draft.extend]
  | some d =>
    obtain ⟨hd, hmore⟩ := hp d rfl
    have hl := hd.length_eq
    obtain ⟨b, hs, hb, hplace⟩ := hd.stands
    refine ⟨?_, b, ?_, hb, hplace⟩
    · have := Segments.next hd.segments hmore (hl ▸ hwins)
      simpa [drafted, Draft.extend, Nat.add_assoc] using this
    · simpa [drafted, Draft.extend] using hs

theorem isToken_token {cs : List Candidate} {s rest : List Char} {d : Draft} (h : d.Fits cs s rest)
    (he : d.candidate.more = true → winner? rest cs = none) :
    IsToken cs s d.token d.candidate := by
  obtain ⟨before, hs, hb, hplace⟩ := h.stands
  refine ⟨h.segments, fun hm => .inr ?_, ?_, ?_, rfl, rfl, rfl⟩
  · have : d.token.stop = byteLength (before ++ d.text) := by
      simp [Draft.token, hb]
    rw [this, hs]
    exact stuck_append_iff.2 (he hm)
  · simpa [Draft.token, hs, hb] using slice?_append before d.text rest
  · have := placeAt_append before (d.text ++ rest)
    simpa [Draft.token, hs, hb, hplace] using this.symm

/-! ## The loop makes what is specified -/

/-- The offset from which the events of the loop tell. -/
def openedAt (offset : Nat) (pending : Option Draft) : Nat := (pending.map (·.start)).getD offset

theorem pendingFits_none {cs : List Candidate} {s rest : List Char} :
    PendingFits cs s rest none := by simp [PendingFits]

/-- Where nothing matches, a pending token ends and the rest goes on as from a fresh start. -/
theorem munched_flush {cs : List Candidate} {s before rest : List Char} {pending : Option Draft}
    (hs : s = before ++ rest) (hp : PendingFits cs s rest pending) (hw : winner? rest cs = none)
    (hm : Munched cs s (byteLength before)
      (scan cs (byteLength before) (Place.start.along before) none rest)) :
    Munched cs s (openedAt (byteLength before) pending)
      (scan cs (byteLength before) (Place.start.along before) pending rest) := by
  cases pending with
  | none => exact hm
  | some d =>
    obtain ⟨hd, -⟩ := hp d rfl
    have hl : d.token.stop = byteLength before := by
      subst hs
      exact hd.length_eq
    rw [scan_flush hw]
    exact .token (isToken_token hd fun _ => hw) (hl ▸ hm)

theorem munched_scan {cs : List Candidate} {s rest : List Char} :
    ∀ (before : List Char) (pending : Option Draft), s = before ++ rest →
      PendingFits cs s rest pending →
      Munched cs s (openedAt (byteLength before) pending)
        (scan cs (byteLength before) (Place.start.along before) pending rest) := by
  induction hn : rest.length using Nat.strongRecOn generalizing rest with
  | _ n ih =>
    intro before pending hs hp
    cases hw : winner? rest cs with
    | none =>
      refine munched_flush hs hp hw ?_
      cases rest with
      | nil =>
        simp only [List.append_nil] at hs
        subst hs
        simpa [scan, flushed] using Munched.finished
      | cons ch rest =>
        rw [scan_stuck hw]
        have hplace : Place.start.along before = placeAt s (byteLength before) := by
          rw [hs, placeAt_append]
        have hlt : rest.length < n := by simp only [List.length_cons] at hn; omega
        have hnext := ih _ hlt rfl (before ++ [ch]) none (by simp [hs]) pendingFits_none
        simp only [openedAt, byteLength_append, byteLength, Place.along_append,
          Place.along_singleton] at hnext
        have hch : charAt? s (byteLength before) = some ch := by rw [hs, charAt?_append]
        have hstuck : Stuck cs s (byteLength before) := by rw [hs, stuck_append_iff]; exact hw
        simpa [flushed, hplace] using Munched.unmatched hch hstuck hnext
    | some w =>
      obtain ⟨c, k⟩ := w
      obtain ⟨taken, rest', rfl, rfl, hne⟩ := winner?_split hw
      have hd := fits_drafted before pending hw (hs ▸ hp)
      rw [← hs] at hd
      have hlt : rest'.length < n := by
        have := List.length_pos_iff.2 hne
        simp only [List.length_append] at hn; omega
      have hs' : s = before ++ taken ++ rest' := by rw [hs, List.append_assoc]
      rw [scan_wins hw]
      cases hm : c.more with
      | true =>
        have hfits : PendingFits cs s rest'
            (some (drafted (byteLength before) (Place.start.along before) pending taken c)) := by
          intro d he
          cases he
          exact ⟨hd, hm⟩
        have := ih _ hlt rfl _ _ hs' hfits
        simp only [byteLength_append, Place.along_append] at this
        cases pending <;> simpa [openedAt, drafted, Draft.extend] using this
      | false =>
        have hrest := ih _ hlt rfl _ none hs' pendingFits_none
        simp only [byteLength_append, Place.along_append] at hrest
        have htoken := isToken_token hd fun h => by simp [drafted, Draft.extend, hm] at h
        have hstop : (drafted (byteLength before) (Place.start.along before) pending taken c).token.stop
            = byteLength before + byteLength taken := by
          rw [← byteLength_append]
          exact Draft.Fits.length_eq (hs' ▸ hd)
        have hstart : (drafted (byteLength before) (Place.start.along before) pending taken c).token.start
            = openedAt (byteLength before) pending := by cases pending <;> rfl
        rw [← hstart]
        exact .token htoken (by rw [hstop]; exact hrest)

/-! ## Nothing else is specified -/

/-- The loop comes to the end of a run of segments with all of them in its draft. -/
theorem exists_scan_of_segments {cs : List Candidate} {s before rest : List Char} {stop : Nat}
    {c : Candidate} (h : Segments cs s (byteLength before) stop c) (hs : s = before ++ rest) :
    ∃ d taken rest', rest = taken ++ rest' ∧ d.candidate = c ∧ d.Fits cs s rest' ∧
      d.start = byteLength before ∧ stop = byteLength (before ++ taken) ∧
      scan cs (byteLength before) (Place.start.along before) none rest =
        if c.more then
          scan cs (byteLength (before ++ taken)) (Place.start.along (before ++ taken)) (some d) rest'
        else .token d.token ::
          scan cs (byteLength (before ++ taken)) (Place.start.along (before ++ taken)) none rest' := by
  -- One more match of `e`, which makes the draft fit that much more of the text.
  have step : ∀ (b r : List Char) (pending : Option Draft) {e : Candidate} {n : Nat},
      s = b ++ r → PendingFits cs s r pending → Wins cs s (byteLength b) e n →
      ∃ taken rest', r = taken ++ rest' ∧ n = byteLength taken ∧
        (drafted (byteLength b) (Place.start.along b) pending taken e).Fits cs s rest' ∧
        winner? (taken ++ rest') cs = some (e, taken.length) := by
    intro b r pending e n hs hp hwin
    subst hs
    obtain ⟨k, hw, rfl⟩ := wins_append_iff.1 hwin
    obtain ⟨taken, rest', rfl, rfl, -⟩ := winner?_split hw
    exact ⟨taken, rest', rfl, by simp, fits_drafted b pending hw hp, hw⟩
  induction h with
  | first hwin =>
    obtain ⟨taken, rest', rfl, rfl, hfits, hw⟩ :=
      step before rest none hs pendingFits_none hwin
    refine ⟨_, taken, rest', rfl, rfl, hfits, rfl, by simp, ?_⟩
    rw [scan_wins hw]
    simp [Place.along_append]
  | next _ hmore hwin ih =>
    obtain ⟨d, taken, rest', rfl, rfl, hd, hstart, rfl, hscan⟩ := ih
    obtain ⟨more, rest', rfl, rfl, hfits, hw⟩ := step (before ++ taken) rest' (some d)
      (by rw [hs, List.append_assoc]) (fun e he => by cases he; exact ⟨hd, hmore⟩) hwin
    refine ⟨_, taken ++ more, rest', (List.append_assoc ..).symm, rfl, hfits, hstart,
      by simp [Nat.add_assoc], ?_⟩
    rw [hscan, if_pos hmore, scan_wins hw]
    simp [Place.along_append, Nat.add_assoc]

/-- A token is what the draft of its segments makes. -/
theorem IsToken.eq_token {cs : List Candidate} {s rest : List Char} {t : Token} {d : Draft}
    (h : IsToken cs s t d.candidate) (hd : d.Fits cs s rest) (hstart : d.start = t.start)
    (hstop : d.start + byteLength d.text = t.stop) : t = d.token := by
  have hd' := isToken_token hd
  obtain ⟨before, hs, hb, hplace⟩ := hd.stands
  have hvalue : t.value = d.text := by
    have h₁ := slice?_append before d.text rest
    rw [← hs, ← hb, hstop, hstart] at h₁
    exact Option.some.inj (h.value.symm.trans h₁)
  have hp : t.place = d.place := by
    rw [h.place, ← hstart, hb, hs, List.append_assoc, placeAt_append, hplace]
  cases t
  simp only [Draft.token, Token.mk.injEq]
  exact ⟨h.type, hvalue, hstart.symm, hstop.symm, hp, h.skipped, h.channel⟩

theorem Munched.eq_scan {cs : List Candidate} {s : List Char} {offset : Nat} {es : List Event}
    (h : Munched cs s offset es) (before rest : List Char) (hs : s = before ++ rest)
    (ho : offset = byteLength before) :
    es = scan cs (byteLength before) (Place.start.along before) none rest := by
  induction h generalizing before rest with
  | finished =>
    rw [hs, byteLength_append] at ho
    have hr : rest = [] := byteLength_eq_zero (by omega)
    simp [hr, scan, flushed]
  | @unmatched p ch es hch hstuck _ ih =>
    subst ho
    obtain ⟨b, rest', hs', hb⟩ := charAt?_eq_some hch
    obtain ⟨rfl, rfl⟩ := append_inj_of_byteLength (hs.symm.trans hs') hb.symm
    rw [hs, stuck_append_iff] at hstuck
    have := ih (before ++ [ch]) rest' (by simp [hs]) (by simp [byteLength])
    rw [scan_stuck hstuck, this]
    have hplace : placeAt s (byteLength before) = Place.start.along before := by
      rw [hs, placeAt_append]
    simp [flushed, hplace, byteLength, Place.along_append]
  | @token t c es ht _ ih =>
    obtain ⟨d, taken, rest', rfl, rfl, hd, hstart, hstop, hscan⟩ :=
      exists_scan_of_segments (ho ▸ ht.segments) hs
    rw [← List.append_assoc] at hs
    have hlen : d.start + byteLength d.text = t.stop := by
      rw [hstop]
      exact Draft.Fits.length_eq (hs ▸ hd)
    have htoken := ht.eq_token hd (hstart.trans ho.symm) hlen
    have hes := ih (before ++ taken) rest' hs hstop
    rw [hscan, htoken]
    split
    · rename_i hmore
      have hw : winner? rest' cs = none := by
        rcases ht.ends hmore with hend | hstuck
        · rw [hend, hs, byteLength_append] at hstop
          have hr : rest' = [] := byteLength_eq_zero (by omega)
          simp [hr, winner?_eq_none_iff]
        · rw [hstop, hs, stuck_append_iff] at hstuck
          exact hstuck
      rw [scan_flush hw, hes]
    · rw [hes]

theorem munched_iff {cs : List Candidate} {s : List Char} {es : List Event} :
    Munched cs s 0 es ↔ es = scan cs 0 .start none s := by
  constructor
  · intro h
    exact h.eq_scan [] s rfl rfl
  · rintro rfl
    exact munched_scan [] none rfl pendingFits_none

/-! ## Where scanning stops -/

theorem Segments.boundary {cs : List Candidate} {s : List Char} {start stop : Nat}
    {c : Candidate} (h : Segments cs s start stop c) (hb : Boundary cs s start) :
    Boundary cs s stop := by
  induction h with
  | first hw => exact .segment hb hw
  | next _ _ hw ih => exact .segment ih hw

/-- Events tell of boundaries, and unmatched characters of those where nothing matches. -/
theorem Munched.boundary {cs : List Candidate} {s : List Char} {offset : Nat} {es : List Event}
    (h : Munched cs s offset es) (hb : Boundary cs s offset) :
    (∀ t, .token t ∈ es → Boundary cs s t.start ∧ ∃ c, IsToken cs s t c) ∧
      ∀ u, .unmatched u ∈ es → Boundary cs s u.offset ∧ Stuck cs s u.offset ∧
        u = ⟨u.offset, placeAt s u.offset, u.character⟩ ∧
        charAt? s u.offset = some u.character := by
  induction h with
  | finished => simp
  | unmatched hch hstuck _ ih =>
    obtain ⟨iht, ihu⟩ := ih (.skipped hb hstuck hch)
    refine ⟨fun t ht => ?_, fun u hu => ?_⟩
    · rcases List.mem_cons.1 ht with ht | ht
      · cases ht
      · exact iht t ht
    · rcases List.mem_cons.1 hu with hu | hu
      · cases hu
        exact ⟨hb, hstuck, rfl, hch⟩
      · exact ihu u hu
  | token htoken _ ih =>
    obtain ⟨iht, ihu⟩ := ih (htoken.segments.boundary hb)
    refine ⟨fun t ht => ?_, fun u hu => ?_⟩
    · rcases List.mem_cons.1 ht with ht | ht
      · cases ht
        exact ⟨hb, _, htoken⟩
      · exact iht t ht
    · rcases List.mem_cons.1 hu with hu | hu
      · cases hu
      · exact ihu u hu

/-- The loop comes by every boundary. -/
theorem Boundary.reached {cs : List Candidate} {s : List Char} {p : Nat}
    (h : Boundary cs s p) :
    ∃ before rest pending earlier, s = before ++ rest ∧ byteLength before = p ∧
      scan cs 0 .start none s =
        earlier ++ scan cs p (Place.start.along before) pending rest := by
  induction h with
  | start => exact ⟨[], s, none, [], rfl, rfl, rfl⟩
  | segment _ hwin ih =>
    obtain ⟨before, rest, pending, earlier, hs, rfl, hscan⟩ := ih
    obtain ⟨k, hw, rfl⟩ := wins_append_iff.1 (hs ▸ hwin)
    obtain ⟨taken, rest', rfl, rfl, -⟩ := winner?_split hw
    rw [scan_wins hw] at hscan
    simp only [List.take_left]
    split at hscan
    · exact ⟨before ++ taken, rest', _, earlier, by simp [hs], by simp, by
        rw [hscan, Place.along_append]⟩
    · exact ⟨before ++ taken, rest', none, earlier ++ [_], by simp [hs], by simp, by
        rw [hscan, Place.along_append, List.append_assoc]; rfl⟩
  | @skipped _ ch _ hstuck hch ih =>
    obtain ⟨before, rest, pending, earlier, hs, rfl, hscan⟩ := ih
    obtain ⟨b, rest', hs', hb⟩ := charAt?_eq_some hch
    obtain ⟨rfl, rfl⟩ := append_inj_of_byteLength (hs.symm.trans hs') hb.symm
    rw [hs, stuck_append_iff] at hstuck
    rw [scan_stuck hstuck] at hscan
    exact ⟨before ++ [ch], rest', none,
      earlier ++ (flushed pending ++ [.unmatched ⟨byteLength before, Place.start.along before, ch⟩]),
      by simp [hs], by simp [byteLength], by rw [hscan, Place.along_append]; simp⟩

/-- A character at a boundary where nothing matches is recorded. -/
theorem mem_scan_of_stuck {cs : List Candidate} {s : List Char} {p : Nat}
    (hb : Boundary cs s p) (hp : p < byteLength s) (hstuck : Stuck cs s p) :
    ∃ u, .unmatched u ∈ scan cs 0 .start none s ∧ u.offset = p := by
  obtain ⟨before, rest, pending, earlier, hs, rfl, hscan⟩ := hb.reached
  cases rest with
  | nil => simp [hs] at hp
  | cons ch rest =>
    rw [hs, stuck_append_iff] at hstuck
    rw [hscan, scan_stuck hstuck]
    exact ⟨⟨byteLength before, Place.start.along before, ch⟩, by simp, rfl⟩

/-! ## Results -/

theorem mem_tokens {r : Result} {t : Token} : t ∈ r.tokens ↔ .token t ∈ r.events := by
  unfold Result.tokens
  rw [List.mem_filterMap]
  constructor
  · rintro ⟨e, he, ht⟩
    cases e <;> simp_all
  · intro h
    exact ⟨_, h, rfl⟩

theorem mem_errors {r : Result} {u : Unmatched} : u ∈ r.errors ↔ .unmatched u ∈ r.events := by
  unfold Result.errors
  rw [List.mem_filterMap]
  constructor
  · rintro ⟨e, he, hu⟩
    cases e <;> simp_all
  · intro h
    exact ⟨_, h, rfl⟩

theorem munched_tokenize (t : Tokenizer) (s : List Char) :
    Munched t.candidates s 0 (t.tokenize s).events := munched_iff.2 rfl

/-- Tokenizing is maximal munch: the events are those that the specification allows, tokens are
runs of matches of which only the last is not asked to go on, and the errors are the boundaries
where nothing matches. Implicit literals come before rules. -/
theorem tokenize_is_maximal_munch (g : Grammar) (o : TokenizeOptions) (s : List Char) :
    let cs := (if o.implicitLiterals then implicitCandidates g else []) ++
      (g.compileRules (selectedRules g o)).filterMap candidateOf?
    let r := (ofGrammar g o).tokenize s
    (∀ es, Munched cs s 0 es ↔ es = r.events) ∧
      (∀ t ∈ r.tokens, Boundary cs s t.start ∧ ∃ c, IsToken cs s t c) ∧
      ∀ p, (∃ u ∈ r.errors, u.offset = p) ↔
        Boundary cs s p ∧ p < byteLength s ∧ Stuck cs s p := by
  intro cs r
  have hm : Munched cs s 0 r.events := munched_tokenize (ofGrammar g o) s
  obtain ⟨htokens, herrors⟩ := hm.boundary .start
  refine ⟨fun es => munched_iff, fun t ht => htokens t (mem_tokens.1 ht), fun p => ?_⟩
  constructor
  · rintro ⟨u, hu, rfl⟩
    obtain ⟨hb, hstuck, -, hch⟩ := herrors u (mem_errors.1 hu)
    refine ⟨hb, ?_, hstuck⟩
    obtain ⟨before, rest, rfl, hlen⟩ := charAt?_eq_some hch
    have := u.character.utf8Size_pos
    simp only [byteLength_append, byteLength]; omega
  · rintro ⟨hb, hp, hstuck⟩
    obtain ⟨u, hu, rfl⟩ := mem_scan_of_stuck hb hp hstuck
    exact ⟨u, mem_errors.2 hu, rfl⟩

end GrammarLab.Tokenizer
