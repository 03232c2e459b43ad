import GrammarLab.Proofs.Matcher.Language

/-!
# Predictable alternatives

The types that the words of a part begin with, and the parts in which one token tells each time how
to go on: the alternatives of a group begin with different types, and what can be left out or
repeated begins with none that may come behind it.

    Starts ls (.elements (e :: es)) type →
      Starts ls (.element e) type ∨ Vanishes ls (.element e) ∧ Starts ls (.elements es) type
    Predictable ls follow (.content c) → no word of c is empty               (Predictable.ne_nil)
-/

namespace GrammarLab.Matcher

open Body Pattern

/-! ## What comes first -/

/-- Some word of the part begins with the type. -/
def Starts (ls : Literals) (part : Part) (type : String) : Prop :=
  ∃ word rest, Fits ls part (type :: word) rest

/-- The part can be left out. -/
def Vanishes (ls : Literals) (part : Part) : Prop := ∃ rest, Fits ls part [] rest

/-- The types that may come next in front of the elements, with those of `follow` behind them. -/
def Comes (ls : Literals) (es : List Element) (follow : String → Prop) (type : String) : Prop :=
  Starts ls (.elements es) type ∨ Vanishes ls (.elements es) ∧ follow type

/-- `Predictable ls follow part`: with the types of `follow` behind the part, one token tells each
time how to go on. No alternative of a group can be left out, and no type starts two of them. No
type starts both the content of an element that is optional or repeated and what may come behind it.
Behind the content of a repeated element also comes the content once more. -/
inductive Predictable (ls : Literals) : (String → Prop) → Part → Prop
  | simple {follow content} : content ≠ .endOfInput → (∀ bs, content ≠ .group bs) →
      Predictable ls follow (.content content)
  | group {follow bs} : Predictable ls follow (.branches bs) →
      Predictable ls follow (.content (.group bs))
  | branches {follow bs} : (∀ b ∈ bs, ¬Vanishes ls (.elements b.elements)) →
      bs.Pairwise (fun b b' => ∀ type, Starts ls (.elements b.elements) type →
        ¬Starts ls (.elements b'.elements) type) →
      (∀ b ∈ bs, Predictable ls follow (.elements b.elements)) →
      Predictable ls follow (.branches bs)
  | nil {follow} : Predictable ls follow (.elements [])
  | cons {follow e es} : (e.modifier ≠ .once → ∀ type, Starts ls (.content e.content) type →
        ¬Comes ls es follow type) →
      Predictable ls (fun type => e.isRepeating = true ∧ Starts ls (.content e.content) type ∨
        Comes ls es follow type) (.content e.content) →
      Predictable ls follow (.elements es) → Predictable ls follow (.elements (e :: es))

/-- The list is empty or goes on with one of the types. -/
def Opens (follow : String → Prop) (types : List String) : Prop :=
  ∀ type tail, types = type :: tail → follow type

section

variable {ls : Literals} {follow : String → Prop} {word rest types : List String} {type : String}

theorem starts_of_fits {part : Part} (h : Fits ls part word rest) (hne : word ≠ []) :
    ∃ type tail, word = type :: tail ∧ Starts ls part type := by
  obtain ⟨type, tail, rfl⟩ := List.exists_cons_of_ne_nil hne
  exact ⟨type, tail, rfl, tail, rest, h⟩

theorem opens_comes {es : List Element} (h : Fits ls (.elements es) word rest)
    (hrest : Opens follow rest) : Opens (Comes ls es follow) (word ++ rest) := by
  rintro type tail heq
  cases word with
  | nil => exact .inr ⟨⟨rest, h⟩, hrest type tail heq⟩
  | cons first word =>
    obtain ⟨rfl, -⟩ := List.cons.inj heq
    exact .inl ⟨word, rest, h⟩

/-- A predictable content takes a token. -/
theorem Predictable.ne_nil {content : Content} (h : Predictable ls follow (.content content))
    (hfits : Fits ls (.content content) word rest) : word ≠ [] := by
  cases h with
  | simple hend hgroup =>
    cases hfits with
    | group => exact absurd rfl (hgroup _)
    | atEnd => exact absurd rfl hend
    | _ => simp
  | group h =>
    rintro rfl
    cases h with
    | branches hvanish =>
      obtain ⟨b, hb, hfits⟩ := fits_group_iff.1 hfits
      exact hvanish b hb ⟨rest, hfits⟩

end

/-! ## First types -/

section

variable {ls : Literals} {content : Content} {modifier : Modifier} {greedy : Bool}
  {es : List Element} {type : String}

theorem not_starts_nil : ¬Starts ls (.elements []) type := by
  rintro ⟨word, rest, h⟩
  cases h

theorem accepts_of_starts {quoted : List Char} (h : Starts ls (.content (.literal quoted)) type) :
    ls.accepts quoted type = true := by
  obtain ⟨word, rest, h⟩ := h
  cases h
  assumption

theorem starts_sole_branch {b : Branch} (h : Starts ls (.content (.group [b])) type) :
    Starts ls (.elements b.elements) type := by
  obtain ⟨word, rest, h⟩ := h
  obtain ⟨b', hb', hfits⟩ := fits_group_iff.1 h
  obtain rfl := List.mem_singleton.1 hb'
  exact ⟨word, rest, hfits⟩

variable (hne : ∀ word rest, Fits ls (.content content) word rest → word ≠ [])

include hne

/-- An element begins with what its content begins with. -/
theorem starts_content (h : Starts ls (.element ⟨content, modifier, greedy⟩) type) :
    Starts ls (.content content) type := by
  have hround : ∀ {s t word tail : List String}, Fits ls (.content content) s tail →
      type :: word = s ++ t → Starts ls (.content content) type := by
    intro s t word tail hs heq
    obtain ⟨first, s', rfl, hstarts⟩ := starts_of_fits hs (hne _ _ hs)
    obtain ⟨rfl, -⟩ := List.cons.inj heq
    exact hstarts
  obtain ⟨word, rest, h⟩ := h
  generalize htypes : type :: word = types at h
  cases h with
  | absent | stop => simp at htypes
  | once h | present h => exact ⟨word, rest, htypes ▸ h⟩
  | next hs _ | plus hs _ => exact hround hs htypes

theorem not_vanishes_once : ¬Vanishes ls (.element ⟨content, .once, greedy⟩) := by
  rintro ⟨rest, h⟩
  cases h with
  | once h => exact hne _ _ h rfl

end

section

variable {ls : Literals} {e : Element} {es : List Element} {type : String}

/-- A sequence begins with its first element, or with what follows if that can be left out. -/
theorem starts_cons (h : Starts ls (.elements (e :: es)) type) :
    Starts ls (.element e) type ∨ Vanishes ls (.element e) ∧ Starts ls (.elements es) type := by
  obtain ⟨word, rest, h⟩ := h
  obtain ⟨s, t, heq, he, hes⟩ := fits_cons_iff.1 h
  cases s with
  | nil =>
    obtain rfl : type :: word = t := heq
    exact .inr ⟨⟨_, he⟩, word, rest, hes⟩
  | cons first s =>
    obtain ⟨rfl, -⟩ := List.cons.inj heq
    exact .inl ⟨s, _, he⟩

theorem not_vanishes_cons (h : ¬Vanishes ls (.element e)) : ¬Vanishes ls (.elements (e :: es)) := by
  rintro ⟨rest, hfits⟩
  obtain ⟨s, t, heq, he, -⟩ := fits_cons_iff.1 hfits
  obtain ⟨rfl, -⟩ := List.append_eq_nil_iff.1 heq.symm
  exact h ⟨_, he⟩

end

/-! ## What comes behind -/

section

variable {ls : Literals} {follow : String → Prop} {word rest : List String} {type : String}

/-- What stands behind one round of a repeated content begins with the content or with what comes
behind it. -/
theorem opens_next {content : Content} {greedy : Bool}
    (hne : ∀ word rest, Fits ls (.content content) word rest → word ≠ [])
    (h : Fits ls (.element ⟨content, .zeroOrMore, greedy⟩) word rest) (hrest : Opens follow rest) :
    Opens (fun type => Starts ls (.content content) type ∨ follow type) (word ++ rest) := by
  rintro type tail heq
  cases word with
  | nil => exact .inr (hrest type tail heq)
  | cons first word =>
    obtain ⟨rfl, -⟩ := List.cons.inj heq
    exact .inl (starts_content hne ⟨word, rest, h⟩)

end

end GrammarLab.Matcher
