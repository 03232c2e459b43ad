import GrammarLab.Proofs.Pattern.Singles

/-!
# What classes mean

Between its brackets a class is a row of characters, escapes and dashes. A dash between two others
makes a range of them; a dash that is first or last, or that stands behind a range, is a character
of its own. The class matches one character of its ranges, its negation one of all others. Two
dashes in a row are an operator of the expression language and not written apart, so the classes
in question have none.

    InSpans items c ↔ ∃ r ∈ spans items, r.1 ≤ c ∧ c ≤ r.2
-/

namespace GrammarLab.Pattern

open Body Regex Text

/-- What a backslash and one more character stand for in a class. -/
def escapeLetters : List (Char × Char) :=
  [('n', '\n'), ('r', '\r'), ('t', '\t'), ('f', '\x0c'), ('b', '\x08'), ('\\', '\\'), (']', ']'),
    ('-', '-')]

/-- `Escapes e c`: the escape `e` stands for the character `c`. -/
inductive Escapes : List Char → Char → Prop
  | letter {e c} : (e, c) ∈ escapeLetters → Escapes ['\\', e] c
  | digits {ds n c} : ds.length = 4 → hexNumber? ds = some n → scalar? n = some c →
      Escapes ('\\' :: 'u' :: ds) c
  | braced {ds n c} : hexNumber? ds = some n → scalar? n = some c →
      Escapes ('\\' :: 'u' :: '\x7b' :: (ds ++ ['\x7d'])) c

/-- A step of the text between the brackets of a class. -/
inductive ClassItem
  | dash
  | plain (c : Char) (h : c ∉ ['\\', ']', '-'])
  | escape (text : List Char) (c : Char) (h : Escapes text c)

namespace ClassItem

def text : ClassItem → List Char
  | dash => ['-']
  | plain c _ => [c]
  | escape text _ _ => text

/-- The character that an item is when it stands alone. -/
def char : ClassItem → Char
  | dash => '-'
  | plain c _ => c
  | escape _ c _ => c

def isDash : ClassItem → Bool
  | dash => true
  | _ => false

end ClassItem

def itemsText (items : List ClassItem) : List Char := items.flatMap ClassItem.text

/-- The ranges that the items make from left to right; an item alone is a range of one. -/
def spans : List ClassItem → List (Char × Char)
  | [] => []
  | first :: .dash :: last :: items => (first.char, last.char) :: spans items
  | item :: items => (item.char, item.char) :: spans items

/-- The character is in one of the ranges. -/
def InSpans (items : List ClassItem) (c : Char) : Prop := ∃ r ∈ spans items, r.1 ≤ c ∧ c ≤ r.2

/-- No two dashes in a row. -/
def Separated (items : List ClassItem) : Prop :=
  items.IsChain fun i j => i.isDash = true → j.isDash = false

instance (items : List ClassItem) : Decidable (Separated items) :=
  inferInstanceAs (Decidable (items.IsChain _))

/-! ## Escapes -/

section

variable {ds : List Char} {n : Nat} {c : Char}

theorem brace_notMem_of_hexNumber? (h : hexNumber? ds = some n) : '\x7d' ∉ ds := by
  intro hc
  simpa [hexDigit?] using (digits_of_hexNumber? h).2 _ hc

theorem head?_of_hexNumber? (h : hexNumber? ds = some n) (rest : List Char) :
    (ds ++ rest).head? ≠ some '\x7b' := by
  obtain ⟨hne, hdigits⟩ := digits_of_hexNumber? h
  obtain ⟨d, ds, rfl⟩ := List.exists_cons_of_ne_nil hne
  intro hd
  obtain rfl : d = '\x7b' := by simpa using hd
  simpa [hexDigit?] using hdigits _ List.mem_cons_self

theorem braced?_append (h : '\x7d' ∉ ds) (rest : List Char) :
    braced? (ds ++ '\x7d' :: rest) = some (ds, rest) := by
  induction ds with
  | nil => simp [braced?]
  | cons d ds ih =>
    simp only [List.mem_cons, not_or] at h
    simp [braced?, Ne.symm h.1, ih h.2]

theorem throughBrace_append (h : '\x7d' ∉ ds) (rest : List Char) :
    throughBrace (ds ++ '\x7d' :: rest) = (ds ++ ['\x7d'], rest) := by
  induction ds with
  | nil => simp [throughBrace]
  | cons d ds ih =>
    simp only [List.mem_cons, not_or] at h
    simp [throughBrace, Ne.symm h.1, ih h.2]

/-- A code point in braces, behind either of the letters that may introduce one. -/
theorem codePoint?_braced {k : Nat} (hn : hexNumber? ds = some n) (hc : scalar? n = some c)
    (more : List Char) :
    codePoint? k ('\x7b' :: (ds ++ '\x7d' :: more)) = some (.char c, more) := by
  simp [codePoint?, braced?_append (brace_notMem_of_hexNumber? hn), hn, hc]

/-- An escape is written as one character, whatever stands behind it. -/
theorem exists_writes_of_escapes {e : List Char} (h : Escapes e c) :
    ∃ t, Writes t c ∧ ¬EndsWithDash t ∧
      ∀ rest, classText? (e ++ rest) = (classText? rest).map (t ++ ·) := by
  cases h with
  | @letter e c he =>
    simp only [escapeLetters, List.mem_cons, Prod.mk.injEq, List.not_mem_nil, or_false] at he
    have same (hsame : isSameEscape e = true)
        (hunit : ∀ more, escape? (e :: more) = some (.char c, more)) :
        ∃ t, Writes t c ∧ ¬EndsWithDash t ∧
          ∀ rest, classText? (['\\', e] ++ rest) = (classText? rest).map (t ++ ·) := by
      refine ⟨['\\', e], ⟨'\\', [e], rfl, by decide, fun more => hunit more⟩,
        not_endsWithDash_escaped e, fun rest => ?_⟩
      rw [List.cons_append, List.singleton_append, classText?]
      simp only [hsame, if_true]
    rcases he with ⟨rfl, rfl⟩ | ⟨rfl, rfl⟩ | ⟨rfl, rfl⟩ | ⟨rfl, rfl⟩ | ⟨rfl, rfl⟩ | ⟨rfl, rfl⟩ |
      ⟨rfl, rfl⟩ | ⟨rfl, rfl⟩
    case inr.inr.inr.inr.inl =>
      refine ⟨backspaceText, ⟨'\\', ['x', '0', '8'], rfl, by decide, fun more => ?_⟩,
        not_endsWithDash_concat (by decide) ['\\', 'x', '0'], fun rest => ?_⟩
      · exact (@codePoint?_digits 2 '0' ['8'] more (by decide) rfl).trans rfl
      · simp [classText?, isSameEscape]
    all_goals exact same rfl fun _ => rfl
  | @digits ds n c hlen hn hc =>
    refine ⟨hexEscape ds, ⟨'\\', 'x' :: '\x7b' :: (ds ++ ['\x7d']), rfl, by decide, fun more => ?_⟩,
      not_endsWithDash_concat (by decide) _, fun rest => ?_⟩
    · show codePoint? 2 ('\x7b' :: ((ds ++ ['\x7d']) ++ more)) = _
      rw [List.append_assoc]
      exact codePoint?_braced hn hc more
    · rw [List.cons_append, List.cons_append, classText?]
      simp only [show isSameEscape 'u' = false from rfl, Bool.false_eq_true, Char.reduceEq,
        if_false, if_true, if_neg (head?_of_hexNumber? hn rest), List.take_left' hlen,
        List.drop_left' hlen]
  | @braced ds n c hn hc =>
    refine ⟨_, ⟨'\\', 'u' :: '\x7b' :: (ds ++ ['\x7d']), rfl, by decide, fun more => ?_⟩,
      not_endsWithDash_concat (by decide) ('\\' :: 'u' :: '\x7b' :: ds), fun rest => ?_⟩
    · show codePoint? 4 ('\x7b' :: ((ds ++ ['\x7d']) ++ more)) = _
      rw [List.append_assoc]
      exact codePoint?_braced hn hc more
    · have hbrace : '\x7d' ∉ '\x7b' :: ds := by
        simpa using brace_notMem_of_hexNumber? hn
      have hthrough := throughBrace_append hbrace rest
      rw [List.cons_append] at hthrough
      rw [List.cons_append, List.cons_append, List.cons_append, List.append_assoc, classText?]
      simp [isSameEscape, hthrough]

end

/-! ## Items -/

namespace ClassItem

/-- What is written for an item. -/
def written (i : ClassItem) : List Char := (classText? i.text).getD []

theorem written_eq {i : ClassItem} {t : List Char}
    (h : ∀ rest, classText? (i.text ++ rest) = (classText? rest).map (t ++ ·)) : i.written = t := by
  have hnil := h []
  rw [List.append_nil] at hnil
  simp [written, hnil, classText?]

theorem classText?_dash (rest : List Char) :
    classText? (dash.text ++ rest) = (classText? rest).map (['-'] ++ ·) := by
  simp [text, classText?]

theorem classText?_plain {c : Char} (h : c ∉ ['\\', ']', '-']) (rest : List Char) :
    classText? ((plain c h).text ++ rest) = (classText? rest).map (charText c ++ ·) := by
  simp only [List.mem_cons, List.not_mem_nil, or_false, not_or] at h
  rw [text, List.singleton_append, classText?, if_neg h.2.2]
  simp [h.1]

theorem eq_dash {i : ClassItem} (h : i.isDash = true) : i = dash := by
  cases i with
  | dash => rfl
  | plain c hc => simp [isDash] at h
  | escape e c he => simp [isDash] at h

theorem written_dash : dash.written = ['-'] := written_eq classText?_dash

/-- Whatever stands behind it, an item is written the same. -/
theorem classText?_append (i : ClassItem) (rest : List Char) :
    classText? (i.text ++ rest) = (classText? rest).map (i.written ++ ·) := by
  cases i with
  | dash =>
    rw [written_dash]
    exact classText?_dash rest
  | plain c h =>
    rw [written_eq (classText?_plain h)]
    exact classText?_plain h rest
  | escape e c h =>
    obtain ⟨t, -, -, hmore⟩ := exists_writes_of_escapes h
    rw [written_eq (i := escape e c h) hmore]
    exact hmore rest

/-- What is written for an item other than a dash is one character of the class, and no dash of its
own. -/
theorem writes {i : ClassItem} (hi : i.isDash = false) :
    Writes i.written i.char ∧ ¬EndsWithDash i.written := by
  cases i with
  | dash => simp [isDash] at hi
  | plain c h =>
    rw [written_eq (classText?_plain h)]
    exact ⟨writes_charText c, not_endsWithDash_charText c⟩
  | escape e c h =>
    obtain ⟨t, ht, hdash, hmore⟩ := exists_writes_of_escapes h
    rw [written_eq (i := escape e c h) hmore]
    exact ⟨ht, hdash⟩

end ClassItem

theorem quotable_of_hexNumber? {close : Char} {ds : List Char} {n : Nat}
    (hclose : close ∈ ['\'', ']']) (h : hexNumber? ds = some n) : Quotable close ds := by
  have hdigits := (digits_of_hexNumber? h).2
  clear h
  induction ds with
  | nil => exact .nil
  | cons d ds ih =>
    obtain ⟨hd, hds⟩ := List.forall_mem_cons.1 hdigits
    refine .plain ?_ ?_ (ih hds)
    · rintro rfl
      simp [hexDigit?] at hd
    · rintro rfl
      simp only [List.mem_cons, List.not_mem_nil, or_false] at hclose
      rcases hclose with rfl | rfl <;> simp [hexDigit?] at hd

/-- An escape may stand between quotes and between brackets. -/
theorem quotable_of_escapes {close : Char} {e : List Char} {c : Char} (hclose : close ∈ ['\'', ']'])
    (h : Escapes e c) : Quotable close e := by
  cases h with
  | @letter e c he =>
    refine .escaped ?_ .nil
    rintro rfl
    simp [escapeLetters] at he
  | digits _ hn _ => exact .escaped (by decide) (quotable_of_hexNumber? hclose hn)
  | braced hn _ =>
    have hdigits := quotable_of_hexNumber? hclose hn
    have hbrace {d : Char} (hd : d ∉ ['\\', '\'', ']']) {s : List Char} (hs : Quotable close s) :
        Quotable close (d :: s) := by
      refine .plain (fun h => hd (by simp [h])) (fun h => hd ?_) hs
      rw [h]
      exact List.mem_cons_of_mem _ hclose
    exact .escaped (by decide) (hbrace (by decide) (hdigits.append (hbrace (by decide) .nil)))

section

variable {items : List ClassItem}

theorem quotable_itemsText (items : List ClassItem) : Quotable ']' (itemsText items) := by
  induction items with
  | nil => exact .nil
  | cons i items ih =>
    rw [itemsText, List.flatMap_cons]
    refine Quotable.append ?_ ih
    cases i with
    | dash => exact .plain (by decide) (by decide) .nil
    | plain c h =>
      simp only [List.mem_cons, List.not_mem_nil, or_false, not_or] at h
      exact .plain h.1 h.2.1 .nil
    | escape e c h => exact quotable_of_escapes (by decide) h

theorem classText?_itemsText (items : List ClassItem) :
    classText? (itemsText items) = some (items.flatMap ClassItem.written) := by
  induction items with
  | nil => simp [itemsText, classText?]
  | cons i items ih =>
    rw [itemsText] at ih ⊢
    rw [List.flatMap_cons, i.classText?_append, ih, List.flatMap_cons]
    rfl

/-! ## Ranges -/

theorem Separated.tail {i : ClassItem} (h : Separated (i :: items)) : Separated items :=
  List.IsChain.tail h

theorem Separated.behind_dash (h : Separated (.dash :: items)) :
    ∀ j ∈ items.head?, j.isDash = false := by
  intro j hj
  cases items with
  | nil => simp at hj
  | cons k items =>
    obtain rfl : k = j := by simpa using hj
    exact (List.isChain_cons_cons.1 h).1 rfl

/-- In front of the closing bracket and behind a dash, no second dash is written. -/
theorem exists_head_written (h : ∀ i ∈ items.head?, i.isDash = false) :
    ∃ c s, items.flatMap ClassItem.written ++ [']'] = c :: s ∧ c ≠ '-' := by
  cases items with
  | nil => exact ⟨']', [], rfl, by decide⟩
  | cons i items =>
    obtain ⟨d, u, hd, hne⟩ := (ClassItem.writes (h i rfl)).1.head
      (items.flatMap ClassItem.written ++ [']'])
    refine ⟨d, u, by rw [List.flatMap_cons, List.append_assoc, hd], ?_⟩
    rintro rfl
    simp at hne

/-- An item that makes no range with those behind it is not written as one either. -/
theorem endsUnit_written (h : ∀ last rest, items ≠ .dash :: last :: rest) :
    EndsUnit (items.flatMap ClassItem.written ++ [']']) := by
  by_cases hdash : items = [.dash]
  · rw [hdash]
    exact ⟨'-', [']'], by simp [ClassItem.written_dash], fun _ => ⟨']', [], rfl, .inl rfl⟩⟩
  · have hhead : ∀ i ∈ items.head?, i.isDash = false := by
      intro i hi
      cases i with
      | dash =>
        obtain ⟨rest, rfl⟩ : ∃ rest, items = .dash :: rest := by
          cases items with
          | nil => simp at hi
          | cons j rest => exact ⟨rest, by simpa using hi⟩
        cases rest with
        | nil => exact absurd rfl hdash
        | cons last rest => exact absurd rfl (h last rest)
      | plain c h => rfl
      | escape e c h => rfl
    obtain ⟨c, s, hs, hc⟩ := exists_head_written hhead
    exact ⟨c, s, hs, fun he => absurd he hc⟩

theorem inSpans_cons {rest : List ClassItem} {lo hi : Char}
    (h : spans items = (lo, hi) :: spans rest) (c : Char) : InSpans items c ↔ (lo ≤ c ∧ c ≤ hi) ∨ InSpans rest c := by
  simp only [InSpans, h, List.exists_mem_cons_iff]

theorem inSpans_single {i : ClassItem} (h : spans (i :: items) = (i.char, i.char) :: spans items)
    (c : Char) : InSpans (i :: items) c ↔ c = i.char ∨ InSpans items c := by
  rw [inSpans_cons h]
  refine or_congr_left ⟨fun ⟨h₁, h₂⟩ => Char.le_antisymm h₂ h₁, ?_⟩
  rintro rfl
  exact ⟨Char.le_refl _, Char.le_refl _⟩

/-- The items are written as members that hold the characters of their ranges. -/
theorem lists_written (hascending : ∀ r ∈ spans items, r.1 ≤ r.2) (hsep : Separated items) :
    Lists (· = [']']) (items.flatMap ClassItem.written) (InSpans items) := by
  fun_induction spans items with
  | case1 => exact lists_nil.congr fun c => by simp [InSpans, spans]
  | case2 first last items ih =>
    obtain ⟨hle, hrest⟩ := List.forall_mem_cons.1 hascending
    have hfirst : first.isDash = false := by
      cases hd : first.isDash with
      | false => rfl
      | true => exact absurd ((List.isChain_cons_cons.1 hsep).1 hd) (by simp [ClassItem.isDash])
    have hlast : last.isDash = false := hsep.tail.behind_dash last rfl
    have hrange := lists_between (ClassItem.writes hfirst).1 (ClassItem.writes hlast).1 hle
    have hall := hrange.append (ih hrest hsep.tail.tail.tail) fun _ _ => trivial
    rw [List.flatMap_cons, List.flatMap_cons, List.flatMap_cons, ClassItem.written_dash]
    rw [List.append_assoc, List.cons_append] at hall
    exact hall.congr fun c => (inSpans_cons (by rw [spans]) c).symm
  | case3 item items hno ih =>
    obtain ⟨-, hrest⟩ := List.forall_mem_cons.1 hascending
    have hall : Lists (· = [']']) (item.written ++ items.flatMap ClassItem.written)
        (fun c => c = item.char ∨ InSpans items c) := by
      cases hd : item.isDash with
      | true =>
        obtain rfl := ClassItem.eq_dash hd
        rw [ClassItem.written_dash]
        refine lists_dash.append (ih hrest hsep.tail) ?_
        rintro _ rfl
        exact exists_head_written hsep.behind_dash
      | false =>
        refine (lists_single (ClassItem.writes hd).1).append (ih hrest hsep.tail) ?_
        rintro _ rfl
        exact endsUnit_written fun last rest he => hno last rest he
    rw [List.flatMap_cons]
    exact hall.congr fun c => (inSpans_single (by rw [spans]; exact hno) c).symm

/-! ## Classes -/

theorem isLegible_itemsText (items : List ClassItem) :
    (Content.charSet ('[' :: (itemsText items ++ [']']))).IsLegible :=
  isWhole_charClass (quotable_itemsText items)

theorem memberText_itemsText (items : List ClassItem) :
    MemberText (.charSet ('[' :: (itemsText items ++ [']'])))
      (items.flatMap ClassItem.written) := by
  refine .charSet ?_
  rw [List.drop_one, List.tail_cons, List.dropLast_concat, classText?_itemsText]

theorem classInside_written (items : List ClassItem) :
    ClassInside (items.flatMap ClassItem.written) :=
  (memberText_itemsText items).classInside (isLegible_itemsText items)

theorem head?_written (h : ∀ i ∈ items.head?, i.isDash = false) :
    (items.flatMap ClassItem.written).head? ≠ some '-' := by
  obtain ⟨c, s, hs, hc⟩ := exists_head_written h
  intro hdash
  cases hw : items.flatMap ClassItem.written with
  | nil => simp [hw] at hdash
  | cons d t =>
    rw [hw] at hs hdash
    obtain ⟨rfl, -⟩ := List.cons.inj hs
    exact hc (by simpa using hdash)

/-- A dash in front of all items stands for itself, like one in front of other items. -/
theorem exists_opening_of_items (hne : items ≠ []) (hascending : ∀ r ∈ spans items, r.1 ≤ r.2)
    (hsep : Separated items) :
    ∃ sets : List CharSet,
      opening? (items.flatMap ClassItem.written ++ [']']) = some (sets.map .member, []) ∧
        ∀ c, (∃ m ∈ sets, m.contains c = true) ↔ InSpans items c := by
  obtain ⟨i, rest, rfl⟩ := List.exists_cons_of_ne_nil hne
  cases hd : i.isDash with
  | true =>
    obtain rfl := ClassItem.eq_dash hd
    have hhead := hsep.behind_dash
    have hspans : spans (.dash :: rest) = ('-', '-') :: spans rest := by
      rw [spans]
      · rfl
      · rintro last rest' rfl
        exact absurd (hhead _ rfl) (by simp [ClassItem.isDash])
    rw [hspans] at hascending
    have hlists := lists_written (List.forall_mem_cons.1 hascending).2 hsep.tail
    obtain ⟨sets, hopen, hsets⟩ := exists_opening ['-'] (by simp) (head?_written hhead)
      (by simp) (classInside_written rest).1 hlists rfl
    refine ⟨sets, by rw [List.flatMap_cons, ClassItem.written_dash]; exact hopen, fun c => ?_⟩
    rw [hsets, List.mem_singleton]
    exact (inSpans_single hspans c).symm
  | false =>
    have hhead : ∀ j ∈ (i :: rest).head?, j.isDash = false := by simp [hd]
    have hwritten : (i :: rest).flatMap ClassItem.written ≠ [] := by
      rw [List.flatMap_cons]
      exact List.append_ne_nil_of_left_ne_nil (ClassItem.writes hd).1.ne_nil _
    obtain ⟨sets, hopen, hsets⟩ := exists_opening [] (by simp) (head?_written hhead)
      hwritten (classInside_written (i :: rest)).1 (lists_written hascending hsep) rfl
    exact ⟨sets, hopen, fun c => by simp [hsets]⟩

theorem written_ne_nil (hne : items ≠ []) : items.flatMap ClassItem.written ≠ [] := by
  obtain ⟨i, rest, rfl⟩ := List.exists_cons_of_ne_nil hne
  rw [List.flatMap_cons]
  refine List.append_ne_nil_of_left_ne_nil ?_ _
  cases hd : i.isDash with
  | true =>
    obtain rfl := ClassItem.eq_dash hd
    simp [ClassItem.written_dash]
  | false => exact (ClassItem.writes hd).1.ne_nil

theorem le_maxChar (c : Char) : '\x00' ≤ c ∧ c ≤ Char.ofNat 0x10FFFF := by
  refine ⟨Nat.zero_le _, ?_⟩
  show c.toNat ≤ 0x10FFFF
  rcases c.valid with h | h <;> simp only [Char.toNat] <;> omega

/-- What is written for no items is the complement of all characters. -/
theorem exists_compile_noItems :
    ∃ p, Pattern.compile ['[', ']'] = .ok p ∧ p.MatchesOneOf fun _ => False := by
  have hlo : Writes ['\\', 'x', '0', '0'] '\x00' :=
    ⟨'\\', ['x', '0', '0'], rfl, by decide,
      fun more => (@codePoint?_digits 2 '0' ['0'] more (by decide) rfl).trans rfl⟩
  have hhi : Writes ('\\' :: 'x' :: '\x7b' :: (['1', '0', 'F', 'F', 'F', 'F'] ++ ['\x7d']))
      (Char.ofNat 0x10FFFF) := by
    have hdigits : hexNumber? ['1', '0', 'F', 'F', 'F', 'F'] = some 0x10FFFF := by decide
    refine ⟨'\\', _, rfl, by decide, fun more => ?_⟩
    show codePoint? 2 ('\x7b' :: (['1', '0', 'F', 'F', 'F', 'F'] ++ '\x7d' :: more)) = _
    exact codePoint?_braced hdigits rfl more
  have hlists := lists_between hlo hhi (le_maxChar _).2
  have hin : Inside ['\\', 'x', '0', '0', '-'] := .escaped (.of_plain (by decide))
  have hin' : Inside ('\\' :: 'x' :: '\x7b' :: (['1', '0', 'F', 'F', 'F', 'F'] ++ ['\x7d'])) :=
    .escaped (.of_plain (by decide))
  obtain ⟨sets, hopen, hsets⟩ := exists_opening [] (by simp) (by simp) (by simp)
    (hin.append hin') hlists trivial
  have hmember : MemberText (.charSet ['[', ']']) [] := .charSet (by simp [classText?])
  have hlegible : (Content.charSet ['[', ']']).IsLegible := isWhole_charClass .nil
  have hpieces := pieces_of_words (wordsIn_ne_nil_of_isSet rfl) (lexemes_of_isLegible hlegible)
    fun t ts => leadingPiece_member hmember rfl
  rw [show classOf [] = emptyClass from rfl, emptyClass_eq] at hpieces
  obtain ⟨p, hp, hmatches⟩ := exists_compile_complement hpieces hopen
  refine ⟨p, hp, hmatches.congr fun c => ?_⟩
  rw [hsets]
  simpa using le_maxChar c

theorem exists_compile_class (hascending : ∀ r ∈ spans items, r.1 ≤ r.2) (hsep : Separated items) :
    ∃ p, Pattern.compile ('[' :: (itemsText items ++ [']'])) = .ok p ∧
      p.MatchesOneOf (InSpans items) := by
  by_cases hne : items = []
  · subst hne
    obtain ⟨p, hp, hmatches⟩ := exists_compile_noItems
    exact ⟨p, hp, hmatches.congr fun c => by simp [InSpans, spans]⟩
  · have hinner := written_ne_nil hne
    obtain ⟨sets, hopen, hsets⟩ := exists_opening_of_items hne hascending hsep
    have hpieces :=
      pieces_member (memberText_itemsText items) rfl (isLegible_itemsText items) hinner
    obtain ⟨p, hp, hmatches⟩ :=
      exists_compile_of_opening? hpieces (classInside_written items) hinner hopen
    exact ⟨p, hp, hmatches.congr hsets⟩

theorem exists_compile_negatedClass (hne : items ≠ []) (hascending : ∀ r ∈ spans items, r.1 ≤ r.2)
    (hsep : Separated items) :
    ∃ p, Pattern.compile ('~' :: '[' :: (itemsText items ++ [']'])) = .ok p ∧
      p.MatchesOneOf fun c => ¬InSpans items c := by
  obtain ⟨sets, hopen, hsets⟩ := exists_opening_of_items hne hascending hsep
  have hpieces := pieces_negatedClass (memberText_itemsText items) (isLegible_itemsText items)
  obtain ⟨p, hp, hmatches⟩ := exists_compile_complement hpieces hopen
  exact ⟨p, hp, hmatches.congr fun c => not_congr (hsets c)⟩

end

/-- **Classes.** A class whose ranges are ascending and that has no two dashes in a row is
compiled, to a pattern that matches one character of its ranges; if there is something between its
brackets, so is its negation, to one that matches any other character. -/
theorem compile_class_of_items (items : List ClassItem)
    (hascending : ∀ r ∈ spans items, r.1 ≤ r.2) (hsep : Separated items) :
    (∃ p, Pattern.compile ('[' :: (itemsText items ++ [']'])) = .ok p ∧
      p.MatchesOneOf (InSpans items)) ∧
    (items ≠ [] → ∃ p, Pattern.compile ('~' :: '[' :: (itemsText items ++ [']'])) = .ok p ∧
      p.MatchesOneOf fun c => ¬InSpans items c) :=
  ⟨exists_compile_class hascending hsep,
    fun hne => exists_compile_negatedClass hne hascending hsep⟩

/-- A class of dashes at both ends, a range and an escape. -/
theorem compile_class_dashes_digits_newline :
    (∃ p, Pattern.compile ['[', '-', '0', '-', '9', '\\', 'n', '-', ']'] = .ok p ∧
      p.MatchesOneOf fun c => c = '-' ∨ ('0' ≤ c ∧ c ≤ '9') ∨ c = '\n') ∧
    ∃ p, Pattern.compile ['~', '[', '-', '0', '-', '9', '\\', 'n', '-', ']'] = .ok p ∧
      p.MatchesOneOf fun c => ¬(c = '-' ∨ ('0' ≤ c ∧ c ≤ '9') ∨ c = '\n') := by
  have hspans (c : Char) : InSpans [.dash, .plain '0' (by decide), .dash, .plain '9' (by decide),
      .escape ['\\', 'n'] '\n' (.letter (by decide)), .dash] c ↔
      c = '-' ∨ ('0' ≤ c ∧ c ≤ '9') ∨ c = '\n' := by
    rw [inSpans_single rfl, inSpans_cons rfl, inSpans_single rfl, inSpans_single rfl]
    simp only [ClassItem.char, InSpans, spans, List.not_mem_nil, false_and, exists_false, or_false]
    tauto
  obtain ⟨⟨p, hp, hclass⟩, hnegated⟩ := compile_class_of_items
    [.dash, .plain '0' (by decide), .dash, .plain '9' (by decide),
      .escape ['\\', 'n'] '\n' (.letter (by decide)), .dash] (by decide) (by decide)
  obtain ⟨q, hq, hnegated⟩ := hnegated (by simp)
  exact ⟨⟨p, hp, hclass.congr hspans⟩, q, hq, hnegated.congr fun c => not_congr (hspans c)⟩

end GrammarLab.Pattern
