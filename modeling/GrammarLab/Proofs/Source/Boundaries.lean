import Mathlib.Logic.Relation
import GrammarLab.Proofs.Source.Bodies
import GrammarLab.Proofs.Source.BodyEnds

/-!
# Scanning by byte offsets

The loop over a source with an offset for its cursor. It is defined to the end: no slice leaves the
text or cuts a character, and no difference is negative. Its offset is always where a character
begins or at the end of the text, which it reaches; of two turns one at least moves it on.

    Tracks text s m → s.pos < byteLength text → ∃ s', step? text limits s = some s' ∧ …
                                                              (scan_stays_within)
-/

namespace GrammarLab.Source

open Text

namespace Bytes

/-- A machine with an offset for its cursor. -/
structure Snapshot where
  state : State := .outside
  draft : Draft := {}
  pos : Nat := 0

section

variable (text : List Char) (limits : ScanLimits)

def move? (s : Snapshot) : Option Move :=
  match s.state with
  | .outside => outside? text s.draft s.pos
  | .header h => header? text s.draft s.pos limits h
  | .body h => body? text s.draft s.pos limits h

def step? (s : Snapshot) : Option Snapshot :=
  (move? text limits s).map fun m => ⟨m.state, m.draft, s.pos + m.length⟩

/-- One turn of the loop, which ends with the text. -/
def Turn (s s' : Snapshot) : Prop := s.pos < byteLength text ∧ step? text limits s = some s'

/-- Closes a rule that the source leaves open. -/
def close? (s : Snapshot) : Option Draft :=
  match s.state with
  | .outside => some s.draft
  | .header h => some (s.draft.missingColon h)
  | .body h => finishRule? text s.draft h (byteLength text) (byteLength text) none

/-- A character begins at the offset, or the text ends there. -/
def IsBoundary (pos : Nat) : Prop := ∃ before rest, text = before ++ rest ∧ byteLength before = pos

end

end Bytes

namespace Machine

/-- One step of a machine that is not at the end of its text. -/
def Next (limits : ScanLimits) (m m' : Machine) : Prop :=
  ∃ first rest, m.cursor.rest = first :: rest ∧ m' = step limits first m

theorem Next.potential_lt {limits : ScanLimits} {m m' : Machine} (hn : Next limits m m') :
    potential m' < potential m := by
  obtain ⟨first, rest, hrest, rfl⟩ := hn
  exact potential_step limits first m (by simp [hrest])

end Machine

section

open Bytes Relation

variable {text : List Char} {limits : ScanLimits} {s s' : Snapshot} {m m' : Machine}

/-- The snapshot shows the machine: its offset is where the cursor stands. -/
structure Tracks (text : List Char) (s : Snapshot) (m : Machine) : Prop where
  state : s.state = m.state
  draft : s.draft = m.draft
  cursor : At text s.pos m.cursor

/-- The colon in front of a body is on the line of the body. -/
theorem lineOf_colon {before : List Char} {h : Header} {d : Draft} {c : Cursor} {pos : Nat}
    (hm : Machine.HasRead text before ⟨.body h, d, c⟩) (hat : At text pos c) :
    Bytes.lineOf text (pos - 1) = c.line := by
  have hline : c.line = 1 + lineFeeds before := hm.line_eq
  obtain ⟨init, rfl⟩ := List.getLast?_eq_some_iff.1 (hm.colon h rfl)
  have hfeeds : lineFeeds (init ++ [':']) = lineFeeds init := lineFeeds_append init [':']
  have hcolon : At text (byteLength init) ⟨1 + lineFeeds init, ':' :: c.rest⟩ :=
    ⟨init, by rw [hm.text_eq]; simp, rfl, rfl⟩
  have hbehind : At text (byteLength init + byteLength [':']) c :=
    hcolon.move rfl (by rw [hline, hfeeds]; rfl)
  obtain rfl : pos = byteLength init + 1 := hat.unique hbehind
  rw [Nat.add_sub_cancel, hcolon.lineOf, hline, hfeeds]

theorem Tracks.rest_ne_nil_iff (ht : Tracks text s m) :
    m.cursor.rest ≠ [] ↔ s.pos < byteLength text := by
  obtain ⟨before, htext, hpos, -⟩ := ht.cursor
  rw [htext, byteLength_append, hpos]
  refine ⟨fun hne => ?_, fun hlt hnil => ?_⟩
  · have := byteLength_pos hne
    omega
  · simp [hnil, byteLength] at hlt

theorem Moves.tracks {move : Option Move} (hm : Moves text s.pos move m) :
    ∃ s', (move.map fun m => (⟨m.state, m.draft, s.pos + m.length⟩ : Snapshot)) = some s' ∧
      s.pos ≤ s'.pos ∧ Tracks text s' m := by
  obtain ⟨n, rfl, hend⟩ := hm
  exact ⟨⟨m.state, m.draft, s.pos + n⟩, rfl, Nat.le_add_right _ _, rfl, rfl, hend⟩

/-! ## One step -/

/-- What a run keeps: lines in order, and bodies in their places. -/
structure Sound (text : List Char) (m : Machine) : Prop where
  located : Machine.Located text m
  hasRead : ∃ before, Machine.HasRead text before m

theorem sound_start (text : List Char) : Sound text { cursor := .start text } :=
  ⟨Machine.located_start text, [], Machine.hasRead_start text⟩

theorem Sound.step (hm : Sound text m) (hn : Machine.Next limits m m') : Sound text m' := by
  obtain ⟨first, rest, hrest, rfl⟩ := hn
  have hs : Step limits m (Machine.step limits first m) := Machine.step_cases hrest
  exact ⟨Machine.located_step _ _ hs hm.located, Machine.hasRead_step _ _ hs hm.hasRead⟩

/-- In front of a character the step is defined, and it is that of the machine. -/
theorem exists_step? (hm : Sound text m) (ht : Tracks text s m)
    (hlt : s.pos < byteLength text) : ∃ s' m', step? text limits s = some s' ∧
      Machine.Next limits m m' ∧ s.pos ≤ s'.pos ∧ Tracks text s' m' := by
  have hne := ht.rest_ne_nil_iff.2 hlt
  obtain ⟨first, rest, hrest⟩ := List.exists_cons_of_ne_nil hne
  obtain ⟨state, d, c⟩ := m
  obtain ⟨state', d', pos⟩ := s
  obtain rfl : state' = state := ht.state
  obtain rfl : d' = d := ht.draft
  have hat : At text pos c := ht.cursor
  have hmoves : Moves text pos (move? text limits ⟨state', d', pos⟩)
      (Machine.step limits first ⟨state', d', c⟩) := by
    have hline := hm.located.nameLine_le
    obtain ⟨before, hread⟩ := hm.hasRead
    cases state' with
    | outside => exact moves_outside hat hrest d'
    | header h => exact moves_header limits hat hrest hline d'
    | body h => exact moves_body hat (lineOf_colon hread hat) hne hline d'
  obtain ⟨s', hs', hle, ht'⟩ := Moves.tracks (s := ⟨state', d', pos⟩) hmoves
  exact ⟨s', _, hs', ⟨first, rest, hrest, rfl⟩, hle, ht'⟩

/-- A step that consumes nothing lowers the potential, so the next one consumes something. -/
theorem lt_of_standstill {s'' : Snapshot} {m'' : Machine} (ht : Tracks text s m)
    (ht' : Tracks text s' m') (ht'' : Tracks text s'' m'') (hn : Machine.Next limits m m')
    (hn' : Machine.Next limits m' m'') (hpos : s'.pos = s.pos) : s'.pos < s''.pos := by
  have hrest : m.cursor.rest = m'.cursor.rest := ht.cursor.rest_eq (hpos ▸ ht'.cursor)
  -- the first step can only have left a rule, so the second one has to take a character
  have hge : ∀ m : Machine, 2 * m.cursor.rest.length ≤ m.potential :=
    fun m => Nat.le_add_right _ _
  have hle := m.potential_le
  have hfall := hn.potential_lt
  have hfall' := hn'.potential_lt
  have := hge m'
  have := hge m''
  rw [hrest] at hle
  exact ht'.cursor.lt ht''.cursor (by omega)

/-! ## The whole run -/

/-- The snapshots of a run. -/
def Reached (text : List Char) (limits : ScanLimits) : Snapshot → Prop :=
  ReflTransGen (Turn text limits) {}

/-- The machines of a run. -/
def Machine.Reached (text : List Char) (limits : ScanLimits) : Machine → Prop :=
  ReflTransGen (Machine.Next limits) { cursor := .start text }

theorem Machine.Reached.sound (hm : Machine.Reached text limits m) : Sound text m := by
  induction hm with
  | refl => exact sound_start text
  | tail _ hn ih => exact ih.step hn

theorem exists_reached (hs : Reached text limits s) :
    ∃ m, Machine.Reached text limits m ∧ Tracks text s m := by
  induction hs with
  | refl => exact ⟨_, .refl, rfl, rfl, at_start text⟩
  | tail _ hturn ih =>
    obtain ⟨m, hm, ht⟩ := ih
    obtain ⟨s', m', hs', hn, -, ht'⟩ := exists_step? hm.sound ht hturn.1
    obtain rfl := Option.some.inj (hs'.symm.trans hturn.2)
    exact ⟨m', hm.tail hn, ht'⟩

/-- The loop comes to the end of the text, where the machine does. -/
theorem exists_reached_end (hs : Reached text limits s) (hm : Machine.Reached text limits m)
    (ht : Tracks text s m) : ∃ last, Reached text limits last ∧ last.pos = byteLength text ∧
      Tracks text last (m.run limits) ∧ Sound text (m.run limits) := by
  fun_induction Machine.run limits m generalizing s with
  | case1 m hrest =>
    have hend : ¬s.pos < byteLength text := fun hlt => ht.rest_ne_nil_iff.2 hlt hrest
    exact ⟨s, hs, Nat.le_antisymm ht.cursor.le_byteLength (Nat.le_of_not_lt hend), ht, hm.sound⟩
  | case2 m first rest hrest ih =>
    have hlt := ht.rest_ne_nil_iff.1 (by simp [hrest])
    obtain ⟨s', m', hs', ⟨first', rest', hrest', rfl⟩, -, ht'⟩ := exists_step? hm.sound ht hlt
    obtain rfl : first' = first := (List.cons.inj (hrest'.symm.trans hrest)).1
    exact ih (hs.tail ⟨hlt, hs'⟩) (hm.tail ⟨_, _, hrest, rfl⟩) ht'

theorem close?_eq (hm : Sound text m) (ht : Tracks text s m) (hpos : s.pos = byteLength text) :
    close? text s = some m.close := by
  obtain ⟨state, d, c⟩ := m
  obtain ⟨state', d', pos⟩ := s
  obtain rfl : state' = state := ht.state
  obtain rfl : d' = d := ht.draft
  obtain rfl : pos = byteLength text := hpos
  have hat : At text (byteLength text) c := ht.cursor
  obtain ⟨before, hread⟩ := hm.hasRead
  cases state' with
  | outside => rfl
  | header h => rfl
  | body h =>
    have hnothing : c.rest = [] ++ c.rest := rfl
    exact finishRule?_eq h d' none hat (lineOf_colon hread hat) hnothing (by simp)

/-- What holds of a snapshot: it shows the machine on the same text, its offset is within the text
and cuts no character, and in front of the end the next step is defined. A step that consumes
nothing is followed by one that does. -/
structure Within (text : List Char) (limits : ScanLimits) (s : Snapshot) : Prop where
  tracks : ∃ m, Machine.Reached text limits m ∧ Tracks text s m
  boundary : IsBoundary text s.pos
  le : s.pos ≤ byteLength text
  step : s.pos < byteLength text → ∃ s', step? text limits s = some s' ∧ s.pos ≤ s'.pos ∧
    (s'.pos = s.pos → ∃ s'', step? text limits s' = some s'' ∧ s'.pos < s''.pos)

theorem within_of_reached (hs : Reached text limits s) : Within text limits s := by
  obtain ⟨m, hm, ht⟩ := exists_reached hs
  obtain ⟨before, htext, hpos, -⟩ := ht.cursor
  refine ⟨⟨m, hm, ht⟩, ⟨before, _, htext, hpos⟩, ht.cursor.le_byteLength, fun hlt => ?_⟩
  obtain ⟨s', m', hs', hn, hle, ht'⟩ := exists_step? hm.sound ht hlt
  refine ⟨s', hs', hle, fun hstill => ?_⟩
  obtain ⟨s'', m'', hs'', hn', -, ht''⟩ := exists_step? (hm.sound.step hn) ht' (by omega)
  exact ⟨s'', hs'', lt_of_standstill ht ht' ht'' hn hn' hstill⟩

/-- Whatever the source is, the loop over it stays within it and comes to its end, and the grammar
and the diagnostics are those of the draft that is closed there. -/
theorem scan_stays_within (limits : ScanLimits) (source : List Char) :
    (∀ s, Reached (strip source) limits s → Within (strip source) limits s) ∧
    ∃ last d, Reached (strip source) limits last ∧ last.pos = byteLength (strip source) ∧
      close? (strip source) last = some d ∧
      scan limits source = (d.grammar,
        if d.declared then d.diagnostics else missingDeclaration :: d.diagnostics) := by
  refine ⟨fun s => within_of_reached, ?_⟩
  obtain ⟨last, hlast, hpos, ht, hsound⟩ :=
    exists_reached_end (.refl : Reached (strip source) limits {}) .refl
      ⟨rfl, rfl, at_start (strip source)⟩
  exact ⟨last, _, hlast, hpos, close?_eq hsound ht hpos, rfl⟩

end

end GrammarLab.Source
