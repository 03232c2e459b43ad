import GrammarLab.Diagnostic.Kind

/-!
# Diagnostics

One issue found in a grammar. Issues are data: they are collected in order and stop nothing.
-/

namespace GrammarLab

/-- Another line that has to do with an issue. -/
structure Related where
  line : Nat
  message : String
deriving DecidableEq, Repr

structure Diagnostic where
  kind : DiagnosticKind
  severity : Severity
  message : String
  /-- The source line, counted from one, when the issue stands on one. -/
  line : Option Nat := none
  rule : Option String := none
  related : List Related := []
  hints : List String := []
deriving DecidableEq, Repr

abbrev Diagnostics := List Diagnostic

namespace Diagnostic

/-! ## Building -/

/-- A diagnostic with the severity, the summary and the hint of its kind. -/
def ofKind (kind : DiagnosticKind) : Diagnostic :=
  { kind, severity := kind.severity, message := kind.summary, hints := kind.hint?.toList }

def onLine (line : Nat) (d : Diagnostic) : Diagnostic := { d with line := some line }

def onRule (name : String) (d : Diagnostic) : Diagnostic := { d with rule := some name }

/-- Fills the template of the kind. -/
def withDetail (detail : String) (d : Diagnostic) : Diagnostic :=
  { d with message := d.kind.message (some detail) }

/-- Replaces the message as a whole. -/
def withMessage (message : String) (d : Diagnostic) : Diagnostic := { d with message }

def withSeverity (severity : Severity) (d : Diagnostic) : Diagnostic := { d with severity }

def relatedTo (message : String) (line : Nat) (d : Diagnostic) : Diagnostic :=
  { d with related := d.related ++ [⟨line, message⟩] }

def withHint (hint : String) (d : Diagnostic) : Diagnostic := { d with hints := d.hints ++ [hint] }

section

variable (d : Diagnostic)

@[simp] theorem kind_ofKind (kind : DiagnosticKind) : (ofKind kind).kind = kind := rfl

@[simp] theorem kind_onLine (line : Nat) : (d.onLine line).kind = d.kind := rfl

@[simp] theorem kind_onRule (name : String) : (d.onRule name).kind = d.kind := rfl

@[simp] theorem kind_withDetail (detail : String) : (d.withDetail detail).kind = d.kind := rfl

@[simp] theorem kind_relatedTo (message : String) (line : Nat) :
    (d.relatedTo message line).kind = d.kind := rfl

theorem foldl_relatedTo {β : Type} (message : β → String) (line : β → Nat) (xs : List β) :
    xs.foldl (fun d x => d.relatedTo (message x) (line x)) d =
      { d with related := d.related ++ xs.map fun x => ⟨line x, message x⟩ } := by
  induction xs generalizing d with
  | nil => simp
  | cons x xs ih =>
    rw [List.foldl_cons, ih, Diagnostic.relatedTo, List.append_assoc]
    rfl

end

/-! ## Reading -/

def isError (d : Diagnostic) : Bool := d.severity = .error

def isWarning (d : Diagnostic) : Bool := d.severity = .warning

def isInfo (d : Diagnostic) : Bool := d.severity = .info

/-- The diagnostic on one line of text. -/
def text (d : Diagnostic) : String :=
  let place := match d.line with
    | some line => s!" at line {line}"
    | none => ""
  let related := d.related.map fun r => s!" (related: {r.message} at line {r.line})"
  let hints := d.hints.map fun hint => s!" (hint: {hint})"
  d.severity.text ++ place ++ ": " ++ d.message ++ String.join related ++ String.join hints

/-- Sorted by kind first and by severity second. -/
def precedes (a b : Diagnostic) : Bool :=
  a.kind.rank < b.kind.rank || (a.kind.rank = b.kind.rank && a.severity.rank ≤ b.severity.rank)

end Diagnostic

namespace Diagnostics

def hasErrors (ds : Diagnostics) : Bool := ds.any (·.isError)

def hasWarnings (ds : Diagnostics) : Bool := ds.any (·.isWarning)

def hasKind (kind : DiagnosticKind) (ds : Diagnostics) : Bool := ds.any (·.kind = kind)

def bySeverity (severity : Severity) (ds : Diagnostics) : Diagnostics :=
  ds.filter (·.severity = severity)

def byKind (kind : DiagnosticKind) (ds : Diagnostics) : Diagnostics := ds.filter (·.kind = kind)

def forRule (name : String) (ds : Diagnostics) : Diagnostics := ds.filter (·.rule = some name)

theorem byKind_append (kind : DiagnosticKind) (ds ds' : Diagnostics) :
    byKind kind (ds ++ ds') = byKind kind ds ++ byKind kind ds' := List.filter_append ..

theorem byKind_ite (kind : DiagnosticKind) (c : Prop) [Decidable c] (ds : Diagnostics) :
    byKind kind (if c then ds else []) = if c then byKind kind ds else [] := by
  split <;> rfl

theorem byKind_eq_nil {kind : DiagnosticKind} {ds : Diagnostics} (h : ∀ d ∈ ds, d.kind ≠ kind) :
    ds.byKind kind = [] :=
  List.filter_eq_nil_iff.2 fun d hd => by simpa using h d hd

theorem byKind_eq_self {kind : DiagnosticKind} {ds : Diagnostics} (h : ∀ d ∈ ds, d.kind = kind) :
    ds.byKind kind = ds :=
  List.filter_eq_self.2 fun d hd => by simpa using h d hd

theorem byKind_flatMap {α : Type} (kind : DiagnosticKind) (xs : List α) (f : α → Diagnostics) :
    byKind kind (xs.flatMap f) = xs.flatMap fun x => (f x).byKind kind := List.filter_flatMap ..

/-- In order of kind and severity; equals keep their order. -/
def sorted (ds : Diagnostics) : Diagnostics := ds.mergeSort Diagnostic.precedes

/-- One diagnostic a line, without the source. -/
def plain (ds : Diagnostics) : String := "\n".intercalate (ds.map Diagnostic.text)

end Diagnostics

end GrammarLab
