import PolyLambda.Diagnostic.Report
import PolyLambda.Log
import PolyLambda.Parser

/-!
# Checking sources

A source is checked by reading it as a term and inferring the term's type.  The
outcome is a checked term or one failure.  What is logged on the way is a list of
events beside the outcome (`checkEvents`), so that the outcome does not depend on it.
-/

namespace PolyLambda

/-- A term with its type. -/
structure Checked where
  term : Term
  type : Ty
  deriving DecidableEq, Repr, Inhabited

/-- Why a source or a term is not accepted. -/
inductive Failure where
  /-- Something to report against the source. -/
  | diagnostic (d : Diagnostic)
  /-- A gap where a subtree is needed. -/
  | gap
  deriving DecidableEq, Repr, Inhabited

/-- The failure that a type error is. -/
def TypeError.failure (e : TypeError) : Failure :=
  match e.diagnostic? with
  | some d => .diagnostic d
  | none => .gap

/-- Checks a term in a context. -/
def checkTerm (Γ : Context) (t : Term) : Except Failure Checked :=
  match infer Γ t with
  | .ok a => .ok ⟨t, a⟩
  | .error e => .error e.failure

/-- Checks a source in a context. -/
def check (Γ : Context) (c : Calculus) (source : Text) : Except Failure Checked :=
  match readTerm c source with
  | .ok t => checkTerm Γ t
  | .error e => .error (.diagnostic e.diagnostic)

/-! ## Events -/

/-- The event of having read a term. -/
def parsedEvent (t : Term) : Log.Event :=
  ⟨.ofSection "parser", Log.debug, "parsed term", [⟨"term", .term t⟩]⟩

/-- The event of reading a source: none when it is no term. -/
def readEvents (c : Calculus) (source : Text) : List Log.Event :=
  match readTerm c source with
  | .ok t => [parsedEvent t]
  | .error _ => []

/-- The record of a warning. -/
def Warning.record : Warning → Log.Record
  | captures t a captured =>
    ⟨Log.warn, "type application captures free type variables of its argument",
      [⟨"term", .term t⟩, ⟨"forall", .type a⟩, ⟨"captured", .texts captured⟩]⟩
  | shadows t a =>
    ⟨Log.warn, "type application substitutes under a binder that shadows its variable",
      [⟨"term", .term t⟩, ⟨"forall", .type a⟩]⟩

/-- The events of inferring a type, written by `logger`. -/
def inferEvents (logger : Log.Logger) (Γ : Context) (t : Term) : List Log.Event :=
  (warnings Γ t).map (fun w => ⟨logger, w.record⟩) ++
    match infer Γ t with
    | .ok a =>
      [⟨logger, Log.debug, "inferred type",
        [⟨"term", .term t⟩, ⟨"type", .ofTy a⟩, ⟨"context", .context Γ⟩]⟩]
    | .error _ => []

/-- The events of checking a term. -/
def checkTermEvents (Γ : Context) (t : Term) : List Log.Event :=
  inferEvents (.ofSection "infer") Γ t ++
    match checkTerm Γ t with
    | .error (.diagnostic d) =>
      [⟨.ofSection "frontend", Log.debug, "type error",
        [⟨"term", .term t⟩, ⟨"error", .text d.message⟩]⟩]
    | _ => []

/-- The events of checking a source. -/
def checkEvents (Γ : Context) (c : Calculus) (source : Text) : List Log.Event :=
  readEvents c source ++
    match readTerm c source with
    | .ok t => checkTermEvents Γ t
    | .error _ => []

end PolyLambda
