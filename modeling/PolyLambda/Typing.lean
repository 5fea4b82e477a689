import PolyLambda.Context
import PolyLambda.Ty.Substitution

/-!
# Type inference

Every binder of a term is annotated, so each form of term has one rule and nothing
is guessed:

```text
Γ ⊢ n : Int          Γ(x) = A
                     ---------
                     Γ ⊢ x : A

Γ ⊢ a : A   Γ, x : A ⊢ b : B        Γ, x : A ⊢ b : B
----------------------------        ------------------------
Γ ⊢ (λx: A. b) a : B                Γ ⊢ (λx: A. b) : A -> B

Γ ⊢ b : B                           Γ ⊢ t : ∀X: K. B
--------------------------          ----------------------
Γ ⊢ (ΛX: K. b) : ∀X: K. B           Γ ⊢ t [A] : B[A/X]
```

Only a literal abstraction can be applied, types are compared as trees, and the
substitution of the last rule is `Ty.substitute`.  `infer` walks the term by these
rules and stops at the first that fails; `warnings` lists the instantiations on the
way whose substitution is not the capture-avoiding one.
-/

namespace PolyLambda

/-- Why a term has no type. -/
inductive TypeError where
  /-- A variable without assignment. -/
  | undefined (range : Range) (name : Text)
  /-- An argument whose type is not the annotated one. -/
  | mismatch (arg : Term) (expected got : Ty)
  /-- A term in function position that is no abstraction. -/
  | notAbstraction (term : Term)
  /-- An instantiated term without a universal type. -/
  | notTypeAbstraction (term : Term)
  /-- A gap where a subtree is needed. -/
  | gap
  deriving DecidableEq, Repr, Inhabited

/-- The type of a term in a context. -/
def infer : Context → Term → Except TypeError Ty
  | _, .int .. => .ok .int
  | Γ, .var r x =>
    match Γ.lookup? x with
    | some t => .ok t
    | none => .error (.undefined r x)
  | Γ, .app _ (.abs _ x a body) arg => do
    let b ← infer Γ arg
    if a = b then infer (Γ.assign x a) body else .error (.mismatch arg a b)
  | _, .app _ .gap _ => .error .gap
  | _, .app _ fn _ => .error (.notAbstraction fn)
  | Γ, .abs _ x a body => do
    let b ← infer (Γ.assign x a) body
    return .arrow a b
  | Γ, .tabs _ x k body => do
    let b ← infer Γ body
    return .all x k b
  | Γ, .tapp _ t s => do
    match ← infer Γ t with
    | .all x _ b =>
      match b.replace? x s with
      | some replaced => return replaced.result
      | none => .error .gap
    | _ => .error (.notTypeAbstraction t)
  | _, .gap => .error .gap

/-- An instantiation whose substitution is not the capture-avoiding one. -/
inductive Warning where
  /-- Binders of the instantiated type capture free variables of the argument. -/
  | captures (term : Term) (instantiated : Ty) (captured : List Text)
  /-- The instantiated variable is bound again inside. -/
  | shadows (term : Term) (instantiated : Ty)
  deriving DecidableEq, Repr, Inhabited

/-- The warnings for `term`, which instantiates the universal type `∀X: K. b` with
`s`. -/
def instantiationWarnings (term : Term) (x : Text) (k : Kind) (b s : Ty) : List Warning :=
  let captured := b.captures x s
  (if captured.isEmpty then [] else [.captures term (.all x k b) captured])
    ++ if b.shadows x then [.shadows term (.all x k b)] else []

/-- The warnings on the way of `infer`, in its order. -/
def warnings : Context → Term → List Warning
  | Γ, .app _ (.abs _ x a body) arg =>
    warnings Γ arg ++
      match infer Γ arg with
      | .ok b => if a = b then warnings (Γ.assign x a) body else []
      | .error _ => []
  | Γ, .abs _ x a body => warnings (Γ.assign x a) body
  | Γ, .tabs _ _ _ body => warnings Γ body
  | Γ, .tapp r t s =>
    warnings Γ t ++
      match infer Γ t with
      | .ok (.all x k b) => instantiationWarnings (.tapp r t s) x k b s
      | _ => []
  | _, .int .. | _, .var .. | _, .app .. | _, .gap => []

end PolyLambda
