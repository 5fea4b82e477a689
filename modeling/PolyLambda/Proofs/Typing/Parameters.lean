import PolyLambda.Diagnostic
import PolyLambda.Proofs.Typing.Rules

/-!
# Names of parameters

How the parameters of abstractions are called does not matter for the type of a term.

Two terms that differ in these names are compared below the abstractions that lead to a
place in both of them.  Each such abstraction has one parameter on either side, and `Paired`
says which names mean the same there: two parameters of one abstraction, none of them
shadowed by a nearer one, or the same free variable.  The two runs meet different contexts,
in which shadowing may hide different assignments; what they keep is that names that mean
the same have the same type (`Context.Paired`).

An error speaks of a term, so the errors of the two runs differ as the terms do.  Their codes
agree.
-/

namespace PolyLambda

/-! ## Terms that differ in names -/

/-- What the names `x` and `y` mean is the same, below abstractions with the parameters `ps`
on the two sides, the nearest first. -/
def Paired : List (Text × Text) → Text → Text → Prop
  | [], x, y => x = y
  | (v, w) :: ps, x, y => (x = v ∧ y = w) ∨ (x ≠ v ∧ y ≠ w ∧ Paired ps x y)

/-- `RenamedIn ps t u`: below abstractions with the parameters `ps`, the terms differ at most in
the names of their own parameters, and in their ranges. -/
inductive Term.RenamedIn : List (Text × Text) → Term → Term → Prop where
  | int {ps : List (Text × Text)} {r r' : Range} {n : Int32} :
      RenamedIn ps (.int r n) (.int r' n)
  | var {ps : List (Text × Text)} {r r' : Range} {x y : Text} :
      Paired ps x y → RenamedIn ps (.var r x) (.var r' y)
  | app {ps : List (Text × Text)} {r r' : Range} {f g t u : Term} :
      RenamedIn ps f g → RenamedIn ps t u → RenamedIn ps (.app r f t) (.app r' g u)
  | abs {ps : List (Text × Text)} {r r' : Range} {x y : Text} {a : Ty} {t u : Term} :
      RenamedIn ((x, y) :: ps) t u → RenamedIn ps (.abs r x a t) (.abs r' y a u)
  | tabs {ps : List (Text × Text)} {r r' : Range} {x : Text} {k : Kind} {t u : Term} :
      RenamedIn ps t u → RenamedIn ps (.tabs r x k t) (.tabs r' x k u)
  | tapp {ps : List (Text × Text)} {r r' : Range} {t u : Term} {a : Ty} :
      RenamedIn ps t u → RenamedIn ps (.tapp r t a) (.tapp r' u a)
  | gap {ps : List (Text × Text)} : RenamedIn ps .gap .gap

/-- Two terms that differ at most in the names of parameters. -/
def Term.Renamed (t u : Term) : Prop := RenamedIn [] t u

/-! ## Two runs -/

/-- Names that mean the same have the same type, or none. -/
def Context.Paired (ps : List (Text × Text)) (Γ Δ : Context) : Prop :=
  ∀ x y, PolyLambda.Paired ps x y → Γ.lookup? x = Δ.lookup? y

namespace Context.Paired

variable {ps : List (Text × Text)} {Γ Δ : Context}

theorem refl (Γ : Context) : Context.Paired [] Γ Γ := by
  intro x y hxy
  rw [show x = y from hxy]

/-- Below an abstraction.  The names of its two parameters now mean the same, and both hide
what they meant outside. -/
theorem assign (h : Context.Paired ps Γ Δ) (x y : Text) (a : Ty) :
    Context.Paired ((x, y) :: ps) (Γ.assign x a) (Δ.assign y a) := by
  intro v w hvw
  rcases hvw with ⟨rfl, rfl⟩ | ⟨hv, hw, hvw⟩
  · rw [lookup?_assign_self, lookup?_assign_self]
  · rw [lookup?_assign_ne Γ a (Ne.symm hv), lookup?_assign_ne Δ a (Ne.symm hw)]
    exact h v w hvw

end Context.Paired

/-- The code under which a type error is reported; a gap is not reported. -/
def TypeError.code? (e : TypeError) : Option Nat := e.diagnostic?.map Diagnostic.code

theorem Term.RenamedIn.ne_abs {ps : List (Text × Text)} {t u : Term} (h : RenamedIn ps t u)
    (ht : ∀ r x a body, t ≠ .abs r x a body) : ∀ r x a body, u ≠ .abs r x a body := by
  cases h with
  | abs => exact absurd rfl (ht _ _ _ _)
  | int | var | app | tabs | tapp | gap => nofun

/-- **Two runs on terms that differ in the names of parameters** end alike: with the same
type, or with errors of one code. -/
theorem infer_renamedIn {ps : List (Text × Text)} {Γ Δ : Context} {t u : Term}
    (h : Term.RenamedIn ps t u) (hΓ : Context.Paired ps Γ Δ) :
    (infer Γ t).mapError TypeError.code? = (infer Δ u).mapError TypeError.code? := by
  induction Γ, t using walk_induction generalizing ps Δ u with
  | int Γ r n =>
    cases h
    rfl
  | var Γ r x =>
    cases h with
    | var hxy =>
      rw [infer_var, infer_var, hΓ _ _ hxy]
      cases Δ.lookup? _ with
      | none => rfl
      | some a => rfl
  | app Γ r r' x a body arg ihArg ihBody =>
    cases h with
    | app hfn harg =>
      cases hfn with
      | abs hbody =>
        rw [infer_app_abs, infer_app_abs, mapError_bind, mapError_bind, ihArg harg hΓ]
        refine congrArg _ (funext fun b => ?_)
        split
        · exact ihBody hbody (hΓ.assign x _ a)
        · rfl
  | stuck Γ r fn arg hfn =>
    cases h with
    | app hrenamed _ =>
      rw [infer_app_stuck hfn, infer_app_stuck (hrenamed.ne_abs hfn)]
      cases hrenamed with
      | int | var | app | abs | tabs | tapp | gap => rfl
  | abs Γ r x a body ih =>
    cases h with
    | abs hbody =>
      rw [infer_abs, infer_abs, mapError_bind, mapError_bind, ih hbody (hΓ.assign x _ a)]
  | tabs Γ r x k body ih =>
    cases h with
    | tabs hbody =>
      rw [infer_tabs, infer_tabs, mapError_bind, mapError_bind, ih hbody hΓ]
  | tapp Γ r t s ih =>
    cases h with
    | tapp hterm =>
      rw [infer_tapp, infer_tapp, mapError_bind, mapError_bind, ih hterm hΓ]
      refine congrArg _ (funext fun a => ?_)
      cases a with
      | int | var | arrow | all | gap => rfl
  | gap Γ =>
    cases h
    rfl

theorem infer_eq_ok_of_renamedIn {ps : List (Text × Text)} {Γ Δ : Context} {t u : Term} {a : Ty}
    (h : Term.RenamedIn ps t u) (hΓ : Context.Paired ps Γ Δ) (ht : infer Γ t = .ok a) :
    infer Δ u = .ok a := by
  have hruns := infer_renamedIn h hΓ
  rw [ht] at hruns
  exact mapError_eq_ok.mp hruns.symm

/-- **Inference does not depend on the names of parameters.**  Two terms that differ in these
names only, with the same annotations, type arguments and type binders, have the same type in
every context, or are both refused with the same code. -/
theorem infer_renamed_parameters (Γ : Context) {t u : Term} (h : t.Renamed u) :
    (∃ a, infer Γ t = .ok a ∧ infer Γ u = .ok a) ∨
      ∃ e e', infer Γ t = .error e ∧ infer Γ u = .error e' ∧ e.code? = e'.code? := by
  have hΓ := Context.Paired.refl Γ
  cases ht : infer Γ t with
  | ok a => exact .inl ⟨a, rfl, infer_eq_ok_of_renamedIn h hΓ ht⟩
  | error e =>
    have hruns := infer_renamedIn h hΓ
    rw [ht] at hruns
    obtain ⟨e', hu, hcode⟩ := mapError_eq_error.mp hruns.symm
    exact .inr ⟨e, e', rfl, hu, hcode.symm⟩

/-- With `x` and `y` exchanged, `λx: Int. λy: Int -> Int. x` keeps its type.  And in
`λx: Int. (λx: Int -> Int. x) x` the outer parameter, which the inner one shadows, may take
the name `y` or not: the argument is refused for its type. -/
theorem infer_renamed_parameters_shadowing :
    (∃ a, infer [] (.abs .nowhere "x" .int (.abs .nowhere "y" (.arrow .int .int)
        (.var .nowhere "x"))) = .ok a ∧
      infer [] (.abs .nowhere "y" .int (.abs .nowhere "x" (.arrow .int .int)
        (.var .nowhere "y"))) = .ok a) ∧
    ∃ e e', infer [] (.abs .nowhere "x" .int (.app .nowhere (.abs .nowhere "x" (.arrow .int .int)
        (.var .nowhere "x")) (.var .nowhere "x"))) = .error e ∧
      infer [] (.abs .nowhere "y" .int (.app .nowhere (.abs .nowhere "x" (.arrow .int .int)
        (.var .nowhere "x")) (.var .nowhere "y"))) = .error e' ∧
      e.code? = e'.code? := by
  constructor
  · refine (infer_renamed_parameters [] (.abs (.abs (.var ?_)))).resolve_right ?_
    · exact .inr ⟨by decide, by decide, .inl ⟨rfl, rfl⟩⟩
    · rintro ⟨e, e', h, -⟩
      cases h
  · refine (infer_renamed_parameters [] (.abs (.app (.abs (.var ?_)) (.var ?_)))).resolve_left ?_
    · exact .inl ⟨rfl, rfl⟩
    · exact .inl ⟨rfl, rfl⟩
    · rintro ⟨a, h, -⟩
      cases h

end PolyLambda
