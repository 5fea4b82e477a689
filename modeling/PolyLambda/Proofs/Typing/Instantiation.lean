import PolyLambda.Proofs.Ty.Alpha
import PolyLambda.Proofs.Typing.Rules

/-!
# Instantiating a type abstraction

The type of `(ΛX: K. t) [S]` is found by typing `t` and then replacing `X` by `S` in its type.
It can also be found by replacing `X` by `S` in the annotations and type arguments of `t` and
then typing what results.  The two agree as long as no binder is named `X` or like a variable
of `S` (`infer_instantiate`).

The step that needs this condition is a type application `u [A]` inside of `t`, where `u` has
a type `∀Y: K. B`.  There `X` is replaced by `S` after `Y` was replaced by `A`, or before; that
the order does not matter is a law about substitution without renaming
(`Ty.substitute_substitute`).  It asks that `Y` is not `X` and does not occur in `S`.  Now `Y` is
a binder of an inferred type, not one that can be read in `t`.  But inference makes no binders:
each one comes from the context or from the term (`HasType.forall_binders`).
-/

namespace PolyLambda

/-! ## Binders -/

/-- The names that the quantifiers of a type bind. -/
def Ty.binders : Ty → List Text
  | int | var _ | gap => []
  | arrow p r => p.binders ++ r.binders
  | all x _ b => x :: b.binders

/-- The names that type abstractions bind in a term, and the quantifiers in its annotations and
type arguments. -/
def Term.typeBinders : Term → List Text
  | int .. | var .. | gap => []
  | app _ f a => f.typeBinders ++ a.typeBinders
  | abs _ _ a b => a.binders ++ b.typeBinders
  | tabs _ x _ b => x :: b.typeBinders
  | tapp _ t a => t.typeBinders ++ a.binders

theorem Ty.forall_binders_substitute {P : Text → Prop} {t s : Ty} (x : Text)
    (ht : ∀ y ∈ t.binders, P y) (hs : ∀ y ∈ s.binders, P y) :
    ∀ y ∈ (t.substitute x s).binders, P y := by
  induction t with
  | int | gap => exact ht
  | var z =>
    rw [substitute]
    split
    · exact hs
    · exact ht
  | arrow p r ihp ihr =>
    obtain ⟨hp, hr⟩ := List.forall_mem_append.mp ht
    exact List.forall_mem_append.mpr ⟨ihp hp, ihr hr⟩
  | all z k b ih =>
    obtain ⟨hz, hb⟩ := List.forall_mem_cons.mp ht
    exact List.forall_mem_cons.mpr ⟨hz, ih hb⟩

/-- **The rules make no binders.**  What holds of the names bound in a context and in a term
holds of those bound in the type. -/
theorem HasType.forall_binders {P : Text → Prop} {Γ : Context} {t : Term} {a : Ty}
    (h : HasType Γ t a) (hΓ : ∀ p ∈ Γ, ∀ y ∈ p.2.binders, P y) (ht : ∀ y ∈ t.typeBinders, P y) :
    ∀ y ∈ a.binders, P y := by
  induction h with
  | int => exact fun y hy => absurd hy List.not_mem_nil
  | var hx => exact hΓ _ (Context.mem_of_lookup? hx)
  | app _ _ _ ihBody =>
    obtain ⟨ha, hbody⟩ := List.forall_mem_append.mp (List.forall_mem_append.mp ht).1
    exact ihBody (List.forall_mem_cons.mpr ⟨ha, hΓ⟩) hbody
  | abs _ ih =>
    obtain ⟨ha, hbody⟩ := List.forall_mem_append.mp ht
    have hresult := ih (List.forall_mem_cons.mpr ⟨ha, hΓ⟩) hbody
    exact List.forall_mem_append.mpr ⟨ha, hresult⟩
  | tabs _ ih =>
    obtain ⟨hx, hbody⟩ := List.forall_mem_cons.mp ht
    exact List.forall_mem_cons.mpr ⟨hx, ih hΓ hbody⟩
  | tapp _ ih =>
    obtain ⟨hterm, hs⟩ := List.forall_mem_append.mp ht
    have hall := ih hΓ hterm
    exact Ty.forall_binders_substitute _ (List.forall_mem_cons.mp hall).2 hs

/-! ## Two substitutions -/

/-- **Substitutions without renaming can be exchanged**, where the one does not bring in the
variable of the other.  No condition on the binders in `t` is needed, as none is looked at. -/
theorem Ty.substitute_substitute {s : Ty} {x y : Text} (hyx : y ≠ x) (hys : s.occurs y = false)
    (t a : Ty) :
    (t.substitute y a).substitute x s = (t.substitute x s).substitute y (a.substitute x s) := by
  induction t with
  | int | gap => rfl
  | var z =>
    by_cases hzy : z = y
    · have hzx : z ≠ x := hzy ▸ hyx
      rw [substitute, substitute, if_pos hzy, if_neg hzx, substitute, if_pos hzy]
    · by_cases hzx : z = x
      · rw [substitute, substitute, if_neg hzy, if_pos hzx, substitute, if_pos hzx,
          substitute_of_not_occurs hys]
      · rw [substitute, substitute, if_neg hzy, if_neg hzx, substitute, if_neg hzx, substitute,
          if_neg hzy]
  | arrow p r ihp ihr => simp only [substitute, ihp, ihr]
  | all z k b ih => simp only [substitute, ih]

/-! ## Replacing a type variable in a run -/

/-- The term with `x` replaced by `s` in every annotation and type argument. -/
def Term.instantiate (t : Term) (x : Text) (s : Ty) : Term :=
  match t with
  | int r n => int r n
  | var r y => var r y
  | app r f a => app r (f.instantiate x s) (a.instantiate x s)
  | abs r y a b => abs r y (a.substitute x s) (b.instantiate x s)
  | tabs r y k b => tabs r y k (b.instantiate x s)
  | tapp r t a => tapp r (t.instantiate x s) (a.substitute x s)
  | gap => gap

namespace Context

/-- The context with `x` replaced by `s` in every type. -/
def instantiate (Γ : Context) (x : Text) (s : Ty) : Context :=
  Γ.map fun p => (p.1, p.2.substitute x s)

theorem lookup?_instantiate (Γ : Context) (x : Text) (s : Ty) (y : Text) :
    (Γ.instantiate x s).lookup? y = (Γ.lookup? y).map (·.substitute x s) := by
  induction Γ with
  | nil => rfl
  | cons p Γ ih =>
    obtain ⟨z, a⟩ := p
    show lookup? ((z, a.substitute x s) :: instantiate Γ x s) y = _
    rw [lookup?, lookup?]
    split
    · rfl
    · exact ih

theorem instantiate_of_not_occurs {Γ : Context} {x : Text} {s : Ty}
    (h : ∀ p ∈ Γ, p.2.occurs x = false) : Γ.instantiate x s = Γ := by
  induction Γ with
  | nil => rfl
  | cons p Γ ih =>
    obtain ⟨hp, hΓ⟩ := List.forall_mem_cons.mp h
    show (p.1, p.2.substitute x s) :: instantiate Γ x s = p :: Γ
    rw [Ty.substitute_of_not_occurs hp, ih hΓ]

end Context

/-- **A type variable can be replaced throughout a run.**  Where no bound name is the variable
`x` or occurs in `s`, a term with `s` in place of `x` has the type with `s` in place of `x`. -/
theorem infer_instantiate {Γ : Context} {t : Term} {x : Text} {s b : Ty}
    (hs : s.isComplete = true)
    (hΓ : ∀ p ∈ Γ, ∀ y ∈ p.2.binders, y ≠ x ∧ s.occurs y = false)
    (ht : ∀ y ∈ t.typeBinders, y ≠ x ∧ s.occurs y = false) (h : infer Γ t = .ok b) :
    infer (Γ.instantiate x s) (t.instantiate x s) = .ok (b.substitute x s) := by
  induction Γ, t using walk_induction generalizing b with
  | int Γ r n =>
    cases h
    rfl
  | var Γ r y =>
    apply infer_var_eq_ok.mpr
    rw [Γ.lookup?_instantiate, infer_var_eq_ok.mp h]
    rfl
  | app Γ r r' y a body arg ihArg ihBody =>
    obtain ⟨habs, harg⟩ := List.forall_mem_append.mp ht
    obtain ⟨ha, hbody⟩ := List.forall_mem_append.mp habs
    obtain ⟨hargType, hbodyType⟩ := infer_app_abs_eq_ok.mp h
    -- equal types stay equal, so the argument still fits
    exact infer_app_abs_eq_ok.mpr
      ⟨ihArg hΓ harg hargType, ihBody (List.forall_mem_cons.mpr ⟨ha, hΓ⟩) hbody hbodyType⟩
  | stuck Γ r fn arg hfn =>
    rw [infer_app_stuck hfn] at h
    cases h
  | abs Γ r y a body ih =>
    obtain ⟨ha, hbody⟩ := List.forall_mem_append.mp ht
    obtain ⟨c, hc, rfl⟩ := infer_abs_eq_ok.mp h
    have hbodyType := ih (List.forall_mem_cons.mpr ⟨ha, hΓ⟩) hbody hc
    exact infer_abs_eq_ok.mpr ⟨_, hbodyType, rfl⟩
  | tabs Γ r y k body ih =>
    obtain ⟨-, hbody⟩ := List.forall_mem_cons.mp ht
    obtain ⟨c, hc, rfl⟩ := infer_tabs_eq_ok.mp h
    exact infer_tabs_eq_ok.mpr ⟨_, ih hΓ hbody hc, rfl⟩
  | tapp Γ r u a ih =>
    obtain ⟨hu, -⟩ := List.forall_mem_append.mp ht
    obtain ⟨y, k, c, huType, ⟨hc, ha⟩, rfl⟩ := infer_tapp_eq_ok.mp h
    -- the instantiated quantifier has its name from the context or from `u`
    have hbinders := (hasType_of_infer huType).forall_binders hΓ hu
    obtain ⟨hyx, hys⟩ := hbinders y List.mem_cons_self
    refine infer_tapp_eq_ok.mpr ⟨y, k, _, ih hΓ hu huType, ⟨?_, ?_⟩, ?_⟩
    · exact Ty.isComplete_substitute hc hs
    · exact Ty.isComplete_substitute ha hs
    · exact Ty.substitute_substitute hyx hys c a
  | gap Γ => cases h

/-- **Instantiating a type abstraction agrees with typing the instantiated body.**  Let `x`
not occur in the types of the context, and let no binder in these or in `t` be named `x` or like
a variable that occurs in `s`.  Then the type of `(Λx: k. t) [s]` is the type of `t` with `s` in
place of `x`. -/
theorem instantiation_agrees {Γ : Context} {r r' : Range} {x : Text} {k : Kind} {t : Term}
    {s c : Ty} (hx : ∀ p ∈ Γ, p.2.occurs x = false)
    (hΓ : ∀ p ∈ Γ, ∀ y ∈ p.2.binders, y ≠ x ∧ s.occurs y = false)
    (ht : ∀ y ∈ t.typeBinders, y ≠ x ∧ s.occurs y = false)
    (h : infer Γ (.tapp r (.tabs r' x k t) s) = .ok c) : infer Γ (t.instantiate x s) = .ok c := by
  obtain ⟨_, _, _, hall, ⟨-, hs⟩, rfl⟩ := infer_tapp_eq_ok.mp h
  obtain ⟨b, hb, heq⟩ := infer_tabs_eq_ok.mp hall
  obtain ⟨rfl, -, rfl⟩ := Ty.all.inj heq
  have hrun := infer_instantiate hs hΓ ht hb
  rw [Context.instantiate_of_not_occurs hx] at hrun
  exact hrun

/-- With `g: ∀Y: *. Y -> Int`, the term `(ΛX: *. λx: X. g [X]) [Z -> Z]` instantiates twice, and
`λx: Z -> Z. g [Z -> Z]` has its type `(Z -> Z) -> (Z -> Z) -> Int`. -/
theorem instantiation_agrees_nested :
    infer [("g", .all "Y" .star (.arrow (.var "Y") .int))]
        (.tapp .nowhere (.tabs .nowhere "X" .star (.abs .nowhere "x" (.var "X")
          (.tapp .nowhere (.var .nowhere "g") (.var "X")))) (.arrow (.var "Z") (.var "Z"))) =
      .ok (.arrow (.arrow (.var "Z") (.var "Z"))
        (.arrow (.arrow (.var "Z") (.var "Z")) .int)) ∧
    infer [("g", .all "Y" .star (.arrow (.var "Y") .int))]
        (.abs .nowhere "x" (.arrow (.var "Z") (.var "Z"))
          (.tapp .nowhere (.var .nowhere "g") (.arrow (.var "Z") (.var "Z")))) =
      .ok (.arrow (.arrow (.var "Z") (.var "Z"))
        (.arrow (.arrow (.var "Z") (.var "Z")) .int)) := by
  have h : infer [("g", .all "Y" .star (.arrow (.var "Y") .int))]
      (.tapp .nowhere (.tabs .nowhere "X" .star (.abs .nowhere "x" (.var "X")
        (.tapp .nowhere (.var .nowhere "g") (.var "X")))) (.arrow (.var "Z") (.var "Z"))) =
      .ok (.arrow (.arrow (.var "Z") (.var "Z"))
        (.arrow (.arrow (.var "Z") (.var "Z")) .int)) := rfl
  exact ⟨h, instantiation_agrees (by decide) (by decide) (by decide) h⟩

end PolyLambda
