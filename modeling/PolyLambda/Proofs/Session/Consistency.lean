import PolyLambda.Proofs.Check
import PolyLambda.Proofs.Session

/-!
# Sessions are consistent

Below its quantifiers, every type that a session binds or infers is `Int` or an arrow
(`Ty.IsSolid`).  In particular no term has the type `∀X: *. X`.

Under an abstraction the context may well assign a type variable, and then a term there has
that variable as its type.  So the invariant is not kept by walking into an abstraction, and
it need not be: the abstraction has an arrow type, whatever its body has.  The body of an
*applied* abstraction is another matter, but there the parameter has the type of the
argument, which is solid already.

Substitution may capture, but it replaces type variables only, and what stands below the
quantifiers of a solid type is none.
-/

namespace PolyLambda

/-- A type without its leading quantifiers. -/
def Ty.matrix : Ty → Ty
  | .all _ _ b => b.matrix
  | a => a

/-- Below its leading quantifiers the type is `Int` or an arrow. -/
def Ty.IsSolid (a : Ty) : Prop := a.matrix = .int ∨ ∃ p r, a.matrix = .arrow p r

namespace Ty.IsSolid

theorem int : Ty.int.IsSolid := .inl rfl

theorem arrow (p r : Ty) : (Ty.arrow p r).IsSolid := .inr ⟨p, r, rfl⟩

theorem all_iff {x : Text} {k : Kind} {b : Ty} : (Ty.all x k b).IsSolid ↔ b.IsSolid := Iff.rfl

theorem not_var (x : Text) : ¬ (Ty.var x).IsSolid := by
  rintro (h | ⟨p, r, h⟩)
  · cases h
  · cases h

theorem substitute {b : Ty} (h : b.IsSolid) (x : Text) (s : Ty) : (b.substitute x s).IsSolid := by
  induction b with
  | int => exact int
  | var y => exact absurd h (not_var y)
  | arrow p r => exact arrow _ _
  | all y k b ih => exact all_iff.mpr (ih (all_iff.mp h))
  | gap =>
    rcases h with h | ⟨p, r, h⟩
    · cases h
    · cases h

end Ty.IsSolid

/-- **The rules keep types solid.** -/
theorem HasType.isSolid {Γ : Context} {t : Term} {a : Ty} (h : HasType Γ t a)
    (hΓ : ∀ p ∈ Γ, p.2.IsSolid) : a.IsSolid := by
  induction h with
  | int => exact .int
  | var hx => exact hΓ _ (Context.mem_of_lookup? hx)
  | app _ _ ihArg ihBody => exact ihBody (List.forall_mem_cons.mpr ⟨ihArg hΓ, hΓ⟩)
  | abs _ _ => exact .arrow _ _
  | tabs _ ih => exact Ty.IsSolid.all_iff.mpr (ih hΓ)
  | tapp _ ih => exact (Ty.IsSolid.all_iff.mp (ih hΓ)).substitute _ _

namespace Session

theorem isSolid_of_check {s : Session} (hs : ∀ p ∈ s.context, p.2.IsSolid) {source : Text}
    {checked : Checked} (h : s.check source = .ok checked) : checked.type.IsSolid :=
  (hasType_of_infer (check_eq_ok.mp h).2).isSolid hs

theorem isSolid_after (c : Calculus) (inputs : List Text) :
    ∀ p ∈ ((start c).after inputs).context, p.2.IsSolid := by
  refine after_induction (P := fun s => ∀ p ∈ s.context, p.2.IsSolid) ?_ ?_ inputs
  · intro s s' command reply hstep hs
    exact hstep.forall_context hs fun _ _ => isSolid_of_check hs
  · intro p hp
    cases hp

/-- **Sessions are consistent.**  After any inputs, in a session started in either calculus,
every bound type and the type of every accepted term are solid; so no term is accepted with
the type `∀X: *. X`, nor with a type variable below any number of quantifiers. -/
theorem session_types_solid (c : Calculus) (inputs : List Text) :
    (∀ p ∈ ((start c).after inputs).context, p.2.IsSolid) ∧
    ∀ source checked, ((start c).after inputs).check source = .ok checked →
      checked.type.IsSolid ∧ (∀ x, checked.type.matrix ≠ .var x) ∧
        ∀ x, checked.type ≠ .all x .star (.var x) := by
  refine ⟨isSolid_after c inputs, fun source checked h => ?_⟩
  have hsolid := isSolid_of_check (isSolid_after c inputs) h
  refine ⟨hsolid, fun x hx => ?_, fun x hx => ?_⟩
  · rw [Ty.IsSolid, hx] at hsolid
    exact Ty.IsSolid.not_var x hsolid
  · rw [hx] at hsolid
    exact Ty.IsSolid.not_var x hsolid

/-- An instantiation at `∀Y: *. Y` has an arrow type. -/
theorem session_types_solid_identity :
    ((start .systemF).after [":let id = ΛX: *. λx: X. x", ":stlc", ":systemf"]).check
        "id [∀Y: *. Y]" =
      .ok ⟨.tapp ⟨1, 14⟩ (.var ⟨1, 3⟩ "id") (.all "Y" .star (.var "Y")),
        .arrow (.all "Y" .star (.var "Y")) (.all "Y" .star (.var "Y"))⟩ ∧
      (Ty.arrow (.all "Y" .star (.var "Y")) (.all "Y" .star (.var "Y"))).IsSolid := by
  have h : ((start .systemF).after [":let id = ΛX: *. λx: X. x", ":stlc", ":systemf"]).check
        "id [∀Y: *. Y]" =
      .ok ⟨.tapp ⟨1, 14⟩ (.var ⟨1, 3⟩ "id") (.all "Y" .star (.var "Y")),
        .arrow (.all "Y" .star (.var "Y")) (.all "Y" .star (.var "Y"))⟩ := rfl
  exact ⟨h, ((session_types_solid _ _).2 _ _ h).1⟩

end Session
end PolyLambda
