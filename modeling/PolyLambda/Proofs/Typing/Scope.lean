import PolyLambda.Proofs.Ty.FreeVariables
import PolyLambda.Proofs.Typing.Rules

/-!
# Inferred types stay in scope

A type that is inferred speaks of no type variables but those of the context and those
that are free in the term (`HasType.mem_freeVars`).

The rule of instantiation is the one to look at.  Its substitution may capture and it goes
below binders of the variable it replaces, so what becomes of the variables is not what
a capture-avoiding substitution makes of them.  But both faults only bind more: a variable
that is free in the result is free in one of the two types (`Ty.mem_freeVars_substitute`),
and it is the replaced variable only where the replacement has it.
-/

namespace PolyLambda

/-- The type variables of annotations and type arguments that no quantifier and no
enclosing type abstraction binds. -/
def Term.freeTypeVars : Term → List Text
  | int .. | var .. | gap => []
  | app _ f a => NameSet.union f.freeTypeVars a.freeTypeVars
  | abs _ _ a b => NameSet.union a.freeVars b.freeTypeVars
  | tabs _ x _ b => NameSet.erase x b.freeTypeVars
  | tapp _ t a => NameSet.union t.freeTypeVars a.freeVars

/-- A type variable is free in some type of the context. -/
def Context.Mentions (Γ : Context) (x : Text) : Prop := ∃ p ∈ Γ, x ∈ p.2.freeVars

theorem Context.mentions_assign {Γ : Context} {x y : Text} {a : Ty} :
    (Γ.assign y a).Mentions x ↔ x ∈ a.freeVars ∨ Γ.Mentions x := by
  constructor
  · rintro ⟨p, hp, hx⟩
    rcases List.mem_cons.mp hp with rfl | hp
    · exact .inl hx
    · exact .inr ⟨p, hp, hx⟩
  · rintro (hx | ⟨p, hp, hx⟩)
    · exact ⟨(y, a), List.mem_cons_self, hx⟩
    · exact ⟨p, List.mem_cons_of_mem _ hp, hx⟩

/-- **The rules keep to the type variables in scope.** -/
theorem HasType.mem_freeVars {Γ : Context} {t : Term} {a : Ty} (h : HasType Γ t a) {x : Text}
    (hx : x ∈ a.freeVars) : Γ.Mentions x ∨ x ∈ t.freeTypeVars := by
  induction h with
  | int => cases hx
  | var hlookup => exact .inl ⟨_, Context.mem_of_lookup? hlookup, hx⟩
  | app _ _ _ ihBody =>
    -- the parameter's type is the annotation, so nothing is owed to the argument
    rcases ihBody hx with hΓ | hbody
    · rcases Context.mentions_assign.mp hΓ with ha | hΓ
      · exact .inr (NameSet.mem_union.mpr (.inl (NameSet.mem_union.mpr (.inl ha))))
      · exact .inl hΓ
    · exact .inr (NameSet.mem_union.mpr (.inl (NameSet.mem_union.mpr (.inr hbody))))
  | abs _ ih =>
    rcases Ty.mem_freeVars_arrow.mp hx with ha | hb
    · exact .inr (NameSet.mem_union.mpr (.inl ha))
    · rcases ih hb with hΓ | hbody
      · rcases Context.mentions_assign.mp hΓ with ha | hΓ
        · exact .inr (NameSet.mem_union.mpr (.inl ha))
        · exact .inl hΓ
      · exact .inr (NameSet.mem_union.mpr (.inr hbody))
  | tabs _ ih =>
    obtain ⟨hx, hne⟩ := Ty.mem_freeVars_all.mp hx
    rcases ih hx with hΓ | hbody
    · exact .inl hΓ
    · exact .inr (NameSet.mem_erase.mpr ⟨hbody, hne⟩)
  | tapp _ ih =>
    rcases Ty.mem_freeVars_substitute hx with ⟨hb, hne⟩ | hs
    · rcases ih (Ty.mem_freeVars_all.mpr ⟨hb, hne⟩) with hΓ | ht
      · exact .inl hΓ
      · exact .inr (NameSet.mem_union.mpr (.inl ht))
    · exact .inr (NameSet.mem_union.mpr (.inr hs))

/-- **Inferred types stay in scope.**  A free variable of an inferred type is free in the type
of an assignment or in the term; so in a context of closed types a term without free type
variables has a closed type.  Nothing is assumed about captures on the way. -/
theorem inferred_type_in_scope {Γ : Context} {t : Term} {a : Ty} (h : infer Γ t = .ok a) :
    (∀ x ∈ a.freeVars, Γ.Mentions x ∨ x ∈ t.freeTypeVars) ∧
      ((∀ p ∈ Γ, p.2.isClosed = true) → t.freeTypeVars = [] → a.isClosed = true) := by
  have hscope : ∀ x ∈ a.freeVars, Γ.Mentions x ∨ x ∈ t.freeTypeVars :=
    fun x hx => (hasType_of_infer h).mem_freeVars hx
  refine ⟨hscope, fun hΓ ht => ?_⟩
  apply List.isEmpty_iff.mpr
  apply List.eq_nil_iff_forall_not_mem.mpr
  intro x hx
  rcases hscope x hx with ⟨p, hp, hxp⟩ | hxt
  · rw [List.isEmpty_iff.mp (hΓ p hp)] at hxp
    cases hxp
  · rw [ht] at hxt
    cases hxt

/-- With `f: ∀X: *. ∀Y: *. X -> Z`, the instantiation `f [Y]` captures; of its type
`∀Y: *. Y -> Z` the one free variable is the context's.  With a closed type for `f`, and `Y`
bound by the term, the type of the same instantiation is closed. -/
theorem inferred_type_in_scope_capture :
    (infer [("f", .all "X" .star (.all "Y" .star (.arrow (.var "X") (.var "Z"))))]
        (.tapp .nowhere (.var .nowhere "f") (.var "Y")) =
          .ok (.all "Y" .star (.arrow (.var "Y") (.var "Z"))) ∧
      (Context.Mentions [("f", .all "X" .star (.all "Y" .star (.arrow (.var "X") (.var "Z"))))] "Z" ∨
        Text.ofString "Z" ∈ (Term.tapp .nowhere (.var .nowhere "f") (.var "Y")).freeTypeVars)) ∧
    (infer [("f", .all "X" .star (.all "Y" .star (.arrow (.var "X") .int)))]
        (.tabs .nowhere "Y" .star (.tapp .nowhere (.var .nowhere "f") (.var "Y"))) =
          .ok (.all "Y" .star (.all "Y" .star (.arrow (.var "Y") .int))) ∧
      (Ty.all "Y" .star (.all "Y" .star (.arrow (.var "Y") .int))).isClosed = true) := by
  refine ⟨⟨rfl, ?_⟩, rfl, ?_⟩
  · exact (inferred_type_in_scope rfl).1 "Z" (by decide)
  · exact (inferred_type_in_scope
      (Γ := [("f", .all "X" .star (.all "Y" .star (.arrow (.var "X") .int)))])
      (t := .tabs .nowhere "Y" .star (.tapp .nowhere (.var .nowhere "f") (.var "Y")))
      rfl).2 (by decide) (by decide)

end PolyLambda
