import PolyLambda.Proofs.Ty.Scopes

/-!
# The tests for clashes are exact

Substitution without renaming goes wrong exactly where the tests for captured and for
shadowed variables say so: `Ty.substitute` and `Ty.subst` give alpha-equivalent types just
when neither test finds anything.

That a clean substitution is right is `Ty.substitute_eq_subst`.  For the other direction the
two results are compared as nameless types, below the binders that lead to an occurrence of
the replaced variable.  Without renaming, the occurrence is replaced by what the replacement
stands for *there*; it should be what the replacement stands for outside, if the occurrence
is free, and the variable it was, if it is bound.

* If the occurrence is bound, the replacement would have to be a name for the same binder.
  Different names stand for different binders (`Nameless.ofName_inj`), so it would be the
  variable itself, which is the one replacement left out.
* If the occurrence is free, each free variable of the replacement has to stand for itself
  below the binders too, so none of the binders has its name (`Ty.ofName_eq_of_nameless_eq`).
-/

namespace PolyLambda

namespace Nameless

/-- Different names stand for different variables. -/
theorem ofName_inj {σ : List Text} {z w : Text} (h : ofName σ z = ofName σ w) : z = w := by
  induction σ with
  | nil => exact Nameless.free.inj h
  | cons x σ ih =>
    rcases ofName_cons_eq_iff.mp h with ⟨hz, hw⟩ | ⟨-, -, hzw⟩
    · rw [hz, hw]
    · exact ih hzw

theorem not_mem_of_ofName_eq_free {σ : List Text} {y : Text} (h : ofName σ y = free y) :
    y ∉ σ := by
  rcases ofName_bound_or_free σ y with ⟨i, hi⟩ | ⟨-, hy⟩
  · rw [hi] at h
    cases h
  · exact hy

end Nameless

namespace Ty

open Nameless (ofName)

variable {t s : Ty} {x : Text} {σ τ : List Text}

/-- What the free variables stand for can be read off the nameless form. -/
theorem ofName_eq_of_nameless_eq (h : t.nameless σ = t.nameless τ) :
    ∀ y ∈ t.freeVars, ofName σ y = ofName τ y := by
  intro y hy
  induction t generalizing σ τ with
  | int | gap => cases hy
  | var z =>
    rw [List.mem_singleton.mp hy]
    exact h
  | arrow p r ihp ihr =>
    obtain ⟨hp, hr⟩ := Nameless.arrow.inj h
    rcases mem_freeVars_arrow.mp hy with hy | hy
    · exact ihp hp hy
    · exact ihr hr hy
  | all z k b ih =>
    obtain ⟨-, hb⟩ := Nameless.all.inj h
    obtain ⟨hyb, hyz⟩ := mem_freeVars_all.mp hy
    rcases Nameless.ofName_cons_eq_iff.mp (ih hb hyb) with ⟨heq, -⟩ | ⟨-, -, hστ⟩
    · exact absurd heq hyz
    · exact hστ

/-- Below `σ`, substitution without renaming gives what substitution should. -/
def SubstitutesBelow (σ : List Text) (t : Ty) (x : Text) (s : Ty) : Prop :=
  (t.substitute x s).nameless σ = (t.nameless σ).replace x (s.nameless [])

namespace SubstitutesBelow

theorem param {p r : Ty} (h : SubstitutesBelow σ (arrow p r) x s) : SubstitutesBelow σ p x s :=
  (Nameless.arrow.inj h).1

theorem result {p r : Ty} (h : SubstitutesBelow σ (arrow p r) x s) : SubstitutesBelow σ r x s :=
  (Nameless.arrow.inj h).2

theorem body {y : Text} {k : Kind} {b : Ty} (h : SubstitutesBelow σ (all y k b) x s) :
    SubstitutesBelow (y :: σ) b x s :=
  (Nameless.all.inj h).2

/-- At an occurrence of the replaced variable, no binder above is that variable or is free
in the replacement. -/
theorem clear_at_var (hs : s ≠ var x) (h : SubstitutesBelow σ (var x) x s) :
    x ∉ σ ∧ ∀ y ∈ s.freeVars, y ∉ σ := by
  rw [SubstitutesBelow, substitute, if_pos rfl, nameless] at h
  rcases Nameless.ofName_bound_or_free σ x with ⟨i, hi⟩ | ⟨hfree, hx⟩
  · have hname : (var x).nameless σ = s.nameless σ := by
      rw [h, nameless, hi, Nameless.replace]
    obtain ⟨w, rfl, hw⟩ := nameless_eq_var hname
    exact absurd (congrArg var (Nameless.ofName_inj hw.symm)) hs
  · rw [hfree, Nameless.replace, if_pos rfl] at h
    exact ⟨hx, fun y hy => Nameless.not_mem_of_ofName_eq_free (ofName_eq_of_nameless_eq h y hy)⟩

theorem clear_of_occurs (hs : s ≠ var x) (h : SubstitutesBelow σ t x s)
    (hocc : t.occurs x = true) : x ∉ σ ∧ ∀ y ∈ s.freeVars, y ∉ σ := by
  induction t generalizing σ with
  | int | gap => cases hocc
  | var y =>
    obtain rfl : y = x := of_decide_eq_true hocc
    exact clear_at_var hs h
  | arrow p r ihp ihr =>
    rcases Bool.or_eq_true_iff.mp hocc with hocc | hocc
    · exact ihp h.param hocc
    · exact ihr h.result hocc
  | all y k b ih =>
    obtain ⟨hx, hfree⟩ := ih h.body hocc
    exact ⟨fun hmem => hx (List.mem_cons_of_mem _ hmem),
      fun z hz hmem => hfree z hz (List.mem_cons_of_mem _ hmem)⟩

/-- **A right result has no clash.**  Each binder above an occurrence is in the scope of the
walk when the occurrence is reached. -/
theorem unclashing (hs : s ≠ var x) (h : SubstitutesBelow σ t x s) : t.Unclashing x s := by
  induction t generalizing σ with
  | int | var | gap => exact ⟨fun y hy => absurd hy List.not_mem_nil, rfl⟩
  | arrow p r ihp ihr =>
    have hp := ihp h.param
    have hr := ihr h.result
    refine ⟨fun y hy => ?_, Bool.or_eq_false_iff.mpr ⟨hp.unshadowed, hr.unshadowed⟩⟩
    rcases List.mem_append.mp hy with hy | hy
    · exact hp.uncaptured y hy
    · exact hr.uncaptured y hy
  | all y k b ih =>
    have hb := ih h.body
    by_cases hocc : b.occurs x = true
    · obtain ⟨hx, hfree⟩ := h.body.clear_of_occurs hs hocc
      rw [List.mem_cons, not_or] at hx
      constructor
      · rw [bindersOver, if_pos hocc]
        refine List.forall_mem_cons.mpr ⟨fun hy => ?_, hb.uncaptured⟩
        exact hfree y hy List.mem_cons_self
      · rw [shadows, if_neg (Ne.symm hx.1)]
        exact hb.unshadowed
    · constructor
      · rw [bindersOver, if_neg hocc]
        exact fun z hz => absurd hz List.not_mem_nil
      · rw [shadows]
        split
        · exact Bool.eq_false_iff.mpr hocc
        · exact hb.unshadowed

end SubstitutesBelow

/-- **The tests for captured and shadowed variables are exact.**  Let `s` be any type but the
variable `x` itself.  Replacing `x` by `s` in `t` without renaming gives the capture-avoiding
substitution, up to the names of bound variables, if and only if no binder captures and `x`
is not shadowed. -/
theorem substitute_alphaEq_iff_unclashing (t : Ty) {x : Text} {s : Ty} (hs : s ≠ var x) :
    (t.substitute x s).AlphaEq (t.subst x s) ↔ t.captures x s = [] ∧ t.shadows x = false := by
  constructor
  · intro h
    have hbelow : SubstitutesBelow [] t x s := by
      rw [AlphaEq, nameless_subst List.not_mem_nil fun _ _ => List.not_mem_nil] at h
      exact h
    obtain ⟨hcaptures, hshadows⟩ := hbelow.unclashing hs
    refine ⟨List.eq_nil_iff_forall_not_mem.mpr fun y hy => ?_, hshadows⟩
    obtain ⟨hbinder, hfree⟩ := mem_captures.mp hy
    exact hcaptures y hbinder hfree
  · rintro ⟨hcaptures, hshadows⟩
    rw [AlphaEq, substitute_eq_subst ?_ hshadows]
    intro y hbinder hfree
    have hy := mem_captures.mpr ⟨hbinder, hfree⟩
    rw [hcaptures] at hy
    cases hy

/-- In `∀Y: *. (∀X: *. Int) -> X` the replacement of `X` by `Y` is captured.  By `Z` it is
not, and the binder of another `X` beside the occurrence does no harm. -/
theorem substitute_alphaEq_iff_unclashing_beside :
    (¬ ((all "Y" .star (arrow (all "X" .star int) (var "X"))).substitute "X" (var "Y")).AlphaEq
      ((all "Y" .star (arrow (all "X" .star int) (var "X"))).subst "X" (var "Y"))) ∧
    ((all "Y" .star (arrow (all "X" .star int) (var "X"))).substitute "X" (var "Z")).AlphaEq
      ((all "Y" .star (arrow (all "X" .star int) (var "X"))).subst "X" (var "Z")) := by
  constructor
  · intro h
    have hnone := ((substitute_alphaEq_iff_unclashing _ (by decide)).mp h).1
    exact absurd hnone (by decide)
  · exact (substitute_alphaEq_iff_unclashing _ (by decide)).mpr ⟨by decide, by decide⟩

end Ty
end PolyLambda
