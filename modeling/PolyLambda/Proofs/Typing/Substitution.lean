import PolyLambda.Proofs.Typing.FreeVariables
import PolyLambda.Proofs.Typing.Parameters

/-!
# Substituting terms

`Term.subst` replaces the free occurrences of a variable by a term.  It renames a parameter
that would capture a free variable of that term, and leaves type binders as they are.

A term keeps its type when a variable is replaced by a term of the same type
(`infer_subst`).  Three things are special here.

* Only a literal abstraction can be applied.  Substitution makes an abstraction of an
  abstraction, so what can be applied still can.
* Type binders are not tracked in a context.  So nothing has to be asked of the type
  abstractions that the replacing term goes below.
* Contexts are lists with shadowing.  Below parameters that are not free in it, the replacing
  term has the type it had outside, since inference does not see them (`infer_congr`); and a
  parameter that is renamed gives the same run under another name (`infer_renamedIn`).
-/

namespace PolyLambda
namespace Term

/-! ## Renaming -/

/-- All names of variables in a term, of parameters and of occurrences. -/
def varNames : Term → List Text
  | int .. | gap => []
  | var _ x => [x]
  | app _ f a => f.varNames ++ a.varNames
  | abs _ x _ b => x :: b.varNames
  | tabs _ _ _ b => b.varNames
  | tapp _ t _ => t.varNames

/-- The number of nodes of a term. -/
def size : Term → Nat
  | int .. | var .. | gap => 1
  | app _ f a => f.size + a.size + 1
  | abs _ _ _ b | tabs _ _ _ b => b.size + 1
  | tapp _ t _ => t.size + 1

/-- The term with the free occurrences of `x` named `y`. -/
def rename (x y : Text) : Term → Term
  | int r n => int r n
  | var r z => var r (if z = x then y else z)
  | app r f a => app r (f.rename x y) (a.rename x y)
  | abs r z a b => abs r z a (if z = x then b else b.rename x y)
  | tabs r z k b => tabs r z k (b.rename x y)
  | tapp r t a => tapp r (t.rename x y) a
  | gap => gap

theorem size_rename (x y : Text) (t : Term) : (t.rename x y).size = t.size := by
  induction t with
  | int | var | gap => rfl
  | app r f a ihf iha => rw [rename, size, size, ihf, iha]
  | abs r z a b ih =>
    rw [rename, size, size]
    split
    · rfl
    · rw [ih]
  | tabs r z k b ih => rw [rename, size, size, ih]
  | tapp r t a ih => rw [rename, size, size, ih]

theorem mem_varNames_of_mem_freeVars {t : Term} {x : Text} (h : x ∈ t.freeVars) :
    x ∈ t.varNames := by
  induction t with
  | int | gap => cases h
  | var r y => exact h
  | app r f a ihf iha =>
    rcases NameSet.mem_union.mp h with h | h
    · exact List.mem_append_left _ (ihf h)
    · exact List.mem_append_right _ (iha h)
  | abs r y a b ih => exact List.mem_cons_of_mem _ (ih (NameSet.mem_erase.mp h).1)
  | tabs r y k b ih => exact ih h
  | tapp r t a ih => exact ih h

/-- A term is a renaming of itself where its free variables keep their meaning. -/
theorem renamedIn_self {t : Term} {ps : List (Text × Text)}
    (h : ∀ x ∈ t.freeVars, Paired ps x x) : RenamedIn ps t t := by
  induction t generalizing ps with
  | int r n => exact .int
  | var r x => exact .var (h x (List.mem_singleton.mpr rfl))
  | app r f a ihf iha =>
    exact .app (ihf fun x hx => h x (NameSet.mem_union.mpr (.inl hx)))
      (iha fun x hx => h x (NameSet.mem_union.mpr (.inr hx)))
  | abs r y a b ih =>
    refine .abs (ih fun x hx => ?_)
    by_cases hxy : x = y
    · exact .inl ⟨hxy, hxy⟩
    · exact .inr ⟨hxy, hxy, h x (NameSet.mem_erase.mpr ⟨hx, hxy⟩)⟩
  | tabs r y k b ih => exact .tabs (ih h)
  | tapp r t a ih => exact .tapp (ih h)
  | gap => exact .gap

/-- **Renaming to a new name** only changes names, provided that the parameters around the
term are renamed along. -/
theorem renamedIn_rename {t : Term} {x y : Text} (hy : y ∉ t.varNames) {ps : List (Text × Text)}
    (h : ∀ z ∈ t.freeVars, Paired ps z (if z = x then y else z)) :
    RenamedIn ps t (t.rename x y) := by
  induction t generalizing ps with
  | int r n => exact .int
  | var r z => exact .var (h z (List.mem_singleton.mpr rfl))
  | app r f a ihf iha =>
    rw [varNames, List.mem_append, not_or] at hy
    exact .app (ihf hy.1 fun z hz => h z (NameSet.mem_union.mpr (.inl hz)))
      (iha hy.2 fun z hz => h z (NameSet.mem_union.mpr (.inr hz)))
  | abs r w a b ih =>
    rw [varNames, List.mem_cons, not_or] at hy
    refine .abs ?_
    by_cases hwx : w = x
    · -- below a parameter `x` nothing is renamed
      rw [if_pos hwx]
      refine renamedIn_self fun z hz => ?_
      by_cases hzw : z = w
      · exact .inl ⟨hzw, hzw⟩
      · have hpair := h z (NameSet.mem_erase.mpr ⟨hz, hzw⟩)
        rw [if_neg (hwx ▸ hzw)] at hpair
        exact .inr ⟨hzw, hzw, hpair⟩
    · rw [if_neg hwx]
      refine ih hy.2 fun z hz => ?_
      by_cases hzw : z = w
      · rw [if_neg (hzw ▸ hwx)]
        exact .inl ⟨hzw, hzw⟩
      · have hpair := h z (NameSet.mem_erase.mpr ⟨hz, hzw⟩)
        refine .inr ⟨hzw, ?_, hpair⟩
        split
        · exact hy.1
        · exact hzw
  | tabs r w k b ih => exact .tabs (ih hy h)
  | tapp r t a ih => exact .tapp (ih hy h)
  | gap => exact .gap

/-! ## Substitution -/

/-- The name that the parameter `y` of `b` takes before `a` goes below it in place of `x`. -/
def newParam (y : Text) (b : Term) (x : Text) (a : Term) : Text :=
  Ty.freshName y (x :: a.freeVars ++ b.varNames)

theorem newParam_spec (y : Text) (b : Term) (x : Text) (a : Term) :
    newParam y b x a ≠ x ∧ newParam y b x a ∉ a.freeVars ∧ newParam y b x a ∉ b.varNames := by
  have h := Ty.freshName_not_mem y (x :: a.freeVars ++ b.varNames)
  rw [List.cons_append, List.mem_cons, List.mem_append, not_or, not_or] at h
  exact h

/-- The term `t` with the free occurrences of `x` replaced by `a`.  A parameter that is free
in `a` is renamed before `a` goes below it. -/
def subst (t : Term) (x : Text) (a : Term) : Term :=
  match t with
  | int r n => int r n
  | var r y => if y = x then a else var r y
  | app r f u => app r (f.subst x a) (u.subst x a)
  | abs r y c b =>
    if x ∉ (abs r y c b).freeVars then abs r y c b
    else if y ∈ a.freeVars then
      abs r (newParam y b x a) c ((b.rename y (newParam y b x a)).subst x a)
    else abs r y c (b.subst x a)
  | tabs r y k b => tabs r y k (b.subst x a)
  | tapp r u s => tapp r (u.subst x a) s
  | gap => gap
termination_by t.size
decreasing_by
  all_goals simp only [size, size_rename]
  all_goals omega

/-- Substitution makes an abstraction of an abstraction. -/
theorem exists_subst_abs (r : Range) (y : Text) (c : Ty) (b : Term) (x : Text) (a : Term) :
    ∃ y' b', (abs r y c b).subst x a = abs r y' c b' := by
  rw [subst]
  split
  · exact ⟨_, _, rfl⟩
  · split
    · exact ⟨_, _, rfl⟩
    · exact ⟨_, _, rfl⟩

end Term

/-! ## Types are kept -/

/-- A term is applied when it is a literal abstraction and has an arrow type. -/
theorem infer_app_eq_ok {Γ : Context} {r : Range} {fn arg : Term} {b : Ty} :
    infer Γ (.app r fn arg) = .ok b ↔ ∃ r' x a body, fn = .abs r' x a body ∧
      infer Γ fn = .ok (.arrow a b) ∧ infer Γ arg = .ok a := by
  constructor
  · intro h
    by_cases hfn : ∃ r' x a body, fn = .abs r' x a body
    · obtain ⟨r', x, a, body, rfl⟩ := hfn
      obtain ⟨harg, hbody⟩ := infer_app_abs_eq_ok.mp h
      exact ⟨r', x, a, body, rfl, infer_abs_eq_ok.mpr ⟨b, hbody, rfl⟩, harg⟩
    · rw [infer_app_stuck fun r' x a body heq => hfn ⟨r', x, a, body, heq⟩] at h
      cases h
  · rintro ⟨r', x, a, body, rfl, hfn, harg⟩
    obtain ⟨_, hbody, harrow⟩ := infer_abs_eq_ok.mp hfn
    obtain ⟨-, rfl⟩ := Ty.arrow.inj harrow
    exact infer_app_abs_eq_ok.mpr ⟨harg, hbody⟩

/-- The body of an abstraction keeps its type when the parameter takes a new name. -/
theorem infer_rename {Γ : Context} {y z : Text} {a b : Ty} {t : Term} (hz : z ∉ t.varNames)
    (h : infer (Γ.assign y a) t = .ok b) : infer (Γ.assign z a) (t.rename y z) = .ok b := by
  have hrenamed : Term.RenamedIn [(y, z)] t (t.rename y z) := by
    refine Term.renamedIn_rename hz fun w hw => ?_
    by_cases hwy : w = y
    · rw [if_pos hwy]
      exact .inl ⟨hwy, rfl⟩
    · rw [if_neg hwy]
      exact .inr ⟨hwy, fun hwz => hz (hwz ▸ Term.mem_varNames_of_mem_freeVars hw), rfl⟩
  exact infer_eq_ok_of_renamedIn hrenamed ((Context.Paired.refl Γ).assign y z a) h

/-- The contexts of a run before and after the term `a` takes the place of the variable `x`:
the second gives `a` the type that the first gives `x`, and apart from `x` they know the
same. -/
structure Context.Replaces (Γ Δ : Context) (x : Text) (a : Term) (c : Ty) : Prop where
  var_type : Γ.lookup? x = some c
  term_type : infer Δ a = .ok c
  same : ∀ y, y ≠ x → Γ.lookup? y = Δ.lookup? y

namespace Context.Replaces

variable {Γ Δ : Context} {x y : Text} {a : Term} {c : Ty}

theorem start (ha : infer Γ a = .ok c) : (Γ.assign x c).Replaces Γ x a c where
  var_type := lookup?_assign_self Γ x c
  term_type := ha
  same _ hy := lookup?_assign_ne Γ c (Ne.symm hy)

/-- Below a parameter that is not `x` and is not free in `a`. -/
theorem assign (h : Γ.Replaces Δ x a c) (hyx : y ≠ x) (hya : y ∉ a.freeVars) (e : Ty) :
    (Γ.assign y e).Replaces (Δ.assign y e) x a c where
  var_type := by
    rw [lookup?_assign_ne Γ e hyx]
    exact h.var_type
  term_type := by
    rw [← infer_congr (SameOn.assign_unused Δ hya e)]
    exact h.term_type
  same z hz := by
    by_cases hyz : y = z
    · rw [hyz, lookup?_assign_self, lookup?_assign_self]
    · rw [lookup?_assign_ne Γ e hyz, lookup?_assign_ne Δ e hyz]
      exact h.same z hz

end Context.Replaces

/-- **Substitution keeps types.** -/
theorem infer_subst {Γ Δ : Context} {t a : Term} {x : Text} {b c : Ty}
    (hΓ : Γ.Replaces Δ x a c) (h : infer Γ t = .ok b) : infer Δ (t.subst x a) = .ok b := by
  fun_induction Term.subst t x a generalizing Γ Δ b with
  | case1 r n =>
    cases h
    rfl
  | case2 r =>
    have hbc := (infer_var_eq_ok.mp h).symm.trans hΓ.var_type
    rw [hΓ.term_type, Option.some.inj hbc]
  | case3 r y hy =>
    apply infer_var_eq_ok.mpr
    rw [← hΓ.same y hy]
    exact infer_var_eq_ok.mp h
  | case4 r f u ihf ihu =>
    -- the function has an arrow type, and being an abstraction it can still be applied
    obtain ⟨r', y, e, body, rfl, hf, hu⟩ := infer_app_eq_ok.mp h
    obtain ⟨y', body', habs⟩ := Term.exists_subst_abs r' y e body x a
    exact infer_app_eq_ok.mpr ⟨r', y', e, body', habs, ihf hΓ hf, ihu hΓ hu⟩
  | case5 r y e t hfree =>
    have hsame : Γ.SameOn Δ (Term.abs r y e t).freeVars :=
      fun z hz => hΓ.same z fun hzx => hfree (hzx ▸ hz)
    rw [← infer_congr hsame]
    exact h
  | case6 r y e t hfree hy ih =>
    obtain ⟨hzx, hza, hzt⟩ := Term.newParam_spec y t x a
    obtain ⟨d, ht, rfl⟩ := infer_abs_eq_ok.mp h
    have hbody := ih (hΓ.assign hzx hza e) (infer_rename hzt ht)
    exact infer_abs_eq_ok.mpr ⟨d, hbody, rfl⟩
  | case7 r y e t hfree hy ih =>
    have hxy := (NameSet.mem_erase.mp (Classical.not_not.mp hfree)).2
    obtain ⟨d, ht, rfl⟩ := infer_abs_eq_ok.mp h
    have hbody := ih (hΓ.assign (Ne.symm hxy) hy e) ht
    exact infer_abs_eq_ok.mpr ⟨d, hbody, rfl⟩
  | case8 r y k t ih =>
    obtain ⟨d, ht, rfl⟩ := infer_tabs_eq_ok.mp h
    exact infer_tabs_eq_ok.mpr ⟨d, ih hΓ ht, rfl⟩
  | case9 r u s ih =>
    obtain ⟨y, k, d, hu, hcomplete, rfl⟩ := infer_tapp_eq_ok.mp h
    exact infer_tapp_eq_ok.mpr ⟨y, k, d, ih hΓ hu, hcomplete, rfl⟩
  | case10 => cases h

end PolyLambda
