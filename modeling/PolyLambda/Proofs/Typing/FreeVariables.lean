import PolyLambda.Proofs.Typing.Renaming

/-!
# What inference reads of a context

The type of a term depends on a context only through the types that its free variables have
there.  Two runs of one term in two contexts are compared step by step.  The contexts may
differ in length, in order and in everything that is shadowed or not used; what relates them
is that they know the same of each free variable (`Context.SameOn`).  An abstraction takes
its parameter off the free variables and assigns it in both contexts, and so the relation
holds again below it (`Context.SameOn.assign`).

The runs do not only end with the same type.  Where they fail, they fail with the same error,
and they warn of the same instantiations on the way.  So all that a run needs of a context is
what `Context.needed` keeps of it.
-/

namespace PolyLambda

namespace Context

/-- Two contexts give each of the variables `xs` the same type, or none. -/
def SameOn (Γ Δ : Context) (xs : List Text) : Prop := ∀ x ∈ xs, Γ.lookup? x = Δ.lookup? x

namespace SameOn

variable {Γ Δ : Context} {xs ys : List Text} {x : Text}

theorem left (h : Γ.SameOn Δ (NameSet.union xs ys)) : Γ.SameOn Δ xs :=
  fun y hy => h y (NameSet.mem_union.mpr (.inl hy))

theorem right (h : Γ.SameOn Δ (NameSet.union xs ys)) : Γ.SameOn Δ ys :=
  fun y hy => h y (NameSet.mem_union.mpr (.inr hy))

/-- Below an abstraction. -/
theorem assign (h : Γ.SameOn Δ (NameSet.erase x xs)) (a : Ty) :
    (Γ.assign x a).SameOn (Δ.assign x a) xs := by
  intro y hy
  by_cases hxy : x = y
  · rw [hxy, lookup?_assign_self, lookup?_assign_self]
  · rw [lookup?_assign_ne Γ a hxy, lookup?_assign_ne Δ a hxy]
    exact h y (NameSet.mem_erase.mpr ⟨hy, Ne.symm hxy⟩)

/-- A variable that is not used may be assigned on one side only. -/
theorem assign_unused (Γ : Context) (hx : x ∉ xs) (a : Ty) : Γ.SameOn (Γ.assign x a) xs := by
  intro y hy
  have hxy : x ≠ y := fun heq => hx (heq ▸ hy)
  rw [lookup?_assign_ne Γ a hxy]

end SameOn

end Context

/-! ## Two runs of one term -/

/-- **The outcome of a run** depends on the types of the free variables only. -/
theorem infer_congr {Γ Δ : Context} {t : Term} (h : Γ.SameOn Δ t.freeVars) :
    infer Γ t = infer Δ t := by
  induction Γ, t using walk_induction generalizing Δ with
  | int Γ r n => rfl
  | var Γ r x => rw [infer_var, infer_var, h x (List.mem_singleton.mpr rfl)]
  | app Γ r r' x a body arg ihArg ihBody =>
    -- the body is typed in place, below a parameter that no visit of the abstraction assigned
    have hbody := h.left.assign a
    rw [infer_app_abs, infer_app_abs, ihArg h.right, ihBody hbody]
  | stuck Γ r fn arg hfn => rw [infer_app_stuck hfn, infer_app_stuck hfn]
  | abs Γ r x a body ih => rw [infer_abs, infer_abs, ih (h.assign a)]
  | tabs Γ r x k body ih =>
    have hbody : Γ.SameOn Δ body.freeVars := h
    rw [infer_tabs, infer_tabs, ih hbody]
  | tapp Γ r t s ih =>
    have hterm : Γ.SameOn Δ t.freeVars := h
    rw [infer_tapp, infer_tapp, ih hterm]
  | gap Γ => rfl

theorem warnings_app_stuck {Γ : Context} {r : Range} {fn arg : Term}
    (h : ∀ r' x a body, fn ≠ .abs r' x a body) : warnings Γ (.app r fn arg) = [] := by
  cases fn with
  | abs r' x a body => exact absurd rfl (h r' x a body)
  | int | var | app | tabs | tapp | gap => rfl

/-- **The warnings of a run** depend on the types of the free variables only. -/
theorem warnings_congr {Γ Δ : Context} {t : Term} (h : Γ.SameOn Δ t.freeVars) :
    warnings Γ t = warnings Δ t := by
  induction Γ, t using walk_induction generalizing Δ with
  | int Γ r n => rfl
  | var Γ r x => rfl
  | app Γ r r' x a body arg ihArg ihBody =>
    have hbody := h.left.assign a
    rw [warnings, warnings, ihArg h.right, infer_congr h.right, ihBody hbody]
  | stuck Γ r fn arg hfn => rw [warnings_app_stuck hfn, warnings_app_stuck hfn]
  | abs Γ r x a body ih => rw [warnings, warnings, ih (h.assign a)]
  | tabs Γ r x k body ih =>
    have hbody : Γ.SameOn Δ body.freeVars := h
    rw [warnings, warnings, ih hbody]
  | tapp Γ r t s ih =>
    have hterm : Γ.SameOn Δ t.freeVars := h
    rw [warnings, warnings, ih hterm, infer_congr hterm]
  | gap Γ => rfl

/-! ## The assignments that are needed -/

namespace Context

/-- What `t` needs of a context: the visible assignments of its free variables, in increasing
order of names. -/
def needed (Γ : Context) (t : Term) : Context := Γ.visible.filter fun p => p.1 ∈ t.freeVars

theorem lookup?_filter (Γ : Context) (keep : Text → Bool) {x : Text} (hx : keep x = true) :
    lookup? (Γ.filter fun p => keep p.1) x = Γ.lookup? x := by
  induction Γ with
  | nil => rfl
  | cons p Γ ih =>
    obtain ⟨y, a⟩ := p
    rw [List.filter_cons]
    by_cases hyx : y = x
    · rw [if_pos (hyx ▸ hx), lookup?, lookup?, if_pos hyx, if_pos hyx]
    · rw [lookup?, if_neg hyx]
      split
      · rw [lookup?, if_neg hyx, ih]
      · exact ih

theorem sameOn_needed (Γ : Context) (t : Term) : Γ.SameOn (Γ.needed t) t.freeVars := by
  intro x hx
  have hfilter := lookup?_filter Γ.visible (fun y => y ∈ t.freeVars) (decide_eq_true hx)
  rw [needed, hfilter, lookup?_visible]

end Context

/-- **Inference reads a context through the free variables of the term.**  In contexts that
give these the same types, it returns the same type or the same error, and it warns of the
same instantiations.  So shadowed and unused assignments do not matter, nor does the order
of the others: the needed assignments alone, sorted by name, give the same outcome and the
same warnings. -/
theorem infer_reads_free_variables (Γ : Context) (t : Term) :
    (∀ Δ : Context, (∀ x ∈ t.freeVars, Γ.lookup? x = Δ.lookup? x) →
      infer Γ t = infer Δ t ∧ warnings Γ t = warnings Δ t) ∧
    infer Γ t = infer (Γ.needed t) t ∧ warnings Γ t = warnings (Γ.needed t) t := by
  refine ⟨fun Δ h => ⟨infer_congr h, warnings_congr h⟩, ?_⟩
  have h := Γ.sameOn_needed t
  exact ⟨infer_congr h, warnings_congr h⟩

/-- Both contexts know `f: ∀X: *. ∀Y: *. X`, the one with an older `f` and with an unused
variable before it, the other with one after it.  In both, the instantiation `f [Y]` is warned
of for the binder that captures, and its type is `∀Y: *. Y`. -/
theorem infer_reads_free_variables_shadowed :
    infer [("g", .int), ("f", .all "X" .star (.all "Y" .star (.var "X"))), ("f", .int)]
        (.tapp .nowhere (.var .nowhere "f") (.var "Y")) = .ok (.all "Y" .star (.var "Y")) ∧
      warnings [("g", .int), ("f", .all "X" .star (.all "Y" .star (.var "X"))), ("f", .int)]
        (.tapp .nowhere (.var .nowhere "f") (.var "Y")) =
          [.captures (.tapp .nowhere (.var .nowhere "f") (.var "Y"))
            (.all "X" .star (.all "Y" .star (.var "X"))) ["Y"]] := by
  have hrun := (infer_reads_free_variables
    [("g", .int), ("f", .all "X" .star (.all "Y" .star (.var "X"))), ("f", .int)]
    (.tapp .nowhere (.var .nowhere "f") (.var "Y"))).1
    [("f", .all "X" .star (.all "Y" .star (.var "X"))), ("h", .int)] (by decide)
  exact ⟨hrun.1.trans rfl, hrun.2.trans rfl⟩

end PolyLambda
