import PolyLambda.Proofs.Ty.Scopes
import PolyLambda.Proofs.Typing.SystemF

/-!
# Names of bound type variables

Terms that differ only in the names of bound type variables should have types that differ
only so.  This needs more than a run without warnings.  A type abstraction is typed in the
context it stands in, and nobody asks whether its variable is free there: in
`ΛX: *. λx: X. ΛX: *. x` the inner abstraction binds the `X` that the type of `x` speaks of,
while in `ΛX: *. λx: X. ΛY: *. x` it binds nothing.  The first has the type
`∀X: *. X -> ∀X: *. X` and the second `∀X: *. X -> ∀Y: *. X`.

Where no type abstraction binds a variable of the types that its body uses from the context
(`Context.FreshFor`), names do not matter (`ClearType.nameless_eq`).  The two runs are
compared step by step, each under the scope of its own type binders; the types of the
contexts agree under these scopes, as far as the terms use them.
-/

namespace PolyLambda

/-! ## Terms that differ in names -/

/-- The variables with an occurrence that no enclosing abstraction binds. -/
def Term.freeVars : Term → List Text
  | int .. | gap => []
  | var _ x => [x]
  | app _ f a => NameSet.union f.freeVars a.freeVars
  | abs _ x _ b => NameSet.erase x b.freeVars
  | tabs _ _ _ b => b.freeVars
  | tapp _ t _ => t.freeVars

/-- `AlphaEqIn σ τ t u`: below the type binders `σ` and `τ`, the nearest first, the terms
differ at most in the names of bound type variables, and in their ranges. -/
inductive Term.AlphaEqIn : List Text → List Text → Term → Term → Prop where
  | int {σ τ : List Text} {r r' : Range} {n : Int32} : AlphaEqIn σ τ (.int r n) (.int r' n)
  | var {σ τ : List Text} {r r' : Range} {x : Text} : AlphaEqIn σ τ (.var r x) (.var r' x)
  | app {σ τ : List Text} {r r' : Range} {f g t u : Term} :
      AlphaEqIn σ τ f g → AlphaEqIn σ τ t u → AlphaEqIn σ τ (.app r f t) (.app r' g u)
  | abs {σ τ : List Text} {r r' : Range} {x : Text} {a b : Ty} {t u : Term} :
      a.nameless σ = b.nameless τ → AlphaEqIn σ τ t u →
      AlphaEqIn σ τ (.abs r x a t) (.abs r' x b u)
  | tabs {σ τ : List Text} {r r' : Range} {x y : Text} {k : Kind} {t u : Term} :
      AlphaEqIn (x :: σ) (y :: τ) t u → AlphaEqIn σ τ (.tabs r x k t) (.tabs r' y k u)
  | tapp {σ τ : List Text} {r r' : Range} {t u : Term} {a b : Ty} :
      AlphaEqIn σ τ t u → a.nameless σ = b.nameless τ →
      AlphaEqIn σ τ (.tapp r t a) (.tapp r' u b)
  | gap {σ τ : List Text} : AlphaEqIn σ τ .gap .gap

/-- Two terms that differ at most in the names of bound type variables. -/
def Term.AlphaEq (t u : Term) : Prop := AlphaEqIn [] [] t u

theorem Term.AlphaEqIn.freeVars_eq {σ τ : List Text} {t u : Term} (h : AlphaEqIn σ τ t u) :
    t.freeVars = u.freeVars := by
  induction h with
  | int | var | gap => rfl
  | app _ _ ihf iht => rw [freeVars, freeVars, ihf, iht]
  | abs _ _ ih => rw [freeVars, freeVars, ih]
  | tabs _ ih => exact ih
  | tapp _ _ ih => exact ih

/-! ## Runs without clashes -/

/-- The type variable `x` is not free in the type of any variable that `t` uses. -/
def Context.FreshFor (Γ : Context) (x : Text) (t : Term) : Prop :=
  ∀ y ∈ t.freeVars, ∀ a ∈ Γ.lookup? y, x ∉ a.freeVars

instance (Γ : Context) (x : Text) (t : Term) : Decidable (Γ.FreshFor x t) :=
  inferInstanceAs (Decidable (∀ y ∈ t.freeVars, ∀ a ∈ Γ.lookup? y, x ∉ a.freeVars))

/-- The typing judgement `Γ ⊢ t : a`, derived without a clash of type variables: generalized
variables are fresh for what the body uses, and instantiation neither captures nor shadows. -/
inductive ClearType : Context → Term → Ty → Prop where
  | int {Γ : Context} {r : Range} {n : Int32} : ClearType Γ (.int r n) .int
  | var {Γ : Context} {r : Range} {x : Text} {a : Ty} :
      Γ.lookup? x = some a → ClearType Γ (.var r x) a
  | app {Γ : Context} {r r' : Range} {x : Text} {a b : Ty} {body arg : Term} :
      ClearType Γ arg a → ClearType (Γ.assign x a) body b →
      ClearType Γ (.app r (.abs r' x a body) arg) b
  | abs {Γ : Context} {r : Range} {x : Text} {a b : Ty} {body : Term} :
      ClearType (Γ.assign x a) body b → ClearType Γ (.abs r x a body) (.arrow a b)
  | tabs {Γ : Context} {r : Range} {x : Text} {k : Kind} {b : Ty} {body : Term} :
      Γ.FreshFor x body → ClearType Γ body b → ClearType Γ (.tabs r x k body) (.all x k b)
  | tapp {Γ : Context} {r : Range} {x : Text} {k : Kind} {b s : Ty} {t : Term} :
      ClearType Γ t (.all x k b) → b.Unclashing x s → ClearType Γ (.tapp r t s) (b.substitute x s)

/-- A run without warnings, in which every type abstraction is fresh for what it uses, has no
clash. -/
theorem clearType_of_infer {Γ : Context} {t : Term} {c : Ty} (h : infer Γ t = .ok c)
    (hw : warnings Γ t = [])
    (hfresh : ∀ Δ r x k body, Visits Γ t Δ (.tabs r x k body) → Δ.FreshFor x body) :
    ClearType Γ t c := by
  induction Γ, t using walk_induction generalizing c with
  | int Γ r n => cases h; exact .int
  | var Γ r x => exact .var (infer_var_eq_ok.mp h)
  | app Γ r r' x a body arg ihArg ihBody =>
    obtain ⟨harg, hbody⟩ := infer_app_abs_eq_ok.mp h
    rw [warnings_app_abs harg] at hw
    obtain ⟨hwArg, hwBody⟩ := List.append_eq_nil_iff.mp hw
    have cArg := ihArg harg hwArg fun Δ r x k u hv => hfresh Δ r x k u (.arg hv)
    have cBody := ihBody hbody hwBody fun Δ r x k u hv => hfresh Δ r x k u (.body harg hv)
    exact .app cArg cBody
  | stuck Γ r fn arg hfn => rw [infer_app_stuck hfn] at h; cases h
  | abs Γ r x a body ih =>
    obtain ⟨b, hb, rfl⟩ := infer_abs_eq_ok.mp h
    rw [warnings] at hw
    exact .abs (ih hb hw fun Δ r x k u hv => hfresh Δ r x k u (.abs hv))
  | tabs Γ r x k body ih =>
    obtain ⟨b, hb, rfl⟩ := infer_tabs_eq_ok.mp h
    rw [warnings] at hw
    have cBody := ih hb hw fun Δ r x k u hv => hfresh Δ r x k u (.tabs hv)
    exact .tabs (hfresh Γ r x k body .here) cBody
  | tapp Γ r t s ih =>
    obtain ⟨x, k, b, ht, -, rfl⟩ := infer_tapp_eq_ok.mp h
    rw [warnings_tapp ht] at hw
    obtain ⟨hwTerm, hwInst⟩ := List.append_eq_nil_iff.mp hw
    obtain ⟨hcaptures, hshadows⟩ := instantiationWarnings_eq_nil hwInst
    have cTerm := ih ht hwTerm fun Δ r x k u hv => hfresh Δ r x k u (.tapp hv)
    exact .tapp cTerm ⟨hcaptures, hshadows⟩
  | gap Γ => cases h

/-! ## Two runs -/

/-- Of the given variables, two contexts know types that agree under two scopes. -/
def Context.Agree (σ τ : List Text) (Γ Δ : Context) (xs : List Text) : Prop :=
  ∀ x ∈ xs, ∀ a ∈ Γ.lookup? x, ∀ b ∈ Δ.lookup? x, a.nameless σ = b.nameless τ

namespace Context.Agree

variable {σ τ : List Text} {Γ Δ : Context} {xs ys : List Text}

theorem subset (h : Agree σ τ Γ Δ xs) (hsub : ∀ x ∈ ys, x ∈ xs) : Agree σ τ Γ Δ ys :=
  fun x hx => h x (hsub x hx)

/-- Below an abstraction. -/
theorem assign {x : Text} {a b : Ty} (h : Agree σ τ Γ Δ (NameSet.erase x xs))
    (hab : a.nameless σ = b.nameless τ) : Agree σ τ (Γ.assign x a) (Δ.assign x b) xs := by
  intro y hy c hc d hd
  rw [Context.assign, lookup?] at hc hd
  by_cases hxy : x = y
  · rw [if_pos hxy] at hc hd
    obtain rfl := Option.some.inj hc
    obtain rfl := Option.some.inj hd
    exact hab
  · rw [if_neg hxy] at hc hd
    exact h y (NameSet.mem_erase.mpr ⟨hy, Ne.symm hxy⟩) c hc d hd

/-- Below a type abstraction. -/
theorem under {t u : Term} {x y : Text} (h : Agree σ τ Γ Δ t.freeVars) (hx : Γ.FreshFor x t)
    (hy : Δ.FreshFor y u) (htu : t.freeVars = u.freeVars) :
    Agree (x :: σ) (y :: τ) Γ Δ t.freeVars := by
  intro z hz a ha b hb
  apply Ty.nameless_under (h z hz a ha b hb)
  · exact hx z hz a ha
  · exact hy z (htu ▸ hz) b hb

end Context.Agree

/-- **Names of bound type variables do not matter in runs without clashes.** -/
theorem ClearType.nameless_eq {σ τ : List Text} {Γ Δ : Context} {t u : Term} {a b : Ty}
    (h : ClearType Γ t a) (h' : ClearType Δ u b) (htu : Term.AlphaEqIn σ τ t u)
    (hΓ : Context.Agree σ τ Γ Δ t.freeVars) : a.nameless σ = b.nameless τ := by
  induction h generalizing σ τ Δ u b with
  | int =>
    cases htu
    cases h'
    rfl
  | var hx =>
    cases htu
    cases h' with
    | var hx' => exact hΓ _ (List.mem_singleton.mpr rfl) _ hx _ hx'
  | app _ _ _ ihBody =>
    cases htu with
    | app hfn _ =>
      cases hfn with
      | abs hparam hbody =>
        cases h' with
        | app _ hbody' =>
          apply ihBody hbody' hbody
          apply Context.Agree.assign _ hparam
          exact hΓ.subset fun y hy => NameSet.mem_union.mpr (.inl hy)
  | abs _ ih =>
    cases htu with
    | abs hparam hbody =>
      cases h' with
      | abs hbody' =>
        have hresult := ih hbody' hbody (hΓ.assign hparam)
        rw [Ty.nameless, Ty.nameless, hparam, hresult]
  | tabs hfresh _ ih =>
    cases htu with
    | tabs hbody =>
      cases h' with
      | tabs hfresh' hbody' =>
        have hunder := ih hbody' hbody (hΓ.under hfresh hfresh' hbody.freeVars_eq)
        rw [Ty.nameless, Ty.nameless, hunder]
  | tapp _ hclash ih =>
    cases htu with
    | tapp hterm harg =>
      cases h' with
      | tapp hterm' hclash' =>
        obtain ⟨_, hbody⟩ := Nameless.all.inj (ih hterm' hterm hΓ)
        apply Ty.nameless_substitute hbody _ (fun _ _ => harg) hclash hclash'
        intro z _ w _ hzw
        exact Nameless.ofName_cons_eq_iff.mp hzw

/-- **Inference does not depend on the names of bound type variables**, as long as no type
abstraction that is visited binds a variable of the types its body uses.  Two terms that
differ in such names only, and are given types without a warning, are given types that differ
in such names only. -/
theorem infer_alphaEq {Γ : Context} {t u : Term} {a b : Ty} (htu : t.AlphaEq u)
    (ht : infer Γ t = .ok a) (hu : infer Γ u = .ok b) (hwt : warnings Γ t = [])
    (hwu : warnings Γ u = [])
    (hft : ∀ Δ r x k body, Visits Γ t Δ (.tabs r x k body) → Δ.FreshFor x body)
    (hfu : ∀ Δ r x k body, Visits Γ u Δ (.tabs r x k body) → Δ.FreshFor x body) :
    a.AlphaEq b := by
  have ct := clearType_of_infer ht hwt hft
  have cu := clearType_of_infer hu hwu hfu
  apply ct.nameless_eq cu htu
  intro x _ c hc d hd
  obtain rfl := Option.some.inj (hc.symm.trans hd)
  rfl

/-- `(ΛX: *. λx: X. ΛY: *. λy: Y. x) [Z]` and the same with `X` and `Y` exchanged have the
types `Z -> ∀Y: *. Y -> Z` and `Z -> ∀X: *. X -> Z`. -/
theorem infer_alphaEq_exchanged :
    infer [] (.tapp .nowhere (.tabs .nowhere "X" .star (.abs .nowhere "x" (.var "X")
        (.tabs .nowhere "Y" .star (.abs .nowhere "y" (.var "Y") (.var .nowhere "x")))))
        (.var "Z")) =
      .ok (.arrow (.var "Z") (.all "Y" .star (.arrow (.var "Y") (.var "Z")))) ∧
    infer [] (.tapp .nowhere (.tabs .nowhere "Y" .star (.abs .nowhere "x" (.var "Y")
        (.tabs .nowhere "X" .star (.abs .nowhere "y" (.var "X") (.var .nowhere "x")))))
        (.var "Z")) =
      .ok (.arrow (.var "Z") (.all "X" .star (.arrow (.var "X") (.var "Z")))) ∧
    Ty.AlphaEq
      (.arrow (.var "Z") (.all "Y" .star (.arrow (.var "Y") (.var "Z"))))
      (.arrow (.var "Z") (.all "X" .star (.arrow (.var "X") (.var "Z")))) := by
  refine ⟨?ht, ?hu, infer_alphaEq ?htu ?ht ?hu rfl rfl ?hft ?hfu⟩
  case htu => exact .tapp (.tabs (.abs rfl (.tabs (.abs rfl .var)))) rfl
  case ht => rfl
  case hu => rfl
  all_goals
    rintro Δ r x k body (_ | _ | _ | _ | _ | hv)
    rcases hv with _ | _ | _ | _ | hv
    · decide
    rcases hv with _ | _ | _ | hv
    rcases hv with _ | _ | _ | _ | hv
    · decide
    rcases hv with _ | _ | _ | hv
    cases hv

/-- Without that condition names do matter.  `ΛX: *. λx: X. ΛX: *. x` and
`ΛX: *. λx: X. ΛY: *. x` differ only in the name of a bound variable, and neither is warned
about, but their types are not the same up to names. -/
theorem rebinding_changes_inferred_type :
    Term.AlphaEq
      (.tabs .nowhere "X" .star (.abs .nowhere "x" (.var "X")
        (.tabs .nowhere "X" .star (.var .nowhere "x"))))
      (.tabs .nowhere "X" .star (.abs .nowhere "x" (.var "X")
        (.tabs .nowhere "Y" .star (.var .nowhere "x")))) ∧
    infer .empty (.tabs .nowhere "X" .star (.abs .nowhere "x" (.var "X")
        (.tabs .nowhere "X" .star (.var .nowhere "x")))) =
      .ok (.all "X" .star (.arrow (.var "X") (.all "X" .star (.var "X")))) ∧
    infer .empty (.tabs .nowhere "X" .star (.abs .nowhere "x" (.var "X")
        (.tabs .nowhere "Y" .star (.var .nowhere "x")))) =
      .ok (.all "X" .star (.arrow (.var "X") (.all "Y" .star (.var "X")))) ∧
    warnings .empty (.tabs .nowhere "X" .star (.abs .nowhere "x" (.var "X")
        (.tabs .nowhere "X" .star (.var .nowhere "x")))) = [] ∧
    warnings .empty (.tabs .nowhere "X" .star (.abs .nowhere "x" (.var "X")
        (.tabs .nowhere "Y" .star (.var .nowhere "x")))) = [] ∧
    ¬ Ty.AlphaEq (.all "X" .star (.arrow (.var "X") (.all "X" .star (.var "X"))))
      (.all "X" .star (.arrow (.var "X") (.all "Y" .star (.var "X")))) := by
  refine ⟨.tabs (.abs rfl (.tabs .var)), rfl, rfl, rfl, rfl, ?_⟩
  decide

end PolyLambda
