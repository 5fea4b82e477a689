import PolyLambda.Proofs.Ty.Alpha
import PolyLambda.Proofs.Typing.Rules

/-!
# Inference is sound for System F

`SystemF.Derives` is the declarative system: any function can be applied, a type variable
is generalized only when it is not free in the context, instantiation renames where it
has to, and types count up to alpha-equivalence.

The checker differs from it in three ways, and each is one case of the proof.

* It applies literal abstractions only.  Such an application is an introduction followed
  by an elimination.
* It does not look at the context when it generalizes.  That the variable is fresh there
  is assumed of each type abstraction on the way, and of nothing else.
* It substitutes without renaming.  A run without warnings is one in which no
  instantiation captures or shadows (`instantiationWarnings_eq_nil`), and then the
  two substitutions agree.
-/

namespace PolyLambda

/-- The type variable `x` is not free in any type of the context. -/
def Context.Fresh (Γ : Context) (x : Text) : Prop := ∀ p ∈ Γ, x ∉ p.2.freeVars

instance (Γ : Context) (x : Text) : Decidable (Γ.Fresh x) :=
  inferInstanceAs (Decidable (∀ p ∈ Γ, x ∉ p.2.freeVars))

/-- The judgement `Γ ⊢ t : a` of System F. -/
inductive SystemF.Derives : Context → Term → Ty → Prop where
  | int {Γ : Context} {r : Range} {n : Int32} : Derives Γ (.int r n) .int
  | var {Γ : Context} {r : Range} {x : Text} {a : Ty} :
      Γ.lookup? x = some a → Derives Γ (.var r x) a
  | app {Γ : Context} {r : Range} {a b : Ty} {fn arg : Term} :
      Derives Γ fn (.arrow a b) → Derives Γ arg a → Derives Γ (.app r fn arg) b
  | abs {Γ : Context} {r : Range} {x : Text} {a b : Ty} {body : Term} :
      Derives (Γ.assign x a) body b → Derives Γ (.abs r x a body) (.arrow a b)
  | tabs {Γ : Context} {r : Range} {x : Text} {k : Kind} {b : Ty} {body : Term} :
      Γ.Fresh x → Derives Γ body b → Derives Γ (.tabs r x k body) (.all x k b)
  | tapp {Γ : Context} {r : Range} {x : Text} {k : Kind} {b s : Ty} {t : Term} :
      Derives Γ t (.all x k b) → Derives Γ (.tapp r t s) (b.subst x s)
  | conv {Γ : Context} {t : Term} {a b : Ty} :
      Derives Γ t a → a.AlphaEq b → Derives Γ t b

theorem instantiationWarnings_eq_nil {t : Term} {x : Text} {k : Kind} {b s : Ty}
    (h : instantiationWarnings t x k b s = []) :
    (∀ y ∈ b.bindersOver x, y ∉ s.freeVars) ∧ b.shadows x = false := by
  unfold instantiationWarnings at h
  obtain ⟨hcaptures, hshadows⟩ := List.append_eq_nil_iff.mp h
  constructor
  · apply Ty.captures_eq_nil_iff.mp
    split at hcaptures
    · next hempty => exact List.isEmpty_iff.mp hempty
    · cases hcaptures
  · split at hshadows
    · cases hshadows
    · next hfalse => exact Bool.eq_false_iff.mpr hfalse

theorem warnings_app_abs {Γ : Context} {r r' : Range} {x : Text} {a : Ty} {body arg : Term}
    (harg : infer Γ arg = .ok a) :
    warnings Γ (.app r (.abs r' x a body) arg) =
      warnings Γ arg ++ warnings (Γ.assign x a) body := by
  rw [warnings, harg]
  simp only [if_true]

theorem warnings_tapp {Γ : Context} {r : Range} {t : Term} {x : Text} {k : Kind} {b s : Ty}
    (ht : infer Γ t = .ok (.all x k b)) :
    warnings Γ (.tapp r t s) =
      warnings Γ t ++ instantiationWarnings (.tapp r t s) x k b s := by
  rw [warnings, ht]

/-- **Soundness for System F.**  Where inference gives a term a type without a warning,
and each type abstraction it visits is fresh for the context there, System F derives that
type. -/
theorem systemF_derives_of_infer {Γ : Context} {t : Term} {c : Ty} (h : infer Γ t = .ok c)
    (hw : warnings Γ t = [])
    (hfresh : ∀ Δ r x k body, Visits Γ t Δ (.tabs r x k body) → Δ.Fresh x) :
    SystemF.Derives Γ t c := by
  induction Γ, t using walk_induction generalizing c with
  | int Γ r n => cases h; exact .int
  | var Γ r x => exact .var (infer_var_eq_ok.mp h)
  | app Γ r r' x a body arg ihArg ihBody =>
    obtain ⟨harg, hbody⟩ := infer_app_abs_eq_ok.mp h
    rw [warnings_app_abs harg] at hw
    obtain ⟨hwArg, hwBody⟩ := List.append_eq_nil_iff.mp hw
    have dArg := ihArg harg hwArg fun Δ r x k u hv => hfresh Δ r x k u (.arg hv)
    have dBody := ihBody hbody hwBody fun Δ r x k u hv => hfresh Δ r x k u (.body harg hv)
    exact .app (.abs dBody) dArg
  | stuck Γ r fn arg hfn => rw [infer_app_stuck hfn] at h; cases h
  | abs Γ r x a body ih =>
    obtain ⟨b, hb, rfl⟩ := infer_abs_eq_ok.mp h
    rw [warnings] at hw
    exact .abs (ih hb hw fun Δ r x k u hv => hfresh Δ r x k u (.abs hv))
  | tabs Γ r x k body ih =>
    obtain ⟨b, hb, rfl⟩ := infer_tabs_eq_ok.mp h
    rw [warnings] at hw
    have dBody := ih hb hw fun Δ r x k u hv => hfresh Δ r x k u (.tabs hv)
    exact .tabs (hfresh Γ r x k body .here) dBody
  | tapp Γ r t s ih =>
    obtain ⟨x, k, b, ht, -, rfl⟩ := infer_tapp_eq_ok.mp h
    rw [warnings_tapp ht] at hw
    obtain ⟨hwTerm, hwInst⟩ := List.append_eq_nil_iff.mp hw
    obtain ⟨hcaptures, hshadows⟩ := instantiationWarnings_eq_nil hwInst
    rw [Ty.substitute_eq_subst hcaptures hshadows]
    exact .tapp (ih ht hwTerm fun Δ r x k u hv => hfresh Δ r x k u (.tapp hv))
  | gap Γ => cases h

/-- System F derives `Z -> ∀Y: *. Y -> Z` for `(ΛX: *. λx: X. ΛY: *. λy: Y. x) [Z]`.  Its
inner type abstraction is visited below `x: X`, where `Y` is fresh. -/
theorem systemF_derives_first_of_two :
    SystemF.Derives []
      (.tapp .nowhere
        (.tabs .nowhere "X" .star (.abs .nowhere "x" (.var "X")
          (.tabs .nowhere "Y" .star (.abs .nowhere "y" (.var "Y") (.var .nowhere "x")))))
        (.var "Z"))
      (.arrow (.var "Z") (.all "Y" .star (.arrow (.var "Y") (.var "Z")))) := by
  refine systemF_derives_of_infer (by rfl) (by rfl) ?_
  rintro Δ r x k body (_ | _ | _ | _ | _ | hv)
  rcases hv with _ | _ | _ | _ | hv
  · decide
  rcases hv with _ | _ | _ | hv
  rcases hv with _ | _ | _ | _ | hv
  · decide
  rcases hv with _ | _ | _ | hv
  cases hv

end PolyLambda
