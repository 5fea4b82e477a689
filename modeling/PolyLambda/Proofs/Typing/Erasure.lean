import PolyLambda.Diagnostic
import PolyLambda.Proofs.Typing.Rules

/-!
# Ranges do not matter

A range only says where a term was read.  Terms that are equal up to ranges are printed
alike, have the same types, and where they have none the errors agree up to ranges as well
(`infer_erase`).  So the diagnostics of such errors have one code and one message, although
they point at different places.
-/

namespace PolyLambda

/-! ## Printing -/

theorem Term.renderAt_erase (t : Term) (pos : Position) :
    t.erase.renderAt pos = t.renderAt pos := by
  induction t generalizing pos with
  | int r n => rfl
  | var r x => rfl
  | app r f a ihf iha => rw [erase, renderAt, renderAt, ihf, iha]
  | abs r x a b ih => rw [erase, renderAt, renderAt, ih]
  | tabs r x k b ih => rw [erase, renderAt, renderAt, ih]
  | tapp r t a ih => rw [erase, renderAt, renderAt, ih]
  | gap => rfl

theorem Term.render_erase (t : Term) : t.erase.render = t.render := t.renderAt_erase .top

theorem Term.describe?_erase (t : Term) : t.erase.describe? = t.describe? := by
  cases t with
  | int | var | app | abs | tabs | tapp | gap => rfl

/-! ## Inference -/

/-- The error with every range forgotten. -/
def TypeError.erase : TypeError → TypeError
  | undefined _ x => undefined .nowhere x
  | mismatch arg expected got => mismatch arg.erase expected got
  | notAbstraction t => notAbstraction t.erase
  | notTypeAbstraction t => notTypeAbstraction t.erase
  | gap => gap

theorem Term.erase_ne_abs {t : Term} (h : ∀ r x a body, t ≠ .abs r x a body) :
    ∀ r x a body, t.erase ≠ .abs r x a body := by
  cases t with
  | abs r x a body => exact absurd rfl (h r x a body)
  | int | var | app | tabs | tapp | gap => nofun

/-- **Inference does not look at ranges.**  It gives terms that differ in ranges only the
same type, or errors that differ in ranges only. -/
theorem infer_erase (Γ : Context) (t : Term) :
    infer Γ t.erase = (infer Γ t).mapError TypeError.erase := by
  induction Γ, t using walk_induction with
  | int Γ r n => rfl
  | var Γ r x =>
    rw [Term.erase, infer_var, infer_var]
    cases Γ.lookup? x with
    | none => rfl
    | some a => rfl
  | app Γ r r' x a body arg ihArg ihBody =>
    rw [Term.erase, Term.erase, infer_app_abs, infer_app_abs, ihArg, ihBody, mapError_bind]
    refine congrArg _ (funext fun b => ?_)
    split
    · rfl
    · rfl
  | stuck Γ r fn arg hfn =>
    rw [Term.erase, infer_app_stuck hfn, infer_app_stuck (Term.erase_ne_abs hfn)]
    cases fn with
    | int | var | app | abs | tabs | tapp | gap => rfl
  | abs Γ r x a body ih =>
    rw [Term.erase, infer_abs, infer_abs, ih, mapError_bind]
    rfl
  | tabs Γ r x k body ih =>
    rw [Term.erase, infer_tabs, infer_tabs, ih, mapError_bind]
    rfl
  | tapp Γ r t s ih =>
    rw [Term.erase, infer_tapp, infer_tapp, ih, mapError_bind]
    refine congrArg _ (funext fun a => ?_)
    cases a with
    | all x k b =>
      dsimp only
      cases b.replace? x s with
      | none => rfl
      | some replaced => rfl
    | int | var | arrow | gap => rfl
  | gap Γ => rfl

theorem mapError_infer_of_same {Γ : Context} {t u : Term} (h : u.same t = true) :
    (infer Γ u).mapError TypeError.erase = (infer Γ t).mapError TypeError.erase := by
  rw [← infer_erase, ← infer_erase, of_decide_eq_true h]

theorem infer_eq_ok_of_same {Γ : Context} {t u : Term} (h : u.same t = true) {a : Ty} :
    infer Γ u = .ok a ↔ infer Γ t = .ok a := by
  rw [← mapError_eq_ok (g := TypeError.erase), mapError_infer_of_same h, mapError_eq_ok]

theorem infer_error_of_same {Γ : Context} {t u : Term} (h : u.same t = true) {e : TypeError}
    (ht : infer Γ t = .error e) : ∃ e', infer Γ u = .error e' ∧ e'.erase = e.erase := by
  have hu : (infer Γ u).mapError TypeError.erase = .error e.erase := by
    rw [mapError_infer_of_same h, ht]
    rfl
  exact mapError_eq_error.mp hu

/-! ## Diagnostics -/

/-- Code and message of a type error do not depend on ranges. -/
theorem TypeError.diagnostic?_erase (e : TypeError) :
    e.erase.diagnostic?.map (fun d => (d.code, d.message)) =
      e.diagnostic?.map (fun d => (d.code, d.message)) := by
  cases e with
  | undefined r x => rfl
  | mismatch arg expected got =>
    simp only [erase, diagnostic?, Option.map_some, Diagnostic.message, Term.render_erase]
    rfl
  | notAbstraction t | notTypeAbstraction t =>
    simp only [erase, diagnostic?, Option.map_some, Diagnostic.message, Term.render_erase,
      Term.describe?_erase]
    rfl
  | gap => rfl

theorem TypeError.exists_diagnostic_of_erase {e e' : TypeError} (h : e'.erase = e.erase)
    {d : Diagnostic} (hd : e.diagnostic? = some d) :
    ∃ d', e'.diagnostic? = some d' ∧ d'.code = d.code ∧ d'.message = d.message := by
  have heq := e'.diagnostic?_erase
  rw [h, e.diagnostic?_erase, hd] at heq
  obtain ⟨d', hd', hpair⟩ := Option.map_eq_some_iff.mp heq.symm
  exact ⟨d', hd', congrArg Prod.fst hpair, congrArg Prod.snd hpair⟩

end PolyLambda
