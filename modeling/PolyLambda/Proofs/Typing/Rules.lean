import PolyLambda.Proofs.Context
import PolyLambda.Proofs.Outcome
import PolyLambda.Typing

/-!
# Inference decides the typing rules

`HasType Γ t a` is the judgement `Γ ⊢ t : a` of the rules that `infer` walks by.  The
rules know no errors and no order; that the walk is complete for them, and that what
it reports instead of a type is a real fault, has to be proved.

A fault lies at a term that the walk **visits** (`Visits`), in the context that was
current there: the starting context extended by the abstractions on the way.  The
application rule is the reason to name this relation.  It types the body of the applied
abstraction in place and never visits the abstraction itself.

Both statements are about trees without gaps.  A gap in a type can surface far from
where it was assigned, so the invariant that keeps it out is about contexts too
(`isComplete_of_infer`).
-/

namespace PolyLambda

/-- The typing judgement `Γ ⊢ t : a`. -/
inductive HasType : Context → Term → Ty → Prop where
  | int {Γ : Context} {r : Range} {n : Int32} : HasType Γ (.int r n) .int
  | var {Γ : Context} {r : Range} {x : Text} {a : Ty} :
      Γ.lookup? x = some a → HasType Γ (.var r x) a
  | app {Γ : Context} {r r' : Range} {x : Text} {a b : Ty} {body arg : Term} :
      HasType Γ arg a → HasType (Γ.assign x a) body b →
      HasType Γ (.app r (.abs r' x a body) arg) b
  | abs {Γ : Context} {r : Range} {x : Text} {a b : Ty} {body : Term} :
      HasType (Γ.assign x a) body b → HasType Γ (.abs r x a body) (.arrow a b)
  | tabs {Γ : Context} {r : Range} {x : Text} {k : Kind} {b : Ty} {body : Term} :
      HasType Γ body b → HasType Γ (.tabs r x k body) (.all x k b)
  | tapp {Γ : Context} {r : Range} {x : Text} {k : Kind} {b s : Ty} {t : Term} :
      HasType Γ t (.all x k b) → HasType Γ (.tapp r t s) (b.substitute x s)

/-- `Visits Γ t Δ u`: the inference of `t` in `Γ` gets to infer the type of `u`, a part
of `t`, in `Δ`. -/
inductive Visits : Context → Term → Context → Term → Prop where
  | here {Γ : Context} {t : Term} : Visits Γ t Γ t
  | arg {Γ Δ : Context} {r r' : Range} {x : Text} {a : Ty} {body arg u : Term} :
      Visits Γ arg Δ u → Visits Γ (.app r (.abs r' x a body) arg) Δ u
  | body {Γ Δ : Context} {r r' : Range} {x : Text} {a : Ty} {body arg u : Term} :
      infer Γ arg = .ok a → Visits (Γ.assign x a) body Δ u →
      Visits Γ (.app r (.abs r' x a body) arg) Δ u
  | abs {Γ Δ : Context} {r : Range} {x : Text} {a : Ty} {body u : Term} :
      Visits (Γ.assign x a) body Δ u → Visits Γ (.abs r x a body) Δ u
  | tabs {Γ Δ : Context} {r : Range} {x : Text} {k : Kind} {body u : Term} :
      Visits Γ body Δ u → Visits Γ (.tabs r x k body) Δ u
  | tapp {Γ Δ : Context} {r : Range} {s : Ty} {t u : Term} :
      Visits Γ t Δ u → Visits Γ (.tapp r t s) Δ u

/-- What a type error says is so at some term that the inference of `t` in `Γ`
visits. -/
inductive Fault (Γ : Context) (t : Term) : TypeError → Prop where
  | undefined {Δ : Context} {r : Range} {x : Text} :
      Visits Γ t Δ (.var r x) → (∀ a, (x, a) ∉ Δ) → Fault Γ t (.undefined r x)
  | mismatch {Δ : Context} {r r' : Range} {x : Text} {expected got : Ty} {body arg : Term} :
      Visits Γ t Δ (.app r (.abs r' x expected body) arg) → infer Δ arg = .ok got →
      got ≠ expected → Fault Γ t (.mismatch arg expected got)
  | notAbstraction {Δ : Context} {r : Range} {fn arg : Term} :
      Visits Γ t Δ (.app r fn arg) → (∀ r' x a body, fn ≠ .abs r' x a body) →
      Fault Γ t (.notAbstraction fn)
  | notTypeAbstraction {Δ : Context} {r : Range} {u : Term} {s a : Ty} :
      Visits Γ t Δ (.tapp r u s) → infer Δ u = .ok a → (∀ x k b, a ≠ .all x k b) →
      Fault Γ t (.notTypeAbstraction u)

/-! ## One step of the walk -/

/-- Induction along the walk of `infer`.  An application is either one of an
abstraction, whose body is then walked in the extended context, or stuck. -/
@[elab_as_elim]
theorem walk_induction {motive : Context → Term → Prop}
    (int : ∀ Γ r n, motive Γ (.int r n))
    (var : ∀ Γ r x, motive Γ (.var r x))
    (app : ∀ Γ r r' x a body arg, motive Γ arg → motive (Γ.assign x a) body →
      motive Γ (.app r (.abs r' x a body) arg))
    (stuck : ∀ Γ r fn arg, (∀ r' x a body, fn ≠ .abs r' x a body) → motive Γ (.app r fn arg))
    (abs : ∀ Γ r x a body, motive (Γ.assign x a) body → motive Γ (.abs r x a body))
    (tabs : ∀ Γ r x k body, motive Γ body → motive Γ (.tabs r x k body))
    (tapp : ∀ Γ r t s, motive Γ t → motive Γ (.tapp r t s))
    (gap : ∀ Γ, motive Γ .gap) (Γ : Context) (t : Term) : motive Γ t := by
  induction Γ, t using infer.induct with
  | case1 Γ r n => exact int Γ r n
  | case2 Γ r x _ _ => exact var Γ r x
  | case3 Γ r x _ => exact var Γ r x
  | case4 Γ r r' x a body arg ihArg ihBody => exact app Γ r r' x a body arg ihArg ihBody
  | case5 Γ r arg => exact stuck Γ r .gap arg (fun _ _ _ _ h => by cases h)
  | case6 Γ r fn arg habs _ => exact stuck Γ r fn arg (fun r' x a body h => habs r' x a body h)
  | case7 Γ r x a body ih => exact abs Γ r x a body ih
  | case8 Γ r x k body ih => exact tabs Γ r x k body ih
  | case9 Γ r t s ih => exact tapp Γ r t s ih
  | case10 Γ => exact gap Γ

theorem infer_var {Γ : Context} {r : Range} {x : Text} :
    infer Γ (.var r x) =
      match Γ.lookup? x with
      | some a => .ok a
      | none => .error (.undefined r x) := rfl

theorem infer_app_abs {Γ : Context} {r r' : Range} {x : Text} {a : Ty} {body arg : Term} :
    infer Γ (.app r (.abs r' x a body) arg) =
      infer Γ arg >>= fun b =>
        if a = b then infer (Γ.assign x a) body else .error (.mismatch arg a b) := rfl

/-- Only an abstraction can be applied. -/
theorem infer_app_stuck {Γ : Context} {r : Range} {fn arg : Term}
    (h : ∀ r' x a body, fn ≠ .abs r' x a body) :
    infer Γ (.app r fn arg) = .error (if fn = .gap then .gap else .notAbstraction fn) := by
  cases fn with
  | abs r' x a body => exact absurd rfl (h r' x a body)
  | gap => rfl
  | int | var | app | tabs | tapp => exact congrArg Except.error (if_neg nofun).symm

theorem infer_abs {Γ : Context} {r : Range} {x : Text} {a : Ty} {body : Term} :
    infer Γ (.abs r x a body) = infer (Γ.assign x a) body >>= fun b => pure (.arrow a b) := rfl

theorem infer_tabs {Γ : Context} {r : Range} {x : Text} {k : Kind} {body : Term} :
    infer Γ (.tabs r x k body) = infer Γ body >>= fun b => pure (.all x k b) := rfl

theorem infer_tapp {Γ : Context} {r : Range} {t : Term} {s : Ty} :
    infer Γ (.tapp r t s) =
      infer Γ t >>= fun a =>
        match a with
        | .all x _ b =>
          match b.replace? x s with
          | some replaced => pure replaced.result
          | none => .error .gap
        | _ => .error (.notTypeAbstraction t) := rfl

theorem infer_var_eq_ok {Γ : Context} {r : Range} {x : Text} {a : Ty} :
    infer Γ (.var r x) = .ok a ↔ Γ.lookup? x = some a := by
  rw [infer_var]
  cases Γ.lookup? x with
  | none => simp
  | some b => simp

theorem infer_app_abs_eq_ok {Γ : Context} {r r' : Range} {x : Text} {a b : Ty} {body arg : Term} :
    infer Γ (.app r (.abs r' x a body) arg) = .ok b ↔
      infer Γ arg = .ok a ∧ infer (Γ.assign x a) body = .ok b := by
  rw [infer_app_abs, bind_eq_ok]
  constructor
  · rintro ⟨c, harg, h⟩
    split at h
    · next hac => exact ⟨hac ▸ harg, h⟩
    · cases h
  · rintro ⟨harg, hbody⟩
    exact ⟨a, harg, by rw [if_pos rfl, hbody]⟩

theorem infer_abs_eq_ok {Γ : Context} {r : Range} {x : Text} {a c : Ty} {body : Term} :
    infer Γ (.abs r x a body) = .ok c ↔
      ∃ b, infer (Γ.assign x a) body = .ok b ∧ c = .arrow a b := by
  simp only [infer_abs, bind_eq_ok, pure_eq_ok, @eq_comm _ c]

theorem infer_tabs_eq_ok {Γ : Context} {r : Range} {x : Text} {k : Kind} {c : Ty} {body : Term} :
    infer Γ (.tabs r x k body) = .ok c ↔ ∃ b, infer Γ body = .ok b ∧ c = .all x k b := by
  simp only [infer_tabs, bind_eq_ok, pure_eq_ok, @eq_comm _ c]

theorem replace?_eq_some {b s : Ty} {x : Text} {res : Ty.Replaced} :
    b.replace? x s = some res ↔ (b.isComplete = true ∧ s.isComplete = true) ∧
      res = ⟨b.substitute x s, b.captures x s, b.shadows x⟩ := by
  unfold Ty.replace?
  rw [← Bool.and_eq_true]
  split
  · next h => simp [h, eq_comm]
  · next h => simp [h]

theorem infer_tapp_eq_ok {Γ : Context} {r : Range} {t : Term} {s c : Ty} :
    infer Γ (.tapp r t s) = .ok c ↔ ∃ x k b, infer Γ t = .ok (.all x k b) ∧
      (b.isComplete = true ∧ s.isComplete = true) ∧ c = b.substitute x s := by
  rw [infer_tapp, bind_eq_ok]
  constructor
  · rintro ⟨a, ha, h⟩
    split at h
    · next x k b =>
      split at h
      · next res hres =>
        obtain ⟨hcomplete, rfl⟩ := replace?_eq_some.mp hres
        exact ⟨x, k, b, ha, hcomplete, (pure_eq_ok.mp h).symm⟩
      · cases h
    · cases h
  · rintro ⟨x, k, b, ha, hcomplete, rfl⟩
    refine ⟨_, ha, ?_⟩
    simp only [replace?_eq_some.mpr ⟨hcomplete, rfl⟩]
    rfl

/-! ## Trees without gaps -/

/-- Whether no type of a context has a gap. -/
def Context.isComplete (Γ : Context) : Bool := Γ.all fun p => p.2.isComplete

theorem Context.isComplete_assign {Γ : Context} {x : Text} {a : Ty} (hΓ : Γ.isComplete = true)
    (ha : a.isComplete = true) : (Γ.assign x a).isComplete = true := by
  rw [isComplete, assign, List.all_cons, ha]
  exact hΓ

theorem Ty.isComplete_substitute {t s : Ty} {x : Text} (ht : t.isComplete = true)
    (hs : s.isComplete = true) : (t.substitute x s).isComplete = true := by
  induction t with
  | int => rfl
  | var y =>
    rw [substitute]
    split
    · exact hs
    · rfl
  | arrow p r ihp ihr =>
    obtain ⟨hp, hr⟩ := Bool.and_eq_true_iff.mp ht
    exact Bool.and_eq_true_iff.mpr ⟨ihp hp, ihr hr⟩
  | all y k b ih => exact ih ht
  | gap => cases ht

/-- **Inference makes no gap.**  The invariant of the walk: in a context without gaps, a
term without gaps gets a type without gaps. -/
theorem isComplete_of_infer {Γ : Context} {t : Term} (hΓ : Γ.isComplete = true)
    (ht : t.isComplete = true) {c : Ty} (h : infer Γ t = .ok c) : c.isComplete = true := by
  induction Γ, t using walk_induction generalizing c with
  | int Γ r n => cases h; rfl
  | var Γ r x =>
    exact List.all_eq_true.mp hΓ _ (Context.mem_of_lookup? (infer_var_eq_ok.mp h))
  | app Γ r r' x a body arg _ ihBody =>
    obtain ⟨ha, hbody⟩ := Bool.and_eq_true_iff.mp (Bool.and_eq_true_iff.mp ht).1
    have hΓ' := Context.isComplete_assign (x := x) hΓ ha
    exact ihBody hΓ' hbody (infer_app_abs_eq_ok.mp h).2
  | stuck Γ r fn arg hfn => rw [infer_app_stuck hfn] at h; cases h
  | abs Γ r x a body ih =>
    obtain ⟨ha, hbody⟩ := Bool.and_eq_true_iff.mp ht
    have hΓ' := Context.isComplete_assign (x := x) hΓ ha
    obtain ⟨b, hb, rfl⟩ := infer_abs_eq_ok.mp h
    exact Bool.and_eq_true_iff.mpr ⟨ha, ih hΓ' hbody hb⟩
  | tabs Γ r x k body ih =>
    obtain ⟨b, hb, rfl⟩ := infer_tabs_eq_ok.mp h
    show b.isComplete = true
    exact ih hΓ ht hb
  | tapp Γ r t s ih =>
    obtain ⟨x, k, b, -, ⟨hb, hs⟩, rfl⟩ := infer_tapp_eq_ok.mp h
    exact Ty.isComplete_substitute hb hs
  | gap Γ => cases h

/-! ## The walk follows the rules -/

theorem hasType_of_infer {Γ : Context} {t : Term} {c : Ty} (h : infer Γ t = .ok c) :
    HasType Γ t c := by
  induction Γ, t using walk_induction generalizing c with
  | int Γ r n => cases h; exact .int
  | var Γ r x => exact .var (infer_var_eq_ok.mp h)
  | app Γ r r' x a body arg ihArg ihBody =>
    obtain ⟨harg, hbody⟩ := infer_app_abs_eq_ok.mp h
    exact .app (ihArg harg) (ihBody hbody)
  | stuck Γ r fn arg hfn => rw [infer_app_stuck hfn] at h; cases h
  | abs Γ r x a body ih =>
    obtain ⟨b, hb, rfl⟩ := infer_abs_eq_ok.mp h
    exact .abs (ih hb)
  | tabs Γ r x k body ih =>
    obtain ⟨b, hb, rfl⟩ := infer_tabs_eq_ok.mp h
    exact .tabs (ih hb)
  | tapp Γ r t s ih =>
    obtain ⟨x, k, b, ht, -, rfl⟩ := infer_tapp_eq_ok.mp h
    exact .tapp (ih ht)
  | gap Γ => cases h

theorem HasType.infer_eq {Γ : Context} {t : Term} {a : Ty} (h : HasType Γ t a)
    (hΓ : Γ.isComplete = true) (ht : t.isComplete = true) : infer Γ t = .ok a := by
  induction h with
  | int => rfl
  | var hx => exact infer_var_eq_ok.mpr hx
  | app _ _ ihArg ihBody =>
    obtain ⟨habs, harg⟩ := Bool.and_eq_true_iff.mp ht
    obtain ⟨ha, hbody⟩ := Bool.and_eq_true_iff.mp habs
    exact infer_app_abs_eq_ok.mpr
      ⟨ihArg hΓ harg, ihBody (Context.isComplete_assign hΓ ha) hbody⟩
  | abs _ ih =>
    obtain ⟨ha, hbody⟩ := Bool.and_eq_true_iff.mp ht
    exact infer_abs_eq_ok.mpr ⟨_, ih (Context.isComplete_assign hΓ ha) hbody, rfl⟩
  | tabs _ ih => exact infer_tabs_eq_ok.mpr ⟨_, ih hΓ ht, rfl⟩
  | tapp _ ih =>
    obtain ⟨ht, hs⟩ := Bool.and_eq_true_iff.mp ht
    have hu := ih hΓ ht
    -- the instantiated body is part of an inferred type, so it has no gap either
    have hb := isComplete_of_infer hΓ ht hu
    exact infer_tapp_eq_ok.mpr ⟨_, _, _, hu, ⟨hb, hs⟩, rfl⟩

/-! ## Errors point at faults -/

/-- A fault of a part that the walk visits is a fault of the whole. -/
theorem Fault.lift {Γ Γ' : Context} {t t' : Term} {e : TypeError}
    (hv : ∀ Δ u, Visits Γ' t' Δ u → Visits Γ t Δ u) (h : Fault Γ' t' e) : Fault Γ t e := by
  cases h with
  | undefined hu hx => exact .undefined (hv _ _ hu) hx
  | mismatch hu harg hne => exact .mismatch (hv _ _ hu) harg hne
  | notAbstraction hu hfn => exact .notAbstraction (hv _ _ hu) hfn
  | notTypeAbstraction hu ha hall => exact .notTypeAbstraction (hv _ _ hu) ha hall

/-- **Every error is genuine.**  Where inference fails on trees without gaps, its error
describes a fault at some term it visited. -/
theorem fault_of_infer {Γ : Context} {t : Term} (hΓ : Γ.isComplete = true)
    (ht : t.isComplete = true) {e : TypeError} (h : infer Γ t = .error e) : Fault Γ t e := by
  induction Γ, t using walk_induction with
  | int Γ r n => cases h
  | var Γ r x =>
    rw [infer_var] at h
    split at h
    · cases h
    · next hx =>
      obtain rfl := Except.error.inj h
      exact .undefined .here (Context.lookup?_eq_none.mp hx)
  | app Γ r r' x a body arg ihArg ihBody =>
    obtain ⟨habs, harg⟩ := Bool.and_eq_true_iff.mp ht
    obtain ⟨ha, hbody⟩ := Bool.and_eq_true_iff.mp habs
    have hΓ' := Context.isComplete_assign (x := x) hΓ ha
    rw [infer_app_abs, bind_eq_error] at h
    rcases h with h | ⟨b, hb, h⟩
    · exact (ihArg hΓ harg h).lift fun _ _ => .arg
    · split at h
      · next hab => exact (ihBody hΓ' hbody h).lift fun _ _ => .body (hab ▸ hb)
      · next hab =>
        obtain rfl := Except.error.inj h
        exact .mismatch .here hb (Ne.symm hab)
  | stuck Γ r fn arg hfn =>
    have hgap : fn ≠ .gap := by
      rintro rfl
      cases ht
    rw [infer_app_stuck hfn, if_neg hgap] at h
    obtain rfl := Except.error.inj h
    exact .notAbstraction .here hfn
  | abs Γ r x a body ih =>
    obtain ⟨ha, hbody⟩ := Bool.and_eq_true_iff.mp ht
    have hΓ' := Context.isComplete_assign (x := x) hΓ ha
    rw [infer_abs, bind_eq_error] at h
    rcases h with h | ⟨b, -, h⟩
    · exact (ih hΓ' hbody h).lift fun _ _ => .abs
    · exact absurd h pure_ne_error
  | tabs Γ r x k body ih =>
    rw [infer_tabs, bind_eq_error] at h
    rcases h with h | ⟨b, -, h⟩
    · exact (ih hΓ ht h).lift fun _ _ => .tabs
    · exact absurd h pure_ne_error
  | tapp Γ r t s ih =>
    obtain ⟨ht, hs⟩ := Bool.and_eq_true_iff.mp ht
    rw [infer_tapp, bind_eq_error] at h
    rcases h with h | ⟨a, ha, h⟩
    · exact (ih hΓ ht h).lift fun _ _ => .tapp
    · split at h
      · next x k b =>
        have hall : (Ty.all x k b).isComplete = true := isComplete_of_infer hΓ ht ha
        have hb : b.isComplete = true := hall
        rw [replace?_eq_some.mpr ⟨⟨hb, hs⟩, rfl⟩] at h
        exact absurd h pure_ne_error
      · next hall =>
        obtain rfl := Except.error.inj h
        exact .notTypeAbstraction .here ha hall
  | gap Γ => cases ht

/-- **Inference decides the typing rules.**  On trees without gaps it returns exactly the
types that the rules derive, and where they derive none it returns an error that
describes a fault. -/
theorem infer_decides_hasType {Γ : Context} {t : Term} (hΓ : Γ.isComplete = true)
    (ht : t.isComplete = true) :
    (∀ a, infer Γ t = .ok a ↔ HasType Γ t a) ∧
      ((¬ ∃ a, HasType Γ t a) → ∃ e, infer Γ t = .error e ∧ Fault Γ t e) := by
  refine ⟨fun a => ⟨hasType_of_infer, fun h => h.infer_eq hΓ ht⟩, fun hno => ?_⟩
  cases h : infer Γ t with
  | ok a => exact absurd ⟨a, hasType_of_infer h⟩ hno
  | error e => exact ⟨e, rfl, fault_of_infer hΓ ht h⟩

/-- With `f: ∀X: *. X -> X` the rules give `f [Int]` the type `Int -> Int`; they give none
to `f 1`, and the error there describes a fault. -/
theorem infer_decides_hasType_identity :
    HasType [("f", .all "X" .star (.arrow (.var "X") (.var "X")))]
        (.tapp .nowhere (.var .nowhere "f") .int) (.arrow .int .int) ∧
      ∃ e, infer [("f", .all "X" .star (.arrow (.var "X") (.var "X")))]
          (.app .nowhere (.var .nowhere "f") (.int .nowhere 1)) = .error e ∧
        Fault [("f", .all "X" .star (.arrow (.var "X") (.var "X")))]
          (.app .nowhere (.var .nowhere "f") (.int .nowhere 1)) e := by
  constructor
  · exact ((infer_decides_hasType (by decide) (by decide)).1 _).mp rfl
  · refine (infer_decides_hasType (by decide) (by decide)).2 ?_
    rintro ⟨a, h⟩
    cases h

end PolyLambda
