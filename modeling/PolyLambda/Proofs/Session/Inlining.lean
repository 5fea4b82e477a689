import PolyLambda.Proofs.Check
import PolyLambda.Proofs.Session
import PolyLambda.Proofs.Typing.Substitution

/-!
# Definitions and what they stand for

A session that binds a name keeps the type of the term, not the term.  Nothing is lost by it:
a term that uses the name has the type that it has with the term written in its place
(`Session.check_inlined`).  The same holds of a parameter and the argument it is applied to.

That inlining keeps types is `infer_subst`.  For a session it has to be entered as a text,
and so the inlined term must have a notation, in the calculus that the session uses.  A new
name for a parameter is the old one with primes, which is a name again
(`Text.isVariable_freshName`).
-/

namespace PolyLambda

/-! ## The notation of an inlined term -/

theorem Text.isVariable_freshName {x : Text} (hx : x.isVariable = true) (avoid : List Text) :
    (Ty.freshName x avoid).isVariable = true := by
  obtain ⟨hword, -⟩ := Bool.and_eq_true_iff.mp hx
  obtain ⟨c, w, rfl, hc, hw⟩ := isWord_iff.mp hword
  have hfresh : Ty.freshName (ofChars (c :: w)) avoid =
      ofChars (c :: (w ++ List.replicate (avoid.flatten.length + 1) '\'')) := by
    rw [Ty.freshName, repeated, ofChars, ofChars, ← List.cons_append, List.map_append,
      List.map_replicate]
  rw [hfresh]
  refine Bool.and_eq_true_iff.mpr ⟨isWord_iff.mpr ⟨c, _, rfl, hc, ?_⟩, ?_⟩
  · intro d hd
    rcases List.mem_append.mp hd with hd | hd
    · exact hw d hd
    · rw [List.eq_of_mem_replicate hd]
      rfl
  · apply decide_eq_true
    intro hforall
    -- the keyword has no prime
    have hmem : '\'' ∈ c :: (w ++ List.replicate (avoid.flatten.length + 1) '\'') :=
      List.mem_cons_of_mem _ (List.mem_append_right _ (List.mem_replicate.mpr ⟨by omega, rfl⟩))
    rw [ofChars_inj.mp hforall] at hmem
    exact absurd hmem (by decide)

namespace Term

theorem isPrintable_rename {t : Term} {x y : Text} (hy : y.isVariable = true)
    (ht : t.isPrintable = true) : (t.rename x y).isPrintable = true := by
  induction t with
  | int | gap => exact ht
  | var r z =>
    rw [rename, isPrintable]
    split
    · exact hy
    · exact ht
  | app r f a ihf iha =>
    obtain ⟨hf, ha⟩ := Bool.and_eq_true_iff.mp ht
    exact Bool.and_eq_true_iff.mpr ⟨ihf hf, iha ha⟩
  | abs r z a b ih =>
    obtain ⟨hza, hb⟩ := Bool.and_eq_true_iff.mp ht
    refine Bool.and_eq_true_iff.mpr ⟨hza, ?_⟩
    split
    · exact hb
    · exact ih hb
  | tabs r z k b ih =>
    obtain ⟨hzk, hb⟩ := Bool.and_eq_true_iff.mp ht
    exact Bool.and_eq_true_iff.mpr ⟨hzk, ih hb⟩
  | tapp r t a ih =>
    obtain ⟨ht, ha⟩ := Bool.and_eq_true_iff.mp ht
    exact Bool.and_eq_true_iff.mpr ⟨ih ht, ha⟩

theorem isPrintable_subst {t a : Term} {x : Text} (ht : t.isPrintable = true)
    (ha : a.isPrintable = true) : (t.subst x a).isPrintable = true := by
  fun_induction subst t x a with
  | case1 | case3 | case5 | case10 => exact ht
  | case2 => exact ha
  | case4 r f u ihf ihu =>
    obtain ⟨hf, hu⟩ := Bool.and_eq_true_iff.mp ht
    exact Bool.and_eq_true_iff.mpr ⟨ihf hf, ihu hu⟩
  | case6 r y c b hfree hy ih =>
    obtain ⟨hyc, hb⟩ := Bool.and_eq_true_iff.mp ht
    obtain ⟨hname, hc⟩ := Bool.and_eq_true_iff.mp hyc
    have hnew : (newParam y b x a).isVariable = true := Text.isVariable_freshName hname _
    exact Bool.and_eq_true_iff.mpr
      ⟨Bool.and_eq_true_iff.mpr ⟨hnew, hc⟩, ih (isPrintable_rename hnew hb)⟩
  | case7 r y c b hfree hy ih =>
    obtain ⟨hyc, hb⟩ := Bool.and_eq_true_iff.mp ht
    exact Bool.and_eq_true_iff.mpr ⟨hyc, ih hb⟩
  | case8 r y k b ih =>
    obtain ⟨hyk, hb⟩ := Bool.and_eq_true_iff.mp ht
    exact Bool.and_eq_true_iff.mpr ⟨hyk, ih hb⟩
  | case9 r u s ih =>
    obtain ⟨hu, hs⟩ := Bool.and_eq_true_iff.mp ht
    exact Bool.and_eq_true_iff.mpr ⟨ih hu, hs⟩

theorem isSimplyTyped_rename (t : Term) (x y : Text) :
    (t.rename x y).isSimplyTyped = t.isSimplyTyped := by
  induction t with
  | int | var | tabs | tapp | gap => rfl
  | app r f a ihf iha => rw [rename, isSimplyTyped, isSimplyTyped, ihf, iha]
  | abs r z a b ih =>
    rw [rename, isSimplyTyped, isSimplyTyped]
    split
    · rfl
    · rw [ih]

theorem isSimplyTyped_subst {t a : Term} {x : Text} (ht : t.isSimplyTyped = true)
    (ha : a.isSimplyTyped = true) : (t.subst x a).isSimplyTyped = true := by
  fun_induction subst t x a with
  | case1 | case3 | case5 | case10 => exact ht
  | case2 => exact ha
  | case4 r f u ihf ihu =>
    obtain ⟨hf, hu⟩ := Bool.and_eq_true_iff.mp ht
    exact Bool.and_eq_true_iff.mpr ⟨ihf hf, ihu hu⟩
  | case6 r y c b hfree hy ih =>
    obtain ⟨hc, hb⟩ := Bool.and_eq_true_iff.mp ht
    rw [← isSimplyTyped_rename b y (newParam y b x a)] at hb
    exact Bool.and_eq_true_iff.mpr ⟨hc, ih hb⟩
  | case7 r y c b hfree hy ih =>
    obtain ⟨hc, hb⟩ := Bool.and_eq_true_iff.mp ht
    exact Bool.and_eq_true_iff.mpr ⟨hc, ih hb⟩
  | case8 | case9 => cases ht

end Term

/-- An inlined term has a notation in the calculus that both its parts were read in. -/
theorem readTerm_render_subst {c : Calculus} {source source' x : Text} {t a : Term}
    (ht : readTerm c source = .ok t) (ha : readTerm c source' = .ok a) :
    ∃ u, readTerm c (t.subst x a).render = .ok u ∧ u.same (t.subst x a) = true := by
  apply readTerm_render
  · exact Term.isPrintable_subst (isPrintable_of_readTerm ht) (isPrintable_of_readTerm ha)
  · intro hc
    have hsimple := (Tokens.term?_eq_ok.mp ht).2.2 hc
    have hsimple' := (Tokens.term?_eq_ok.mp ha).2.2 hc
    exact Term.isSimplyTyped_subst hsimple hsimple'

/-! ## Terms after a definition -/

theorem infer_inlined {Γ : Context} {x : Text} {a t : Term} {c b : Ty}
    (ha : infer Γ a = .ok c) (ht : infer (Γ.assign x c) t = .ok b) :
    infer Γ (t.subst x a) = .ok b :=
  infer_subst (.start ha) ht

/-- What is accepted after a definition is accepted before it, with the same type, once the
defined term is written in place of its name. -/
theorem Session.check_inlined {s s' : Session} {definition name source out source' : Text}
    {bound checked : Checked} (hsplit : splitDefinition definition = some (name, source))
    (hbound : s.check source = .ok bound) (hbind : s.bind definition = (.result out, s'))
    (hchecked : s'.check source' = .ok checked) :
    ∃ inlined, s.check (checked.term.subst name bound.term).render = .ok inlined ∧
      inlined.term.same (checked.term.subst name bound.term) = true ∧
      inlined.type = checked.type := by
  obtain ⟨name', source'', bound', hsplit', -, hbound', -, hs'⟩ :=
    bind_of_result (congrArg Prod.fst hbind)
  obtain ⟨rfl, rfl⟩ := Prod.mk.inj (Option.some.inj (hsplit'.symm.trans hsplit))
  obtain rfl := Except.ok.inj (hbound'.symm.trans hbound)
  rw [hbind] at hs'
  dsimp only at hs'
  subst hs'
  obtain ⟨hread, hinfer⟩ := check_eq_ok.mp hchecked
  obtain ⟨hreadBound, hinferBound⟩ := check_eq_ok.mp hbound
  obtain ⟨u, hu, hsame⟩ := readTerm_render_subst (x := name') hread hreadBound
  have htype := infer_inlined hinferBound hinfer
  refine ⟨⟨u, checked.type⟩, ?_, hsame, rfl⟩
  exact check_eq_ok.mpr ⟨hu, (infer_eq_ok_of_same hsame).mpr htype⟩

/-- **A binding by its type agrees with inlining.**  Let `a` have the type `c` in some context,
and `t` the type `b` where `x` is assigned `c`.  Then `t` with `a` in place of `x` has the type
`b`, whatever names are chosen for parameters that have to be renamed.  So the type of an
applied abstraction is the type of its body with the argument inlined; and what a session
accepts after a definition it accepts before it, with the definition inlined, and with the
same type. -/
theorem inlining_keeps_type :
    (∀ (Γ : Context) (x : Text) (a t : Term) (c b : Ty), infer Γ a = .ok c →
      infer (Γ.assign x c) t = .ok b →
      infer Γ (t.subst x a) = .ok b ∧ ∀ u, (t.subst x a).Renamed u → infer Γ u = .ok b) ∧
    (∀ (Γ : Context) (r r' : Range) (x : Text) (a t : Term) (c b : Ty),
      infer Γ (.app r (.abs r' x c t) a) = .ok b → infer Γ (t.subst x a) = .ok b) ∧
    (∀ (s s' : Session) (definition name source out source' : Text) (bound checked : Checked),
      splitDefinition definition = some (name, source) → s.check source = .ok bound →
      s.bind definition = (.result out, s') → s'.check source' = .ok checked →
      ∃ inlined, s.check (checked.term.subst name bound.term).render = .ok inlined ∧
        inlined.term.same (checked.term.subst name bound.term) = true ∧
        inlined.type = checked.type) := by
  refine ⟨?_, ?_, ?_⟩
  · intro Γ x a t c b ha ht
    have h := infer_inlined ha ht
    exact ⟨h, fun u hu => infer_eq_ok_of_renamedIn hu (Context.Paired.refl Γ) h⟩
  · intro Γ r r' x a t c b h
    obtain ⟨ha, ht⟩ := infer_app_abs_eq_ok.mp h
    exact infer_inlined ha ht
  · intro s s' definition name source out source' bound checked hsplit hbound hbind hchecked
    exact Session.check_inlined hsplit hbound hbind hchecked

/-- With `y: Int`, let `x` be replaced by `y` in `λy: Int -> Int. x`.  The parameter has to take
another name, and the type stays the same with `z` as with the name that it is given when the
definition `x = y` of a session is inlined. -/
theorem inlining_keeps_type_captured :
    infer [("y", .int)] (.abs .nowhere "z" (.arrow .int .int) (.var .nowhere "y")) =
        .ok (.arrow (.arrow .int .int) .int) ∧
      ∃ inlined, (Session.mk [("y", .int)] .systemF).check "λy'''': Int -> Int. y" =
          .ok inlined ∧ inlined.type = .arrow (.arrow .int .int) .int := by
  have hsubst : (Term.abs ⟨1, 18⟩ "y" (.arrow .int .int) (.var ⟨17, 18⟩ "x")).subst "x"
      (.var ⟨1, 2⟩ "y") = .abs ⟨1, 18⟩ "y''''" (.arrow .int .int) (.var ⟨1, 2⟩ "y") := by
    cbv
  constructor
  · refine (inlining_keeps_type.1 [("y", .int)] "x" (.var ⟨1, 2⟩ "y")
      (.abs ⟨1, 18⟩ "y" (.arrow .int .int) (.var ⟨17, 18⟩ "x")) .int _ rfl rfl).2 _ ?_
    rw [hsubst]
    exact .abs (.var (.inr ⟨by decide, by decide, rfl⟩))
  · obtain ⟨inlined, hcheck, -, htype⟩ := inlining_keeps_type.2.2
      ⟨[("y", .int)], .systemF⟩ ⟨[("x", .int), ("y", .int)], .systemF⟩ "x = y" "x" "y" "x : Int"
      "λy: Int -> Int. x" ⟨.var ⟨1, 2⟩ "y", .int⟩
      ⟨.abs ⟨1, 18⟩ "y" (.arrow .int .int) (.var ⟨17, 18⟩ "x"), .arrow (.arrow .int .int) .int⟩
      rfl rfl rfl rfl
    rw [hsubst] at hcheck
    exact ⟨inlined, hcheck, htype⟩

end PolyLambda
