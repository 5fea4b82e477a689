import PolyLambda.Check
import PolyLambda.Proofs.RoundTrip
import PolyLambda.Proofs.Typing.Erasure

/-!
# Checking what was printed

A source, and the notation of the term that is read from it, are checked alike: both have
the same type, or errors with one code and one message.

The term comes back up to ranges (`readTerm_render`), which inference does not look at
(`infer_erase`).  The type comes back as it is, since no typing rule leads out of the types
that have a notation (`HasType.isPrintable`); an instantiation may capture names, but it
makes none.
-/

namespace PolyLambda

/-! ## Outcomes of a check -/

theorem checkTerm_eq_ok {Γ : Context} {t : Term} {checked : Checked} :
    checkTerm Γ t = .ok checked ↔ checked.term = t ∧ infer Γ t = .ok checked.type := by
  unfold checkTerm
  cases infer Γ t with
  | error e => simp
  | ok a =>
    obtain ⟨u, b⟩ := checked
    simp [eq_comm]

theorem checkTerm_eq_error {Γ : Context} {t : Term} {f : Failure} :
    checkTerm Γ t = .error f ↔ ∃ e, infer Γ t = .error e ∧ e.failure = f := by
  unfold checkTerm
  cases infer Γ t with
  | error e => simp
  | ok a => simp

theorem check_of_readTerm {Γ : Context} {c : Calculus} {source : Text} {t : Term}
    (h : readTerm c source = .ok t) : check Γ c source = checkTerm Γ t := by
  rw [check, h]

theorem check_eq_ok {Γ : Context} {c : Calculus} {source : Text} {checked : Checked} :
    check Γ c source = .ok checked ↔
      readTerm c source = .ok checked.term ∧ infer Γ checked.term = .ok checked.type := by
  unfold check
  cases readTerm c source with
  | error e => simp
  | ok t =>
    dsimp only
    rw [checkTerm_eq_ok, Except.ok.injEq]
    constructor
    · rintro ⟨rfl, h⟩
      exact ⟨rfl, h⟩
    · rintro ⟨rfl, h⟩
      exact ⟨rfl, h⟩

/-- A check fails on a source that is no term, or on a term without a type. -/
theorem check_eq_error {Γ : Context} {c : Calculus} {source : Text} {f : Failure} :
    check Γ c source = .error f ↔
      (∃ e, readTerm c source = .error e ∧ .diagnostic e.diagnostic = f) ∨
      ∃ t e, readTerm c source = .ok t ∧ infer Γ t = .error e ∧ e.failure = f := by
  unfold check
  cases readTerm c source with
  | error e => simp
  | ok t =>
    dsimp only
    rw [checkTerm_eq_error]
    simp

theorem TypeError.failure_of_diagnostic? {e : TypeError} {d : Diagnostic}
    (h : e.diagnostic? = some d) : e.failure = .diagnostic d := by
  rw [failure, h]

theorem TypeError.diagnostic?_of_failure {e : TypeError} {d : Diagnostic}
    (h : e.failure = .diagnostic d) : e.diagnostic? = some d := by
  cases e with
  | undefined | mismatch | notAbstraction | notTypeAbstraction =>
    exact congrArg some (Failure.diagnostic.inj h)
  | gap => cases h

/-! ## Types with a notation -/

theorem Ty.isComplete_of_isPrintable {a : Ty} (h : a.isPrintable = true) : a.isComplete = true := by
  induction a with
  | int => rfl
  | var x => rfl
  | arrow p r ihp ihr =>
    obtain ⟨hp, hr⟩ := Bool.and_eq_true_iff.mp h
    exact Bool.and_eq_true_iff.mpr ⟨ihp hp, ihr hr⟩
  | all x k b ih => exact ih (Bool.and_eq_true_iff.mp h).2
  | gap => cases h

theorem Term.isComplete_of_isPrintable {t : Term} (h : t.isPrintable = true) :
    t.isComplete = true := by
  induction t with
  | int r n => rfl
  | var r x => rfl
  | app r f a ihf iha =>
    obtain ⟨hf, ha⟩ := Bool.and_eq_true_iff.mp h
    exact Bool.and_eq_true_iff.mpr ⟨ihf hf, iha ha⟩
  | abs r x a b ih =>
    obtain ⟨hxa, hb⟩ := Bool.and_eq_true_iff.mp h
    have ha := Ty.isComplete_of_isPrintable (Bool.and_eq_true_iff.mp hxa).2
    exact Bool.and_eq_true_iff.mpr ⟨ha, ih hb⟩
  | tabs r x k b ih => exact ih (Bool.and_eq_true_iff.mp h).2
  | tapp r t a ih =>
    obtain ⟨ht, ha⟩ := Bool.and_eq_true_iff.mp h
    exact Bool.and_eq_true_iff.mpr ⟨ih ht, Ty.isComplete_of_isPrintable ha⟩
  | gap => cases h

theorem Ty.isPrintable_substitute {t s : Ty} {x : Text} (ht : t.isPrintable = true)
    (hs : s.isPrintable = true) : (t.substitute x s).isPrintable = true := by
  induction t with
  | int => rfl
  | var y =>
    rw [substitute]
    split
    · exact hs
    · exact ht
  | arrow p r ihp ihr =>
    obtain ⟨hp, hr⟩ := Bool.and_eq_true_iff.mp ht
    exact Bool.and_eq_true_iff.mpr ⟨ihp hp, ihr hr⟩
  | all y k b ih =>
    obtain ⟨hyk, hb⟩ := Bool.and_eq_true_iff.mp ht
    exact Bool.and_eq_true_iff.mpr ⟨hyk, ih hb⟩
  | gap => cases ht

/-- **No rule leads out of the types that have a notation.** -/
theorem HasType.isPrintable {Γ : Context} {t : Term} {a : Ty} (h : HasType Γ t a)
    (hΓ : ∀ p ∈ Γ, p.2.isPrintable = true) (ht : t.isPrintable = true) : a.isPrintable = true := by
  induction h with
  | int => rfl
  | var hx => exact hΓ _ (Context.mem_of_lookup? hx)
  | app _ _ _ ihBody =>
    obtain ⟨habs, -⟩ := Bool.and_eq_true_iff.mp ht
    obtain ⟨hxa, hbody⟩ := Bool.and_eq_true_iff.mp habs
    exact ihBody (List.forall_mem_cons.mpr ⟨(Bool.and_eq_true_iff.mp hxa).2, hΓ⟩) hbody
  | abs _ ih =>
    obtain ⟨hxa, hbody⟩ := Bool.and_eq_true_iff.mp ht
    have ha := (Bool.and_eq_true_iff.mp hxa).2
    exact Bool.and_eq_true_iff.mpr ⟨ha, ih (List.forall_mem_cons.mpr ⟨ha, hΓ⟩) hbody⟩
  | tabs _ ih =>
    obtain ⟨hxk, hbody⟩ := Bool.and_eq_true_iff.mp ht
    exact Bool.and_eq_true_iff.mpr ⟨hxk, ih hΓ hbody⟩
  | tapp _ ih =>
    obtain ⟨ht, hs⟩ := Bool.and_eq_true_iff.mp ht
    have hall := ih hΓ ht
    exact Ty.isPrintable_substitute (Bool.and_eq_true_iff.mp hall).2 hs

/-- What the rules find wrong can be reported, under one of three codes. -/
theorem Fault.exists_diagnostic {Γ : Context} {t : Term} {e : TypeError} (h : Fault Γ t e) :
    ∃ d, e.diagnostic? = some d ∧ (d.code = 2 ∨ d.code = 3 ∨ d.code = 4) := by
  cases h with
  | undefined => exact ⟨_, rfl, .inl rfl⟩
  | mismatch => exact ⟨_, rfl, .inr (.inl rfl)⟩
  | notAbstraction | notTypeAbstraction => exact ⟨_, rfl, .inr (.inr rfl)⟩

/-- Where everything has a notation, a type error is one that can be reported. -/
theorem exists_diagnostic_of_infer {Γ : Context} {t : Term} {e : TypeError}
    (hΓ : ∀ p ∈ Γ, p.2.isPrintable = true) (ht : t.isPrintable = true)
    (h : infer Γ t = .error e) : ∃ d, e.diagnostic? = some d := by
  have hcomplete : Γ.isComplete = true :=
    List.all_eq_true.mpr fun p hp => Ty.isComplete_of_isPrintable (hΓ p hp)
  obtain ⟨d, hd, -⟩ :=
    (fault_of_infer hcomplete (Term.isComplete_of_isPrintable ht) h).exists_diagnostic
  exact ⟨d, hd⟩

/-! ## Checking again -/

theorem check_render_eq_ok {Γ : Context} {c : Calculus} {source : Text} {checked : Checked}
    (h : check Γ c source = .ok checked) :
    ∃ again, check Γ c checked.term.render = .ok again ∧
      again.term.same checked.term = true ∧ again.type = checked.type := by
  obtain ⟨hread, hinfer⟩ := check_eq_ok.mp h
  obtain ⟨u, hu, hsame⟩ := readTerm_render_of_readTerm hread
  exact ⟨⟨u, checked.type⟩, check_eq_ok.mpr ⟨hu, (infer_eq_ok_of_same hsame).mpr hinfer⟩,
    hsame, rfl⟩

theorem check_render_eq_error {Γ : Context} {c : Calculus} {source : Text} {t : Term}
    {f : Failure} (hΓ : ∀ p ∈ Γ, p.2.isPrintable = true) (hread : readTerm c source = .ok t)
    (h : check Γ c source = .error f) :
    ∃ d d', f = .diagnostic d ∧ check Γ c t.render = .error (.diagnostic d') ∧
      d'.code = d.code ∧ d'.message = d.message := by
  rw [check_of_readTerm hread] at h
  obtain ⟨e, he, rfl⟩ := checkTerm_eq_error.mp h
  obtain ⟨d, hd⟩ := exists_diagnostic_of_infer hΓ (isPrintable_of_readTerm hread) he
  obtain ⟨u, hu, hsame⟩ := readTerm_render_of_readTerm hread
  obtain ⟨e', he', herase⟩ := infer_error_of_same hsame he
  obtain ⟨d', hd', hcode, hmessage⟩ := TypeError.exists_diagnostic_of_erase herase hd
  refine ⟨d, d', TypeError.failure_of_diagnostic? hd, ?_, hcode, hmessage⟩
  rw [check_of_readTerm hu]
  exact checkTerm_eq_error.mpr ⟨e', he', TypeError.failure_of_diagnostic? hd'⟩

/-- **What a check prints can be checked again.**  In a context of types that can be read, an
accepted term is accepted again from its notation, as the same term up to ranges and with the
same type, and that type is read back from its own notation.  A term that is refused is
reported, and refused again from its notation with the same code and the same message. -/
theorem check_printed_agrees {Γ : Context}
    (hΓ : ∀ p ∈ Γ, ∃ c source, readType c source = .ok p.2) (c : Calculus) (source : Text) :
    (∀ checked, check Γ c source = .ok checked →
      (∃ again, check Γ c checked.term.render = .ok again ∧
        again.term.same checked.term = true ∧ again.type = checked.type) ∧
      readType .systemF checked.type.render = .ok checked.type) ∧
    (∀ t f, readTerm c source = .ok t → check Γ c source = .error f →
      ∃ d d', f = .diagnostic d ∧ check Γ c t.render = .error (.diagnostic d') ∧
        d'.code = d.code ∧ d'.message = d.message) := by
  have hprint : ∀ p ∈ Γ, p.2.isPrintable = true := by
    intro p hp
    obtain ⟨_, _, hread⟩ := hΓ p hp
    exact isPrintable_of_readType hread
  constructor
  · intro checked h
    obtain ⟨hread, hinfer⟩ := check_eq_ok.mp h
    have htype := (hasType_of_infer hinfer).isPrintable hprint (isPrintable_of_readTerm hread)
    exact ⟨check_render_eq_ok h, readType_render htype nofun⟩
  · intro t f hread h
    exact check_render_eq_error hprint hread h

/-- With `f: ∀X: *. ∀Y: *. X -> Y`, an instantiation of `X` at `Y` captures.  The source `(f)[Y]` is
accepted, and so is its notation `f [Y]`; the type `∀Y: *. Y -> Y` is read back all the same.  And
`f 1` is refused twice for one reason. -/
theorem check_printed_agrees_capture :
    let Γ : Context := [("f", .all "X" .star (.all "Y" .star (.arrow (.var "X") (.var "Y"))))]
    let captured : Ty := .all "Y" .star (.arrow (.var "Y") (.var "Y"))
    (∀ p ∈ Γ, ∃ c source, readType c source = .ok p.2) ∧
      (∃ checked, check Γ .systemF "(f)[Y]" = .ok checked ∧ checked.type = captured ∧
        checked.term.render = "f [Y]" ∧ ∃ again, check Γ .systemF "f [Y]" = .ok again ∧
          again.term.same checked.term = true ∧ again.type = captured) ∧
      readType .systemF captured.render = .ok captured ∧
      ∃ d d', check Γ .systemF "( f 1 )" = .error (.diagnostic d) ∧
        check Γ .systemF "f 1" = .error (.diagnostic d') ∧
        d'.code = d.code ∧ d'.message = d.message := by
  intro Γ captured
  have hΓ : ∀ p ∈ Γ, ∃ c source, readType c source = .ok p.2 :=
    List.forall_mem_singleton.mpr ⟨.systemF, "∀X: *. ∀Y: *. X -> Y", rfl⟩
  have hcheck : check Γ .systemF "(f)[Y]" =
      .ok ⟨.tapp ⟨2, 7⟩ (.var ⟨2, 3⟩ "f") (.var "Y"), captured⟩ := rfl
  obtain ⟨⟨again, hagain, hsame, htype⟩, hread⟩ :=
    (check_printed_agrees hΓ .systemF "(f)[Y]").1 _ hcheck
  refine ⟨hΓ, ⟨_, hcheck, rfl, rfl, again, hagain, hsame, htype⟩, hread, ?_⟩
  obtain ⟨d, d', hd, hrest⟩ := (check_printed_agrees hΓ .systemF "( f 1 )").2
    (.app ⟨3, 6⟩ (.var ⟨3, 4⟩ "f") (.int ⟨5, 6⟩ 1))
    (.diagnostic (.unexpected "abstraction" (.var ⟨3, 4⟩ "f"))) rfl rfl
  exact ⟨d, d', hd ▸ rfl, hrest⟩

end PolyLambda
