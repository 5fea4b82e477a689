import PolyLambda.Proofs.Check
import PolyLambda.Proofs.Session.Transcript

/-!
# Simply-typed sessions

A session that is started in the simply-typed lambda calculus, and not told to use System F,
never meets a polymorphic type.  Three facts are put together.

* The reader of the calculus lets only simply-typed terms through.
* In a context of simple types such a term has a simple type (`HasType.isSimple`), and
  inferring it instantiates nothing, so there is nothing to warn of
  (`warnings_eq_nil_of_isSimplyTyped`).
* The session binds names to inferred types only.  So its context stays simple
  (`Session.IsSimple.step`), which is what the second fact asks for at the next input.
-/

namespace PolyLambda

/-! ## Simply-typed terms -/

/-- **No rule leads out of the simple types**, as long as the term has no polymorphism. -/
theorem HasType.isSimple {Γ : Context} {t : Term} {a : Ty} (h : HasType Γ t a)
    (hΓ : ∀ p ∈ Γ, p.2.isSimple = true) (ht : t.isSimplyTyped = true) : a.isSimple = true := by
  induction h with
  | int => rfl
  | var hx => exact hΓ _ (Context.mem_of_lookup? hx)
  | app _ _ _ ihBody =>
    obtain ⟨hfn, -⟩ := Bool.and_eq_true_iff.mp ht
    obtain ⟨ha, hbody⟩ := Bool.and_eq_true_iff.mp hfn
    exact ihBody (List.forall_mem_cons.mpr ⟨ha, hΓ⟩) hbody
  | abs _ ih =>
    obtain ⟨ha, hbody⟩ := Bool.and_eq_true_iff.mp ht
    exact Bool.and_eq_true_iff.mpr ⟨ha, ih (List.forall_mem_cons.mpr ⟨ha, hΓ⟩) hbody⟩
  | tabs => cases ht
  | tapp => cases ht

/-- A simply-typed term instantiates nothing, so there is nothing to warn of.  This holds in
any context and also where the inference fails. -/
theorem warnings_eq_nil_of_isSimplyTyped {Γ : Context} {t : Term}
    (ht : t.isSimplyTyped = true) : warnings Γ t = [] := by
  induction Γ, t using walk_induction with
  | int | var | gap => rfl
  | app Γ r r' x a body arg ihArg ihBody =>
    obtain ⟨hfn, harg⟩ := Bool.and_eq_true_iff.mp ht
    have hbody := (Bool.and_eq_true_iff.mp hfn).2
    rw [warnings, ihArg harg, List.nil_append]
    split
    · split
      · exact ihBody hbody
      · rfl
    · rfl
  | stuck Γ r fn arg hfn =>
    cases fn with
    | abs r' x a body => exact absurd rfl (hfn r' x a body)
    | int | var | app | tabs | tapp | gap => rfl
  | abs Γ r x a body ih => exact ih (Bool.and_eq_true_iff.mp ht).2
  | tabs => cases ht
  | tapp => cases ht

theorem isSimplyTyped_of_readTerm {source : Text} {t : Term}
    (h : readTerm .simplyTyped source = .ok t) : t.isSimplyTyped = true :=
  (Tokens.term?_simplyTyped.mp h).2

/-! ## What is logged -/

theorem Warning.level_record (w : Warning) : w.record.level = Log.warn := by
  cases w with
  | captures | shadows => rfl

theorem detail_of_mem_readEvents {c : Calculus} {source : Text} {event : Log.Event}
    (h : event ∈ readEvents c source) : event.record.level = Log.debug := by
  unfold readEvents at h
  split at h
  · rw [List.mem_singleton.mp h]
    rfl
  · cases h

/-- Besides its warnings, an inference logs details for a developer only. -/
theorem detail_of_mem_checkTermEvents {Γ : Context} {t : Term} {event : Log.Event}
    (hwarnings : warnings Γ t = []) (h : event ∈ checkTermEvents Γ t) :
    event.record.level = Log.debug := by
  unfold checkTermEvents inferEvents at h
  rw [hwarnings, List.map_nil, List.nil_append] at h
  rcases List.mem_append.mp h with h | h
  · split at h
    · rw [List.mem_singleton.mp h]
    · cases h
  · split at h
    · rw [List.mem_singleton.mp h]
    · cases h

theorem detail_of_mem_checkEvents {Γ : Context} {c : Calculus} {source : Text}
    {event : Log.Event} (hwarnings : ∀ t, readTerm c source = .ok t → warnings Γ t = [])
    (h : event ∈ checkEvents Γ c source) : event.record.level = Log.debug := by
  unfold checkEvents at h
  rcases List.mem_append.mp h with h | h
  · exact detail_of_mem_readEvents h
  · split at h
    · next t ht => exact detail_of_mem_checkTermEvents (hwarnings t ht) h
    · cases h

/-- What an exchange prints for a term is the notation of a simple type, and what it prints
for a definition is the name with such a notation. -/
def Exchange.PrintsSimple (e : Exchange) : Prop :=
  ∀ out, e.reply = .result out →
    (∀ source, e.command = .check source → ∃ a : Ty, a.isSimple = true ∧ out = a.render) ∧
    ∀ definition, e.command = .bind definition →
      ∃ name source, ∃ a : Ty, splitDefinition definition = some (name, source) ∧
        a.isSimple = true ∧ out = name ++ " : " ++ a.render

/-- Nothing that is logged in an exchange is the warning of an instantiation. -/
def Exchange.LogsNoWarning (e : Exchange) : Prop :=
  ∀ event ∈ e.events, ∀ w : Warning, event.record ≠ w.record

namespace Session

/-- What an input logs comes from reading a name or from checking a source. -/
theorem mem_evalEvents {s : Session} {input : Text} {event : Log.Event}
    (h : event ∈ s.evalEvents input) :
    event.record.level = Log.debug ∨
      ∃ source, event ∈ checkEvents s.context s.calculus source := by
  unfold evalEvents at h
  split at h
  · exact .inr ⟨_, h⟩
  · split at h
    · cases h
    · rcases List.mem_append.mp h with h | h
      · exact .inl (detail_of_mem_readEvents h)
      · split at h
        · exact .inr ⟨_, h⟩
        · cases h
  · cases h

/-! ## Sessions -/

/-- The session uses the simply-typed calculus, and all types in it are simple. -/
structure IsSimple (s : Session) : Prop where
  calculus : s.calculus = .simplyTyped
  context : ∀ p ∈ s.context, p.2.isSimple = true

namespace IsSimple

theorem start : (Session.start .simplyTyped).IsSimple := ⟨rfl, nofun⟩

variable {s : Session}

theorem isSimple_of_check (hs : s.IsSimple) {source : Text} {checked : Checked}
    (h : s.check source = .ok checked) : checked.type.isSimple = true := by
  obtain ⟨hread, hinfer⟩ := check_eq_ok.mp h
  rw [hs.calculus] at hread
  exact (hasType_of_infer hinfer).isSimple hs.context (isSimplyTyped_of_readTerm hread)

theorem step (hs : s.IsSimple) {s' : Session} {command : Command} {reply : Reply}
    (h : s.Step command reply s') (hcommand : command ≠ .useSystemF) : s'.IsSimple := by
  refine ⟨?_, h.forall_context (P := fun a => a.isSimple = true) hs.context
    fun _ _ => hs.isSimple_of_check⟩
  cases h with
  | stay => exact hs.calculus
  | useSimplyTyped => rfl
  | useSystemF => exact absurd rfl hcommand
  | bind => exact hs.calculus

theorem printsSimple (hs : s.IsSimple) (input : Text) : (s.exchange input).PrintsSimple := by
  intro out hout
  constructor
  · intro source hcommand
    have hresult : (s.run (.check source)).1 = .result out := hcommand ▸ hout
    obtain ⟨checked, hcheck, rfl⟩ := run_check_of_result hresult
    exact ⟨checked.type, hs.isSimple_of_check hcheck, rfl⟩
  · intro definition hcommand
    have hresult : (s.run (.bind definition)).1 = .result out := hcommand ▸ hout
    obtain ⟨name, source, checked, hsplit, -, hcheck, rfl, -⟩ := bind_of_result hresult
    exact ⟨name, source, checked.type, hsplit, hs.isSimple_of_check hcheck, rfl⟩

theorem detail_of_mem_evalEvents (hs : s.IsSimple) {input : Text} {event : Log.Event}
    (h : event ∈ s.evalEvents input) : event.record.level = Log.debug := by
  rcases mem_evalEvents h with h | ⟨source, h⟩
  · exact h
  · refine detail_of_mem_checkEvents (fun t hread => ?_) h
    rw [hs.calculus] at hread
    exact warnings_eq_nil_of_isSimplyTyped (isSimplyTyped_of_readTerm hread)

theorem logsNoWarning (hs : s.IsSimple) (input : Text) : (s.exchange input).LogsNoWarning := by
  intro event hevent w hw
  have hlevel := hs.detail_of_mem_evalEvents hevent
  rw [hw, w.level_record] at hlevel
  cases hlevel

end IsSimple

/-- **A simply-typed session stays simply typed.**  Let it be given any inputs that do not
choose System F.  Then every type that is bound, and every type that a source is accepted
with, is simple; every type that was printed for a term or a definition on the way is simple;
and no warning of an instantiation was logged. -/
theorem simplyTyped_session_simple {inputs : List Text}
    (hinputs : ∀ input ∈ inputs, Command.ofInput input ≠ .useSystemF) :
    (∀ p ∈ ((start .simplyTyped).after inputs).context, p.2.isSimple = true) ∧
    (∀ source checked, ((start .simplyTyped).after inputs).check source = .ok checked →
      checked.type.isSimple = true) ∧
    ∀ e ∈ (start .simplyTyped).transcript inputs, e.PrintsSimple ∧ e.LogsNoWarning := by
  obtain ⟨hafter, htranscript⟩ := run_induction (P := IsSimple)
    (Q := fun e => e.PrintsSimple ∧ e.LogsNoWarning)
    (fun s input hs hinput => hs.step (s.step_eval input) hinput)
    (fun _ input hs _ => ⟨hs.printsSimple input, hs.logsNoWarning input⟩)
    IsSimple.start hinputs
  exact ⟨hafter.context, fun _ _ => hafter.isSimple_of_check, htranscript⟩

/-- A polymorphic term is refused, and a function that is bound after it can be used. -/
theorem simplyTyped_session_simple_refusal :
    ((start .simplyTyped).transcript
        ["ΛX: *. λx: X. x", ":let f = λx: Int. x", "f", "f [Int]"]).map (·.reply.isError) =
      [true, false, false, true] ∧
    ∀ e ∈ (start .simplyTyped).transcript
        ["ΛX: *. λx: X. x", ":let f = λx: Int. x", "f", "f [Int]"],
      e.PrintsSimple ∧ e.LogsNoWarning :=
  ⟨rfl, (simplyTyped_session_simple (by decide)).2.2⟩

end Session
end PolyLambda
