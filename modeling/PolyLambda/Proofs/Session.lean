import PolyLambda.Session

/-!
# Steps and runs of a session

`Session.Step` says what a command can do to a session.  It leaves the session as it is,
changes the calculus, or binds a name to the type of an accepted term.

A run is a list of inputs.  What every step keeps, every run keeps
(`Session.after_induction`); for a property of the bound types it is enough that accepted
terms have types with that property (`Session.Step.forall_context`).
-/

namespace PolyLambda
namespace Session

/-- What a command can do to a session, and what is answered. -/
inductive Step (s : Session) : Command → Reply → Session → Prop where
  | stay {command : Command} {reply : Reply} : Step s command reply s
  | useSimplyTyped {t : Text} :
      Step s .useSimplyTyped (.result t) { s with calculus := .simplyTyped }
  | useSystemF {t : Text} : Step s .useSystemF (.result t) { s with calculus := .systemF }
  | bind {definition name source : Text} {checked : Checked} :
      splitDefinition definition = some (name, source) → isVariableName name = true →
      s.check source = .ok checked →
      Step s (.bind definition) (.result (name ++ " : " ++ checked.type.render))
        { s with context := s.context.assign name checked.type }

theorem step_bind (s : Session) (definition : Text) :
    s.Step (.bind definition) (s.bind definition).1 (s.bind definition).2 := by
  unfold bind
  split
  · exact .stay
  · next name source hsplit =>
    split
    · next hname =>
      split
      · next checked hcheck => exact .bind hsplit hname hcheck
      · exact .stay
    · exact .stay

/-- A name is bound when the definition splits, the name reads as a variable and the source
is accepted; and only then is there a result. -/
theorem bind_of_result {s : Session} {definition out : Text}
    (h : (s.bind definition).1 = .result out) :
    ∃ name source checked, splitDefinition definition = some (name, source) ∧
      isVariableName name = true ∧ s.check source = .ok checked ∧
      out = name ++ " : " ++ checked.type.render ∧
      (s.bind definition).2 = { s with context := s.context.assign name checked.type } := by
  unfold bind at h ⊢
  split at h
  · cases h
  · next name source hsplit =>
    split at h
    · next hname =>
      split at h
      · next checked hcheck =>
        refine ⟨name, source, checked, hsplit, hname, hcheck, (Reply.result.inj h).symm, ?_⟩
        simp only [hname, if_true]
      · cases h
    · cases h

theorem run_check_of_result {s : Session} {source out : Text}
    (h : (s.run (.check source)).1 = .result out) :
    ∃ checked, s.check source = .ok checked ∧ out = checked.type.render := by
  rw [run] at h
  split at h
  · next checked hcheck => exact ⟨checked, hcheck, (Reply.result.inj h).symm⟩
  · cases h

/-- **Commands do nothing else.** -/
theorem step_run (s : Session) (command : Command) :
    s.Step command (s.run command).1 (s.run command).2 := by
  cases command with
  | quit | help | context | unknown => exact .stay
  | useSimplyTyped => exact .useSimplyTyped
  | useSystemF => exact .useSystemF
  | type source =>
    rw [run]
    split
    · exact .stay
    · exact .stay
  | bind definition => exact s.step_bind definition
  | check source =>
    rw [run]
    split
    · exact .stay
    · exact .stay

theorem step_eval (s : Session) (input : Text) :
    s.Step (.ofInput input) (s.eval input).1 (s.eval input).2 := s.step_run _

/-- A property of the bound types is kept by a step if accepted terms have it. -/
theorem Step.forall_context {P : Ty → Prop} {s s' : Session} {command : Command} {reply : Reply}
    (h : s.Step command reply s') (hs : ∀ p ∈ s.context, P p.2)
    (hcheck : ∀ source checked, s.check source = .ok checked → P checked.type) :
    ∀ p ∈ s'.context, P p.2 := by
  cases h with
  | stay => exact hs
  | useSimplyTyped => exact hs
  | useSystemF => exact hs
  | bind _ _ haccepted => exact List.forall_mem_cons.mpr ⟨hcheck _ _ haccepted, hs⟩

/-! ## Runs -/

/-- The session after some inputs, answered one after another. -/
def after (s : Session) (inputs : List Text) : Session :=
  inputs.foldl (fun s input => (s.eval input).2) s

/-- What each step keeps is kept by a run. -/
theorem after_induction {P : Session → Prop}
    (hstep : ∀ s s' command reply, s.Step command reply s' → P s → P s') {s : Session} (hs : P s)
    (inputs : List Text) : P (s.after inputs) := by
  induction inputs generalizing s with
  | nil => exact hs
  | cons input inputs ih => exact ih (hstep s _ _ _ (s.step_eval input) hs)

end Session
end PolyLambda
