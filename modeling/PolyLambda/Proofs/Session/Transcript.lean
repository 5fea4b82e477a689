import PolyLambda.Proofs.Session

/-!
# Transcripts of a session

The transcript of a run lists its **exchanges**: each input with what was answered to it and
what was logged on the way.

An exchange is **idle** when its command asks for something without ordering a change, or
when it failed.  A command that orders a change either makes it and answers with a result,
or fails and leaves the session as it is; so an idle exchange is a step that stays
(`Session.Step.eq_of_idle`), and the next input finds the session it would have found
without it.  By induction along the run, idle exchanges can be deleted from a transcript:
what is left is the transcript of the inputs that are left.
-/

namespace PolyLambda

/-- Whether a command orders no change: it binds no name and chooses no calculus. -/
def Command.isQuery : Command → Bool
  | bind _ | useSimplyTyped | useSystemF => false
  | quit | help | context | type _ | check _ | unknown _ => true

/-- Whether a reply is no result.  The end of a session is answered like an error. -/
def Reply.isError : Reply → Bool
  | result _ => false
  | error _ | quit => true

/-- An input with what is answered to it and what is logged on the way. -/
structure Exchange where
  input : Text
  reply : Reply
  events : List Log.Event

namespace Exchange

/-- What the input of an exchange asks for. -/
def command (e : Exchange) : Command := .ofInput e.input

/-- Whether an exchange asks without ordering a change, or fails. -/
def isIdle (e : Exchange) : Bool := e.command.isQuery || e.reply.isError

/-- `Thinning full kept`: of the exchanges `full` some idle ones are deleted, and `kept` is
what is left. -/
inductive Thinning : List Exchange → List Exchange → Prop where
  | nil : Thinning [] []
  | keep {e : Exchange} {full kept : List Exchange} :
      Thinning full kept → Thinning (e :: full) (e :: kept)
  | delete {e : Exchange} {full kept : List Exchange} :
      e.isIdle = true → Thinning full kept → Thinning (e :: full) kept

end Exchange

namespace Session

/-- The exchange that an input leads to. -/
def exchange (s : Session) (input : Text) : Exchange :=
  ⟨input, (s.eval input).1, s.evalEvents input⟩

/-- The exchanges of a run. -/
def transcript (s : Session) : List Text → List Exchange
  | [] => []
  | input :: inputs => s.exchange input :: (s.eval input).2.transcript inputs

/-- What is kept by each input of a class is kept by a run of such inputs, and what holds of
each exchange on the way holds of the whole transcript. -/
theorem run_induction {P : Session → Prop} {Q : Exchange → Prop} {allowed : Text → Prop}
    (hstep : ∀ s input, P s → allowed input → P (s.eval input).2)
    (hexchange : ∀ s input, P s → allowed input → Q (s.exchange input)) {s : Session} (hs : P s)
    {inputs : List Text} (hinputs : ∀ input ∈ inputs, allowed input) :
    P (s.after inputs) ∧ ∀ e ∈ s.transcript inputs, Q e := by
  induction inputs generalizing s with
  | nil => exact ⟨hs, nofun⟩
  | cons input inputs ih =>
    obtain ⟨hinput, hrest⟩ := List.forall_mem_cons.mp hinputs
    obtain ⟨hafter, htranscript⟩ := ih (hstep s input hs hinput) hrest
    exact ⟨hafter, List.forall_mem_cons.mpr ⟨hexchange s input hs hinput, htranscript⟩⟩

/-! ## Idle exchanges -/

/-- A command that only asks, or that fails, leaves the session as it is. -/
theorem Step.eq_of_idle {s s' : Session} {command : Command} {reply : Reply}
    (h : s.Step command reply s') (hidle : (command.isQuery || reply.isError) = true) :
    s' = s := by
  cases h with
  | stay => rfl
  | useSimplyTyped => cases hidle
  | useSystemF => cases hidle
  | bind => cases hidle

theorem eval_eq_of_isIdle {s : Session} {input : Text} (h : (s.exchange input).isIdle = true) :
    (s.eval input).2 = s := (s.step_eval input).eq_of_idle h

/-- **Idle exchanges can be deleted.**  From any session, let any of the inputs of a run be
deleted that failed or that ordered no change.  Then the inputs that are left lead to the
same session, and each of them is answered as it was, with the same log. -/
theorem idle_exchanges_deletable {s : Session} {inputs : List Text} {kept : List Exchange}
    (h : Exchange.Thinning (s.transcript inputs) kept) :
    s.after (kept.map (·.input)) = s.after inputs ∧ s.transcript (kept.map (·.input)) = kept := by
  induction inputs generalizing s kept with
  | nil =>
    cases h
    exact ⟨rfl, rfl⟩
  | cons input inputs ih =>
    cases h with
    | keep h =>
      obtain ⟨hafter, htranscript⟩ := ih h
      exact ⟨hafter, congrArg (s.exchange input :: ·) htranscript⟩
    | delete hidle h =>
      -- the rest of the run started from `s` already
      have hs := eval_eq_of_isIdle hidle
      rw [hs] at h
      obtain ⟨hafter, htranscript⟩ := ih h
      refine ⟨?_, htranscript⟩
      rw [hafter, after, after, List.foldl_cons, hs]

/-- A term, a binding that fails and an unknown command are deleted. -/
theorem idle_exchanges_deletable_failed_binding :
    (start .systemF).after [":let x = 1", ":stlc", "x"] =
      (start .systemF).after [":let x = 1", "x", ":let y = z", ":stlc", ":undo", "x"] ∧
    ((start .systemF).transcript [":let x = 1", ":stlc", "x"]).map (·.reply) =
      [.result "x : Int", .result "now checking the simply-typed lambda calculus",
        .result "Int"] := by
  have h : Exchange.Thinning
      ((start .systemF).transcript [":let x = 1", "x", ":let y = z", ":stlc", ":undo", "x"])
      ((start .systemF).transcript [":let x = 1", ":stlc", "x"]) :=
    .keep (.delete rfl (.delete rfl (.keep (.delete rfl (.keep .nil)))))
  exact ⟨(idle_exchanges_deletable h).1, rfl⟩

end Session
end PolyLambda
