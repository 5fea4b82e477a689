import PolyLambda.Listener
import PolyLambda.Proofs.Check
import PolyLambda.Proofs.Grammar.Shortage
import PolyLambda.Proofs.Token.Continuation
import PolyLambda.Text.Utf8

/-!
# Every check has one outcome

A check ends on every source, whatever its characters are, with a checked term or with one
diagnostic.  Each stage could fail in a way that is no fault of the source, and none of them
does.

* The scanner counts the characters it has yet to take.  It never has to take one after the
  last (`scanAfter?_eq_some`), because a token or a comment is cut out of what is there.
* The readers count levels.  No reader is short of them: those that give up where a level is
  missing never do (`Reading.run_termWithin?`, `Reading.run_typeWithin?`), because each one takes
  a token before it goes a level down.
* Inference stops at a gap.  A term that was read has none, so with no gap in the context
  whatever is wrong with it is one of the faults of the rules (`fault_of_infer`).
-/

namespace PolyLambda

/-! ## Scanning -/

/-- Scanning as `scanAfter` does it, but failing where a character is to be taken after the
last one. -/
def scanAfter? : Nat → Place → List Char → Option Tokens
  | 0, p, [] => some ⟨[], .atEnd p⟩
  | _ + 1, _, [] => none
  | k + 1, p, c :: cs => scanAfter? k (p.next c) cs
  | 0, p, c :: cs =>
    if Text.isSpace c then scanAfter? 0 (p.next c) cs
    else if startsComment c cs then scanAfter? (lineLength cs) (p.next c) cs
    else
      let (kind, n) := lexeme c cs
      (scanAfter? n (p.next c) cs).map (.push ⟨kind, c :: cs.take n, p⟩)

/-- **Scanning stays in the source**, as long as what is to be taken first is there. -/
theorem scanAfter?_eq_some {k : Nat} {cs : List Char} (hk : k ≤ cs.length) (p : Place) :
    scanAfter? k p cs = some (scanAfter k p cs) := by
  fun_induction scanAfter k p cs with
  | case1 k p =>
    obtain rfl := Nat.le_zero.mp hk
    rfl
  | case2 k p c cs ih => exact ih (Nat.le_of_succ_le_succ hk)
  | case3 p c cs hspace ih =>
    rw [scanAfter?, if_pos hspace]
    exact ih (Nat.zero_le _)
  | case4 p c cs hspace hcomment ih =>
    rw [scanAfter?, if_neg hspace, if_pos hcomment]
    exact ih (lineLength_le cs)
  | case5 p c cs hspace hcomment kind n hlexeme ih =>
    rw [scanAfter?, if_neg hspace, if_neg hcomment, hlexeme]
    show (scanAfter? n (p.next c) cs).map _ = _
    rw [ih (le_of_lexeme hlexeme)]
    rfl

/-! ## Reading -/

namespace Reading

variable {r : Reading} {n : Nat} {ts : List Token}

theorem termWithin_eq (h : ts.length < n) : r.termWithin n ts = r.term ts :=
  (termSettled n).1 _ ts h (Nat.lt_succ_self _)

theorem typeWithin_eq (h : ts.length < n) : r.typeWithin n ts = r.type ts :=
  typeWithin_congr h (Nat.lt_succ_self _)

theorem run_termWithin? (h : ts.length < n) : (r.termWithin? n ts).run = some (r.term ts) := by
  rw [← termWithin_eq h]
  exact (neverShort n).1 ts h

theorem run_typeWithin? (h : ts.length < n) : (r.typeWithin? n ts).run = some (r.type ts) := by
  rw [← typeWithin_eq h]
  exact settles_typeWithin? h

end Reading

theorem isComplete_of_readTerm {c : Calculus} {source : Text} {t : Term}
    (h : readTerm c source = .ok t) : t.isComplete = true :=
  Term.isComplete_of_isPrintable (isPrintable_of_readTerm h)

/-! ## Outcomes -/

/-- A term that was read either has a type or is refused for one fault. -/
theorem check_of_readTerm_ok {Γ : Context} {c : Calculus} {source : Text} {t : Term}
    (hΓ : Γ.isComplete = true) (h : readTerm c source = .ok t) :
    (∃ a, infer Γ t = .ok a ∧ check Γ c source = .ok ⟨t, a⟩) ∨
      ∃ d, check Γ c source = .error (.diagnostic d) ∧ (d.code = 2 ∨ d.code = 3 ∨ d.code = 4) := by
  cases hinfer : infer Γ t with
  | ok a =>
    left
    exact ⟨a, rfl, check_eq_ok.mpr ⟨h, hinfer⟩⟩
  | error e =>
    right
    have hfault := fault_of_infer hΓ (isComplete_of_readTerm h) hinfer
    obtain ⟨d, hd, hcode⟩ := hfault.exists_diagnostic
    have hfailure := TypeError.failure_of_diagnostic? hd
    exact ⟨d, check_eq_error.mpr (.inr ⟨t, e, h, hinfer, hfailure⟩), hcode⟩

/-- **Every check has one outcome.**  In a context without gaps a source is accepted as the
term it spells, with the type of that term; or it is no term, and the one error that was heard
is reported as a syntax error; or it is a term, and one type error is reported.  On the way
nothing is taken after the end of the source.  No reader gives up for want of levels, and more
levels change nothing. -/
theorem check_one_outcome {Γ : Context} (hΓ : Γ.isComplete = true) (c : Calculus)
    (source : Text) :
    ((∃ t a, readTerm c source = .ok t ∧ infer Γ t = .ok a ∧ check Γ c source = .ok ⟨t, a⟩) ∨
      (∃ e, readTerm c source = .error e ∧
        Listener.attend [.recorder] (readTerm c source) = .rejected e [[e]] ∧
        check Γ c source = .error (.diagnostic e.diagnostic) ∧ e.diagnostic.code = 1) ∨
      (∃ t d, readTerm c source = .ok t ∧ check Γ c source = .error (.diagnostic d) ∧
        (d.code = 2 ∨ d.code = 3 ∨ d.code = 4))) ∧
    scanAfter? 0 .start source.chars = some (scan source.chars) ∧
    ∀ (n : Nat) (ts : List Token), ts.length < n →
      (((scan source.chars).reading c).termWithin? n ts).run =
        some (((scan source.chars).reading c).term ts) ∧
      (((scan source.chars).reading c).typeWithin? n ts).run =
        some (((scan source.chars).reading c).type ts) ∧
      ((scan source.chars).reading c).termWithin n ts =
        ((scan source.chars).reading c).term ts ∧
      ((scan source.chars).reading c).typeWithin n ts =
        ((scan source.chars).reading c).type ts := by
  refine ⟨?_, scanAfter?_eq_some (Nat.zero_le _) _, fun n ts h => ?_⟩
  · cases hread : readTerm c source with
    | error e =>
      right; left
      exact ⟨e, rfl, rfl, check_eq_error.mpr (.inl ⟨e, hread, rfl⟩), rfl⟩
    | ok t =>
      rcases check_of_readTerm_ok hΓ hread with ⟨a, hinfer, hcheck⟩ | ⟨d, hcheck, hcode⟩
      · left
        exact ⟨t, a, rfl, hinfer, hcheck⟩
      · right; right
        exact ⟨t, d, rfl, hcheck, hcode⟩
  · exact ⟨Reading.run_termWithin? h, Reading.run_typeWithin? h, Reading.termWithin_eq h,
      Reading.typeWithin_eq h⟩

/-- With `f: ∀X: *. X -> X`, the source `f [Int]` is accepted; the bytes of an `f` and a byte that
starts no character end in the one error at that byte; and `f [Int] 1` is read, and refused for
the one type error that an abstraction is needed. -/
theorem check_one_outcome_stray_byte :
    let Γ : Context := [("f", .all "X" .star (.arrow (.var "X") (.var "X")))]
    Γ.isComplete = true ∧
      (∃ t, readTerm .systemF "f [Int]" = .ok t ∧ infer Γ t = .ok (.arrow .int .int) ∧
        check Γ .systemF "f [Int]" = .ok ⟨t, .arrow .int .int⟩) ∧
      (∃ e, readTerm .systemF (.decode [0x66, 0xFF]) = .error e ∧
        Listener.attend [.recorder] (readTerm .systemF (.decode [0x66, 0xFF])) =
          .rejected e [[e]] ∧
        check Γ .systemF (.decode [0x66, 0xFF]) = .error (.diagnostic e.diagnostic) ∧
        e.diagnostic.code = 1) ∧
      ∃ t d, readTerm .systemF "f [Int] 1" = .ok t ∧
        check Γ .systemF "f [Int] 1" = .error (.diagnostic d) ∧ d.code = 4 := by
  intro Γ
  have hΓ : Γ.isComplete = true := rfl
  refine ⟨hΓ, ?_, ?_, ?_⟩
  · have hcheck : check Γ .systemF "f [Int]" =
        .ok ⟨.tapp ⟨1, 8⟩ (.var ⟨1, 2⟩ "f") .int, .arrow .int .int⟩ := rfl
    rcases (check_one_outcome hΓ .systemF "f [Int]").1 with h | h | h
    · obtain ⟨t, a, ht, ha, hok⟩ := h
      obtain ⟨rfl, rfl⟩ := Checked.mk.inj (Except.ok.inj (hcheck.symm.trans hok))
      exact ⟨_, ht, ha, hok⟩
    · obtain ⟨e, -, -, he, -⟩ := h
      rw [hcheck] at he
      cases he
    · obtain ⟨t, d, -, hd, -⟩ := h
      rw [hcheck] at hd
      cases hd
  · have hread : readTerm .systemF (.decode [0x66, 0xFF]) =
        .error (.unexpected (.expected .finish) ⟨.illegal, ['�'], ⟨1, 1, 2⟩⟩) := rfl
    rcases (check_one_outcome hΓ .systemF (.decode [0x66, 0xFF])).1 with h | h | h
    · obtain ⟨t, _, ht, -⟩ := h
      rw [hread] at ht
      cases ht
    · exact h
    · obtain ⟨t, _, ht, -⟩ := h
      rw [hread] at ht
      cases ht
  · have hcheck : check Γ .systemF "f [Int] 1" = .error (.diagnostic (.unexpected "abstraction"
        (.tapp ⟨1, 8⟩ (.var ⟨1, 2⟩ "f") .int))) := rfl
    rcases (check_one_outcome hΓ .systemF "f [Int] 1").1 with h | h | h
    · obtain ⟨t, a, -, -, ha⟩ := h
      rw [hcheck] at ha
      cases ha
    · obtain ⟨e, -, -, he, -⟩ := h
      rw [hcheck] at he
      cases he
    · obtain ⟨t, _, ht, -⟩ := h
      exact ⟨t, _, ht, hcheck, rfl⟩

end PolyLambda
