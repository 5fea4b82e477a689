import PolyLambda.CommandLine.Outcome
import PolyLambda.Proofs.Check
import PolyLambda.Proofs.Reformatting
import PolyLambda.Proofs.Text.Trim
import PolyLambda.Proofs.Ty.Scopes

/-!
# What a replacement on the command line replaces

The first argument of a replacement has to *read* as a type variable, and then its text,
without the white space around it, is the name that is replaced.  White space is passed over
in reading (`readType_trim`), so a variable that is written plainly is the one that is
replaced.  But other texts read as variables too: `(X)`, or `X` before a comment, read as `X`.
Such a text is the name of no variable.  It occurs in no type that was read
(`Ty.isTypeVariable_of_occurs`), so nothing is replaced, and there is nothing to warn of.

What is printed reads as the type after the replacement, and the replaced variable occurs in
it only where the replacement brings it along (`Ty.occurs_substitute_self`).
-/

namespace PolyLambda

/-! ## White space around a source -/

theorem Text.layout_chars {t : Text} (h : t.isBlank = true) : Layout t.chars := by
  induction t with
  | nil => exact .nil
  | cons g t ih =>
    obtain ⟨hg, ht⟩ := Bool.and_eq_true_iff.mp h
    exact .space hg (ih ht)

theorem alike_blank_append {left : Text} (hleft : left.isBlank = true) (t : Text) :
    Alike (scan t.chars).tokens (scan (left ++ t).chars).tokens := by
  rw [Text.chars_append, scan, scan, (Text.layout_chars hleft).scanAfter_append]
  exact alike_scanAfter _ _ _ _

theorem alike_append_blank {right : Text} (hright : right.isBlank = true) (t : Text) :
    Alike (scan t.chars).tokens (scan (t ++ right).chars).tokens := by
  rw [Text.chars_append]
  apply alike_append (Text.layout_chars hright)
  intro u _ hlexeme
  cases right with
  | nil => exact hlexeme
  | cons g right => exact hlexeme.of_space (Bool.and_eq_true_iff.mp hright).1 _

/-- **White space around a source is passed over.** -/
theorem readType_blank {left right : Text} (hleft : left.isBlank = true)
    (hright : right.isBlank = true) {c : Calculus} {t : Text} {a : Ty} :
    readType c (left ++ (t ++ right)) = .ok a ↔ readType c t = .ok a := by
  have halike := (alike_append_blank hright t).trans (alike_blank_append hleft (t ++ right))
  have hfinish : (scan t.chars).finish.sense =
      (scan (left ++ (t ++ right)).chars).finish.sense := by
    rw [scan, scan, finish_scanAfter, finish_scanAfter]
    rfl
  rcases Tokens.type?_agree halike hfinish c with ⟨b, hb, hb'⟩ | ⟨e, e', he, he', -⟩
  · rw [readType, readType, hb, hb']
  · rw [readType, readType, he, he']
    simp only [reduceCtorEq]

theorem readType_trim {c : Calculus} {t : Text} {a : Ty} :
    readType c t.trim = .ok a ↔ readType c t = .ok a := by
  obtain ⟨left, right, hleft, hright, ht⟩ := t.exists_trim
  have hblank := readType_blank hleft hright (c := c) (t := t.trim) (a := a)
  rw [← ht] at hblank
  exact hblank.symm

/-! ## Names in types that were read -/

/-- A type variable reads as itself. -/
theorem readType_of_isTypeVariable {x : Text} (hx : x.isTypeVariable = true) :
    readType .systemF x = .ok (.var x) :=
  readType_render (a := .var x) hx nofun

namespace Ty

variable {t s : Ty} {x : Text}

theorem isTypeVariable_of_occurs (ht : t.isPrintable = true) (h : t.occurs x = true) :
    x.isTypeVariable = true := by
  induction t with
  | int | gap => cases h
  | var y =>
    obtain rfl : y = x := of_decide_eq_true h
    exact ht
  | arrow p r ihp ihr =>
    obtain ⟨hp, hr⟩ := Bool.and_eq_true_iff.mp ht
    rcases Bool.or_eq_true_iff.mp h with h | h
    · exact ihp hp h
    · exact ihr hr h
  | all y k b ih => exact ih (Bool.and_eq_true_iff.mp ht).2 h

/-- **The replaced variable stays only where the replacement brings it along.** -/
theorem occurs_substitute_self (t s : Ty) (x : Text) :
    (t.substitute x s).occurs x = (t.occurs x && s.occurs x) := by
  induction t with
  | int | gap => rfl
  | var y =>
    by_cases hyx : y = x
    · simp [substitute, occurs, hyx]
    · simp [substitute, occurs, hyx]
  | arrow p r ihp ihr => rw [substitute, occurs, ihp, ihr, occurs, Bool.and_or_distrib_right]
  | all y k b ih => rw [substitute, occurs, ih, occurs]

end Ty

namespace CommandLine

/-! ## Arguments -/

theorem typeArgument_eq_ok {role : String} {source : Text} {a : Ty} :
    typeArgument role source = .ok a ↔ readType .systemF source = .ok a := by
  unfold typeArgument
  split
  · next b hb => rw [hb, Except.ok.injEq, Except.ok.injEq]
  · next e he => simp only [he, reduceCtorEq]

/-- **When the arguments are accepted**, and as what. -/
theorem Replacement.ofArguments_eq_ok {x t s : Text} {r : Replacement} :
    ofArguments x t s = .ok r ↔ r.name = x.trim ∧ (∃ v, readType .systemF x = .ok (.var v)) ∧
      readType .systemF t = .ok r.target ∧ readType .systemF s = .ok r.replacement := by
  rw [ofArguments, bind_eq_ok]
  constructor
  · rintro ⟨b, hb, hrest⟩
    rw [typeArgument_eq_ok, readType_trim] at hb
    split at hrest
    · next v =>
      simp only [bind_eq_ok, pure_eq_ok, typeArgument_eq_ok] at hrest
      obtain ⟨a, ha, b, hs, rfl⟩ := hrest
      exact ⟨rfl, ⟨v, hb⟩, ha, hs⟩
    · cases hrest
  · rintro ⟨hname, ⟨v, hv⟩, ht, hs⟩
    refine ⟨.var v, typeArgument_eq_ok.mpr (readType_trim.mpr hv), ?_⟩
    simp only [bind_eq_ok, pure_eq_ok, typeArgument_eq_ok]
    exact ⟨r.target, ht, r.replacement, hs, by rw [← hname]⟩

namespace Replacement

variable {r : Replacement}

/-- Where the name occurs nowhere, nothing is replaced. -/
theorem result_of_not_occurs (h : r.target.occurs r.name = false) : r.result = r.target :=
  Ty.substitute_of_not_occurs h

theorem warnings_of_not_occurs (h : r.target.occurs r.name = false) : r.warnings = [] := by
  have hcaptures : r.target.captures r.name r.replacement = [] := by
    apply Ty.captures_eq_nil_iff.mpr
    intro y hy
    rw [Ty.occurs_of_mem_bindersOver hy] at h
    cases h
  have hshadows : r.target.shadows r.name = false := by
    rw [Bool.eq_false_iff]
    intro hshadows
    rw [Ty.occurs_iff.mpr (.inr hshadows)] at h
    cases h
  rw [warnings, hcaptures, hshadows]
  rfl

end Replacement

/-! ## What is printed -/

section Printed

variable {x t s : Text} {v : Text} {a b : Ty}

theorem replaceVariable_of_reads (hx : readType .systemF x = .ok (.var v))
    (ht : readType .systemF t = .ok a) (hs : readType .systemF s = .ok b) :
    replaceVariable x t s = .success
      ⟨(Replacement.result ⟨x.trim, a, b⟩).render ++ "\n", Replacement.warnings ⟨x.trim, a, b⟩⟩ := by
  have harguments : Replacement.ofArguments x t s = .ok ⟨x.trim, a, b⟩ :=
    Replacement.ofArguments_eq_ok.mpr ⟨rfl, ⟨v, hx⟩, ht, hs⟩
  rw [replaceVariable, harguments]

theorem error?_replaceVariable : (replaceVariable x t s).error? = none ↔
    ∃ v a b, readType .systemF x = .ok (.var v) ∧ readType .systemF t = .ok a ∧
      readType .systemF s = .ok b := by
  constructor
  · intro h
    rw [replaceVariable] at h
    split at h
    · cases h
    · next r hr =>
      obtain ⟨-, ⟨v, hx⟩, ht, hs⟩ := Replacement.ofArguments_eq_ok.mp hr
      exact ⟨v, _, _, hx, ht, hs⟩
  · rintro ⟨v, a, b, hx, ht, hs⟩
    rw [replaceVariable_of_reads hx ht hs]
    rfl

/-- A text that reads as another variable than itself occurs in no type that was read. -/
theorem not_occurs_of_trim_ne (hx : readType .systemF x = .ok (.var v)) (hne : x.trim ≠ v)
    (ht : readType .systemF t = .ok a) : a.occurs x.trim = false := by
  rw [Bool.eq_false_iff]
  intro hocc
  have hvariable := Ty.isTypeVariable_of_occurs (isPrintable_of_readType ht) hocc
  have hself := readType_trim.mp (readType_of_isTypeVariable hvariable)
  exact hne (Ty.var.inj (Except.ok.inj (hself.symm.trans hx)))

/-- The line that is printed reads as the type. -/
theorem readType_printed (ht : readType .systemF t = .ok a) (hs : readType .systemF s = .ok b)
    (x : Text) : readType .systemF ((a.substitute x b).render ++ "\n") = .ok (a.substitute x b) := by
  have hprintable : (a.substitute x b).isPrintable = true :=
    Ty.isPrintable_substitute (isPrintable_of_readType ht) (isPrintable_of_readType hs)
  have hnothing : Text.isBlank [] = true := rfl
  have hnewline : Text.isBlank "\n" = true := rfl
  exact (readType_blank hnothing hnewline).mpr (readType_render hprintable nofun)

end Printed

/-- **A variable is replaced if it is written plainly.**  A replacement is accepted just when
its arguments read as a variable `v` and two types `a` and `b`.  If the first argument is `v`
itself, with or without white space around it, then the type after replacing `v` is printed,
with the warnings of this replacement; the line reads as that type, and `v` occurs in it only
if it occurs in `b`.  If the first argument reads as `v` but is written otherwise, such as in
parentheses, then `a` is printed as it is, without a warning. -/
theorem replaces_variable_written_plainly (x t s : Text) :
    ((replaceVariable x t s).error? = none ↔
      ∃ v a b, readType .systemF x = .ok (.var v) ∧ readType .systemF t = .ok a ∧
        readType .systemF s = .ok b) ∧
    ∀ v a b, readType .systemF x = .ok (.var v) → readType .systemF t = .ok a →
      readType .systemF s = .ok b →
      (x.trim = v →
        replaceVariable x t s = .success ⟨(a.substitute v b).render ++ "\n",
          (a.captures v b).flatMap captureWarning ++
            if a.shadows v then shadowWarning v else []⟩ ∧
        readType .systemF (replaceVariable x t s).printed.out = .ok (a.substitute v b) ∧
        ((a.substitute v b).occurs v = true → b.occurs v = true)) ∧
      (x.trim ≠ v → replaceVariable x t s = .success ⟨a.render ++ "\n", []⟩) := by
  refine ⟨error?_replaceVariable, fun v a b hx ht hs => ?_⟩
  have hprinted := replaceVariable_of_reads hx ht hs
  constructor
  · rintro rfl
    refine ⟨hprinted, ?_, ?_⟩
    · rw [hprinted]
      exact readType_printed ht hs x.trim
    · rw [Ty.occurs_substitute_self, Bool.and_eq_true]
      exact And.right
  · intro hne
    have hocc := not_occurs_of_trim_ne hx hne ht
    rw [hprinted, Replacement.result_of_not_occurs hocc, Replacement.warnings_of_not_occurs hocc]

/-- `X` between white space is replaced below a binder that captures the replacement. -/
theorem replaces_variable_captured :
    readType .systemF "\tX " = .ok (.var "X") ∧
      replaceVariable "\tX " "∀Y: *. X -> Y" "Y" =
        .success ⟨"∀Y: *. Y -> Y\n",
          "warning: free type variable Y of the replacement is captured\n"⟩ :=
  have hread : readType .systemF "\tX " = .ok (.var "X") := rfl
  ⟨hread, (((replaces_variable_written_plainly "\tX " "∀Y: *. X -> Y" "Y").2 "X"
    (.all "Y" .star (.arrow (.var "X") (.var "Y"))) (.var "Y") hread rfl rfl).1 rfl).1⟩

/-- **An accepted variable may not be replaced.**  `(X)` reads as the variable `X`, but
replacing it by `Int` in `X` prints `X`. -/
theorem parenthesized_variable_kept :
    ¬ ∀ (x t s v : Text) (a b : Ty), readType .systemF x = .ok (.var v) →
      readType .systemF t = .ok a → readType .systemF s = .ok b →
      (replaceVariable x t s).error? = none →
        (replaceVariable x t s).printed.out = (a.substitute v b).render ++ "\n" := by
  intro h
  have hprinted := h "(X)" "X" "Int" "X" (.var "X") .int rfl rfl rfl rfl
  cases hprinted

end CommandLine
end PolyLambda
