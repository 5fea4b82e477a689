import PolyLambda.Text.Space

/-!
# Trimming and cutting

A glyph that is no white space stands in the way of trimming: what is before it can lose
white space at its start only, and what is after it at its end only
(`Text.trim_append_cons`).  And what is trimmed off a text is blank (`Text.exists_trim`).
-/

namespace PolyLambda
namespace Text

variable {g : Glyph} {t u : Text}

theorem trimStart_append_cons (t u : Text) (hg : isSpace g.seen = false) :
    trimStart (t ++ g :: u) = trimStart t ++ g :: u := by
  have hstop : trimStart (g :: u) = g :: u := by
    rw [trimStart, List.dropWhile_cons_of_neg]
    exact Bool.eq_false_iff.mp hg
  rw [trimStart] at hstop ⊢
  rw [List.dropWhile_append]
  split
  · next hblank =>
    rw [hstop, trimStart, List.isEmpty_iff.mp hblank]
    rfl
  · rfl

theorem trimEnd_append_cons (t u : Text) (hg : isSpace g.seen = false) :
    trimEnd (t ++ g :: u) = t ++ g :: trimEnd u := by
  have hreverse : (t ++ g :: u).reverse = u.reverse ++ g :: t.reverse := by simp
  rw [trimEnd, hreverse, trimStart_append_cons _ _ hg]
  simp [trimEnd]

theorem trim_append_cons (t u : Text) (hg : isSpace g.seen = false) :
    trim (t ++ g :: u) = trimStart t ++ g :: trimEnd u := by
  rw [trim, trimStart_append_cons t u hg, trimEnd_append_cons _ u hg]

/-! ## What is trimmed off -/

theorem exists_trimStart (t : Text) : ∃ left, left.isBlank = true ∧ t = left ++ t.trimStart :=
  ⟨_, List.all_takeWhile, List.takeWhile_append_dropWhile.symm⟩

theorem exists_trimEnd (t : Text) : ∃ right, right.isBlank = true ∧ t = t.trimEnd ++ right := by
  obtain ⟨left, hleft, ht⟩ := exists_trimStart t.reverse
  refine ⟨left.reverse, by rwa [isBlank, List.all_reverse], ?_⟩
  rw [trimEnd, ← List.reverse_append, ← ht, List.reverse_reverse]

theorem exists_trim (t : Text) : ∃ left right, left.isBlank = true ∧ right.isBlank = true ∧
    t = left ++ (t.trim ++ right) := by
  obtain ⟨left, hleft, ht⟩ := exists_trimStart t
  obtain ⟨right, hright, hstart⟩ := exists_trimEnd t.trimStart
  exact ⟨left, right, hleft, hright, by rw [trim, ← hstart, ← ht]⟩

theorem not_isSpace_of_trimStart (h : t.trimStart = g :: u) : isSpace g.seen = false := by
  have hhead := List.head?_dropWhile_not (fun g : Glyph => isSpace g.seen) t
  rw [trimStart] at h
  rw [h] at hhead
  exact hhead

theorem not_isSpace_of_trim (h : t.trim = g :: u) : isSpace g.seen = false := by
  obtain ⟨right, -, hstart⟩ := exists_trimEnd t.trimStart
  have htrim : t.trimStart.trimEnd = g :: u := h
  rw [htrim] at hstart
  exact not_isSpace_of_trimStart hstart

/-- No white space stands before a start that is none. -/
theorem eq_nil_of_isBlank {left v : Text} (hleft : left.isBlank = true) (h : left ++ u = g :: v)
    (hg : isSpace g.seen = false) : left = [] := by
  cases left with
  | nil => rfl
  | cons d left =>
    obtain ⟨rfl, -⟩ := List.cons.inj h
    rw [isBlank, List.all_cons, hg] at hleft
    cases hleft

theorem trimStart_of_isBlank (h : t.isBlank = true) : t.trimStart = [] := by
  induction t with
  | nil => rfl
  | cons g t ih =>
    rw [isBlank, List.all_cons, Bool.and_eq_true_iff] at h
    rw [trimStart, List.dropWhile_cons, if_pos h.1]
    exact ih h.2

/-- A text that is not blank has a first glyph that is no white space. -/
theorem exists_of_not_isBlank (h : t.isBlank = false) : ∃ (left : Text) (g : Glyph) (right : Text),
    left.isBlank = true ∧ isSpace g.seen = false ∧ t = left ++ g :: right := by
  obtain ⟨left, hleft, ht⟩ := exists_trimStart t
  cases hstart : t.trimStart with
  | nil =>
    rw [hstart, List.append_nil] at ht
    rw [ht, hleft] at h
    cases h
  | cons g right => exact ⟨left, g, right, hleft, not_isSpace_of_trimStart hstart, hstart ▸ ht⟩

/-- Trimming brings that glyph to the front. -/
theorem head?_trim {left : Text} (hleft : left.isBlank = true) (hg : isSpace g.seen = false)
    (right : Text) : (trim (left ++ g :: right)).head? = some g := by
  rw [trim_append_cons left right hg, trimStart_of_isBlank hleft]
  rfl

/-! ## Trimming twice -/

theorem trimStart_trimStart (t : Text) : t.trimStart.trimStart = t.trimStart := by
  cases h : t.trimStart with
  | nil => rfl
  | cons g u => exact trimStart_append_cons [] u (not_isSpace_of_trimStart h)

theorem trimEnd_trimEnd (t : Text) : t.trimEnd.trimEnd = t.trimEnd := by
  rw [trimEnd, trimEnd, List.reverse_reverse, trimStart_trimStart]

theorem trim_trimStart (t : Text) : t.trimStart.trim = t.trim := by
  rw [trim, trimStart_trimStart, trim]

theorem trim_trim (t : Text) : t.trim.trim = t.trim := by
  have hstart : t.trim.trimStart = t.trim := by
    cases h : t.trim with
    | nil => rfl
    | cons g u => exact trimStart_append_cons [] u (not_isSpace_of_trim h)
  rw [trim, hstart]
  exact trimEnd_trimEnd _

/-! ## Cutting -/

theorem cut_append {sep : Char} (h : .char sep ∉ t) :
    cut sep (t ++ .char sep :: u) = some (t, u) := by
  induction t with
  | nil => exact if_pos rfl
  | cons g t ih =>
    rw [List.mem_cons, not_or] at h
    rw [List.cons_append, cut, if_neg (Ne.symm h.1), ih h.2]
    rfl

end Text
end PolyLambda
