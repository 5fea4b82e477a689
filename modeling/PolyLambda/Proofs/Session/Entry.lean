import PolyLambda.Proofs.Incomplete
import PolyLambda.Proofs.Text.Trim
import PolyLambda.Session.Entry

/-!
# An entry ends with the first line that makes it a term

A term may be broken across lines anywhere.  Reading an entry neither stops inside a term nor
takes a line after it: of the lines ahead it takes the fewest that are a term when put together
(`Entry.read_fewest_lines`).

The loop keeps two facts about the lines it has taken.  They are no command and not blank,
because the first line decides that (`Entry.isTerm_join`).  And they are no term yet; but as the
lines ahead do make one of them, they are incomplete, and incompleteness is exact
(`isIncomplete_iff_exists`).  So the loop goes on (`Entry.not_isComplete_before`).
-/

namespace PolyLambda

@[simp]
theorem Text.join_singleton (sep t : Text) : join sep [t] = t := List.intercalate_singleton

theorem Text.join_append {sep : Text} {ts us : List Text} (hts : ts ≠ []) (hus : us ≠ []) :
    join sep (ts ++ us) = join sep ts ++ sep ++ join sep us := by
  have hcons : ∀ t u more, join sep (t :: u :: more) = t ++ sep ++ join sep (u :: more) :=
    fun t u more => List.intercalate_cons_cons
  obtain ⟨u, us, rfl⟩ := List.exists_cons_of_ne_nil hus
  induction ts with
  | nil => exact absurd rfl hts
  | cons t ts ih =>
    cases ts with
    | nil =>
      rw [join_singleton]
      exact hcons t u us
    | cons t' ts =>
      rw [List.cons_append, List.cons_append, hcons, hcons, ← List.cons_append,
        ih (List.cons_ne_nil _ _)]
      simp only [List.append_assoc]

namespace Entry

/-- A text that System F reads as a term. -/
def SpellsTerm (t : Text) : Prop := ∃ term, readTerm .systemF t = .ok term

/-! ## Complete entries -/

theorem isComplete_of_spellsTerm {entry : Text} (h : SpellsTerm entry) :
    isComplete entry = true := by
  obtain ⟨term, hread⟩ := h
  simp [isComplete, hread]

/-- What some text on a new line makes a term is not complete before that. -/
theorem not_isComplete {entry more : Text} (hterm : isTerm entry = true)
    (hentry : ¬ SpellsTerm entry) (hmore : SpellsTerm (entry ++ "\n" ++ more)) :
    isComplete entry = false := by
  cases hread : readTerm .systemF entry with
  | ok term => exact absurd ⟨term, hread⟩ hentry
  | error e =>
    have hincomplete := (isIncomplete_iff_exists hread).mpr ⟨more, hmore⟩
    simp [isComplete, hterm, hread, hincomplete]

/-- How a text starts decides whether it is to be read as a term. -/
theorem isTerm_append {t : Text} (h : isTerm t = true) (u : Text) : isTerm (t ++ u) = true := by
  simp only [isTerm, isCommand, Bool.and_eq_true, Bool.not_eq_true'] at h ⊢
  obtain ⟨hblank, hcolon⟩ := h
  obtain ⟨left, g, right, hleft, hg, rfl⟩ := Text.exists_of_not_isBlank hblank
  rw [Text.head?_trim hleft hg] at hcolon
  rw [List.append_assoc, List.cons_append, Text.head?_trim hleft hg]
  exact ⟨by simp [Text.isBlank, hg], hcolon⟩

theorem isTerm_join {first : Text} (h : isTerm first = true) (lines : List Text) :
    isTerm (Text.join "\n" (first :: lines)) = true := by
  by_cases hlines : lines = []
  · rw [hlines, Text.join_singleton]
    exact h
  · rw [← List.singleton_append, Text.join_append (List.cons_ne_nil _ _) hlines,
      Text.join_singleton, List.append_assoc]
    exact isTerm_append h _

/-! ## Reading line by line -/

/-- What has been read of an entry after some lines. -/
def soFar : List Text → Option Text
  | [] => none
  | line :: lines => some (Text.join "\n" (line :: lines))

theorem extend_soFar (before : List Text) (line : Text) :
    extend (soFar before) line = Text.join "\n" (before ++ [line]) := by
  cases before with
  | nil => exact (Text.join_singleton _ line).symm
  | cons first before =>
    rw [Text.join_append (List.cons_ne_nil _ _) (List.cons_ne_nil _ _), Text.join_singleton]
    rfl

/-- One turn of the loop: a line is taken, and more of them if that makes no complete entry. -/
theorem readFrom_soFar (before : List Text) (line : Text) (lines : List Text) :
    readFrom (soFar before) (line :: lines) =
      if isComplete (Text.join "\n" (before ++ [line])) then
        some (Text.join "\n" (before ++ [line]), lines)
      else readFrom (soFar (before ++ [line])) lines := by
  have hnext : soFar (before ++ [line]) = some (Text.join "\n" (before ++ [line])) := by
    cases before with
    | nil => rfl
    | cons first before => rfl
  rw [hnext, ← extend_soFar]
  rfl

/-- Lines that are no term before more lines make one of them are not complete. -/
theorem not_isComplete_before {before more : List Text} {line : Text}
    (hterm : isTerm (Text.join "\n" (before ++ [line])) = true)
    (hline : ¬ SpellsTerm (Text.join "\n" (before ++ [line]))) (hmore : more ≠ [])
    (h : SpellsTerm (Text.join "\n" (before ++ [line] ++ more))) :
    isComplete (Text.join "\n" (before ++ [line])) = false := by
  rw [Text.join_append (by simp) hmore] at h
  exact not_isComplete hterm hline h

/-- After some lines, the fewest of those ahead are taken that make a term of the entry. -/
theorem readFrom_fewest {before lines : List Text}
    (hterm : ∀ n, 0 < n → isTerm (Text.join "\n" (before ++ lines.take n)) = true)
    (h : ∃ n, 0 < n ∧ n ≤ lines.length ∧ SpellsTerm (Text.join "\n" (before ++ lines.take n))) :
    ∃ n, 0 < n ∧ n ≤ lines.length ∧ SpellsTerm (Text.join "\n" (before ++ lines.take n)) ∧
      (∀ m, 0 < m → SpellsTerm (Text.join "\n" (before ++ lines.take m)) → n ≤ m) ∧
      readFrom (soFar before) lines =
        some (Text.join "\n" (before ++ lines.take n), lines.drop n) := by
  induction lines generalizing before with
  | nil =>
    obtain ⟨n, hpos, hle, -⟩ := h
    rw [List.length_nil] at hle
    omega
  | cons line lines ih =>
    rw [readFrom_soFar]
    by_cases hline : SpellsTerm (Text.join "\n" (before ++ [line]))
    · rw [if_pos (isComplete_of_spellsTerm hline)]
      exact ⟨1, Nat.one_pos, by simp, hline, fun m hm _ => hm, rfl⟩
    · have happend : ∀ k, before ++ (line :: lines).take (k + 1) =
          before ++ [line] ++ lines.take k := by simp
      -- with this line it is no term, so a number of lines that makes one goes beyond it
      have hbeyond : ∀ m, 0 < m → SpellsTerm (Text.join "\n" (before ++ (line :: lines).take m)) →
          ∃ k, 0 < k ∧ m = k + 1 := by
        intro m hm hspells
        obtain ⟨k, rfl⟩ : ∃ k, m = k + 1 := ⟨m - 1, by omega⟩
        refine ⟨k, Nat.pos_of_ne_zero ?_, rfl⟩
        rintro rfl
        exact hline hspells
      obtain ⟨n, hn, hle, hspells⟩ := h
      obtain ⟨k, hk, rfl⟩ := hbeyond n hn hspells
      rw [happend] at hspells
      rw [List.length_cons] at hle
      have hmore : lines.take k ≠ [] := by
        rw [Ne, List.take_eq_nil_iff]
        rintro (rfl | rfl)
        · exact Nat.lt_irrefl 0 hk
        · rw [List.length_nil] at hle
          omega
      rw [not_isComplete_before (hterm 1 Nat.one_pos) hline hmore hspells]
      have hterm' : ∀ j, 0 < j →
          isTerm (Text.join "\n" (before ++ [line] ++ lines.take j)) = true :=
        fun j _ => happend j ▸ hterm (j + 1) (Nat.succ_pos j)
      obtain ⟨k, hk, hle, hspells, hleast, hread⟩ :=
        ih hterm' ⟨k, hk, Nat.le_of_succ_le_succ hle, hspells⟩
      refine ⟨k + 1, Nat.succ_pos k, Nat.succ_le_succ hle, happend k ▸ hspells, ?_, ?_⟩
      · intro m hm hspells'
        obtain ⟨j, hj, rfl⟩ := hbeyond m hm hspells'
        exact Nat.succ_le_succ (hleast j hj (happend j ▸ hspells'))
      · rw [happend]
        exact hread

/-- **An entry ends with the first line that makes it a term.**  If the first line is not blank
and does not start with a colon, and some of the lines ahead, from the first one on, are a term
when put together, then the fewest such lines are taken, and the lines after them are left. -/
theorem read_fewest_lines (first : Text) (lines : List Text) (hblank : first.isBlank = false)
    (hcommand : isCommand first = false)
    (h : ∃ n, 0 < n ∧ n ≤ (first :: lines).length ∧
      SpellsTerm (Text.join "\n" ((first :: lines).take n))) :
    ∃ n, 0 < n ∧ n ≤ (first :: lines).length ∧
      SpellsTerm (Text.join "\n" ((first :: lines).take n)) ∧
      (∀ m, 0 < m → SpellsTerm (Text.join "\n" ((first :: lines).take m)) → n ≤ m) ∧
      read (first :: lines) =
        some (Text.join "\n" ((first :: lines).take n), (first :: lines).drop n) := by
  have hfirst : isTerm first = true := by simp [isTerm, hblank, hcommand]
  have hterm : ∀ n, 0 < n → isTerm (Text.join "\n" ([] ++ (first :: lines).take n)) = true := by
    intro n hn
    obtain ⟨k, rfl⟩ : ∃ k, n = k + 1 := ⟨n - 1, by omega⟩
    exact isTerm_join hfirst (lines.take k)
  exact readFrom_fewest hterm h

/-- A line that ends in a comment and one that ends before a parenthesis is closed are gone
beyond; the third line makes a term of them, which ends there although `f` could be one more
argument. -/
theorem read_fewest_lines_parenthesis :
    isTerm "(λx: Int. -- (" = true ∧
      read ["(λx: Int. -- (", "x", ") 1", "f"] =
        some (Text.ofString "(λx: Int. -- (\nx\n) 1", [Text.ofString "f"]) := by
  have hfirst : ¬ SpellsTerm "(λx: Int. -- (" := by
    rintro ⟨t, h⟩
    cases h
  have hsecond : ¬ SpellsTerm "(λx: Int. -- (\nx" := by
    rintro ⟨t, h⟩
    cases h
  have hthird : SpellsTerm "(λx: Int. -- (\nx\n) 1" := ⟨_, rfl⟩
  obtain ⟨n, hpos, -, hspells, hleast, hread⟩ := read_fewest_lines "(λx: Int. -- ("
    ["x", ") 1", "f"] rfl rfl ⟨3, by decide, by decide, hthird⟩
  have hle := hleast 3 (by decide) hthird
  obtain rfl | rfl | rfl : n = 1 ∨ n = 2 ∨ n = 3 := by omega
  · exact absurd hspells hfirst
  · exact absurd hspells hsecond
  · exact ⟨rfl, hread⟩

end Entry
end PolyLambda
