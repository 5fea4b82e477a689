import PolyLambda.Proofs.Report

/-!
# Lines and columns

The line of a position is one above the number of newlines before it, and its column one above the
number of characters after the last of these (`Place.Counts`).  Every character walked over keeps
this so and moves the place on, to the next column or to the next line (`Place.lexLt_next`).  So
positions come in the order of their lines and columns.

`locate` counts in natural numbers.  `locate64` is the same search in 64-bit integers, in which
the number below the least one is the greatest one.  It walks along the characters until it meets
the one looked for (`walk64`), and past the last of them it compares with their number, which it
counts over again in the bytes.  As long as the position past the end of the source is itself a
64-bit integer the two searches agree (`locate64_holds`).
-/

namespace PolyLambda

/-- The number of characters after the last newline; without a newline, of all of them. -/
def charsSinceNewline (cs : List Char) : Nat := (cs.reverse.takeWhile (· ≠ '\n')).length

theorem charsSinceNewline_concat (cs : List Char) (c : Char) :
    charsSinceNewline (cs ++ [c]) = if c = '\n' then 0 else charsSinceNewline cs + 1 := by
  unfold charsSinceNewline
  rw [List.reverse_concat]
  by_cases hc : c = '\n'
  · rw [if_pos hc, List.takeWhile_cons_of_neg (by simp [hc])]
    rfl
  · rw [if_neg hc, List.takeWhile_cons_of_pos (by simp [hc])]
    rfl

theorem charsSinceNewline_le (cs : List Char) : charsSinceNewline cs ≤ cs.length := by
  rw [charsSinceNewline, ← cs.length_reverse]
  exact (List.takeWhile_sublist _).length_le

/-! ## Walking over characters -/

namespace Place

/-- The line of a place counts the newlines before it, and its column the characters after the
last of them. -/
structure Counts (p : Place) (before : List Char) : Prop where
  line : p.line = 1 + before.count '\n'
  column : p.column = 1 + charsSinceNewline before

namespace Counts

variable {p : Place} {before : List Char}

theorem start : Counts .start [] := ⟨rfl, rfl⟩

theorem next (h : p.Counts before) (c : Char) : (p.next c).Counts (before ++ [c]) := by
  obtain ⟨hline, hcolumn⟩ := h
  unfold Place.next
  by_cases hc : c = '\n'
  · subst hc
    constructor
    · show p.line + 1 = _
      rw [hline, List.count_append, List.count_singleton_self, Nat.add_assoc]
    · show 1 = _
      rw [charsSinceNewline_concat, if_pos rfl]
  · rw [if_neg hc]
    constructor
    · show p.line = _
      rw [hline, List.count_append, List.count_singleton, beq_false_of_ne hc]
      rfl
    · show p.column + 1 = _
      rw [hcolumn, charsSinceNewline_concat, if_neg hc, Nat.add_assoc]

theorem after (h : p.Counts before) (cs : List Char) : (p.after cs).Counts (before ++ cs) := by
  induction cs generalizing p before with
  | nil => exact (List.append_nil before).symm ▸ h
  | cons c cs ih =>
    have hrest := ih (h.next c)
    rwa [List.append_assoc] at hrest

/-- Neither coordinate is above the number of the position. -/
theorem le_length (h : p.Counts before) :
    p.line ≤ before.length + 1 ∧ p.column ≤ before.length + 1 := by
  obtain ⟨hline, hcolumn⟩ := h
  have hnewlines : before.count '\n' ≤ before.length := List.count_le_length
  have hchars := charsSinceNewline_le before
  omega

end Counts

theorem lexLt_next (p : Place) (c : Char) :
    Prod.lexLt (p.line, p.column) ((p.next c).line, (p.next c).column) := by
  unfold next
  split
  · exact .inl (Nat.lt_succ_self p.line)
  · exact .inr ⟨rfl, Nat.lt_succ_self p.column⟩

/-- Walking moves a place on, first by lines and then by columns. -/
theorem lexLt_after (p : Place) {cs : List Char} (h : cs ≠ []) :
    Prod.lexLt (p.line, p.column) ((p.after cs).line, (p.after cs).column) := by
  induction cs generalizing p with
  | nil => exact absurd rfl h
  | cons c cs ih =>
    have hnext := p.lexLt_next c
    by_cases hcs : cs = []
    · subst hcs
      exact hnext
    · have hrest := ih (p.next c) hcs
      rw [after_cons]
      simp only [Prod.lexLt_def] at hnext hrest ⊢
      omega

end Place

/-! ## Positions of a source -/

section Positions

variable {source : Text} {pos : Int}

theorem locate_inside_iff :
    (locate source pos).inside = true ↔ 1 ≤ pos ∧ pos ≤ source.length + 1 := by
  constructor
  · intro h
    obtain ⟨before, after, rfl, rfl⟩ := exists_before h
    rw [List.length_append]
    omega
  · rintro ⟨hstart, hstop⟩
    exact locate_inside hstart hstop

/-- A position inside a source is at the place after the characters before it. -/
theorem locate_of_inside (h : (locate source pos).inside = true) :
    locate source pos =
      ⟨(Place.start.after (source.chars.take (pos - 1).toNat)).line,
        (Place.start.after (source.chars.take (pos - 1).toNat)).column, true⟩ := by
  obtain ⟨hstart, hstop⟩ := locate_inside_iff.mp h
  have hlocate := locate_length (List.take_append_drop (pos - 1).toNat source.chars).symm
  have hpos : ((source.chars.take (pos - 1).toNat).length : Int) + 1 = pos := by
    rw [List.length_take, source.length_chars]
    omega
  rwa [hpos] at hlocate

/-- A position outside a source, other than zero, is located at the end. -/
theorem locate_of_outside (hpos : pos ≠ 0) (h : ¬ (1 ≤ pos ∧ pos ≤ source.length + 1)) :
    locate source pos =
      ⟨(Place.start.after source.chars).line, (Place.start.after source.chars).column, false⟩ := by
  rw [← source.length_chars] at h
  simp only [locate, if_neg hpos, if_neg h]

theorem locate_counts (h : (locate source pos).inside = true) :
    (locate source pos).line = 1 + (source.chars.take (pos - 1).toNat).count '\n' ∧
      (locate source pos).column = 1 + charsSinceNewline (source.chars.take (pos - 1).toNat) := by
  have hcounts := Place.Counts.start.after (source.chars.take (pos - 1).toNat)
  rw [locate_of_inside h]
  exact ⟨hcounts.line, hcounts.column⟩

theorem locate_le (source : Text) (pos : Int) :
    (locate source pos).line ≤ source.length + 1 ∧
      (locate source pos).column ≤ source.length + 1 := by
  by_cases hzero : pos = 0
  · subst hzero
    exact ⟨Nat.zero_le _, Nat.zero_le _⟩
  by_cases hinside : (locate source pos).inside = true
  · have hle := (Place.Counts.start.after (source.chars.take (pos - 1).toNat)).le_length
    have hlength : (source.chars.take (pos - 1).toNat).length ≤ source.length := by
      rw [List.length_take, source.length_chars]
      omega
    rw [List.nil_append] at hle
    rw [locate_of_inside hinside]
    dsimp only
    omega
  · have hle := (Place.Counts.start.after source.chars).le_length
    rw [List.nil_append, source.length_chars] at hle
    rw [locate_of_outside hzero (mt locate_inside_iff.mpr hinside)]
    exact hle

/-- Of two positions the later one is further on, by lines and then by columns. -/
theorem lexLt_of_lt {pos' : Int} (h : (locate source pos).inside = true)
    (h' : (locate source pos').inside = true) (hlt : pos < pos') :
    Prod.lexLt ((locate source pos).line, (locate source pos).column)
      ((locate source pos').line, (locate source pos').column) := by
  obtain ⟨hstart, -⟩ := locate_inside_iff.mp h
  obtain ⟨-, hstop⟩ := locate_inside_iff.mp h'
  obtain ⟨n, hn⟩ : ∃ n, (pos' - 1).toNat = (pos - 1).toNat + n :=
    ⟨(pos' - pos).toNat, by omega⟩
  -- what is walked over from the one to the other
  have hmid : (source.chars.drop (pos - 1).toNat).take n ≠ [] := by
    apply List.ne_nil_of_length_pos
    rw [List.length_take, List.length_drop, source.length_chars]
    omega
  rw [locate_of_inside h, locate_of_inside h', hn, List.take_add, Place.after_append]
  exact Place.lexLt_after _ hmid

theorem lt_iff_lexLt {pos' : Int} (h : (locate source pos).inside = true)
    (h' : (locate source pos').inside = true) :
    pos < pos' ↔ Prod.lexLt ((locate source pos).line, (locate source pos).column)
      ((locate source pos').line, (locate source pos').column) := by
  refine ⟨lexLt_of_lt h h', fun hlex => ?_⟩
  apply Decidable.by_contra
  intro hnot
  by_cases heq : pos = pos'
  · subst heq
    simp only [Prod.lexLt_def] at hlex
    omega
  · have hback := lexLt_of_lt h' h (by omega)
    simp only [Prod.lexLt_def] at hlex hback
    omega

end Positions

/-! ## Counting characters in bytes -/

namespace Text

/-- The number of characters that bytes are decoded to, without decoding them, when the next `k`
bytes belong to a character already counted. -/
def countAfter : Nat → List UInt8 → Nat
  | _, [] => 0
  | k + 1, _ :: bs => countAfter k bs
  | 0, b :: bs =>
    match leadingChar? (b :: bs) with
    | some c => countAfter ((String.utf8EncodeChar c).length - 1) bs + 1
    | none => countAfter 0 bs + 1

theorem countAfter_eq (k : Nat) (bs : List UInt8) :
    countAfter k bs = (decodeAfter k bs).length := by
  induction bs generalizing k with
  | nil => cases k <;> rfl
  | cons b bs ih =>
    cases k with
    | succ k => exact ih k
    | zero =>
      rw [countAfter, decodeAfter]
      cases leadingChar? (b :: bs) with
      | some c => exact congrArg (· + 1) (ih _)
      | none => exact congrArg (· + 1) (ih 0)

end Text

/-! ## Searching in 64-bit integers -/

/-- A location with coordinates of 64 bits. -/
structure Location64 where
  line : Int64
  column : Int64
  inside : Bool
  deriving DecidableEq, Repr, Inhabited

/-- The coordinates of 64 bits have the values of those of a location. -/
structure Location64.Holds (w : Location64) (l : Location) : Prop where
  line : w.line.toInt = l.line
  column : w.column.toInt = l.column
  inside : w.inside = l.inside

/-- Walks along characters, the first of which has the index `i` and the given coordinates, to
the one with the index `offset`.  If there is none, the walk ends after the last character. -/
def walk64 (offset : Int64) (i line column : Int64) : List Char → Location64
  | [] => ⟨line, column, false⟩
  | c :: cs =>
    if i = offset then ⟨line, column, true⟩
    else if c = '\n' then walk64 offset (i + 1) (line + 1) 1 cs
    else walk64 offset (i + 1) line (column + 1) cs

/-- Where a position lies in the source that bytes are decoded to, in 64-bit integers. -/
def locate64 (bytes : List UInt8) (pos : Int64) : Location64 :=
  if pos = 0 then ⟨0, 0, false⟩
  else
    let offset := pos - 1
    let found := walk64 offset 0 1 1 (Text.decode bytes).chars
    if found.inside then found
    else { found with inside := offset = .ofNat (Text.countAfter 0 bytes) }

/-- The walk from a place. -/
def Place.walk64 (p : Place) (offset : Int64) (cs : List Char) : Location64 :=
  PolyLambda.walk64 offset (.ofNat p.offset) (.ofNat p.line) (.ofNat p.column) cs

namespace Place

theorem walk64_cons {p : Place} {offset : Int64} (h : Int64.ofNat p.offset ≠ offset) (c : Char)
    (cs : List Char) : p.walk64 offset (c :: cs) = (p.next c).walk64 offset cs := by
  unfold walk64 next
  rw [PolyLambda.walk64, if_neg h]
  by_cases hc : c = '\n'
  · simp only [if_pos hc, Int64.ofNat_add]
    rfl
  · simp only [if_neg hc, Int64.ofNat_add]
    rfl

/-- What is not looked for is walked over. -/
theorem walk64_append {p : Place} {offset : Int64} {front : List Char}
    (h : ∀ i < front.length, Int64.ofNat (p.offset + i) ≠ offset) (back : List Char) :
    p.walk64 offset (front ++ back) = (p.after front).walk64 offset back := by
  induction front generalizing p with
  | nil => rfl
  | cons c front ih =>
    have hfirst : Int64.ofNat p.offset ≠ offset := h 0 (Nat.zero_lt_succ _)
    rw [List.cons_append, walk64_cons hfirst, after_cons]
    apply ih
    intro i hi
    rw [offset_next, Nat.add_assoc, Nat.add_comm 1 i]
    exact h (i + 1) (Nat.succ_lt_succ hi)

end Place

/-- The index of a position, however the subtraction wraps. -/
theorem ofNat_eq_sub_one {i : Nat} {pos : Int64} (h : (i : Int) + 1 ≤ Int64.maxValue.toInt) :
    Int64.ofNat i = pos - 1 ↔ pos.toInt = i + 1 := by
  rw [Int64.toInt_maxValue] at h
  have hvalue : (Int64.ofNat (i + 1)).toInt = i + 1 := Int64.toInt_ofNat_of_lt (by omega)
  rw [Int64.eq_sub_iff_add_eq, ← hvalue, Int64.toInt_inj, Int64.ofNat_add]
  exact eq_comm

section Search

variable {bytes : List UInt8} {pos : Int64}
  (hsize : ((Text.decode bytes).length : Int) + 1 ≤ Int64.maxValue.toInt)

include hsize

/-- The walk passes over the characters before the position, and over all of them if there is no
character at it. -/
theorem walk64_decode {front back : List Char}
    (hchars : (Text.decode bytes).chars = front ++ back) (hpos : pos.toInt ≤ 0 ∨ front.length < pos.toInt) :
    walk64 (pos - 1) 0 1 1 (Text.decode bytes).chars =
      (Place.start.after front).walk64 (pos - 1) back := by
  have hlength := congrArg List.length hchars
  rw [Text.length_chars, List.length_append] at hlength
  have hover : ∀ i < front.length, Int64.ofNat (Place.start.offset + i) ≠ pos - 1 := by
    intro i hi
    rw [show Place.start.offset = 0 from rfl, Nat.zero_add, Ne, ofNat_eq_sub_one (by omega)]
    omega
  rw [hchars]
  exact Place.walk64_append hover back

theorem walk64_of_found (hstart : 1 ≤ pos.toInt) (hstop : pos.toInt ≤ (Text.decode bytes).length) :
    walk64 (pos - 1) 0 1 1 (Text.decode bytes).chars =
      ⟨.ofNat (locate (.decode bytes) pos.toInt).line,
        .ofNat (locate (.decode bytes) pos.toInt).column, true⟩ := by
  have hlt : (pos.toInt - 1).toNat < (Text.decode bytes).chars.length := by
    rw [Text.length_chars]
    omega
  have hlength : ((Text.decode bytes).chars.take (pos.toInt - 1).toNat).length =
      (pos.toInt - 1).toNat := List.length_take_of_le (Nat.le_of_lt hlt)
  have hinside : (locate (.decode bytes) pos.toInt).inside = true :=
    locate_inside hstart (by omega)
  -- the character at the position is the first of those not walked over
  have hbefore : pos.toInt ≤ 0 ∨
      ((Text.decode bytes).chars.take (pos.toInt - 1).toNat).length < pos.toInt := by omega
  have hwalk := walk64_decode hsize (List.take_append_drop (pos.toInt - 1).toNat _).symm hbefore
  rw [List.drop_eq_getElem_cons hlt] at hwalk
  have hmeets : Int64.ofNat (Place.start.after
      ((Text.decode bytes).chars.take (pos.toInt - 1).toNat)).offset = pos - 1 := by
    rw [Place.offset_after, hlength, show Place.start.offset = 0 from rfl, Nat.zero_add,
      ofNat_eq_sub_one (by omega)]
    omega
  rw [hwalk, Place.walk64, walk64, if_pos hmeets, locate_of_inside hinside]

theorem walk64_of_missed (hpos : pos.toInt ≤ 0 ∨ (Text.decode bytes).length < pos.toInt) :
    walk64 (pos - 1) 0 1 1 (Text.decode bytes).chars =
      ⟨.ofNat (Place.start.after (Text.decode bytes).chars).line,
        .ofNat (Place.start.after (Text.decode bytes).chars).column, false⟩ := by
  rw [← Text.length_chars] at hpos
  exact walk64_decode hsize (List.append_nil _).symm hpos

theorem locate64_eq : locate64 bytes pos = ⟨.ofNat (locate (.decode bytes) pos.toInt).line,
      .ofNat (locate (.decode bytes) pos.toInt).column,
      (locate (.decode bytes) pos.toInt).inside⟩ := by
  unfold locate64
  by_cases hzero : pos = 0
  · subst hzero
    rfl
  rw [if_neg hzero]
  have hne : pos.toInt ≠ 0 := fun h => hzero (Int64.toInt_inj.mp h)
  by_cases hfound : 1 ≤ pos.toInt ∧ pos.toInt ≤ (Text.decode bytes).length
  · have hinside : (locate (.decode bytes) pos.toInt).inside = true :=
      locate_inside hfound.1 (by omega)
    simp only [walk64_of_found hsize hfound.1 hfound.2, hinside, if_true]
  have hend : pos - 1 = .ofNat (Text.countAfter 0 bytes) ↔
      pos.toInt = (Text.decode bytes).length + 1 := by
    rw [Text.countAfter_eq, eq_comm]
    exact ofNat_eq_sub_one hsize
  have houtside : pos.toInt ≤ 0 ∨ (Text.decode bytes).length < pos.toInt := by omega
  simp only [walk64_of_missed hsize houtside, Bool.false_eq_true, if_false, hend]
  by_cases hlast : pos.toInt = (Text.decode bytes).length + 1
  · -- the one position inside that has no character
    have hinside : (locate (.decode bytes) pos.toInt).inside = true :=
      locate_inside (by omega) (by omega)
    have hall : (Text.decode bytes).chars.take (pos.toInt - 1).toNat =
        (Text.decode bytes).chars := by
      apply List.take_of_length_le
      rw [Text.length_chars]
      omega
    rw [locate_of_inside hinside, hall, decide_eq_true hlast]
  · rw [locate_of_outside hne (by omega), decide_eq_false hlast]

/-- **The searches agree**, if the position past the end of the source is a 64-bit integer. -/
theorem locate64_holds : (locate64 bytes pos).Holds (locate (.decode bytes) pos.toInt) := by
  obtain ⟨hline, hcolumn⟩ := locate_le (.decode bytes) pos.toInt
  have hmax := Int64.toInt_maxValue
  rw [locate64_eq hsize]
  exact ⟨Int64.toInt_ofNat_of_lt (by omega), Int64.toInt_ofNat_of_lt (by omega), rfl⟩

end Search

/-- **Positions are located exactly and in order.**  A position is inside a source if it is at one
of its characters or just past the last one.  Then its line is one above the number of newlines
before it, and its column one above the number of characters after the last of these; and of two
such positions the smaller one has the smaller line, or on one line the smaller column.  Searching
in 64-bit integers finds the same, for every 64-bit position, as long as the position past the end
is one. -/
theorem located_exactly_in_order (bytes : List UInt8) :
    (∀ pos : Int, (locate (.decode bytes) pos).inside = true ↔
      1 ≤ pos ∧ pos ≤ (Text.decode bytes).length + 1) ∧
    (∀ pos : Int, (locate (.decode bytes) pos).inside = true →
      (locate (.decode bytes) pos).line =
          1 + ((Text.decode bytes).chars.take (pos - 1).toNat).count '\n' ∧
        (locate (.decode bytes) pos).column =
          1 + charsSinceNewline ((Text.decode bytes).chars.take (pos - 1).toNat)) ∧
    (∀ pos pos' : Int, (locate (.decode bytes) pos).inside = true →
      (locate (.decode bytes) pos').inside = true →
      (pos < pos' ↔ Prod.lexLt
        ((locate (.decode bytes) pos).line, (locate (.decode bytes) pos).column)
        ((locate (.decode bytes) pos').line, (locate (.decode bytes) pos').column))) ∧
    (((Text.decode bytes).length : Int) + 1 ≤ Int64.maxValue.toInt →
      ∀ pos : Int64, (locate64 bytes pos).Holds (locate (.decode bytes) pos.toInt)) := by
  refine ⟨fun pos => locate_inside_iff, fun pos => locate_counts, ?_, ?_⟩
  · intro pos pos' h h'
    exact lt_iff_lexLt h h'
  · intro hsize pos
    exact locate64_holds hsize

/-- Of the five characters of `λ`, a newline, a stray byte, a newline and `x`, the stray byte is
on the second line and the end is in the second column of the third; the least 64-bit integer is
no position, although the number below it is the greatest one. -/
theorem located_exactly_in_order_stray_byte :
    let bytes : List UInt8 := [0xCE, 0xBB, 0x0A, 0xFF, 0x0A, 0x78]
    (locate (.decode bytes) 3).line = 2 ∧ (locate (.decode bytes) 6).column = 2 ∧
      Prod.lexLt (2, 1) ((locate (.decode bytes) 6).line, (locate (.decode bytes) 6).column) ∧
      (locate64 bytes Int64.minValue).inside = false ∧
      (locate64 bytes 6).line.toInt = 3 := by
  obtain ⟨hinside, hcounts, horder, hsearch⟩ :=
    located_exactly_in_order [0xCE, 0xBB, 0x0A, 0xFF, 0x0A, 0x78]
  have hthree := (hinside 3).mpr (by decide)
  have hsix := (hinside 6).mpr (by decide)
  have hsize : ((Text.decode [0xCE, 0xBB, 0x0A, 0xFF, 0x0A, 0x78]).length : Int) + 1 ≤
      Int64.maxValue.toInt := by decide
  exact ⟨(hcounts 3 hthree).1, (hcounts 6 hsix).2, (horder 3 6 hthree hsix).mp (by decide),
    (hsearch hsize Int64.minValue).inside, (hsearch hsize 6).line⟩

end PolyLambda
