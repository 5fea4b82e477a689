import PolyLambda.Proofs.Grammar.Levels
import PolyLambda.Proofs.Nesting

/-!
# Integer literals

A literal is a row of decimal digits of any length, with a sign or without one (`Literal`).  It is
a source of one token.  It reads as its value if that has 32 bits, and otherwise it is refused as a
whole.

An integer is printed in the fewest digits.  Digits of one number are the same if they are as many
(`eq_of_decimalValue_eq`), so the printed literal is shorter than every other source of its
integer.

The value of a literal can be found in integers of a fixed width, digit by digit, giving up as
soon as the number is too large (`Literal.int32?`).  No digit makes a number smaller, so this
loses nothing, however many digits there are.
-/

namespace PolyLambda

/-! ## Decimal digits -/

/-- The number that decimal digits stand for: each digit counts for the power of ten that the
number of digits after it gives. -/
def decimalValue : List Char → Nat
  | [] => 0
  | d :: ds => (d.toNat - '0'.toNat) * Nat.pow 10 ds.length + decimalValue ds

theorem ofDigitChars_eq (ds : List Char) : Nat.ofDigitChars 10 ds 0 = decimalValue ds := by
  induction ds with
  | nil => rfl
  | cons d ds ih =>
    rw [Nat.ofDigitChars_cons, Nat.ofDigitChars_eq_ofDigitChars_zero, ih, Nat.mul_zero,
      Nat.zero_add, Nat.mul_comm]
    rfl

theorem decimalValue_toDigits (n : Nat) : decimalValue (Nat.toDigits 10 n) = n := by
  rw [← ofDigitChars_eq, Nat.ofDigitChars_ten_toDigits]

theorem decimalValue_lt {ds : List Char} (h : ∀ d ∈ ds, isDigit d = true) :
    decimalValue ds < Nat.pow 10 ds.length := by
  induction ds with
  | nil => exact Nat.one_pos
  | cons d ds ih =>
    obtain ⟨hd, hds⟩ := List.forall_mem_cons.mp h
    have hrest := ih hds
    have hdigit : d.toNat - 48 + 1 ≤ 10 := by
      have hle := (isDigit_iff.mp hd).2
      omega
    have hfirst := Nat.mul_le_mul_right (Nat.pow 10 ds.length) hdigit
    rw [Nat.add_mul, Nat.one_mul] at hfirst
    calc
      decimalValue (d :: ds)
        = (d.toNat - 48) * Nat.pow 10 ds.length + decimalValue ds := rfl
      _ < 10 * Nat.pow 10 ds.length := by omega
      _ = Nat.pow 10 (d :: ds).length := Nat.mul_comm ..

/-- As many digits of the same number are the same digits. -/
theorem eq_of_decimalValue_eq {ds es : List Char} (hds : ∀ d ∈ ds, isDigit d = true)
    (hes : ∀ d ∈ es, isDigit d = true) (hlength : ds.length = es.length)
    (hvalue : decimalValue ds = decimalValue es) : ds = es := by
  induction ds generalizing es with
  | nil => exact (List.eq_nil_of_length_eq_zero hlength.symm).symm
  | cons d ds ih =>
    cases es with
    | nil => cases hlength
    | cons e es =>
      obtain ⟨hd, hds⟩ := List.forall_mem_cons.mp hds
      obtain ⟨he, hes⟩ := List.forall_mem_cons.mp hes
      have hlength : ds.length = es.length := Nat.succ.inj hlength
      have hdslt := decimalValue_lt hds
      have heslt := decimalValue_lt hes
      rw [← hlength] at heslt
      rw [decimalValue, decimalValue, ← hlength] at hvalue
      -- the digits after the first are the remainder, and so the first one is the quotient
      have hrest : decimalValue ds = decimalValue es := by
        have hmod := congrArg (· % Nat.pow 10 ds.length) hvalue
        simp only [Nat.mul_add_mod_of_lt hdslt, Nat.mul_add_mod_of_lt heslt] at hmod
        exact hmod
      have hfirst : d.toNat - '0'.toNat = e.toNat - '0'.toNat := by
        rw [hrest] at hvalue
        exact Nat.eq_of_mul_eq_mul_right (Nat.zero_lt_of_lt hdslt) (Nat.add_right_cancel hvalue)
      have hchar : d = e := by
        have hfirst : d.toNat - 48 = e.toNat - 48 := hfirst
        rw [isDigit_iff] at hd he
        apply Char.toNat_inj.mp
        omega
      rw [hchar, ih hds hes hlength hrest]

theorem isDigit_of_mem_toDigits {n : Nat} : ∀ d ∈ Nat.toDigits 10 n, isDigit d = true := by
  obtain ⟨d, ds, heq, hd, hds⟩ := toDigits_eq_cons n
  rw [heq]
  exact List.forall_mem_cons.mpr ⟨hd, hds⟩

/-- The digits that a number is printed with are the fewest. -/
theorem toDigits_shortest {ds : List Char} (hne : ds ≠ []) (hds : ∀ d ∈ ds, isDigit d = true) :
    (Nat.toDigits 10 (decimalValue ds)).length ≤ ds.length ∧
      (ds.length = (Nat.toDigits 10 (decimalValue ds)).length →
        ds = Nat.toDigits 10 (decimalValue ds)) := by
  constructor
  · rw [Nat.length_toDigits_le_iff (by decide) (List.length_pos_iff.mpr hne)]
    exact decimalValue_lt hds
  · intro hlength
    exact eq_of_decimalValue_eq hds isDigit_of_mem_toDigits hlength
      (decimalValue_toDigits _).symm

/-! ## Literals -/

/-- A decimal literal: at least one digit, with a sign in front or without one. -/
structure Literal where
  isNegative : Bool
  digits : List Char
  ne_nil : digits ≠ []
  isDigit_of_mem : ∀ d ∈ digits, isDigit d = true

namespace Literal

/-- The characters of a literal. -/
def text (l : Literal) : List Char := if l.isNegative then '-' :: l.digits else l.digits

/-- A literal as a source. -/
def source (l : Literal) : Text := .ofChars l.text

/-- The integer that a literal stands for. -/
def value (l : Literal) : Int :=
  if l.isNegative then -(decimalValue l.digits : Int) else decimalValue l.digits

/-- The one token of a literal. -/
def token (l : Literal) : Token := ⟨.int, l.text, .start⟩

theorem range_token (l : Literal) : l.token.range = ⟨1, l.text.length + 1⟩ := by
  show (⟨0 + 1, ((0 + l.text.length : Nat) : Int) + 1⟩ : Range) = _
  rw [Nat.zero_add]
  rfl

theorem lexeme (l : Literal) : Lexeme .int l.text [] := by
  obtain ⟨isNegative, digits, hne, hdigits⟩ := l
  obtain ⟨d, ds, rfl⟩ := List.exists_cons_of_ne_nil hne
  obtain ⟨hd, hds⟩ := List.forall_mem_cons.mp hdigits
  cases isNegative with
  | true => exact .negative hd hds rfl
  | false => exact .number hd hds rfl

theorem tokens_scan (l : Literal) : (scan l.source.chars).tokens = [l.token] := by
  have hscan := l.lexeme.scanAfter_append .start
  rw [List.append_nil] at hscan
  rw [source, Text.chars_ofChars, scan, hscan]
  rfl

theorem literalValue_text (l : Literal) : literalValue l.text = l.value := by
  obtain ⟨isNegative, digits, hne, hdigits⟩ := l
  obtain ⟨d, ds, rfl⟩ := List.exists_cons_of_ne_nil hne
  rw [List.forall_mem_cons] at hdigits
  cases isNegative with
  | true => exact congrArg (fun n : Nat => -(n : Int)) (ofDigitChars_eq (d :: ds))
  | false =>
    have hvalue := literalValue_of_isDigit hdigits.1 ds
    rwa [ofDigitChars_eq] at hvalue

/-! ## Reading literals -/

variable {l : Literal}

theorem readTerm_eq_ok (c : Calculus) (h : -2147483648 ≤ l.value ∧ l.value ≤ 2147483647) :
    readTerm c l.source = .ok (.int l.token.range (.ofInt l.value)) := by
  have hfits : l.token.Fits := by
    intro _
    rwa [token, literalValue_text]
  rw [readTerm, Tokens.term?_eq_ok, tokens_scan]
  refine ⟨?_, List.forall_mem_singleton.mpr hfits, fun _ => rfl⟩
  have hatom : Grammar.Derives .atom [l.token] _ := .int rfl
  rw [token, literalValue_text] at hatom
  exact .ofApp (.ofAtom hatom)

theorem readTerm_eq_error (c : Calculus)
    (h : ¬ (-2147483648 ≤ l.value ∧ l.value ≤ 2147483647)) :
    readTerm c l.source = .error ⟨.tooLarge, l.token⟩ := by
  have hnone : int32OfLiteral? l.token.text = none := by
    rw [token, int32OfLiteral?, literalValue_text]
    exact if_neg h
  have hlambda : l.token.kind ≠ .lambda := by
    show TokenKind.int ≠ .lambda
    decide
  have hbigLambda : l.token.kind ≠ .bigLambda := by
    show TokenKind.int ≠ .bigLambda
    decide
  rw [readTerm, Tokens.term?, tokens_scan, Reading.term_eq,
    Reading.termLayer_app hlambda hbigLambda, Reading.atom_tooLarge rfl hnone]
  rfl

/-! ## Values in integers of a fixed width -/

/-- One more digit after a number, in 64-bit integers: none if the product or the sum wraps or
the result has more than 32 bits. -/
def pushDigit? (n : UInt64) (d : Char) : Option UInt64 :=
  -- the least number ten times which has more than 64 bits
  if 1844674407370955162 ≤ n then none
  else
    let sum := n * 10 + .ofNat (d.toNat - '0'.toNat)
    if sum < n * 10 ∨ 4294967295 < sum then none else some sum

/-- A number with its sign in 32 bits, which has one more value below zero than above. -/
def signed32? (isNegative : Bool) (n : UInt64) : Option Int32 :=
  if isNegative then
    if 2147483648 < n then none else some (-n.toInt64).toInt32
  else if 2147483648 ≤ n then none
  else some n.toInt64.toInt32

/-- The value of a literal in 32 bits, found digit by digit. -/
def int32? (l : Literal) : Option Int32 :=
  (l.digits.foldlM pushDigit? 0).bind (signed32? l.isNegative)

theorem pushDigit?_ofNat {n : Nat} {d : Char} (hn : n ≤ 4294967295) (hd : isDigit d = true) :
    pushDigit? (.ofNat n) d =
      if 10 * n + (d.toNat - '0'.toNat) ≤ 4294967295 then
        some (.ofNat (10 * n + (d.toNat - '0'.toNat)))
      else none := by
  have hdigit : d.toNat - '0'.toNat ≤ 9 := by
    have hle := (isDigit_iff.mp hd).2
    show d.toNat - 48 ≤ 9
    omega
  unfold pushDigit?
  generalize d.toNat - '0'.toNat = v at hdigit ⊢
  have hsize : UInt64.size = 18446744073709551616 := rfl
  have hproduct : UInt64.ofNat n * 10 = .ofNat (10 * n) := by
    rw [Nat.mul_comm, UInt64.ofNat_mul]
    rfl
  have hsum : UInt64.ofNat (10 * n) + .ofNat v = .ofNat (10 * n + v) := (UInt64.ofNat_add ..).symm
  have hsmall : ¬ (1844674407370955162 : UInt64) ≤ .ofNat n := by
    show ¬ UInt64.ofNat 1844674407370955162 ≤ .ofNat n
    rw [UInt64.ofNat_le_iff_le (by omega) (by omega)]
    omega
  have hwraps : ¬ UInt64.ofNat (10 * n + v) < .ofNat (10 * n) := by
    rw [UInt64.ofNat_lt_iff_lt (by omega) (by omega)]
    omega
  have hlarge : (4294967295 : UInt64) < .ofNat (10 * n + v) ↔ ¬ 10 * n + v ≤ 4294967295 := by
    show UInt64.ofNat 4294967295 < .ofNat (10 * n + v) ↔ _
    rw [UInt64.ofNat_lt_iff_lt (by omega) (by omega), Nat.not_le]
  rw [hproduct, hsum, if_neg hsmall]
  by_cases hle : 10 * n + v ≤ 4294967295
  · rw [if_pos hle]
    apply if_neg
    rintro (hlt | hlt)
    · exact hwraps hlt
    · exact hlarge.mp hlt hle
  · rw [if_neg hle]
    exact if_pos (.inr (hlarge.mpr hle))

theorem le_ofDigitChars (ds : List Char) (n : Nat) : n ≤ Nat.ofDigitChars 10 ds n := by
  induction ds generalizing n with
  | nil => exact Nat.le_refl n
  | cons d ds ih =>
    rw [Nat.ofDigitChars_cons]
    have hle := ih (10 * n + (d.toNat - '0'.toNat))
    omega

/-- The number becomes too large at one of the digits just when it is too large in the end. -/
theorem foldlM_pushDigit? {ds : List Char} (hds : ∀ d ∈ ds, isDigit d = true) {n : Nat}
    (hn : n ≤ 4294967295) :
    ds.foldlM pushDigit? (.ofNat n) =
      if Nat.ofDigitChars 10 ds n ≤ 4294967295 then some (.ofNat (Nat.ofDigitChars 10 ds n))
      else none := by
  induction ds generalizing n with
  | nil => exact (if_pos hn).symm
  | cons d ds ih =>
    obtain ⟨hd, hds⟩ := List.forall_mem_cons.mp hds
    rw [List.foldlM_cons, pushDigit?_ofNat hn hd, Nat.ofDigitChars_cons]
    by_cases hle : 10 * n + (d.toNat - '0'.toNat) ≤ 4294967295
    · rw [if_pos hle]
      exact ih hds hle
    · have hgrows := le_ofDigitChars ds (10 * n + (d.toNat - '0'.toNat))
      rw [if_neg hle, if_neg (by omega)]
      rfl

theorem toInt32_ofNat {n : Nat} (h : n < 2147483648) :
    (UInt64.ofNat n).toInt64.toInt32.toInt = n := by
  rw [UInt64.toInt64_ofNat', Int64.toInt32_ofNat', Int32.toInt_ofNat_of_lt h]

theorem toInt32_neg_ofNat {n : Nat} (h : n ≤ 2147483648) :
    (-(UInt64.ofNat n).toInt64).toInt32.toInt = -(n : Int) := by
  rw [UInt64.toInt64_ofNat', Int64.toInt32_neg, Int64.toInt32_ofNat', ← Int32.ofInt_eq_ofNat,
    ← Int32.ofInt_neg, Int32.toInt_ofInt_of_le (by omega) (by omega)]

theorem some_eq_some_iff_toInt {a n : Int32} {v : Int} (h : a.toInt = v) :
    some a = some n ↔ n.toInt = v := by
  rw [← h, Int32.toInt_inj, Option.some_inj]
  exact eq_comm

theorem signed32?_ofNat {isNegative : Bool} {m : Nat} (hm : m ≤ 4294967295) {n : Int32} :
    signed32? isNegative (.ofNat m) = some n ↔ n.toInt = if isNegative then -(m : Int) else m := by
  have hsize : UInt64.size = 18446744073709551616 := rfl
  have hlower := n.le_toInt
  have hupper := n.toInt_lt
  cases isNegative with
  | true =>
    have hlimit : (2147483648 : UInt64) < .ofNat m ↔ 2147483648 < m := by
      show UInt64.ofNat 2147483648 < .ofNat m ↔ _
      exact UInt64.ofNat_lt_iff_lt (by omega) (by omega)
    simp only [signed32?, hlimit, if_true]
    by_cases hlarge : 2147483648 < m
    · rw [if_pos hlarge]
      exact ⟨nofun, fun h => by omega⟩
    · rw [if_neg hlarge]
      exact some_eq_some_iff_toInt (toInt32_neg_ofNat (Nat.not_lt.mp hlarge))
  | false =>
    have hlimit : (2147483648 : UInt64) ≤ .ofNat m ↔ 2147483648 ≤ m := by
      show UInt64.ofNat 2147483648 ≤ .ofNat m ↔ _
      exact UInt64.ofNat_le_iff_le (by omega) (by omega)
    simp only [signed32?, hlimit, Bool.false_eq_true, if_false]
    by_cases hlarge : 2147483648 ≤ m
    · rw [if_pos hlarge]
      exact ⟨nofun, fun h => by omega⟩
    · rw [if_neg hlarge]
      exact some_eq_some_iff_toInt (toInt32_ofNat (Nat.not_le.mp hlarge))

/-- **A fixed width is enough**: it gives the value of every literal that has one. -/
theorem int32?_eq_some {n : Int32} : l.int32? = some n ↔ n.toInt = l.value := by
  have hmagnitude : l.digits.foldlM pushDigit? 0 = _ :=
    foldlM_pushDigit? l.isDigit_of_mem (Nat.zero_le 4294967295)
  rw [ofDigitChars_eq] at hmagnitude
  rw [int32?, hmagnitude, value]
  by_cases hle : decimalValue l.digits ≤ 4294967295
  · rw [if_pos hle]
    exact signed32?_ofNat hle
  · rw [if_neg hle]
    refine ⟨nofun, fun hvalue => ?_⟩
    have hlower := n.le_toInt
    have hupper := n.toInt_lt
    split at hvalue <;> omega

/-! ## Printing integers -/

/-- The literal that an integer is printed as. -/
def ofInt (n : Int) : Literal where
  isNegative := n < 0
  digits := Nat.toDigits 10 n.natAbs
  ne_nil := Nat.toDigits_ne_nil
  isDigit_of_mem := isDigit_of_mem_toDigits

theorem text_ofInt_natCast (m : Nat) : (ofInt m).text = Nat.toDigits 10 m := by
  have hsign : decide ((m : Int) < 0) = false := decide_eq_false (by omega)
  simp only [text, ofInt, hsign, Bool.false_eq_true, if_false, Int.natAbs_natCast]

theorem text_ofInt_neg {m : Nat} (h : 0 < m) :
    (ofInt (-(m : Int))).text = '-' :: Nat.toDigits 10 m := by
  have hsign : decide (-(m : Int) < 0) = true := decide_eq_true (by omega)
  simp only [text, ofInt, hsign, if_true, Int.natAbs_neg, Int.natAbs_natCast]

theorem value_ofInt (n : Int) : (ofInt n).value = n := by
  have hdigits : decimalValue (ofInt n).digits = n.natAbs := decimalValue_toDigits n.natAbs
  rw [value, hdigits]
  by_cases hn : n < 0
  · rw [if_pos (show (ofInt n).isNegative = true from decide_eq_true hn)]
    omega
  · rw [if_neg (show ¬ (ofInt n).isNegative = true from mt of_decide_eq_true hn)]
    omega

theorem source_ofInt (n : Int) : (ofInt n).source = Text.ofInt n := by
  rw [source, Text.ofInt]
  by_cases hn : n < 0
  · obtain ⟨m, rfl⟩ : ∃ m : Nat, n = -m := ⟨n.natAbs, by omega⟩
    rw [text_ofInt_neg (by omega), if_pos hn, Int.natAbs_neg, Int.natAbs_natCast]
  · obtain ⟨m, rfl⟩ : ∃ m : Nat, n = m := ⟨n.natAbs, by omega⟩
    rw [text_ofInt_natCast, if_neg hn, Int.natAbs_natCast]
    rfl

/-- A printed integer is read back. -/
theorem readTerm_ofInt (c : Calculus) (n : Int32) :
    readTerm c (ofInt n.toInt).source =
      .ok (.int ⟨1, (ofInt n.toInt).text.length + 1⟩ n) := by
  have hlower := n.le_toInt
  have hupper := n.toInt_lt
  have hvalue := value_ofInt n.toInt
  rw [readTerm_eq_ok c (by omega), range_token, hvalue, Int32.ofInt_toInt]

/-- Every other literal of an integer is longer than the printed one. -/
theorem ofInt_shortest (l : Literal) :
    l.text = (ofInt l.value).text ∨ (ofInt l.value).text.length < l.text.length := by
  obtain ⟨isNegative, digits, hne, hdigits⟩ := l
  obtain ⟨hle, heq⟩ := toDigits_shortest hne hdigits
  cases isNegative with
  | false =>
    show digits = (ofInt (decimalValue digits)).text ∨
      (ofInt (decimalValue digits)).text.length < digits.length
    rw [text_ofInt_natCast]
    by_cases hlength : digits.length = (Nat.toDigits 10 (decimalValue digits)).length
    · exact .inl (heq hlength)
    · exact .inr (by omega)
  | true =>
    show '-' :: digits = (ofInt (-(decimalValue digits : Int))).text ∨
      (ofInt (-(decimalValue digits : Int))).text.length < ('-' :: digits).length
    by_cases hzero : decimalValue digits = 0
    · -- zero is printed without a sign
      rw [hzero] at hle ⊢
      exact .inr (Nat.lt_succ_of_le hle)
    rw [text_ofInt_neg (Nat.pos_of_ne_zero hzero)]
    by_cases hlength : digits.length = (Nat.toDigits 10 (decimalValue digits)).length
    · exact .inl (congrArg ('-' :: ·) (heq hlength))
    · refine .inr (Nat.succ_lt_succ ?_)
      omega

end Literal

/-! ## Sources of an integer -/

theorem IsLiteral.exists_literal {cs : List Char} {v : Int} (h : IsLiteral cs v) :
    ∃ l : Literal, l.text = cs ∧ l.value = v := by
  obtain ⟨ds, hne, hdigits, hsign⟩ := h
  rw [ofDigitChars_eq] at hsign
  rcases hsign with ⟨rfl, rfl⟩ | ⟨rfl, rfl⟩
  · exact ⟨⟨false, cs, hne, hdigits⟩, rfl, rfl⟩
  · exact ⟨⟨true, ds, hne, hdigits⟩, rfl, rfl⟩

theorem Literal.of_mem_text {l : Literal} {c : Char} (h : c ∈ l.text) :
    c = '-' ∨ isDigit c = true := by
  rw [Literal.text] at h
  split at h
  · rcases List.mem_cons.mp h with h | h
    · exact .inl h
    · exact .inr (l.isDigit_of_mem c h)
  · exact .inr (l.isDigit_of_mem c h)

/-- The characters of a literal are seen in no text but its own. -/
theorem Literal.eq_source {l : Literal} {t : Text} (h : t.chars = l.text) : t = l.source := by
  have hformed : t.isWellFormed = true := by
    rw [Text.isWellFormed, List.all_eq_true]
    intro g hg
    cases g with
    | char c => rfl
    | stray b =>
      have hseen : '\uFFFD' ∈ l.text := h ▸ List.mem_map.mpr ⟨.stray b, hg, rfl⟩
      rcases Literal.of_mem_text hseen with hminus | hdigit
      · cases hminus
      · cases hdigit
  rw [Literal.source, ← h, Text.ofChars_chars hformed]

/-- **The printed literal is the shortest source of its integer**, and the only one that short. -/
theorem eq_render_or_longer {c : Calculus} {source : Text} {r r' : Range} {n : Int32}
    (h : readTerm c source = .ok (.int r' n)) :
    source = (Term.int r n).render ∨ (Term.int r n).render.length < source.length := by
  obtain ⟨l, htext, hvalue⟩ := (placedIn_of_readTerm h (Term.mem_parts_self _)).exists_literal
  have hrender : (Term.int r n).render = (Literal.ofInt l.value).source := by
    rw [hvalue]
    exact (Literal.source_ofInt n.toInt).symm
  have hlength : (Literal.ofInt l.value).source.length = (Literal.ofInt l.value).text.length :=
    List.length_map ..
  have hwithin : (source.within r').length = l.text.length := by
    rw [htext, Text.length_chars]
  have hsublist : (source.within r').Sublist source :=
    (List.take_sublist _ _).trans (List.drop_sublist _ _)
  have hle := hsublist.length_le
  rw [hrender, hlength]
  rcases l.ofInt_shortest with heq | hlonger
  · by_cases hwhole : source.length ≤ l.text.length
    · -- there is nothing in the source but the literal
      have hsource : source.within r' = source := hsublist.eq_of_length_le (by omega)
      rw [hsource] at htext
      left
      rw [Literal.eq_source htext.symm, Literal.source, Literal.source, heq]
    · rw [← heq]
      exact .inr (Nat.not_le.mp hwhole)
  · exact .inr (by omega)

/-- **Literals are read exactly, whatever their length.**  A literal whose value has 32 bits reads
as its value, in either calculus; any other one is refused with one error that covers all of it.
Finding the value digit by digit in integers of a fixed width gives the same.  And an integer is
printed as a literal that reads as it, while every other source that does is longer. -/
theorem literals_exact (c : Calculus) :
    (∀ l : Literal, -2147483648 ≤ l.value ∧ l.value ≤ 2147483647 →
      ∃ n : Int32, n.toInt = l.value ∧
        readTerm c l.source = .ok (.int ⟨1, l.text.length + 1⟩ n)) ∧
    (∀ l : Literal, ¬ (-2147483648 ≤ l.value ∧ l.value ≤ 2147483647) →
      ∃ e, readTerm c l.source = .error e ∧
        e.message = "integer literal " ++ l.source ++ " does not fit in 32 bits" ∧
        e.range = ⟨1, l.text.length + 1⟩) ∧
    (∀ (l : Literal) (n : Int32), l.int32? = some n ↔ n.toInt = l.value) ∧
    (∀ (r : Range) (n : Int32),
      (∃ l : Literal, l.source = (Term.int r n).render ∧
        readTerm c l.source = .ok (.int ⟨1, l.text.length + 1⟩ n)) ∧
      ∀ source r', readTerm c source = .ok (.int r' n) →
        source = (Term.int r n).render ∨ (Term.int r n).render.length < source.length) := by
  refine ⟨?_, ?_, fun l n => Literal.int32?_eq_some, ?_⟩
  · intro l hfits
    have hread := Literal.readTerm_eq_ok c hfits
    rw [l.range_token] at hread
    exact ⟨.ofInt l.value, Int32.toInt_ofInt_of_le (by omega) (by omega), hread⟩
  · intro l hlarge
    exact ⟨_, Literal.readTerm_eq_error c hlarge, rfl, l.range_token⟩
  · intro r n
    refine ⟨⟨.ofInt n.toInt, Literal.source_ofInt n.toInt, Literal.readTerm_ofInt c n⟩, ?_⟩
    intro source r' h
    exact eq_render_or_longer h

/-- The least integer with zeros in front is read, and the number above the greatest one is not;
`-0` is a longer way to write `0`. -/
theorem literals_exact_limits :
    (∃ n : Int32, n.toInt = -2147483648 ∧
      readTerm .systemF "-0002147483648" = .ok (.int ⟨1, 15⟩ n)) ∧
    (∃ e, readTerm .simplyTyped "2147483648" = .error e ∧
      e.message = "integer literal 2147483648 does not fit in 32 bits" ∧ e.range = ⟨1, 11⟩) ∧
    ("-0" = (Term.int .nowhere 0).render ∨
      (Term.int .nowhere 0).render.length < (Text.ofString "-0").length) := by
  refine ⟨?_, ?_, ?_⟩
  · obtain ⟨l, hsource, hvalue, hlength⟩ : ∃ l : Literal, l.source = "-0002147483648" ∧
        l.value = -2147483648 ∧ l.text.length = 14 :=
      ⟨⟨true, "0002147483648".toList, by decide, List.all_eq_true.mp rfl⟩, rfl, rfl, rfl⟩
    have hread := (literals_exact .systemF).1 l (by rw [hvalue]; decide)
    rwa [hsource, hvalue, hlength] at hread
  · obtain ⟨l, hsource, hvalue, hlength⟩ : ∃ l : Literal, l.source = "2147483648" ∧
        l.value = 2147483648 ∧ l.text.length = 10 :=
      ⟨⟨false, "2147483648".toList, by decide, List.all_eq_true.mp rfl⟩, rfl, rfl, rfl⟩
    have hrefused := (literals_exact .simplyTyped).2.1 l (by rw [hvalue]; decide)
    rwa [hsource, hlength] at hrefused
  · have hread : readTerm .systemF "-0" = .ok (.int ⟨1, 3⟩ 0) := by rfl
    exact ((literals_exact .systemF).2.2.2 .nowhere 0).2 _ _ hread

end PolyLambda
