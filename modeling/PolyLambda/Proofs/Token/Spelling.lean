import PolyLambda.Parser
import PolyLambda.Token.Scan

/-!
# How texts spell tokens

`Text.Spells t R` says that `t` scans to tokens with the property `R`, wherever it stands
before something that continues no word.  A text is taken apart from the left: each of
the lemmas on `Spells` takes one token, one space or one piece off the text and leaves what
is to be shown of the tokens after it.

Two sorts of tokens carry data.  Names are kept letter by letter, and so a **variable** is
a text that scans to itself (`Text.isVariable`, `Text.isTypeVariable`).  Numbers are kept
by value: the decimal digits of a number read as that number.
-/

namespace PolyLambda

/-! ## Classes of characters -/

theorem isDigit_iff {c : Char} : isDigit c = true ↔ 48 ≤ c.toNat ∧ c.toNat ≤ 57 := by
  simp [isDigit, Char.le_def, UInt32.le_iff_toNat_le]

theorem isLower_iff {c : Char} : isLower c = true ↔ 97 ≤ c.toNat ∧ c.toNat ≤ 122 := by
  simp [isLower, Char.le_def, UInt32.le_iff_toNat_le]

theorem isUpper_iff {c : Char} : isUpper c = true ↔ 65 ≤ c.toNat ∧ c.toNat ≤ 90 := by
  simp [isUpper, Char.le_def, UInt32.le_iff_toNat_le]

/-- What starts a name or a number is no white space and no mark. -/
theorem plain_of_word {c : Char} (h : isLower c = true ∨ isUpper c = true ∨ isDigit c = true) :
    Text.isSpace c = false ∧ c ≠ '-' ∧ c ≠ '/' := by
  rw [isLower_iff, isUpper_iff, isDigit_iff] at h
  refine ⟨?_, ?_, ?_⟩
  · simp only [Text.isSpace, Bool.or_eq_false_iff, Bool.and_eq_false_iff, decide_eq_false_iff_not,
      beq_eq_false_iff_ne]
    omega
  · rintro rfl
    revert h
    decide
  · rintro rfl
    revert h
    decide

/-! ## Single tokens -/

/-- Nothing that continues a word comes first. -/
def Apart : List Char → Prop
  | [] => True
  | c :: _ => isWordChar c = false

theorem takeWhile_append_apart {q : Char → Bool} (hq : ∀ c, q c = true → isWordChar c = true)
    {w rest : List Char} (hw : ∀ c ∈ w, q c = true) (hrest : Apart rest) :
    (w ++ rest).takeWhile q = w := by
  rw [List.takeWhile_append_of_pos hw]
  cases rest with
  | nil => simp
  | cons c rest =>
    have hc : ¬ q c = true := fun h => by rw [Apart, hq c h] at hrest; cases hrest
    rw [List.takeWhile_cons_of_neg hc, List.append_nil]

theorem isWordChar_of_isDigit {c : Char} (h : isDigit c = true) : isWordChar c = true := by
  simp [isWordChar, h]

theorem lexeme_lower {c : Char} {w rest : List Char} (hc : isLower c = true)
    (hw : ∀ d ∈ w, isWordChar d = true) (hrest : Apart rest) :
    lexeme c (w ++ rest) = (lowerWordKind (c :: w), w.length) := by
  obtain ⟨-, hminus, hslash⟩ := plain_of_word (.inl hc)
  have hdigit : ¬ isDigit c = true := by
    rw [isDigit_iff]
    rw [isLower_iff] at hc
    omega
  simp only [lexeme, hminus, hslash, hdigit, hc, takeWhile_append_apart (fun _ h => h) hw hrest,
    false_and, or_self, if_false, if_true, Bool.false_eq_true]

theorem lexeme_upper {c : Char} {w rest : List Char} (hc : isUpper c = true)
    (hw : ∀ d ∈ w, isWordChar d = true) (hrest : Apart rest) :
    lexeme c (w ++ rest) = (upperWordKind (c :: w), w.length) := by
  obtain ⟨-, hminus, hslash⟩ := plain_of_word (.inr (.inl hc))
  have hdigit : ¬ isDigit c = true := by
    rw [isDigit_iff]
    rw [isUpper_iff] at hc
    omega
  have hlower : ¬ isLower c = true := by
    rw [isLower_iff]
    rw [isUpper_iff] at hc
    omega
  simp only [lexeme, hminus, hslash, hdigit, hlower, hc,
    takeWhile_append_apart (fun _ h => h) hw hrest, false_and, or_self, if_false, if_true,
    Bool.false_eq_true]

theorem lexeme_digit {c : Char} {w rest : List Char} (hc : isDigit c = true)
    (hw : ∀ d ∈ w, isDigit d = true) (hrest : Apart rest) :
    lexeme c (w ++ rest) = (.int, w.length) := by
  obtain ⟨-, hminus, hslash⟩ := plain_of_word (.inr (.inr hc))
  simp only [lexeme, hminus, hslash, hc,
    takeWhile_append_apart (fun _ => isWordChar_of_isDigit) hw hrest, false_and, or_false, if_false,
    if_true]

theorem lexeme_minus {d : Char} {w rest : List Char} (hd : isDigit d = true)
    (hw : ∀ x ∈ w, isDigit x = true) (hrest : Apart rest) :
    lexeme '-' (d :: w ++ rest) = (.int, (d :: w).length) := by
  have hgreater : d ≠ '>' := by
    rintro rfl
    cases hd
  -- the sign is taken with the first digit already among the characters that follow
  have htake := takeWhile_append_apart (fun _ => isWordChar_of_isDigit)
    (List.forall_mem_cons.mpr ⟨hd, hw⟩) hrest
  simp only [lexeme, htake]
  simp [hd, hgreater]

/-- A character that is a token by itself, whatever follows it. -/
def isMark (c : Char) : Bool :=
  !Text.isSpace c && c != '-' && c != '/' && !isLower c && !isUpper c && !isDigit c

theorem lexeme_mark {c : Char} {cs : List Char} (hc : isMark c = true) :
    lexeme c cs = (markKind c, 0) := by
  simp only [isMark, Bool.and_eq_true, Bool.not_eq_true', bne_iff_ne] at hc
  obtain ⟨⟨⟨⟨⟨-, hminus⟩, hslash⟩, hlower⟩, hupper⟩, hdigit⟩ := hc
  simp only [lexeme, hminus, hslash, hlower, hupper, hdigit, false_and, or_self, if_false,
    Bool.false_eq_true]

/-- Where the token `c :: w` starts, it is taken. -/
theorem scanAfter_token {c : Char} {w cs : List Char} {k : TokenKind} (p : Place)
    (hspace : Text.isSpace c = false) (hcomment : startsComment c (w ++ cs) = false)
    (hlexeme : lexeme c (w ++ cs) = (k, w.length)) :
    scanAfter 0 p (c :: (w ++ cs)) = (scanAfter 0 (p.after (c :: w)) cs).push ⟨k, c :: w, p⟩ := by
  have hskip : scanAfter w.length (p.next c) (w ++ cs) = scanAfter 0 ((p.next c).after w) cs := by
    rw [scanAfter_eq, List.take_left, List.drop_left]
  simp [scanAfter, hspace, hcomment, hlexeme, hskip]

theorem toDigits_eq_cons (n : Nat) : ∃ d ds, Nat.toDigits 10 n = d :: ds ∧ isDigit d = true ∧
    ∀ x ∈ ds, isDigit x = true := by
  have hdigit : ∀ c ∈ Nat.toDigits 10 n, isDigit c = true := fun c hc =>
    isDigit_iff.mpr
      (Char.isDigit_iff_toNat.mp (Nat.isDigit_of_mem_toDigits (by decide) (by decide) hc))
  obtain ⟨d, ds, heq⟩ := List.exists_cons_of_ne_nil (@Nat.toDigits_ne_nil n 10)
  rw [heq, List.forall_mem_cons] at hdigit
  exact ⟨d, ds, heq, hdigit⟩

/-! ## Names -/

namespace Text

/-- A word that starts as `first` says. -/
def isWord (first : Char → Bool) (x : Text) : Bool :=
  x.isWellFormed && match x.chars with
    | [] => false
    | c :: w => first c && w.all isWordChar

/-- The name of a variable. -/
def isVariable (x : Text) : Bool := x.isWord isLower && x ≠ "forall"

/-- The name of a type variable. -/
def isTypeVariable (x : Text) : Bool := x.isWord isUpper && x ≠ "Int"

theorem chars_append (t u : Text) : (t ++ u).chars = t.chars ++ u.chars := List.map_append

theorem chars_ofChars (cs : List Char) : (ofChars cs).chars = cs := by
  simp [chars, ofChars, Glyph.seen, Function.comp_def]

theorem ofChars_inj {as bs : List Char} : ofChars as = ofChars bs ↔ as = bs := by
  constructor
  · intro h
    rw [← chars_ofChars as, h, chars_ofChars]
  · rintro rfl
    rfl

theorem isWellFormed_ofChars (cs : List Char) : (ofChars cs).isWellFormed = true := by
  simp [isWellFormed, ofChars]

theorem ofChars_chars {t : Text} (h : t.isWellFormed = true) : ofChars t.chars = t := by
  induction t with
  | nil => rfl
  | cons g t ih =>
    rw [isWellFormed, List.all_cons, Bool.and_eq_true] at h
    cases g with
    | char c => exact congrArg (.char c :: ·) (ih h.2)
    | stray b => cases h.1

theorem isWord_iff {first : Char → Bool} {x : Text} :
    x.isWord first = true ↔ ∃ c w, x = ofChars (c :: w) ∧ first c = true ∧
      ∀ d ∈ w, isWordChar d = true := by
  rw [isWord, Bool.and_eq_true]
  constructor
  · rintro ⟨hformed, h⟩
    split at h
    · cases h
    · next c w hchars =>
      rw [Bool.and_eq_true, List.all_eq_true] at h
      exact ⟨c, w, by rw [← hchars, ofChars_chars hformed], h⟩
  · rintro ⟨c, w, rfl, hc, hw⟩
    rw [chars_ofChars]
    exact ⟨isWellFormed_ofChars _, Bool.and_eq_true_iff.mpr ⟨hc, List.all_eq_true.mpr hw⟩⟩

/-! ## Texts -/

/-- Before anything that continues no word, `t` scans to tokens with the property `R`. -/
def Spells (t : Text) (R : List Token → Prop) : Prop :=
  ∀ p rest, Apart rest → ∃ ts q,
    (scanAfter 0 p (t.chars ++ rest)).tokens = ts ++ (scanAfter 0 q rest).tokens ∧ R ts

namespace Spells

variable {t u : Text} {P R : List Token → Prop}

theorem imp (h : t.Spells P) (hR : ∀ ts, P ts → R ts) : t.Spells R := by
  intro p rest hrest
  obtain ⟨ts, q, hts, hP⟩ := h p rest hrest
  exact ⟨ts, q, hts, hR ts hP⟩

theorem nil (hR : R []) : Spells [] R := fun p _ _ => ⟨[], p, rfl, hR⟩

/-- A text and another one that continues no word at its end. -/
theorem append (ht : t.Spells P) (hu : u.Spells fun us => ∀ ts, P ts → R (ts ++ us))
    (happ : ∀ rest, Apart (u.chars ++ rest)) : (t ++ u).Spells R := by
  intro p rest hrest
  obtain ⟨ts, q, hts, hP⟩ := ht p (u.chars ++ rest) (happ rest)
  obtain ⟨us, q', hus, hR⟩ := hu q rest hrest
  refine ⟨ts ++ us, q', ?_, hR ts hP⟩
  rw [chars_append, List.append_assoc, hts, hus, List.append_assoc]

theorem space (hu : u.Spells R) : Spells (.char ' ' :: u) R := by
  intro p rest hrest
  exact hu (p.next ' ') rest hrest

theorem mark {c : Char} (hc : isMark c = true)
    (hu : u.Spells fun us => ∀ m : Token, m.kind = markKind c → R (m :: us)) :
    Spells (.char c :: u) R := by
  intro p rest hrest
  obtain ⟨us, q, hus, hR⟩ := hu (p.after [c]) rest hrest
  have hspace : Text.isSpace c = false := by
    simp only [isMark, Bool.and_eq_true, Bool.not_eq_true'] at hc
    exact hc.1.1.1.1.1
  have hcomment : startsComment c ([] ++ (u.chars ++ rest)) = false := by
    simp only [isMark, Bool.and_eq_true, bne_iff_ne] at hc
    simp [startsComment, hc.1.1.1.1.2]
  have hscan := scanAfter_token p hspace hcomment (lexeme_mark hc)
  refine ⟨_ :: us, q, ?_, hR ⟨markKind c, [c], p⟩ rfl⟩
  exact (congrArg Tokens.tokens hscan).trans (congrArg (_ :: ·) hus)

theorem arrow (hu : u.Spells fun us => ∀ m : Token, m.kind = .arrow → R (m :: us)) :
    Spells (.char '-' :: .char '>' :: u) R := by
  intro p rest hrest
  obtain ⟨us, q, hus, hR⟩ := hu (p.after ['-', '>']) rest hrest
  have hscan : scanAfter 0 p ('-' :: (['>'] ++ (u.chars ++ rest))) = _ :=
    scanAfter_token p rfl rfl rfl
  refine ⟨_ :: us, q, ?_, hR ⟨.arrow, ['-', '>'], p⟩ rfl⟩
  exact (congrArg Tokens.tokens hscan).trans (congrArg (_ :: ·) hus)

/-- A token that is as long as it can be where no word goes on. -/
theorem token {c : Char} {w : List Char} {k : TokenKind} (hspace : isSpace c = false)
    (hcomment : ∀ rest, Apart rest → startsComment c (w ++ rest) = false)
    (hlexeme : ∀ rest, Apart rest → lexeme c (w ++ rest) = (k, w.length))
    (hR : ∀ t : Token, t.kind = k → t.text = c :: w → R [t]) : Spells (ofChars (c :: w)) R := by
  intro p rest hrest
  refine ⟨[⟨k, c :: w, p⟩], p.after (c :: w), ?_, hR _ rfl rfl⟩
  rw [chars_ofChars, List.cons_append,
    scanAfter_token p hspace (hcomment rest hrest) (hlexeme rest hrest)]
  rfl

theorem word {c : Char} {w : List Char} {k : TokenKind}
    (hc : isLower c = true ∨ isUpper c = true ∨ isDigit c = true)
    (hlexeme : ∀ rest, Apart rest → lexeme c (w ++ rest) = (k, w.length))
    (hR : ∀ t : Token, t.kind = k → t.text = c :: w → R [t]) : Spells (ofChars (c :: w)) R := by
  obtain ⟨hspace, hminus, -⟩ := plain_of_word hc
  refine token hspace (fun rest _ => ?_) hlexeme hR
  simp [startsComment, hminus]

theorem variableName {x : Text} (hx : x.isVariable = true)
    (hR : ∀ t : Token, t.kind = .ident → t.name = x → R [t]) : x.Spells R := by
  rw [isVariable, Bool.and_eq_true, isWord_iff] at hx
  obtain ⟨⟨c, w, rfl, hc, hw⟩, hne⟩ := hx
  have hkind : lowerWordKind (c :: w) = .ident :=
    if_neg fun h => of_decide_eq_true hne (congrArg ofChars h)
  refine word (.inl hc) (fun rest hrest => lexeme_lower hc hw hrest) fun t hk ht => ?_
  exact hR t (hk.trans hkind) (congrArg ofChars ht)

theorem typeVariableName {x : Text} (hx : x.isTypeVariable = true)
    (hR : ∀ t : Token, t.kind = .typeVar → t.name = x → R [t]) : x.Spells R := by
  rw [isTypeVariable, Bool.and_eq_true, isWord_iff] at hx
  obtain ⟨⟨c, w, rfl, hc, hw⟩, hne⟩ := hx
  have hkind : upperWordKind (c :: w) = .typeVar :=
    if_neg fun h => of_decide_eq_true hne (congrArg ofChars h)
  refine word (.inr (.inl hc)) (fun rest hrest => lexeme_upper hc hw hrest) fun t hk ht => ?_
  exact hR t (hk.trans hkind) (congrArg ofChars ht)

theorem intType (hR : ∀ t : Token, t.kind = .intType → R [t]) : Spells "Int" R := by
  have hw : ∀ d ∈ ['n', 't'], isWordChar d = true := List.all_eq_true.mp rfl
  exact word (.inr (.inl rfl)) (fun _ hrest => lexeme_upper rfl hw hrest) fun t hk _ => hR t hk

/-- A number is spelled by its decimal digits. -/
theorem number (n : Int) (hR : ∀ t : Token, t.kind = .int → literalValue t.text = n → R [t]) :
    Spells (ofInt n) R := by
  obtain ⟨d, ds, hdigits, hd, hds⟩ := toDigits_eq_cons n.natAbs
  have hvalue : Nat.ofDigitChars 10 (d :: ds) 0 = n.natAbs := by
    rw [← hdigits, Nat.ofDigitChars_ten_toDigits]
  obtain ⟨-, hminus, -⟩ := plain_of_word (.inr (.inr hd))
  rw [ofInt, ofNat, hdigits]
  split
  · next hneg =>
    -- a digit follows the sign, so it starts neither an arrow nor a comment
    refine token rfl (fun rest _ => ?_) (fun rest hrest => lexeme_minus hd hds hrest)
      fun t hk ht => hR t hk ?_
    · simp [startsComment, hminus]
    · rw [ht, literalValue, hvalue]
      exact (Int.eq_neg_natAbs_of_nonpos (Int.le_of_lt hneg)).symm
  · next hpos =>
    refine word (.inr (.inr hd)) (fun rest hrest => lexeme_digit hd hds hrest)
      fun t hk ht => hR t hk ?_
    rw [ht, literalValue, hvalue]
    · exact Int.natAbs_of_nonneg (Int.not_lt.mp hpos)
    · intro digits heq
      exact hminus (List.cons.inj heq).1

end Spells

end Text

/-! ## What is scanned -/

/-- A token that stands for a name spells one. -/
def Token.WellNamed (t : Token) : Prop :=
  (t.kind = .ident → t.name.isVariable = true) ∧
    (t.kind = .typeVar → t.name.isTypeVariable = true)

theorem markKind_ne (c : Char) : markKind c ≠ .ident ∧ markKind c ≠ .typeVar := by
  unfold markKind
  split <;> exact ⟨nofun, nofun⟩

theorem wellNamed_lowerWord {c : Char} {w : List Char} (p : Place) (hc : isLower c = true)
    (hw : ∀ d ∈ w, isWordChar d = true) : Token.WellNamed ⟨lowerWordKind (c :: w), c :: w, p⟩ := by
  unfold lowerWordKind
  split
  · exact ⟨nofun, nofun⟩
  · next hne =>
    refine ⟨fun _ => ?_, nofun⟩
    rw [Text.isVariable, Bool.and_eq_true, decide_eq_true_eq, Text.isWord_iff]
    exact ⟨⟨c, w, rfl, hc, hw⟩, fun h => hne (Text.ofChars_inj.mp h)⟩

theorem wellNamed_upperWord {c : Char} {w : List Char} (p : Place) (hc : isUpper c = true)
    (hw : ∀ d ∈ w, isWordChar d = true) : Token.WellNamed ⟨upperWordKind (c :: w), c :: w, p⟩ := by
  unfold upperWordKind
  split
  · exact ⟨nofun, nofun⟩
  · next hne =>
    refine ⟨nofun, fun _ => ?_⟩
    rw [Text.isTypeVariable, Bool.and_eq_true, decide_eq_true_eq, Text.isWord_iff]
    exact ⟨⟨c, w, rfl, hc, hw⟩, fun h => hne (Text.ofChars_inj.mp h)⟩

theorem wellNamed_lexeme (p : Place) (c : Char) (cs : List Char) :
    Token.WellNamed ⟨(lexeme c cs).1, c :: cs.take (lexeme c cs).2, p⟩ := by
  have htake : cs.take (cs.takeWhile isWordChar).length = cs.takeWhile isWordChar :=
    (List.prefix_iff_eq_take.mp (List.takeWhile_prefix isWordChar)).symm
  have hword : ∀ d ∈ cs.takeWhile isWordChar, isWordChar d = true :=
    List.all_eq_true.mp List.all_takeWhile
  unfold lexeme
  split
  · exact ⟨nofun, nofun⟩
  split
  · exact ⟨nofun, nofun⟩
  split
  · exact ⟨nofun, nofun⟩
  split
  · next hc =>
    simp only [htake]
    exact wellNamed_lowerWord p hc hword
  split
  · next hc =>
    simp only [htake]
    exact wellNamed_upperWord p hc hword
  · exact ⟨fun h => absurd h (markKind_ne c).1, fun h => absurd h (markKind_ne c).2⟩

/-- What holds of every lexeme holds of every token of a source. -/
theorem forall_mem_scanAfter {Q : Token → Prop}
    (hQ : ∀ p c cs, Q ⟨(lexeme c cs).1, c :: cs.take (lexeme c cs).2, p⟩) (k : Nat) (p : Place)
    (cs : List Char) : ∀ t ∈ (scanAfter k p cs).tokens, Q t := by
  fun_induction scanAfter k p cs with
  | case1 => exact nofun
  | case2 k p c cs ih => exact ih
  | case3 p c cs _ ih => exact ih
  | case4 p c cs _ _ ih => exact ih
  | case5 p c cs _ _ kind n hlexeme ih =>
    have h := hQ p c cs
    rw [hlexeme] at h
    exact List.forall_mem_cons.mpr ⟨h, ih⟩

theorem wellNamed_of_mem_scan {cs : List Char} {t : Token} (h : t ∈ (scan cs).tokens) :
    t.WellNamed := forall_mem_scanAfter wellNamed_lexeme 0 .start cs t h

end PolyLambda
