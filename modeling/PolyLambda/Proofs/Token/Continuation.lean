import PolyLambda.Proofs.Token.Spelling

/-!
# Scanning goes on after a newline

A newline ends every comment and every token, and it is no part of one.  So scanning
is **compositional** across a newline: a source, a newline and more text scan to the
tokens of the source, each at its place, and then those of the text
(`scan_append_newline`).

The tokens of a source start before its end, and the token that marks the end stands
there.
-/

namespace PolyLambda

/-! ## Single tokens -/

/-- What is taken while it satisfies `q` ends at a newline. -/
theorem takeWhile_append_newline {q : Char → Bool} (hq : q '\n' = false) (cs rest : List Char) :
    (cs ++ '\n' :: rest).takeWhile q = cs.takeWhile q := by
  induction cs with
  | nil => simp [hq]
  | cons c cs ih => simp only [List.cons_append, List.takeWhile_cons, ih]

/-- A newline is none of the characters that a token is continued by. -/
theorem head?_append_newline {a : Char} (ha : a ≠ '\n') (cs rest : List Char) :
    (cs ++ '\n' :: rest).head? = some a ↔ cs.head? = some a := by
  cases cs with
  | nil => simp [ha.symm]
  | cons c cs => simp

theorem lexeme_append_newline (c : Char) (cs rest : List Char) :
    lexeme c (cs ++ '\n' :: rest) = lexeme c cs := by
  have hdigit : (cs ++ '\n' :: rest).head?.any isDigit = cs.head?.any isDigit := by
    cases cs with
    | nil => rfl
    | cons d cs => rfl
  simp only [lexeme, hdigit, head?_append_newline (a := '\\') (by decide),
    head?_append_newline (a := '>') (by decide), takeWhile_append_newline (q := isDigit) rfl,
    takeWhile_append_newline (q := isWordChar) rfl]

theorem startsComment_append_newline (c : Char) (cs rest : List Char) :
    startsComment c (cs ++ '\n' :: rest) = startsComment c cs := by
  rw [startsComment, startsComment, Bool.eq_iff_iff]
  simp only [Bool.and_eq_true, beq_iff_eq, head?_append_newline (a := '-') (by decide)]

theorem lineLength_append_newline (cs rest : List Char) :
    lineLength (cs ++ '\n' :: rest) = lineLength cs := by
  rw [lineLength, takeWhile_append_newline rfl, lineLength]

theorem lineLength_le (cs : List Char) : lineLength cs ≤ cs.length :=
  (List.takeWhile_prefix _).length_le

theorem lexeme_le (c : Char) (cs : List Char) : (lexeme c cs).2 ≤ cs.length := by
  have hlength : ∀ q : Char → Bool, (cs.takeWhile q).length ≤ cs.length :=
    fun q => (List.takeWhile_prefix q).length_le
  have hhead : ∀ a, cs.head? = some a → 1 ≤ cs.length := by
    intro a ha
    obtain ⟨rest, rfl⟩ := List.head?_eq_some_iff.mp ha
    exact Nat.succ_pos _
  unfold lexeme
  split
  · next h => exact hhead _ h.2
  split
  · next h => exact hhead _ h.2
  split
  · exact hlength _
  split
  · exact hlength _
  split
  · exact hlength _
  · exact Nat.zero_le _

theorem le_of_lexeme {c : Char} {cs : List Char} {kind : TokenKind} {n : Nat}
    (h : lexeme c cs = (kind, n)) : n ≤ cs.length := by
  have hle := lexeme_le c cs
  rwa [h] at hle

/-! ## Whole sources -/

/-- One token list after another, up to the end of the second. -/
def Tokens.followedBy (ts us : Tokens) : Tokens := ⟨ts.tokens ++ us.tokens, us.finish⟩

theorem scanAfter_append_newline {k : Nat} {cs : List Char} (hk : k ≤ cs.length) (p : Place)
    (rest : List Char) :
    scanAfter k p (cs ++ '\n' :: rest) =
      (scanAfter k p cs).followedBy (scanAfter 0 (p.after (cs ++ ['\n'])) rest) := by
  fun_induction scanAfter k p cs with
  | case1 k p =>
    obtain rfl := Nat.le_zero.mp hk
    rfl
  | case2 k p c cs ih => exact ih (Nat.le_of_succ_le_succ hk)
  | case3 p c cs hspace ih =>
    rw [List.cons_append, scanAfter, if_pos hspace]
    exact ih (Nat.zero_le _)
  | case4 p c cs hspace hcomment ih =>
    -- the newline ends the comment, whether or not one stands in it already
    rw [List.cons_append, scanAfter, if_neg hspace, startsComment_append_newline, if_pos hcomment,
      lineLength_append_newline]
    exact ih (lineLength_le cs)
  | case5 p c cs hspace hcomment kind n hlexeme ih =>
    have hn := le_of_lexeme hlexeme
    rw [List.cons_append, scanAfter, if_neg hspace, startsComment_append_newline, if_neg hcomment,
      lexeme_append_newline, hlexeme]
    simp only [List.take_append_of_le_length hn, ih hn]
    rfl

/-- **Scanning is compositional across a newline.** -/
theorem scan_append_newline (cs rest : List Char) :
    scan (cs ++ '\n' :: rest) =
      (scan cs).followedBy (scanAfter 0 (Place.start.after (cs ++ ['\n'])) rest) :=
  scanAfter_append_newline (Nat.zero_le _) .start rest

theorem finish_scanAfter (k : Nat) (p : Place) (cs : List Char) :
    (scanAfter k p cs).finish = .atEnd (p.after cs) := by
  fun_induction scanAfter k p cs with
  | case1 k p => rfl
  | case2 k p c cs ih => exact ih
  | case3 p c cs _ ih => exact ih
  | case4 p c cs _ _ ih => exact ih
  | case5 p c cs _ _ kind n _ ih => exact ih

theorem offset_lt_of_mem_scanAfter {k : Nat} {p : Place} {cs : List Char} {t : Token}
    (h : t ∈ (scanAfter k p cs).tokens) : t.place.offset < p.offset + cs.length := by
  have hnext : ∀ (p : Place) c (cs : List Char),
      (p.next c).offset + cs.length = p.offset + (c :: cs).length := by
    intro p c cs
    rw [Place.offset_next, List.length_cons]
    omega
  fun_induction scanAfter k p cs with
  | case1 k p => cases h
  | case2 k p c cs ih => exact hnext p c cs ▸ ih h
  | case3 p c cs _ ih => exact hnext p c cs ▸ ih h
  | case4 p c cs _ _ ih => exact hnext p c cs ▸ ih h
  | case5 p c cs _ _ kind n _ ih =>
    rcases List.mem_cons.mp h with rfl | h
    · exact Nat.lt_add_of_pos_right (Nat.succ_pos _)
    · exact hnext p c cs ▸ ih h

end PolyLambda
