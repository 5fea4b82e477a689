import PolyLambda.Proofs.Incomplete
import PolyLambda.Proofs.Token.Layout
import PolyLambda.Proofs.Token.Tiling

/-!
# Errors point at the first bad token

A source is refused at the first token with which it is no longer the beginning of a term.  Up
to that token some text on a new line makes a term of it, and with that token no text does.

The reader has not refused anything that it saw before the bad token.  So the source in front
of the bad token is a term, or it fails at its end and is incomplete (`fails_at_end_before`);
what is incomplete can be continued.  The bad token is refused whatever stands after it
(`readTerm_error_token`).
-/

namespace PolyLambda

variable {c : Calculus} {source : Text} {e : ParseError}

theorem Text.chars_take (t : Text) (n : Nat) : Text.chars (t.take n) = t.chars.take n :=
  List.map_take

/-- A newline at the end changes nothing. -/
theorem readTerm_append_newline {t : Term} (h : readTerm c source = .ok t) :
    readTerm c (source ++ "\n" ++ ([] : Text)) = .ok t := by
  have htokens : (scan (source ++ "\n" ++ ([] : Text)).chars).tokens =
      (scan source.chars).tokens := by
    rw [scan_append_line]
    exact List.append_nil _
  rw [readTerm, Tokens.term?_eq_ok] at h ⊢
  rwa [htokens]

/-- A token occurs once in a source. -/
theorem not_mem_before {cs : List Char} {before after : List Token} {t : Token}
    (h : (scan cs).tokens = before ++ t :: after) : t ∉ before := by
  intro hmem
  have horder := inOrder_scan cs
  have hmem' : t ∈ (scan cs).tokens := by
    rw [h]
    exact List.mem_append_left _ hmem
  have hnonempty := horder.nonempty t hmem'
  rw [h] at horder
  have hle := horder.stop_le hmem List.mem_cons_self
  omega

/-- An error that is not at the end of a source is at one of its tokens. -/
theorem exists_tokens_of_error (h : readTerm c source = .error e) (hend : e.token.kind ≠ .finish) :
    ∃ before after, (scan source.chars).tokens = before ++ e.token :: after ∧
      ∀ finish after', Tokens.term? ⟨before ++ e.token :: after', finish⟩ c = .error e := by
  rcases readTerm_error_token h with he | hat
  · refine absurd ?_ hend
    rw [he, scan, finish_scanAfter]
    rfl
  · exact hat

/-- A source cut in front of its bad token fails at its end, if at all. -/
theorem fails_at_end_before {e' : ParseError} (h : readTerm c source = .error e)
    (hend : e.token.kind ≠ .finish)
    (h' : readTerm c (source.take e.token.place.offset) = .error e') :
    e'.token = (scan (Text.chars (source.take e.token.place.offset))).finish := by
  obtain ⟨before, after, htokens, -⟩ := exists_tokens_of_error h hend
  have hcut := tokens_take_offset htokens
  rw [← Text.chars_take] at hcut
  rcases readTerm_error_token h' with he | ⟨pre, post, hpre, hsame⟩
  · exact he
  · -- an earlier bad token would be the bad token of the whole source
    have hwhole := hsame (scan source.chars).finish (post ++ e.token :: after)
    rw [hcut] at hpre
    rw [← List.cons_append, ← List.append_assoc, ← hpre, ← htokens] at hwhole
    obtain rfl : e = e' := Except.error.inj (h.symm.trans hwhole)
    refine absurd ?_ (not_mem_before htokens)
    rw [hpre]
    exact List.mem_append_right _ List.mem_cons_self

/-- Up to the bad token, a source is the beginning of a term. -/
theorem continues_before_error (h : readTerm c source = .error e) (hend : e.token.kind ≠ .finish) :
    ∃ rest t, readTerm c (source.take e.token.place.offset ++ "\n" ++ rest) = .ok t := by
  cases hcut : readTerm c (source.take e.token.place.offset) with
  | ok t => exact ⟨[], t, readTerm_append_newline hcut⟩
  | error e' => exact exists_continuation hcut (fails_at_end_before h hend hcut)

/-- With the bad token, a source is no beginning of a term. -/
theorem not_continues_with_error (h : readTerm c source = .error e)
    (hend : e.token.kind ≠ .finish) (rest : Text) (t : Term) :
    readTerm c (source.take e.token.stop ++ "\n" ++ rest) ≠ .ok t := by
  obtain ⟨before, after, htokens, hsame⟩ := exists_tokens_of_error h hend
  have hcut := tokens_take_stop htokens
  rw [← Text.chars_take] at hcut
  rw [readTerm, scan_append_line, Tokens.followedBy, hcut, List.append_assoc, List.cons_append,
    hsame]
  intro hok
  cases hok

/-- **Errors point at the first bad token.**  Where a source is refused at a token that is not
its end, and that token covers the characters from `a` up to `b`, some text on a new line makes
a term of the characters before `a`, and no text makes one of those before `b`, in the calculus
that the source was read in. -/
theorem error_at_first_bad_token {a b : Nat} (h : readTerm c source = .error e)
    (hend : e.token.kind ≠ .finish) (hrange : e.range = ⟨a + 1, b + 1⟩) :
    (∃ rest t, readTerm c (source.take a ++ "\n" ++ rest) = .ok t) ∧
      ¬ ∃ rest t, readTerm c (source.take b ++ "\n" ++ rest) = .ok t := by
  have ha : e.token.place.offset = a := by
    have hstart : (e.token.place.offset : Int) + 1 = a + 1 := congrArg Range.start hrange
    omega
  have hb : e.token.stop = b := by
    have hstop : (e.token.stop : Int) + 1 = b + 1 := congrArg Range.stop hrange
    omega
  rw [← ha, ← hb]
  refine ⟨continues_before_error h hend, ?_⟩
  rintro ⟨rest, t, hrest⟩
  exact not_continues_with_error h hend rest t hrest

/-- A literal that is too large is refused at the literal, although `)` stands after it, and a
type variable is refused in the simply-typed calculus, where the annotation could be `Int`. -/
theorem error_at_first_bad_token_literal :
    ((∃ rest t, readTerm .systemF ("(f " ++ "\n" ++ rest) = .ok t) ∧
      ¬ ∃ rest t, readTerm .systemF ("(f 2147483648" ++ "\n" ++ rest) = .ok t) ∧
    (∃ rest t, readTerm .simplyTyped ("λx: " ++ "\n" ++ rest) = .ok t) ∧
      ¬ ∃ rest t, readTerm .simplyTyped ("λx: X" ++ "\n" ++ rest) = .ok t := by
  have hliteral : readTerm .systemF "(f 2147483648)" =
      .error ⟨.tooLarge, ⟨.int, "2147483648".toList, ⟨3, 1, 4⟩⟩⟩ := by rfl
  have hvariable : readTerm .simplyTyped "λx: X. x" =
      .error ⟨.restricted .typeVariable, ⟨.typeVar, ['X'], ⟨4, 1, 5⟩⟩⟩ := by rfl
  exact ⟨error_at_first_bad_token (a := 3) (b := 13) hliteral nofun rfl,
    error_at_first_bad_token (a := 4) (b := 5) hvariable nofun rfl⟩

end PolyLambda
