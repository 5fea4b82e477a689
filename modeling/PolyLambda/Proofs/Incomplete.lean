import PolyLambda.Proofs.Grammar.Completion
import PolyLambda.Proofs.Text.Utf8

/-!
# Incomplete sources

A source is incomplete when the error in it lies at its end.  That is exact: there is more
text that makes a term of the source just when it is incomplete.

* An error at the end comes from a reading that ran out, and what was open there can be
  completed (`Reading.completable_term`).
* An error at a token is there whatever comes later (`Reading.decided_complete`).

The text is put on a new line, which leaves the tokens of the source as they are, and its
bytes the characters they are.
-/

namespace PolyLambda

theorem Text.length_chars (t : Text) : t.chars.length = t.length := List.length_map ..

theorem Text.chars_append_newline (t u : Text) :
    (t ++ "\n" ++ u).chars = t.chars ++ '\n' :: u.chars := by
  rw [chars_append, chars_append, List.append_assoc]
  rfl

/-! ## Errors at the end -/

/-- An error lies at the end of the source or at one of its tokens, and then nothing that
follows that token changes it. -/
theorem readTerm_error_token {c : Calculus} {source : Text} {e : ParseError}
    (h : readTerm c source = .error e) :
    e.token = (scan source.chars).finish ∨ ∃ pre post,
      (scan source.chars).tokens = pre ++ e.token :: post ∧
      ∀ finish post', Tokens.term? ⟨pre ++ e.token :: post', finish⟩ c = .error e :=
  Reading.decided_complete (Reading.decided_term _) h

theorem offset_finish_scan (source : Text) :
    (scan source.chars).finish.place.offset = source.length := by
  rw [scan, finish_scanAfter, ← source.length_chars]
  show (Place.start.after source.chars).offset = source.chars.length
  rw [Place.offset_after]
  exact Nat.zero_add _

theorem stop_finish_scan (source : Text) : (scan source.chars).finish.stop = source.length := by
  rw [Token.stop, offset_finish_scan, scan, finish_scanAfter]
  rfl

theorem offset_lt_of_mem_scan {source : Text} {t : Token} (h : t ∈ (scan source.chars).tokens) :
    t.place.offset < source.length := by
  have hlt := offset_lt_of_mem_scanAfter h
  rw [source.length_chars] at hlt
  exact Nat.zero_add source.length ▸ hlt

/-- The end of a source is none of its tokens. -/
theorem finish_not_mem_scan (source : Text) :
    (scan source.chars).finish ∉ (scan source.chars).tokens := by
  intro h
  have hlt := offset_lt_of_mem_scan h
  rw [offset_finish_scan] at hlt
  exact Nat.lt_irrefl _ hlt

theorem isIncomplete_iff_offset {e : ParseError} {source : Text} :
    e.isIncomplete source = true ↔ e.token.place.offset = source.length := by
  rw [ParseError.isIncomplete, decide_eq_true_eq]
  show (e.token.place.offset : Int) + 1 = source.length + 1 ↔ _
  omega

theorem isIncomplete_iff_token {c : Calculus} {source : Text} {e : ParseError}
    (h : readTerm c source = .error e) :
    e.isIncomplete source = true ↔ e.token = (scan source.chars).finish := by
  rw [isIncomplete_iff_offset]
  constructor
  · intro hoffset
    rcases readTerm_error_token h with he | ⟨pre, post, htokens, -⟩
    · exact he
    · have hmem : e.token ∈ (scan source.chars).tokens := by
        rw [htokens]
        exact List.mem_append_right _ List.mem_cons_self
      have hlt := offset_lt_of_mem_scan hmem
      omega
  · intro he
    rw [he, offset_finish_scan]

/-! ## More text -/

theorem scan_append_line (source rest : Text) :
    scan (source ++ "\n" ++ rest).chars = (scan source.chars).followedBy
      (scanAfter 0 (Place.start.after (source.chars ++ ['\n'])) rest.chars) := by
  rw [Text.chars_append_newline, scan_append_newline]

/-- What ran out is completed by some text. -/
theorem exists_continuation {c : Calculus} {source : Text} {e : ParseError}
    (h : readTerm c source = .error e) (he : e.token = (scan source.chars).finish) :
    ∃ rest t, readTerm c (source ++ "\n" ++ rest) = .ok t := by
  have hmem := finish_not_mem_scan source
  have hruns : ((scan source.chars).reading c).RunsOut
      (((scan source.chars).reading c).term (scan source.chars).tokens) := by
    rcases bind_eq_error.mp h with herr | ⟨⟨t, us⟩, hok, hleft⟩
    · exact ⟨e, herr, he⟩
    · -- a token left over is a token of the source
      cases us with
      | nil => exact absurd hleft pure_ne_error
      | cons u us =>
        obtain ⟨used, htokens, -⟩ := Reading.term_sound hok
        obtain rfl := Except.error.inj hleft
        rw [ParseError.token_unexpected] at he
        rw [← he, htokens] at hmem
        exact absurd (List.mem_append_right _ List.mem_cons_self) hmem
  obtain ⟨rest, hrest⟩ := Reading.completable_term hmem hruns
  obtain ⟨us, q, hus, t, _, ⟨used, hused, ⟨hder, hfits⟩, hsimple⟩, rfl⟩ :=
    hrest (Place.start.after (source.chars ++ ['\n'])) [] trivial
  refine ⟨rest, t, ?_⟩
  have htokens : (scan (source ++ "\n" ++ rest).chars).tokens = used := by
    rw [List.append_nil] at hus hused
    rw [scan_append_line, ← hused]
    show (scan source.chars).tokens ++ _ = _
    rw [hus]
    exact congrArg _ (List.append_nil us)
  rw [readTerm, Tokens.term?_eq_ok, htokens]
  exact ⟨hder, hfits, hsimple⟩

/-- An error at a token is not repaired by any text. -/
theorem no_continuation {c : Calculus} {source rest : Text} {e : ParseError} {t : Term}
    (h : readTerm c source = .error e) (hrest : readTerm c (source ++ "\n" ++ rest) = .ok t) :
    e.token = (scan source.chars).finish := by
  rcases readTerm_error_token h with he | ⟨pre, post, htokens, hpost⟩
  · exact he
  · rw [readTerm, scan_append_line, Tokens.followedBy, htokens, List.append_assoc, List.cons_append,
      hpost] at hrest
    cases hrest

theorem isIncomplete_iff_exists {c : Calculus} {source : Text} {e : ParseError}
    (h : readTerm c source = .error e) :
    e.isIncomplete source = true ↔ ∃ rest t, readTerm c (source ++ "\n" ++ rest) = .ok t := by
  rw [isIncomplete_iff_token h]
  exact ⟨exists_continuation h, fun ⟨_, _, hrest⟩ => no_continuation h hrest⟩

/-! ## Bytes -/

/-- A source is read as the characters that are seen in it. -/
theorem readTerm_ofChars (c : Calculus) (source rest : Text) :
    readTerm c (source ++ "\n" ++ .ofChars rest.chars) = readTerm c (source ++ "\n" ++ rest) := by
  rw [readTerm, readTerm, Text.chars_append_newline, Text.chars_append_newline, Text.chars_ofChars]

theorem decode_append_line (bytes rest : List UInt8) :
    Text.decode (bytes ++ 0x0A :: rest) = Text.decode bytes ++ "\n" ++ Text.decode rest := by
  rw [Text.decode_append_newline, List.append_assoc]
  rfl

/-- **Incompleteness is exact.**  Of a source that is no term, incompleteness says just that
some text on a new line makes a term of it, in the calculus it was read in.  This holds of
texts, and of sources and more text as bytes, well formed or not. -/
theorem incomplete_iff_continues :
    (∀ (c : Calculus) (source : Text) (e : ParseError), readTerm c source = .error e →
      (e.isIncomplete source = true ↔ ∃ rest t, readTerm c (source ++ "\n" ++ rest) = .ok t)) ∧
    (∀ (c : Calculus) (bytes : List UInt8) (e : ParseError),
      readTerm c (.decode bytes) = .error e →
      (e.isIncomplete (.decode bytes) = true ↔
        ∃ rest t, readTerm c (.decode (bytes ++ 0x0A :: rest)) = .ok t)) := by
  refine ⟨fun c source e h => isIncomplete_iff_exists h, fun c bytes e h => ?_⟩
  rw [isIncomplete_iff_exists h]
  constructor
  · rintro ⟨rest, t, hrest⟩
    refine ⟨(Text.ofChars rest.chars).bytes, t, ?_⟩
    rw [decode_append_line, Text.decode_bytes_ofChars, readTerm_ofChars, hrest]
  · rintro ⟨rest, t, hrest⟩
    rw [decode_append_line] at hrest
    exact ⟨_, t, hrest⟩

/-- A comment at the end, broken bytes in it included, does not hide what is missing, while a
lone `-` cannot become an arrow or a comment on the next line. -/
theorem incomplete_iff_continues_comment :
    (∃ rest t, readTerm .simplyTyped ("(λx: Int -- open" ++ "\n" ++ rest) = .ok t) ∧
      (¬ ∃ rest t, readTerm .systemF ("f -" ++ "\n" ++ rest) = .ok t) ∧
      ∃ rest t, readTerm .systemF (.decode ([0x28, 0x2D, 0x2D, 0xFF] ++ 0x0A :: rest)) = .ok t := by
  refine ⟨?_, fun h => ?_, ?_⟩
  · exact (incomplete_iff_continues.1 .simplyTyped "(λx: Int -- open"
      ⟨.expected .dot, .atEnd ⟨16, 1, 17⟩⟩ rfl).mp rfl
  · cases (incomplete_iff_continues.1 .systemF "f -"
      ⟨.illegal, ⟨.illegal, ['-'], ⟨2, 1, 3⟩⟩⟩ rfl).mpr h
  · exact (incomplete_iff_continues.2 .systemF [0x28, 0x2D, 0x2D, 0xFF]
      ⟨.expectedTerm, .atEnd ⟨4, 1, 5⟩⟩ rfl).mp rfl

end PolyLambda
