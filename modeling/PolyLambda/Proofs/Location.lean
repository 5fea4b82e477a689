import PolyLambda.Proofs.Check
import PolyLambda.Proofs.Grammar.Ranges
import PolyLambda.Proofs.Incomplete

/-!
# Errors lie in their source

Whatever a check reports points into the source that was checked.

* A syntax error lies at a token, or at the end of the source.  Both stand where their place
  says (`Token.StandsIn`), and lines and columns are counted alike by the scanner and by the
  reports; so the line and column that the error carries are those of its position.
* A type error lies at a part of the term that was read (`exists_part_of_infer`), and the
  ranges of a term nest.

Only the end of a source has no characters, so only an error there has an empty range.
-/

namespace PolyLambda

/-! ## Positions -/

/-- A position inside a source is at the place reached by walking up to it. -/
theorem locate_length {source : Text} {before rest : List Char}
    (h : source.chars = before ++ rest) :
    locate source (before.length + 1) =
      ⟨(Place.start.after before).line, (Place.start.after before).column, true⟩ := by
  have hpos : ¬ (before.length : Int) + 1 = 0 := by omega
  have hinside : 1 ≤ (before.length : Int) + 1 ∧
      (before.length : Int) + 1 ≤ source.chars.length + 1 := by
    rw [h, List.length_append]
    omega
  have htake : source.chars.take ((before.length : Int) + 1 - 1).toNat = before := by
    rw [Int.add_sub_cancel, Int.toNat_natCast, h, List.take_left]
  simp only [locate, if_neg hpos, if_pos hinside, htake]

theorem locate_inside {source : Text} {pos : Int} (hstart : 1 ≤ pos)
    (hstop : pos ≤ source.length + 1) : (locate source pos).inside = true := by
  rw [← source.length_chars] at hstop
  obtain ⟨n, rfl⟩ : ∃ n : Nat, pos = n + 1 := ⟨(pos - 1).toNat, by omega⟩
  have hn : (source.chars.take n).length = n := by
    rw [List.length_take]
    omega
  have hlocate := locate_length (List.take_append_drop n source.chars).symm
  rw [hn] at hlocate
  rw [hlocate]

theorem extract_append {α : Type} (before as after : List α) :
    (before ++ (as ++ after)).extract before.length (before.length + as.length) = as := by
  simp [List.extract]

/-- What a range covers of a source. -/
def Text.within (source : Text) (r : Range) : Text :=
  source.extract (r.start - 1).toNat (r.stop - 1).toNat

/-- The characters of a token stand in a source, and its place is where they start. -/
def Token.StandsIn (t : Token) (source : Text) : Prop :=
  ∃ before rest, source.chars = before ++ (t.text ++ rest) ∧ t.place = Place.start.after before

namespace Token.StandsIn

variable {t : Token} {source : Text}

theorem range_bounds (h : t.StandsIn source) :
    1 ≤ t.range.start ∧ t.range.start ≤ t.range.stop ∧ t.range.stop ≤ source.length + 1 := by
  obtain ⟨before, rest, hchars, hplace⟩ := h
  have hlength := congrArg List.length hchars
  rw [source.length_chars, List.length_append, List.length_append] at hlength
  have hoffset := congrArg Place.offset hplace
  rw [Place.offset_after, show Place.start.offset = 0 from rfl] at hoffset
  show 1 ≤ (t.place.offset : Int) + 1 ∧
    (t.place.offset : Int) + 1 ≤ (t.place.offset + t.text.length : Nat) + 1 ∧
    ((t.place.offset + t.text.length : Nat) : Int) + 1 ≤ source.length + 1
  omega

/-- **Scanner and reports agree**: the position of a token is at the line and column that the
scanner has counted. -/
theorem locate_start (h : t.StandsIn source) :
    locate source t.range.start = ⟨t.place.line, t.place.column, true⟩ := by
  obtain ⟨before, rest, hchars, hplace⟩ := h
  have hoffset := congrArg Place.offset hplace
  rw [Place.offset_after, show Place.start.offset = 0 from rfl, Nat.zero_add] at hoffset
  show locate source ((t.place.offset : Int) + 1) = _
  rw [hoffset, locate_length hchars, hplace]

end Token.StandsIn

/-! ## Syntax errors -/

theorem standsIn_of_mem_scan {source : Text} {t : Token} (ht : t ∈ (scan source.chars).tokens) :
    t.StandsIn source := ((laidOut_scan source.chars).exists_of_mem ht).2

theorem standsIn_finish_scan (source : Text) : (scan source.chars).finish.StandsIn source := by
  rw [scan, finish_scanAfter]
  exact ⟨source.chars, [], (List.append_nil _).symm, rfl⟩

/-- A syntax error stands in the source, and where its range is empty it lies at the end. -/
theorem readTerm_error_standsIn {c : Calculus} {source : Text} {e : ParseError}
    (h : readTerm c source = .error e) :
    e.token.StandsIn source ∧
      (e.range.start = e.range.stop → e.token = (scan source.chars).finish) := by
  rcases readTerm_error_token h with he | ⟨pre, post, htokens, -⟩
  · exact ⟨he ▸ standsIn_finish_scan source, fun _ => he⟩
  · have hmem : e.token ∈ (scan source.chars).tokens := by
      rw [htokens]
      exact List.mem_append_right _ List.mem_cons_self
    refine ⟨standsIn_of_mem_scan hmem, fun hempty => ?_⟩
    have hlt := (inOrder_scan source.chars).nonempty _ hmem
    exact absurd hempty (Int.ne_of_lt hlt)

/-! ## Type errors -/

/-- What a type error is about is a part of the term, whatever the context is. -/
theorem exists_part_of_infer {Γ : Context} {t : Term} {e : TypeError} (h : infer Γ t = .error e)
    {d : Diagnostic} (hd : e.diagnostic? = some d) : ∃ u ∈ t.parts, d.range = u.range := by
  induction Γ, t using walk_induction with
  | int Γ r n => cases h
  | var Γ r x =>
    rw [infer_var] at h
    split at h
    · cases h
    · obtain rfl := Except.error.inj h
      obtain rfl := Option.some.inj hd
      exact ⟨.var r x, Term.mem_parts_self _, rfl⟩
  | app Γ r r' x a body arg ihArg ihBody =>
    have harg : ∀ u ∈ arg.parts, u ∈ (Term.app r (.abs r' x a body) arg).parts :=
      fun u hu => List.mem_cons_of_mem _ (List.mem_append_right _ hu)
    rw [infer_app_abs, bind_eq_error] at h
    rcases h with h | ⟨b, hb, h⟩
    · obtain ⟨u, hu, hrange⟩ := ihArg h
      exact ⟨u, harg u hu, hrange⟩
    · split at h
      · obtain ⟨u, hu, hrange⟩ := ihBody h
        have habs : u ∈ (Term.abs r' x a body).parts := List.mem_cons_of_mem _ hu
        exact ⟨u, List.mem_cons_of_mem _ (List.mem_append_left _ habs), hrange⟩
      · obtain rfl := Except.error.inj h
        obtain rfl := Option.some.inj hd
        exact ⟨arg, harg arg arg.mem_parts_self, rfl⟩
  | stuck Γ r fn arg hfn =>
    rw [infer_app_stuck hfn] at h
    split at h
    · obtain rfl := Except.error.inj h
      cases hd
    · obtain rfl := Except.error.inj h
      obtain rfl := Option.some.inj hd
      have hmem := List.mem_append_left arg.parts fn.mem_parts_self
      exact ⟨fn, List.mem_cons_of_mem _ hmem, rfl⟩
  | abs Γ r x a body ih =>
    rw [infer_abs, bind_eq_error] at h
    rcases h with h | ⟨b, -, h⟩
    · obtain ⟨u, hu, hrange⟩ := ih h
      exact ⟨u, List.mem_cons_of_mem _ hu, hrange⟩
    · exact absurd h pure_ne_error
  | tabs Γ r x k body ih =>
    rw [infer_tabs, bind_eq_error] at h
    rcases h with h | ⟨b, -, h⟩
    · obtain ⟨u, hu, hrange⟩ := ih h
      exact ⟨u, List.mem_cons_of_mem _ hu, hrange⟩
    · exact absurd h pure_ne_error
  | tapp Γ r t s ih =>
    rw [infer_tapp, bind_eq_error] at h
    rcases h with h | ⟨a, -, h⟩
    · obtain ⟨u, hu, hrange⟩ := ih h
      exact ⟨u, List.mem_cons_of_mem _ hu, hrange⟩
    · split at h
      · split at h
        · exact absurd h pure_ne_error
        · obtain rfl := Except.error.inj h
          cases hd
      · obtain rfl := Except.error.inj h
        obtain rfl := Option.some.inj hd
        exact ⟨t, List.mem_cons_of_mem _ t.mem_parts_self, rfl⟩
  | gap Γ =>
    obtain rfl := Except.error.inj h
    cases hd

/-- The parts of a term that was read have ranges in the source, and none is empty. -/
theorem readTerm_part_bounds {c : Calculus} {source : Text} {t u : Term}
    (h : readTerm c source = .ok t) (hu : u ∈ t.parts) :
    1 ≤ u.range.start ∧ u.range.start < u.range.stop ∧ u.range.stop ≤ source.length + 1 := by
  obtain ⟨hder, -, -⟩ := Tokens.term?_eq_ok.mp h
  obtain ⟨⟨v, hv, hstart⟩, w, hw, hstop⟩ := hder.range_tokens
  have hv := (standsIn_of_mem_scan hv).range_bounds
  have hw := (standsIn_of_mem_scan hw).range_bounds
  obtain ⟨hnests, hlower, hupper⟩ := (hder.nests (inOrder_scan _)).of_mem_parts hu
  have hlt := hnests.start_lt_stop
  omega

/-! ## Both -/

/-- **Errors lie in their source.**  What a check reports has a range within the source, from
a position that has a line and a column.  The range is empty only for a syntax error at the
end, and a syntax error carries the line and the column of its position. -/
theorem check_error_located {Γ : Context} {c : Calculus} {source : Text} {d : Diagnostic}
    (h : check Γ c source = .error (.diagnostic d)) :
    (1 ≤ d.range.start ∧ d.range.start ≤ d.range.stop ∧ d.range.stop ≤ source.length + 1) ∧
    (locate source d.range.start).inside = true ∧
    (d.range.start = d.range.stop → ∃ e, readTerm c source = .error e ∧ d = e.diagnostic ∧
      e.token = (scan source.chars).finish ∧ d.range.start = source.length + 1) ∧
    ∀ message line column r, d = .parse message line column r →
      (locate source d.range.start).line = line ∧
        (locate source d.range.start).column = column := by
  rcases check_eq_error.mp h with ⟨e, hread, hd⟩ | ⟨t, e, hread, he, hfailure⟩
  · obtain rfl := Failure.diagnostic.inj hd
    obtain ⟨hstands, hfinish⟩ := readTerm_error_standsIn hread
    have hlocate := hstands.locate_start
    show (1 ≤ e.token.range.start ∧ e.token.range.start ≤ e.token.range.stop ∧ _) ∧ _
    refine ⟨hstands.range_bounds, congrArg Location.inside hlocate, fun hempty => ?_, ?_⟩
    · refine ⟨e, hread, rfl, hfinish hempty, ?_⟩
      show (e.token.place.offset : Int) + 1 = source.length + 1
      rw [hfinish hempty, offset_finish_scan]
    · rintro message line column r hparse
      obtain ⟨-, rfl, rfl, -⟩ := Diagnostic.parse.inj hparse
      exact ⟨congrArg (fun l => (l.line : Int)) hlocate, congrArg (fun l => (l.column : Int)) hlocate⟩
  · have hd := TypeError.diagnostic?_of_failure hfailure
    obtain ⟨u, hu, hrange⟩ := exists_part_of_infer he hd
    obtain ⟨hstart, hlt, hstop⟩ := readTerm_part_bounds hread hu
    rw [hrange]
    refine ⟨⟨hstart, Int.le_of_lt hlt, hstop⟩, locate_inside hstart (by omega), ?_, ?_⟩
    · intro hempty
      exact absurd hempty (Int.ne_of_lt hlt)
    · rintro message line column r rfl
      cases e with
      | undefined | mismatch | notAbstraction | notTypeAbstraction | gap => cases hd

/-- After a comment with a byte that starts no character, a source that ends at an open
parenthesis is refused at its end, on the second line.  And `(λx: Int. x) y` is refused at
its last character. -/
theorem check_error_located_end :
    check [] .systemF (.decode [0x2D, 0x2D, 0xFF, 0x0A, 0x28]) =
        .error (.diagnostic (.parse "expected term, found end of input" 2 2 ⟨6, 6⟩)) ∧
      (locate (.decode [0x2D, 0x2D, 0xFF, 0x0A, 0x28]) 6).line = 2 ∧
      (locate (.decode [0x2D, 0x2D, 0xFF, 0x0A, 0x28]) 6).column = 2 ∧
      check [] .systemF "(λx: Int. x) y" = .error (.diagnostic (.undefined "y" ⟨14, 15⟩)) ∧
      (locate "(λx: Int. x) y" 14).inside = true := by
  have hparse : check [] .systemF (.decode [0x2D, 0x2D, 0xFF, 0x0A, 0x28]) =
      .error (.diagnostic (.parse "expected term, found end of input" 2 2 ⟨6, 6⟩)) := rfl
  have htype : check [] .systemF "(λx: Int. x) y" =
      .error (.diagnostic (.undefined "y" ⟨14, 15⟩)) := rfl
  obtain ⟨hline, hcolumn⟩ := (check_error_located hparse).2.2.2 _ _ _ _ rfl
  exact ⟨hparse, Int.ofNat.inj hline, Int.ofNat.inj hcolumn, htype,
    (check_error_located htype).2.1⟩

end PolyLambda
