import PolyLambda.Proofs.Location
import PolyLambda.Proofs.Token.Tiling

/-!
# Nothing of a source is lost

The tokens of a source and the gaps between them make up the source, from its first character
to its last.  `Tokens.Covers` says this in positions: every token is the characters at its
offsets, it stands on the line and in the column of its position, and from the end of a token
to the start of the next there is layout only.  It is read off the tiles of the source.
-/

namespace PolyLambda

/-- Where the last of the tokens ends; without tokens, the start of the source. -/
def endOf (ts : List Token) : Nat := (ts.getLast?.map Token.stop).getD 0

/-- What may follow the last token: layout in which the last comment may run to the end. -/
def FinalLayout (cs : List Char) : Prop :=
  ∃ gap rest, cs = gap ++ rest ∧ Layout gap ∧ OpenComment rest

/-- The tokens `ts` and the layout between them make up `source`. -/
structure Tokens.Covers (ts : Tokens) (source : Text) : Prop where
  /-- A token is not empty, and none but the last one is the end of the source. -/
  nonempty : ∀ t ∈ ts.tokens, t.kind ≠ .finish ∧ t.place.offset < t.stop
  /-- The end of the source is the last token, and it is empty. -/
  finish : ts.finish.kind = .finish ∧ ts.finish.place.offset = source.length ∧
    ts.finish.stop = source.length
  /-- A token is the characters at its offsets. -/
  text : ∀ t ∈ ts.toList, t.text = source.chars.extract t.place.offset t.stop
  /-- A token is on the line and in the column of its position. -/
  located : ∀ t ∈ ts.toList,
    locate source (t.place.offset + 1) = ⟨t.place.line, t.place.column, true⟩
  /-- A token does not start before the ones in front of it have ended, and there is layout up to
  its start. -/
  gap : ∀ before t after, ts.tokens = before ++ t :: after → endOf before ≤ t.place.offset ∧
    Layout (source.chars.extract (endOf before) t.place.offset)
  /-- After the last token there is layout up to the end. -/
  final : endOf ts.tokens ≤ source.length ∧
    FinalLayout (source.chars.extract (endOf ts.tokens) source.length)

theorem endOf_concat (ts : List Token) (t : Token) : endOf (ts ++ [t]) = t.stop := by
  simp [endOf]

/-- What is tiled ends with a token and layout after it. -/
theorem Tiles.exists_final {rest cs : List Char} {ts : List Token}
    (h : Tiles rest .start cs ts) :
    ∃ used gap, cs = used ++ gap ∧ used.length = endOf ts ∧ Layout gap := by
  rcases List.eq_nil_or_concat ts with rfl | ⟨ts, t, rfl⟩
  · cases h with
    | gap hgap => exact ⟨[], cs, rfl, rfl, hgap⟩
  · rw [List.concat_eq_append] at h ⊢
    obtain ⟨before, after, rfl, hplace, -, -, hafter⟩ := h.split
    cases hafter with
    | gap hgap =>
      refine ⟨before ++ t.text, after, (List.append_assoc ..).symm, ?_, hgap⟩
      rw [endOf_concat, Token.stop, t.offset_of_place hplace, List.length_append]

/-- Up to the start of a token there is layout only. -/
theorem layout_before {cs : List Char} {before after : List Token} {t : Token}
    (h : (scan cs).tokens = before ++ t :: after) :
    endOf before ≤ t.place.offset ∧ Layout (cs.extract (endOf before) t.place.offset) := by
  obtain ⟨front, back, rfl, hplace, hfront, -⟩ := exists_front h
  obtain ⟨head, gap, rfl, hend, hgap⟩ := hfront.exists_final
  have hoffset := t.offset_of_place hplace
  rw [List.length_append] at hoffset
  refine ⟨by omega, ?_⟩
  rw [hoffset, ← hend, List.append_assoc, extract_append]
  exact hgap

/-- After the last token there is layout only. -/
theorem layout_after (cs : List Char) : endOf (scan cs).tokens ≤ cs.length ∧
    FinalLayout (cs.extract (endOf (scan cs).tokens) cs.length) := by
  obtain ⟨used, rest, hcs, hopen, htiles⟩ := exists_tiles .start cs
  rw [← scan] at htiles
  obtain ⟨head, gap, rfl, hend, hgap⟩ := htiles.exists_final
  have hlength : cs.length = head.length + (gap ++ rest).length := by
    rw [hcs, List.append_assoc, List.length_append]
  have hfinal : cs.extract head.length cs.length = gap ++ rest := by
    have hextract := extract_append head (gap ++ rest) []
    rwa [List.append_nil, ← List.append_assoc, ← hcs, ← hlength] at hextract
  rw [← hend, hfinal]
  exact ⟨by omega, gap, rest, rfl, hgap, hopen⟩

theorem exists_lexeme_of_mem_scan {cs : List Char} {t : Token} (h : t ∈ (scan cs).tokens) :
    ∃ rest, Lexeme t.kind t.text rest := by
  obtain ⟨before, after, htokens⟩ := List.append_of_mem h
  obtain ⟨_, back, -, -, -, hlexeme⟩ := exists_front htokens
  exact ⟨back, hlexeme⟩

theorem Token.StandsIn.text_eq {t : Token} {source : Text} (h : t.StandsIn source) :
    t.text = source.chars.extract t.place.offset t.stop := by
  obtain ⟨before, rest, hchars, hplace⟩ := h
  rw [hchars, Token.stop, t.offset_of_place hplace, extract_append]

theorem standsIn_of_mem_toList {source : Text} {t : Token} (h : t ∈ (scan source.chars).toList) :
    t.StandsIn source := by
  rcases List.mem_append.mp h with h | h
  · exact standsIn_of_mem_scan h
  · rw [List.mem_singleton.mp h]
    exact standsIn_finish_scan source

/-- **Tokens and layout make up the source.**  Scanning gives tokens that are not empty and after
them the end of the source, at its last position.  They are in order, each of them is the
characters at its offsets and on the line and in the column of its position, and between them
there is layout only. -/
theorem tokens_cover_source (source : Text) : (scan source.chars).Covers source where
  nonempty t ht := by
    obtain ⟨rest, hlexeme⟩ := exists_lexeme_of_mem_scan ht
    have hlength := List.length_pos_iff.mpr hlexeme.ne_nil
    refine ⟨hlexeme.ne_finish, ?_⟩
    rw [Token.stop]
    omega
  finish := by
    refine ⟨?_, offset_finish_scan source, stop_finish_scan source⟩
    rw [scan, finish_scanAfter]
    rfl
  text t ht := (standsIn_of_mem_toList ht).text_eq
  located t ht := (standsIn_of_mem_toList ht).locate_start
  gap before t after htokens := layout_before htokens
  final := source.length_chars ▸ layout_after source.chars

/-- A `-` after a comment starts an arrow, one before a digit a literal, and two of them a comment
that runs to the end. -/
theorem tokens_cover_source_minus :
    scan (Text.ofString "x --\n->-5--").chars =
        ⟨[⟨.ident, ['x'], ⟨0, 1, 1⟩⟩, ⟨.arrow, ['-', '>'], ⟨5, 2, 1⟩⟩,
          ⟨.int, ['-', '5'], ⟨7, 2, 3⟩⟩], .atEnd ⟨11, 2, 7⟩⟩ ∧
      (locate "x --\n->-5--" 6).line = 2 ∧ Layout " --\n".toList ∧ Layout [] ∧
      FinalLayout "--".toList := by
  have hcovers := tokens_cover_source "x --\n->-5--"
  have hscan : scan (Text.ofString "x --\n->-5--").chars =
      ⟨[⟨.ident, ['x'], ⟨0, 1, 1⟩⟩, ⟨.arrow, ['-', '>'], ⟨5, 2, 1⟩⟩, ⟨.int, ['-', '5'], ⟨7, 2, 3⟩⟩],
        .atEnd ⟨11, 2, 7⟩⟩ := by rfl
  rw [hscan] at hcovers
  refine ⟨hscan, ?_, (hcovers.gap [_] _ _ rfl).2, (hcovers.gap [_, _] _ _ rfl).2, hcovers.final.2⟩
  exact congrArg Location.line
    (hcovers.located ⟨.arrow, ['-', '>'], ⟨5, 2, 1⟩⟩ (List.mem_cons_of_mem _ List.mem_cons_self))

end PolyLambda
