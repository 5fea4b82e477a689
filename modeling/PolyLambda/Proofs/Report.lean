import PolyLambda.Proofs.Location
import PolyLambda.Proofs.Text.Lines

/-!
# Reports underline what they are about

A report quotes the line of the source where its diagnostic starts and puts carets below the
characters meant (`Diagnostic.report`).  It can be made whatever the range is: the line is there,
and neither the indent nor the row of carets has a negative length (`Diagnostic.report?_eq`).

Lines and columns are counted along the source, and lines are cut at its newlines.  The two meet
in `locate_lines`: a position is on the last line of the text before it.  Of two positions on one
line the text between them is part of that line (`exists_between`), which is what the carets of a
range that ends on its line are below.
-/

namespace PolyLambda

/-! ## Positions and lines -/

/-- A position inside a source is after some of its text. -/
theorem exists_before {source : Text} {pos : Int} (h : (locate source pos).inside = true) :
    ∃ before after : Text, source = before ++ after ∧ pos = before.length + 1 := by
  have hbounds : 1 ≤ pos ∧ pos ≤ source.chars.length + 1 := by
    refine Decidable.by_contra fun hnot => ?_
    simp only [locate, if_neg hnot] at h
    split at h <;> cases h
  rw [source.length_chars] at hbounds
  refine ⟨source.take (pos - 1).toNat, source.drop (pos - 1).toNat,
    (List.take_append_drop _ _).symm, ?_⟩
  rw [List.length_take]
  omega

/-- A position is on the last line of the text before it, after all of that line. -/
theorem locate_lines {before last : Text} {front : List Text}
    (h : before.lines = front ++ [last]) (after : Text) :
    locate (before ++ after) (before.length + 1) = ⟨front.length + 1, last.length + 1, true⟩ := by
  have hlocate := locate_length (before.chars_append after)
  obtain ⟨hline, hcolumn⟩ := Text.after_lines h
  rw [Text.length_chars] at hlocate
  rw [hlocate, hline, hcolumn]

/-- The line of a position is one of the lines of the source. -/
theorem exists_line {source : Text} {pos : Int} (h : (locate source pos).inside = true) :
    1 ≤ (locate source pos).line ∧ 1 ≤ (locate source pos).column ∧
      ∃ line, source.lines[(locate source pos).line - 1]? = some line := by
  obtain ⟨before, after, rfl, rfl⟩ := exists_before h
  obtain ⟨front, last, hbefore⟩ := before.exists_lines_eq
  obtain ⟨first, more, -, hlines⟩ := Text.exists_lines_append hbefore after
  rw [locate_lines hbefore, hlines]
  refine ⟨Nat.le_add_left .., Nat.le_add_left .., last ++ first, ?_⟩
  rw [Nat.add_sub_cancel, List.getElem?_append_right (Nat.le_refl _), Nat.sub_self]
  rfl

/-- The text between two positions on one line goes on the line of the first. -/
theorem exists_lines_between {before mid after : Text}
    (h : (locate (before ++ mid ++ after) ((before ++ mid).length + 1)).line =
      (locate (before ++ mid ++ after) (before.length + 1)).line) :
    ∃ front last, before.lines = front ++ [last] ∧
      (before ++ mid).lines = front ++ [last ++ mid] := by
  obtain ⟨front, last, hbefore⟩ := before.exists_lines_eq
  obtain ⟨piece, more, hmid, hupto⟩ := Text.exists_lines_append hbefore mid
  -- Each newline between the positions would put the later one on a later line.
  have hmore : more = [] := by
    obtain ⟨front', last', hupto'⟩ := (before ++ mid).exists_lines_eq
    rw [locate_lines hupto', List.append_assoc, locate_lines hbefore] at h
    have hfront : front'.length + 1 = front.length + 1 := h
    have hlength := congrArg List.length (hupto'.symm.trans hupto)
    simp only [List.length_append, List.length_cons, List.length_nil] at hlength
    exact List.eq_nil_of_length_eq_zero (by omega)
  rw [hmore, Text.lines_eq_pieces] at hmid
  rw [hmore, ← eq_of_pieces_eq_singleton hmid] at hupto
  exact ⟨front, last, hbefore, hupto⟩

/-- Of two positions on one line, the text between them is part of that line, from the column of
the one to the column of the other. -/
theorem exists_between {source : Text} {a b : Int} (hab : a ≤ b)
    (ha : (locate source a).inside = true) (hb : (locate source b).inside = true)
    (hline : (locate source b).line = (locate source a).line) :
    ∃ before mid after last first : Text, ∃ front more,
      source = before ++ (mid ++ after) ∧
      a = before.length + 1 ∧ b = before.length + mid.length + 1 ∧
      source.lines = front ++ (last ++ (mid ++ first)) :: more ∧
      locate source a = ⟨front.length + 1, last.length + 1, true⟩ ∧
      locate source b = ⟨front.length + 1, last.length + mid.length + 1, true⟩ := by
  obtain ⟨before, rest, hsource, rfl⟩ := exists_before ha
  obtain ⟨upto, after, rfl, rfl⟩ := exists_before hb
  -- The text before the later position starts with the text before the earlier one.
  obtain ⟨mid, rfl⟩ : before <+: upto :=
    List.prefix_of_prefix_length_le ⟨rest, hsource.symm⟩ (List.prefix_append ..) (by omega)
  obtain ⟨front, last, hbefore, hupto⟩ := exists_lines_between hline
  obtain ⟨first, more, -, hlines⟩ := Text.exists_lines_append hupto after
  have hlocate := locate_lines hbefore (mid ++ after)
  have hlocate' := locate_lines hupto after
  have hassoc : before ++ mid ++ after = before ++ (mid ++ after) := List.append_assoc ..
  have hlength : (last ++ mid).length = last.length + mid.length := List.length_append
  rw [← hassoc] at hlocate
  rw [hlength] at hlocate'
  refine ⟨before, mid, after, last, first, front, more, hassoc, rfl, ?_, ?_, hlocate, hlocate'⟩
  · rw [List.length_append]
    rfl
  · rw [hlines]
    exact congrArg (front ++ · :: more) (List.append_assoc ..)

/-- A range that ends on the line where it starts, after its start. -/
def Range.EndsOnLine (source : Text) (r : Range) : Prop :=
  r.start < r.stop ∧ (locate source r.stop).inside = true ∧
    (locate source r.stop).line = (locate source r.start).line

namespace Diagnostic

/-! ## Carets -/

/-- **The carets are below the range**: they are as many as its characters, which are those of the
line from its column on. -/
theorem caretCount_of_endsOnLine {source : Text} {r : Range} (h : r.EndsOnLine source)
    {line column : Nat} (hstart : locate source r.start = ⟨line, column, true⟩) :
    ∃ text, source.lines[line - 1]? = some text ∧
      (caretCount (locate source r.start) (locate source r.stop) : Int) = r.stop - r.start ∧
      text.extract (column - 1) (column - 1 + (r.stop - r.start).toNat) = source.within r := by
  obtain ⟨hlt, hstop, hline⟩ := h
  have hinside : (locate source r.start).inside = true := by rw [hstart]
  obtain ⟨before, mid, after, last, first, front, more, rfl, ha, hb, hlines, hlocate, hlocate'⟩ :=
    exists_between (Int.le_of_lt hlt) hinside hstop hline
  obtain ⟨rfl, rfl, -⟩ := Location.mk.inj (hstart.symm.trans hlocate)
  have hwidth : (r.stop - r.start).toNat = mid.length := by omega
  have hcarets : caretCount ⟨front.length + 1, last.length + 1, true⟩
      ⟨front.length + 1, last.length + mid.length + 1, true⟩ = mid.length := by
    have hwide : last.length + 1 < last.length + mid.length + 1 := by omega
    rw [caretCount, if_pos ⟨rfl, rfl, hwide⟩]
    show last.length + mid.length + 1 - (last.length + 1) = mid.length
    omega
  have hfrom : (r.start - 1).toNat = before.length := by omega
  have hto : (r.stop - 1).toNat = before.length + mid.length := by omega
  refine ⟨last ++ (mid ++ first), ?_, ?_, ?_⟩
  · rw [hlines, Nat.add_sub_cancel, List.getElem?_append_right (Nat.le_refl _), Nat.sub_self]
    rfl
  · rw [hlocate, hlocate', hcarets]
    omega
  · rw [hwidth, Nat.add_sub_cancel, Text.within, hfrom, hto]
    exact (extract_append last mid first).trans (extract_append before mid after).symm

/-- Any other range has one caret. -/
theorem caretCount_of_not_endsOnLine {source : Text} {r : Range} (h : ¬ r.EndsOnLine source)
    (hstart : (locate source r.start).inside = true) :
    caretCount (locate source r.start) (locate source r.stop) = 1 := by
  refine if_neg fun hwide => ?_
  obtain ⟨hstop, hline, hcolumn⟩ := hwide
  have hle : r.stop ≤ r.start := Int.not_lt.mp fun hlt => h ⟨hlt, hstop, hline⟩
  obtain ⟨_, mid, _, last, _, _, _, -, -, -, -, hlocate, hlocate'⟩ :=
    exists_between hle hstop hstart hline.symm
  rw [hlocate, hlocate'] at hcolumn
  have hbefore : last.length + mid.length + 1 < last.length + 1 := hcolumn
  omega

/-! ## Making a report -/

/-- The first line of a report, up to the end of the message. -/
def heading (trace? : Option Text) (start : Location) (d : Diagnostic) : Text :=
  Text.ofNat start.line ++ ":" ++ Text.ofNat start.column ++ ": " ++ d.short trace?

/-- A character so many times, unless the number is negative. -/
def repeated? (n : Int) (c : Char) : Option Text :=
  if n < 0 then none else some (.repeated n.toNat c)

/-- The member of a list at an index, unless the index is negative or the list has ended. -/
def atIndex? (ts : List Text) (i : Int) : Option Text := if i < 0 then none else ts[i.toNat]?

/-- A report as `report` makes it, but failing where a line is taken that the source does not
have or a character is repeated a negative number of times. -/
def report? (trace? : Option Text) (source : Text) (d : Diagnostic) : Option Text :=
  let start := locate source d.range.start
  let stop := locate source d.range.stop
  if start.inside then do
    let line ← atIndex? source.lines (start.line - 1)
    let indent ← repeated? (start.column - 1) ' '
    let carets ← repeated?
      (if stop.inside ∧ stop.line = start.line ∧ start.column < stop.column then
        stop.column - start.column
      else 1) '^'
    return d.heading trace? start ++ "\n    " ++ line ++ "\n    " ++ indent ++ carets
  else some (d.short trace?)

theorem repeated?_natCast (n : Nat) (c : Char) : repeated? n c = some (.repeated n c) := by
  rw [repeated?, if_neg (Int.not_lt.mpr (Int.natCast_nonneg n)), Int.toNat_natCast]

theorem atIndex?_natCast (ts : List Text) (i : Nat) : atIndex? ts i = ts[i]? := by
  rw [atIndex?, if_neg (Int.not_lt.mpr (Int.natCast_nonneg i)), Int.toNat_natCast]

theorem natCast_caretCount (start stop : Location) : (caretCount start stop : Int) =
    if stop.inside ∧ stop.line = start.line ∧ start.column < stop.column then
      (stop.column : Int) - start.column
    else 1 := by
  unfold caretCount
  split
  · next hwide =>
    have hcolumn := hwide.2.2
    omega
  · rfl

/-- The report of a diagnostic that points into its source. -/
theorem report_of_inside {trace? : Option Text} {source : Text} {d : Diagnostic}
    {start : Location}
    (hstart : locate source d.range.start = start) (h : start.inside = true) {line : Text}
    (hline : source.lines[start.line - 1]? = some line) :
    d.report trace? source = d.heading trace? start ++ "\n    " ++ line ++
      "\n    " ++ Text.repeated (start.column - 1) ' ' ++
      Text.repeated (caretCount start (locate source d.range.stop)) '^' := by
  rw [report, hstart, if_pos h, List.getD_eq_getElem?_getD, hline]
  rfl

/-- **A report can always be made.** -/
theorem report?_eq (trace? : Option Text) (source : Text) (d : Diagnostic) :
    d.report? trace? source = some (d.report trace? source) := by
  unfold report?
  generalize hstart : locate source d.range.start = start
  by_cases h : start.inside = true
  · obtain ⟨hline, hcolumn, line, hsome⟩ := exists_line (hstart.symm ▸ h)
    rw [hstart] at hline hcolumn hsome
    have hindex : (start.line : Int) - 1 = (start.line - 1 : Nat) := by omega
    have hindent : (start.column : Int) - 1 = (start.column - 1 : Nat) := by omega
    simp only [if_pos h, hindex, hindent, ← natCast_caretCount, atIndex?_natCast,
      repeated?_natCast, hsome, report_of_inside hstart h hsome]
    rfl
  · simp only [report, hstart, if_neg h]

/-! ## The lines of a report -/

/-- What a report adds to its heading are two lines: the one it quotes and the one below. -/
theorem byteLines_excerpt (heading : Text) {line : Text} (hline : 0x0A ∉ line.bytes)
    (indent carets : Nat) :
    byteLines (heading ++ "\n    " ++ line ++ "\n    " ++ Text.repeated indent ' ' ++
        Text.repeated carets '^').bytes =
      byteLines heading.bytes ++ [List.replicate 4 0x20 ++ line.bytes,
        List.replicate (4 + indent) 0x20 ++ List.replicate carets 0x5E] := by
  have hbreak : (Text.ofString "\n    ").bytes = 0x0A :: List.replicate 4 0x20 := by decide
  have hindent : (Text.repeated indent ' ').bytes = List.replicate indent 0x20 :=
    Text.bytes_repeated (by decide) indent
  have hcarets : (Text.repeated carets '^').bytes = List.replicate carets 0x5E :=
    Text.bytes_repeated (by decide) carets
  have hbytes : (heading ++ "\n    " ++ line ++ "\n    " ++ Text.repeated indent ' ' ++
      Text.repeated carets '^').bytes = heading.bytes ++ 0x0A ::
        (List.replicate 4 0x20 ++ line.bytes ++ 0x0A ::
          (List.replicate (4 + indent) 0x20 ++ List.replicate carets 0x5E)) := by
    rw [← List.replicate_append_replicate]
    simp only [Text.bytes_append, hbreak, hindent, hcarets, List.append_assoc, List.cons_append]
  have hquoted : (0x0A : UInt8) ∉ List.replicate 4 0x20 ++ line.bytes := by
    simp [hline]
  have hbelow : (0x0A : UInt8) ∉
      List.replicate (4 + indent) 0x20 ++ List.replicate carets 0x5E := by
    simp
  rw [hbytes, byteLines, pieces_append_sep, pieces_append_sep, pieces_of_not_mem hquoted,
    pieces_of_not_mem hbelow]
  rfl

end Diagnostic

/-- **A report can be made for every range, and it underlines the range.**  The last two lines are
the line of the source where the range starts, byte for byte, and a row of carets from the column
of the start on.  If the range ends on that line there is a caret for each of its characters, and
the characters above them are those of the range; otherwise there is one caret. -/
theorem report_underlines_range (trace? : Option Text) (bytes : List UInt8) (d : Diagnostic) :
    d.report? trace? (.decode bytes) = some (d.report trace? (.decode bytes)) ∧
      ∀ line column, locate (.decode bytes) d.range.start = ⟨line, column, true⟩ →
        ∃ piece carets, 1 ≤ line ∧ 1 ≤ column ∧ (byteLines bytes)[line - 1]? = some piece ∧
          byteLines (d.report trace? (.decode bytes)).bytes =
            byteLines (d.heading trace? ⟨line, column, true⟩).bytes ++
              [List.replicate 4 0x20 ++ piece,
                List.replicate (4 + (column - 1)) 0x20 ++ List.replicate carets 0x5E] ∧
          (d.range.EndsOnLine (.decode bytes) →
            (carets : Int) = d.range.stop - d.range.start ∧
              (Text.decode piece).extract (column - 1) (column - 1 + carets) =
                (Text.decode bytes).within d.range) ∧
          (¬ d.range.EndsOnLine (.decode bytes) → carets = 1) := by
  refine ⟨d.report?_eq trace? (.decode bytes), fun line column hstart => ?_⟩
  have hinside : (locate (.decode bytes) d.range.start).inside = true := by rw [hstart]
  obtain ⟨hline, hcolumn, text, hsome⟩ := exists_line hinside
  rw [hstart] at hline hcolumn hsome
  have hpiece := hsome
  rw [Text.lines_decode, List.getElem?_map, Option.map_eq_some_iff] at hpiece
  obtain ⟨piece, hpiece, rfl⟩ := hpiece
  refine ⟨piece, Diagnostic.caretCount (locate (.decode bytes) d.range.start)
    (locate (.decode bytes) d.range.stop), hline, hcolumn, hpiece, ?_, ?_, ?_⟩
  · have hnot : 0x0A ∉ (Text.decode piece).bytes := by
      rw [Text.bytes_decode]
      exact not_mem_of_mem_pieces (List.mem_of_getElem? hpiece)
    rw [Diagnostic.report_of_inside hstart rfl hsome, Diagnostic.byteLines_excerpt _ hnot,
      Text.bytes_decode, hstart]
  · intro hends
    obtain ⟨text, hsome', hcarets, hextract⟩ := Diagnostic.caretCount_of_endsOnLine hends hstart
    obtain rfl := Option.some.inj (hsome.symm.trans hsome')
    rw [← hcarets] at hextract
    exact ⟨hcarets, hextract⟩
  · intro hends
    exact Diagnostic.caretCount_of_not_endsOnLine hends hinside

/-- The second line is quoted with its stray byte, and three of its characters are underlined. -/
theorem report_underlines_range_stray_byte :
    let bytes : List UInt8 := [0x66, 0x0A, 0x67, 0x20, 0x78, 0xFF, 0x79]
    let d : Diagnostic := .undefined "x" ⟨5, 8⟩
    ∃ heading, byteLines (d.report none (.decode bytes)).bytes =
      byteLines heading ++ [[0x20, 0x20, 0x20, 0x20, 0x67, 0x20, 0x78, 0xFF, 0x79],
        [0x20, 0x20, 0x20, 0x20, 0x20, 0x20, 0x5E, 0x5E, 0x5E]] := by
  obtain ⟨-, h⟩ := report_underlines_range none [0x66, 0x0A, 0x67, 0x20, 0x78, 0xFF, 0x79]
    (.undefined "x" ⟨5, 8⟩)
  obtain ⟨piece, carets, -, -, hpiece, hlines, hends, -⟩ := h 2 3 (by decide)
  have hon : Range.EndsOnLine (.decode [0x66, 0x0A, 0x67, 0x20, 0x78, 0xFF, 0x79]) ⟨5, 8⟩ :=
    ⟨by decide, by decide, by decide⟩
  obtain ⟨hcarets, -⟩ := hends hon
  obtain rfl : [0x67, 0x20, 0x78, 0xFF, 0x79] = piece := Option.some.inj hpiece
  obtain rfl : carets = 3 := by
    have hthree : (carets : Int) = 3 := hcarets
    omega
  exact ⟨_, hlines⟩

end PolyLambda
