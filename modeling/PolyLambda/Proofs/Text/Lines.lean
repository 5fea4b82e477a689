import PolyLambda.Place
import PolyLambda.Proofs.Text.Utf8

/-!
# Lines

A sequence falls into pieces at a separator (`pieces`).  The lines of a text are its pieces at the
newlines, and so are those of a byte sequence.  Pieces of two sequences are joined where the
sequences meet (`pieces_append`).

* The lines of a decoded text are the decoded lines of its bytes (`Text.lines_decode`).
* The place after a text is on its last line, after all of that line's characters
  (`Text.after_lines`).
-/

namespace PolyLambda

section Pieces

variable {α : Type} [DecidableEq α] {sep : α}

/-- The pieces of a sequence between the places of `sep`; there is always at least one. -/
def pieces (sep : α) : List α → List (List α)
  | [] => [[]]
  | a :: rest =>
    if a = sep then [] :: pieces sep rest
    else
      match pieces sep rest with
      | [] => [[a]]
      | piece :: more => (a :: piece) :: more

theorem pieces_ne_nil (sep : α) (as : List α) : pieces sep as ≠ [] := by
  cases as with
  | nil => exact List.cons_ne_nil _ _
  | cons a as =>
    rw [pieces]
    split
    · exact List.cons_ne_nil _ _
    · split <;> exact List.cons_ne_nil _ _

theorem pieces_cons_sep (as : List α) : pieces sep (sep :: as) = [] :: pieces sep as := if_pos rfl

theorem pieces_cons {a : α} (ha : a ≠ sep) {as piece : List α} {more : List (List α)}
    (h : pieces sep as = piece :: more) : pieces sep (a :: as) = (a :: piece) :: more := by
  rw [pieces, if_neg ha, h]

/-- What the first element does to the pieces: a separator is a piece of its own before them, and
any other element joins the first piece, which may be the last one. -/
theorem pieces_cons_eq {a : α} {as last : List α} {front : List (List α)}
    (h : pieces sep (a :: as) = front ++ [last]) :
    (a = sep ∧ ∃ front', front = [] :: front' ∧ pieces sep as = front' ++ [last]) ∨
    (a ≠ sep ∧ ∃ last', front = [] ∧ last = a :: last' ∧ pieces sep as = [last']) ∨
    (a ≠ sep ∧ ∃ piece front', front = (a :: piece) :: front' ∧
      pieces sep as = piece :: front' ++ [last]) := by
  by_cases ha : a = sep
  · rw [ha, pieces_cons_sep] at h
    cases front with
    | nil => exact absurd (List.cons.inj h).2 (pieces_ne_nil sep as)
    | cons piece front =>
      obtain ⟨rfl, hrest⟩ := List.cons.inj h
      exact .inl ⟨ha, front, rfl, hrest⟩
  · obtain ⟨piece, rest, hpieces⟩ := List.exists_cons_of_ne_nil (pieces_ne_nil sep as)
    rw [pieces_cons ha hpieces] at h
    cases front with
    | nil =>
      obtain ⟨rfl, rfl⟩ := List.cons.inj h
      exact .inr (.inl ⟨ha, piece, rfl, rfl, hpieces⟩)
    | cons _ front =>
      obtain ⟨rfl, rfl⟩ := List.cons.inj h
      exact .inr (.inr ⟨ha, piece, front, rfl, hpieces⟩)

theorem pieces_nil_eq {last : List α} {front : List (List α)}
    (h : pieces sep [] = front ++ [last]) : front = [] ∧ last = [] := by
  have hone : [] ++ [[]] = front ++ [last] := h
  obtain ⟨hfront, hlast⟩ := List.append_inj' hone rfl
  exact ⟨hfront.symm, (List.singleton_inj.mp hlast).symm⟩

/-- **Where two sequences meet, two pieces become one.** -/
theorem pieces_append {as bs last first : List α} {front more : List (List α)}
    (has : pieces sep as = front ++ [last]) (hbs : pieces sep bs = first :: more) :
    pieces sep (as ++ bs) = front ++ (last ++ first) :: more := by
  induction as generalizing front last with
  | nil =>
    obtain ⟨rfl, rfl⟩ := pieces_nil_eq has
    exact hbs
  | cons a as ih =>
    rcases pieces_cons_eq has with ⟨rfl, front', rfl, hrest⟩ | ⟨ha, last', rfl, rfl, hrest⟩ |
      ⟨ha, piece, front', rfl, hrest⟩
    · rw [List.cons_append, pieces_cons_sep, ih hrest]
      rfl
    · have hjoined := ih (show pieces sep as = [] ++ [last'] from hrest)
      exact pieces_cons ha hjoined
    · exact pieces_cons ha (ih hrest)

theorem exists_pieces_eq (sep : α) (as : List α) :
    ∃ front last, pieces sep as = front ++ [last] :=
  ⟨_, _, (List.dropLast_concat_getLast (pieces_ne_nil sep as)).symm⟩

/-- A separator ends one piece and begins the next. -/
theorem pieces_append_sep (as bs : List α) :
    pieces sep (as ++ sep :: bs) = pieces sep as ++ pieces sep bs := by
  obtain ⟨front, last, has⟩ := exists_pieces_eq sep as
  rw [pieces_append has (pieces_cons_sep bs), has, List.append_nil, List.append_assoc]
  rfl

theorem pieces_of_not_mem {as : List α} (h : sep ∉ as) : pieces sep as = [as] := by
  induction as with
  | nil => rfl
  | cons a as ih =>
    have ha : a ≠ sep := fun ha => h (ha ▸ List.mem_cons_self)
    exact pieces_cons ha (ih fun has => h (List.mem_cons_of_mem a has))

theorem not_mem_of_mem_pieces {as piece : List α} (h : piece ∈ pieces sep as) : sep ∉ piece := by
  induction as generalizing piece with
  | nil =>
    obtain rfl := List.mem_singleton.mp h
    exact List.not_mem_nil
  | cons a as ih =>
    by_cases ha : a = sep
    · rw [ha, pieces_cons_sep] at h
      cases List.mem_cons.mp h with
      | inl h => exact h ▸ List.not_mem_nil
      | inr h => exact ih h
    · obtain ⟨first, more, hpieces⟩ := List.exists_cons_of_ne_nil (pieces_ne_nil sep as)
      rw [pieces_cons ha hpieces] at h
      cases List.mem_cons.mp h with
      | inl h =>
        have hfirst : sep ∉ first := ih (hpieces ▸ List.mem_cons_self)
        intro hsep
        cases List.mem_cons.mp (h ▸ hsep) with
        | inl hsep => exact ha hsep.symm
        | inr hsep => exact hfirst hsep
      | inr h => exact ih (hpieces ▸ List.mem_cons_of_mem first h)

/-- A sequence of one piece is that piece. -/
theorem eq_of_pieces_eq_singleton {as piece : List α} (h : pieces sep as = [piece]) :
    as = piece := by
  have hnot : sep ∉ as := by
    intro hmem
    obtain ⟨before, after, rfl⟩ := List.append_of_mem hmem
    rw [pieces_append_sep] at h
    have hbefore := List.length_pos_iff.mpr (pieces_ne_nil sep before)
    have hafter := List.length_pos_iff.mpr (pieces_ne_nil sep after)
    have hlength := congrArg List.length h
    rw [List.length_append, List.length_singleton] at hlength
    omega
  rw [pieces_of_not_mem hnot] at h
  exact List.singleton_inj.mp h

end Pieces

/-- The lines of a byte sequence, without the newlines that end them. -/
def byteLines (bytes : List UInt8) : List (List UInt8) := pieces 0x0A bytes

namespace Text

/-! ## The lines of a text -/

theorem lines_eq_pieces (t : Text) : t.lines = pieces (.char '\n') t := by
  unfold lines
  induction t with
  | nil => rfl
  | cons g t ih =>
    rw [split, pieces, ih]
    cases pieces (.char '\n') t <;> rfl

theorem exists_lines_eq (t : Text) : ∃ front last, t.lines = front ++ [last] := by
  rw [lines_eq_pieces]
  exact exists_pieces_eq (.char '\n') t

theorem exists_lines_append {before last : Text} {front : List Text}
    (h : before.lines = front ++ [last]) (after : Text) :
    ∃ first more, after.lines = first :: more ∧
      (before ++ after).lines = front ++ (last ++ first) :: more := by
  rw [lines_eq_pieces] at h
  obtain ⟨first, more, hafter⟩ := List.exists_cons_of_ne_nil (pieces_ne_nil (.char '\n') after)
  refine ⟨first, more, (lines_eq_pieces after).trans hafter, ?_⟩
  exact (lines_eq_pieces _).trans (pieces_append h hafter)

/-! ## Bytes -/

theorem bytes_append (t u : Text) : (t ++ u).bytes = t.bytes ++ u.bytes := List.flatMap_append

theorem bytes_repeated {c : Char} {b : UInt8} (h : String.utf8EncodeChar c = [b]) (n : Nat) :
    (repeated n c).bytes = List.replicate n b := by
  induction n with
  | zero => rfl
  | succ n ih =>
    show String.utf8EncodeChar c ++ (repeated n c).bytes = b :: List.replicate n b
    rw [h, ih]
    rfl

theorem newline_mem_bytes {t : Text} (h : .char '\n' ∈ t) : 0x0A ∈ t.bytes :=
  List.mem_flatMap.mpr ⟨_, h, by decide⟩

/-- **The lines of a decoded text are the decoded lines of its bytes**: no sequence of several
bytes has a newline in it. -/
theorem lines_decode (bytes : List UInt8) :
    (decode bytes).lines = (byteLines bytes).map decode := by
  rw [lines_eq_pieces, byteLines]
  induction hn : bytes.length using Nat.strongRecOn generalizing bytes with
  | _ n ih =>
    by_cases hmem : (0x0A : UInt8) ∈ bytes
    · obtain ⟨before, after, rfl⟩ := List.append_of_mem hmem
      rw [List.length_append, List.length_cons] at hn
      rw [decode_append_newline, pieces_append_sep, pieces_append_sep, List.map_append,
        ih _ (by omega) before rfl, ih _ (by omega) after rfl]
    · have hnot : .char '\n' ∉ decode bytes := by
        intro h
        have hbytes := newline_mem_bytes h
        rw [bytes_decode] at hbytes
        exact hmem hbytes
      rw [pieces_of_not_mem hmem, pieces_of_not_mem hnot]
      rfl

/-! ## Lines and places -/

theorem seen_eq_newline {g : Glyph} : g.seen = '\n' ↔ g = .char '\n' := by
  cases g with
  | char c => exact ⟨congrArg Glyph.char, Glyph.char.inj⟩
  | stray b =>
    refine ⟨fun h => absurd h ?_, nofun⟩
    show ¬ '\uFFFD' = '\n'
    decide

/-- The place after a text, from any place: each line but the last one ends in a newline. -/
theorem after_lines_from (p : Place) {t last : Text} {front : List Text}
    (h : pieces (.char '\n') t = front ++ [last]) :
    (p.after t.chars).line = p.line + front.length ∧
      (p.after t.chars).column = (if front = [] then p.column else 1) + last.length := by
  induction t generalizing p front last with
  | nil =>
    obtain ⟨rfl, rfl⟩ := pieces_nil_eq h
    exact ⟨rfl, rfl⟩
  | cons g t ih =>
    show ((p.next g.seen).after (chars t)).line = _ ∧ ((p.next g.seen).after (chars t)).column = _
    rcases pieces_cons_eq h with ⟨hg, front', rfl, ht⟩ | ⟨hg, last', rfl, rfl, ht⟩ |
      ⟨hg, piece, front', rfl, ht⟩
    · obtain ⟨hline, hcolumn⟩ := ih (p.next g.seen) ht
      have hnext : p.next g.seen = ⟨p.offset + 1, p.line + 1, 1⟩ :=
        if_pos (seen_eq_newline.mpr hg)
      rw [hline, hcolumn, hnext, List.length_cons, if_neg (List.cons_ne_nil _ _), ite_self]
      exact ⟨Nat.add_right_comm .., rfl⟩
    · obtain ⟨hline, hcolumn⟩ := ih (p.next g.seen) (show _ = [] ++ [last'] from ht)
      have hnext : p.next g.seen = ⟨p.offset + 1, p.line, p.column + 1⟩ :=
        if_neg (mt seen_eq_newline.mp hg)
      rw [hline, hcolumn, hnext, if_pos rfl, if_pos rfl, List.length_cons]
      exact ⟨rfl, Nat.add_right_comm ..⟩
    · obtain ⟨hline, hcolumn⟩ := ih (p.next g.seen) ht
      have hnext : p.next g.seen = ⟨p.offset + 1, p.line, p.column + 1⟩ :=
        if_neg (mt seen_eq_newline.mp hg)
      rw [hline, hcolumn, hnext, if_neg (List.cons_ne_nil _ _), if_neg (List.cons_ne_nil _ _)]
      exact ⟨rfl, rfl⟩

/-- The place after a text is on its last line, after all the characters of that line. -/
theorem after_lines {t last : Text} {front : List Text} (h : t.lines = front ++ [last]) :
    (Place.start.after t.chars).line = front.length + 1 ∧
      (Place.start.after t.chars).column = last.length + 1 := by
  rw [lines_eq_pieces] at h
  obtain ⟨hline, hcolumn⟩ := after_lines_from .start h
  have hone : (if front = [] then Place.start.column else 1) = 1 := ite_self 1
  rw [hone] at hcolumn
  exact ⟨hline.trans (Nat.add_comm ..), hcolumn.trans (Nat.add_comm ..)⟩

end Text

end PolyLambda
