import PolyLambda.Token.Scan

/-!
# Tokens stand in their source

Scanning cuts tokens out of the source from left to right.  `LaidOut` says this of a list of
tokens and the characters they come from, character by character: each one is skipped or is
part of the next token, and no token is empty.  From it follow the two facts that positions
rest on.

* A token stands where its place says (`LaidOut.exists_of_mem`).  The place counts lines and
  columns along the characters before it, so the scanner's lines and columns are those of
  the source.
* The tokens are in order and do not overlap (`LaidOut.inOrder`).
-/

namespace PolyLambda

/-- `LaidOut p cs ts`: the tokens `ts` stand in `cs` one after another, where `cs` starts at
the place `p`. -/
inductive LaidOut : Place → List Char → List Token → Prop where
  | finish {p : Place} : LaidOut p [] []
  | skip {p : Place} {c : Char} {cs : List Char} {ts : List Token} :
      LaidOut (p.next c) cs ts → LaidOut p (c :: cs) ts
  | token {t : Token} {rest : List Char} {ts : List Token} :
      t.text ≠ [] → LaidOut (t.place.after t.text) rest ts →
      LaidOut t.place (t.text ++ rest) (t :: ts)

theorem LaidOut.skip_all {p : Place} {cs rest : List Char} {ts : List Token}
    (h : LaidOut (p.after cs) rest ts) : LaidOut p (cs ++ rest) ts := by
  induction cs generalizing p with
  | nil => exact h
  | cons c cs ih => exact .skip (ih h)

/-- What scanning finds after the characters already taken is laid out there. -/
theorem laidOut_scanAfter (k : Nat) (p : Place) (cs : List Char) :
    LaidOut (p.after (cs.take k)) (cs.drop k) (scanAfter k p cs).tokens := by
  fun_induction scanAfter k p cs with
  | case1 k p =>
    rw [List.take_nil, List.drop_nil]
    exact .finish
  | case2 k p c cs ih => exact ih
  | case3 p c cs _ ih => exact .skip ih
  | case4 p c cs _ _ ih =>
    have hline := ih.skip_all
    rw [List.take_append_drop] at hline
    exact .skip hline
  | case5 p c cs _ _ kind n _ ih =>
    have htoken := LaidOut.token (t := ⟨kind, c :: cs.take n, p⟩) (List.cons_ne_nil _ _) ih
    rw [List.cons_append, List.take_append_drop] at htoken
    exact htoken

theorem laidOut_scan (cs : List Char) : LaidOut .start cs (scan cs).tokens :=
  laidOut_scanAfter 0 .start cs

/-- **A token stands where its place says.** -/
theorem LaidOut.exists_of_mem {p : Place} {cs : List Char} {ts : List Token} (h : LaidOut p cs ts)
    {t : Token} (ht : t ∈ ts) :
    t.text ≠ [] ∧ ∃ before rest, cs = before ++ (t.text ++ rest) ∧ t.place = p.after before := by
  induction h with
  | finish => cases ht
  | @skip p c cs ts _ ih =>
    obtain ⟨htext, before, rest, rfl, hplace⟩ := ih ht
    exact ⟨htext, c :: before, rest, rfl, hplace⟩
  | @token u rest ts htext _ ih =>
    rcases List.mem_cons.mp ht with rfl | ht
    · exact ⟨htext, [], rest, rfl, rfl⟩
    · obtain ⟨htext, before, rest, rfl, hplace⟩ := ih ht
      refine ⟨htext, u.text ++ before, rest, (List.append_assoc ..).symm, ?_⟩
      rw [hplace, Place.after_append]

/-- Tokens that are not empty, each of them ending before the next one starts. -/
structure InOrder (ts : List Token) : Prop where
  nonempty : ∀ t ∈ ts, t.range.start < t.range.stop
  apart : ts.Pairwise fun t u => t.range.stop ≤ u.range.start

theorem InOrder.sublist {ts us : List Token} (h : InOrder ts) (hsub : us.Sublist ts) :
    InOrder us :=
  ⟨fun t ht => h.nonempty t (hsub.subset ht), h.apart.sublist hsub⟩

/-- Tokens of an earlier part end before those of a later part start. -/
theorem InOrder.stop_le {ts us : List Token} (h : InOrder (ts ++ us)) {t u : Token} (ht : t ∈ ts)
    (hu : u ∈ us) : t.range.stop ≤ u.range.start :=
  (List.pairwise_append.mp h.apart).2.2 t ht u hu

/-- **Tokens are in order.** -/
theorem LaidOut.inOrder {p : Place} {cs : List Char} {ts : List Token} (h : LaidOut p cs ts) :
    InOrder ts := by
  constructor
  · intro t ht
    have hpos := List.length_pos_iff.mpr (h.exists_of_mem ht).1
    show (t.place.offset : Int) + 1 < (t.place.offset + t.text.length : Nat) + 1
    omega
  · induction h with
    | finish => exact .nil
    | skip _ ih => exact ih
    | @token t rest ts _ hrest ih =>
      refine .cons (fun u hu => ?_) ih
      obtain ⟨-, before, _, _, hplace⟩ := hrest.exists_of_mem hu
      have hoffset := congrArg Place.offset hplace
      rw [Place.offset_after, Place.offset_after] at hoffset
      show ((t.place.offset + t.text.length : Nat) : Int) + 1 ≤ (u.place.offset : Int) + 1
      omega

theorem inOrder_scan (cs : List Char) : InOrder (scan cs).tokens := (laidOut_scan cs).inOrder

end PolyLambda
