import PolyLambda.Proofs.Nesting
import PolyLambda.Proofs.Reformatting

/-!
# The text of a node

The range of a node covers a text of the source.  Read on its own, that text is the node again,
unless parentheses without a partner are in it.  These come from an operand in parentheses at the
edge of the node: the range of the node starts or stops where that of the operand does, inside the
parentheses.  Such a text is no term at all; but it is the node again once the missing parentheses
are put back, and how many are missing can be seen from the text (`Text.unmatched`).

A text between two tokens of a source has the tokens between them, moved (`alike_slice`).  The
tokens of a node are known up to the parentheses that its range leaves out
(`Grammar.Node.exists_core`), and readers do not look at places (`Tokens.term?_agree`).
-/

namespace PolyLambda

open Grammar

/-- The parentheses of a text that have no partner in it. -/
def Text.unmatched (t : Text) : Unmatched := Grammar.unmatched (scan t.chars).tokens

/-- A text with the parentheses put back whose partners are in it. -/
def Text.matched (t : Text) : Text :=
  repeated t.unmatched.closing '(' ++ t ++ repeated t.unmatched.opening ')'

/-! ## Texts between tokens -/

/-- What is tiled up to a token ends with it, whatever follows in place of the rest. -/
theorem Tiles.cut {rest cs : List Char} {p : Place} {ts us : List Token} {t : Token}
    (h : Tiles rest p cs (ts ++ t :: us)) (ht : t.kind ≠ .illegal) :
    ∃ front back, cs = front ++ back ∧ t.stop = p.offset + front.length ∧
      ∀ {rest' : List Char}, Apart rest' → Tiles rest' p front (ts ++ [t]) := by
  obtain ⟨before, after, rfl, hplace, hbefore, hlexeme, -⟩ := h.split
  refine ⟨before ++ t.text, after, (List.append_assoc ..).symm, ?_, ?_⟩
  · rw [Token.stop, hplace, Place.offset_after, List.length_append, Nat.add_assoc]
  · intro rest' hrest'
    have hbefore' : Tiles (t.text ++ rest') p before ts :=
      hbefore.replace_after hlexeme.ne_nil rest'
    exact hbefore'.append (hplace ▸ .single (hlexeme.of_apart ht hrest'))

/-- **The text between two tokens has the tokens between them**, wherever it stands and whatever
follows, if no word goes on there. -/
theorem alike_slice {cs rest : List Char} {before core after : List Token} {r : Range}
    (h : (scan cs).tokens = before ++ (core ++ after)) (hr : Spans r core) (hrest : Apart rest)
    (p q : Place) :
    Alike (scanAfter 0 p (cs.extract (r.start - 1).toNat (r.stop - 1).toNat ++ rest)).tokens
      (core ++ (scanAfter 0 q rest).tokens) := by
  obtain ⟨u, us, hfirst, hstart⟩ := hr.first
  obtain ⟨vs, v, hlast, hstop, hlegal⟩ := hr.last
  obtain ⟨used, last, rfl, -, htiles⟩ := exists_tiles .start cs
  rw [← scan, h, hfirst] at htiles
  obtain ⟨front, back, rfl, hplace, -, hlexeme, hback⟩ := htiles.split
  have hcore : Tiles last u.place (u.text ++ back) (core ++ after) := by
    rw [hfirst]
    exact .token .nil rfl hlexeme hback
  rw [hlast, List.append_assoc, List.singleton_append] at hcore
  obtain ⟨slice, back', hback', hend, hslice⟩ := hcore.cut hlegal
  have hoffset := u.offset_of_place hplace
  have hfrom : (r.start - 1).toNat = front.length := by
    rw [hstart]
    show ((u.place.offset : Int) + 1 - 1).toNat = _
    omega
  have hto : (r.stop - 1).toNat = front.length + slice.length := by
    rw [hstop]
    show ((v.stop : Int) + 1 - 1).toNat = _
    omega
  rw [hfrom, hto, hback', List.append_assoc, List.append_assoc, extract_append]
  have htokens := (hslice hrest).tokens_scan
  rw [← hlast] at htokens
  refine (alike_scanAfter 0 p u.place (slice ++ rest)).trans ?_
  rw [htokens]
  exact Alike.append rfl (alike_scanAfter 0 _ q rest)

/-! ## Parentheses put back -/

/-- Marks of one character are scanned as so many tokens. -/
theorem alike_repeated (mark : Char) (hmark : isMark mark = true)
    (hkind : (markKind mark).hasText = false) {ts : List Token}
    (hts : ∀ t ∈ ts, t.kind = markKind mark) (p q : Place) (rest : List Char) :
    Alike (scanAfter 0 p (List.replicate ts.length mark ++ rest)).tokens
      (ts ++ (scanAfter 0 q rest).tokens) := by
  induction ts generalizing p with
  | nil => exact alike_scanAfter 0 p q rest
  | cons t ts ih =>
    rw [List.forall_mem_cons] at hts
    have hlexeme : Lexeme (markKind mark) [mark] (List.replicate ts.length mark ++ rest) :=
      .mark hmark
    have hscan := hlexeme.scanAfter_append p
    rw [List.length_cons, List.replicate_succ]
    rw [List.singleton_append] at hscan
    rw [List.cons_append, hscan]
    refine .cons ?_ (ih hts.2 _)
    simp [Token.sense, hts.1, hkind]

theorem apart_repeated_paren (n : Nat) : Apart (List.replicate n ')') := by
  cases n with
  | zero => trivial
  | succ n => exact rfl

/-- Only kinds of tokens are looked at for their parentheses. -/
theorem Alike.unmatched_eq {ts us : List Token} (h : Alike ts us) :
    unmatched ts = unmatched us := by
  induction ts generalizing us with
  | nil =>
    obtain ⟨-, rfl⟩ | ⟨_, _, _, _, hnil, -⟩ := h.cases
    · rfl
    · cases hnil
  | cons t ts ih =>
    obtain ⟨hnil, -⟩ | ⟨_, _, u, us, hcons, rfl, hsense, hrest⟩ := h.cases
    · cases hnil
    · obtain ⟨rfl, rfl⟩ := List.cons.inj hcons
      rw [unmatched_cons, unmatched_cons, Token.kind_eq_of_sense hsense, ih hrest]

/-! ## Nodes -/

theorem Term.isSimplyTyped_of_mem_parts {t u : Term} (h : t.isSimplyTyped = true)
    (hu : u ∈ t.parts) : u.isSimplyTyped = true := by
  induction t with
  | int | var =>
    obtain rfl := List.mem_singleton.mp hu
    rfl
  | app r f a ihf iha =>
    rcases List.mem_cons.mp hu with rfl | hu
    · exact h
    obtain ⟨hf, ha⟩ := Bool.and_eq_true_iff.mp h
    rcases List.mem_append.mp hu with hu | hu
    · exact ihf hf hu
    · exact iha ha hu
  | abs r x a b ih =>
    rcases List.mem_cons.mp hu with rfl | hu
    · exact h
    · exact ih (Bool.and_eq_true_iff.mp h).2 hu
  | tabs | tapp | gap => cases h

variable {c : Calculus} {source : Text} {t u : Term}

/-- A node is read off its own tokens, and those that its range covers stand in the source. -/
theorem exists_tokens_of_part (h : readTerm c source = .ok t) (hu : u ∈ t.parts) :
    ∃ us opens core closes before after, Covered u.range us opens core closes ∧
      unmatched core = ⟨opens.length, closes.length⟩ ∧
      (scan source.chars).tokens = before ++ (core ++ after) ∧
      ∀ finish, Tokens.term? ⟨us, finish⟩ c = .ok u := by
  obtain ⟨hder, hfits, hsimple⟩ := Tokens.term?_eq_ok.mp h
  obtain ⟨us, hus, hnode⟩ := hder.exists_node hu
  obtain ⟨opens, core, closes, hcovered, hunmatched⟩ := hnode.exists_core
  obtain ⟨before, after, htokens⟩ := hus
  refine ⟨us, opens, core, closes, before ++ opens, closes ++ after, hcovered, hunmatched, ?_, ?_⟩
  · rw [← htokens, hcovered.tokens]
    simp only [List.append_assoc]
  · intro finish
    refine Tokens.term?_eq_ok.mpr ⟨hnode.derives, fun v hv => hfits v ?_, fun hc => ?_⟩
    · rw [← htokens]
      exact List.mem_append_left _ (List.mem_append_right _ hv)
    · exact Term.isSimplyTyped_of_mem_parts (hsimple hc) hu

theorem alike_within {r : Range} {before core after : List Token} (hr : Spans r core)
    (h : (scan source.chars).tokens = before ++ (core ++ after)) :
    Alike (scan (source.within r).chars).tokens core := by
  have hapart : Apart [] := trivial
  have hslice := alike_slice h hr hapart .start .start
  have hnil : (scanAfter 0 Place.start []).tokens = [] := rfl
  rwa [hnil, List.append_nil, List.append_nil, ← Text.chars_within] at hslice

/-- The parentheses that are put back are those that the range leaves out. -/
theorem alike_matched {r : Range} {us opens core closes before after : List Token}
    (hr : Covered r us opens core closes) (hcore : unmatched core = ⟨opens.length, closes.length⟩)
    (h : (scan source.chars).tokens = before ++ (core ++ after)) :
    Alike (scan (source.within r).matched.chars).tokens us := by
  have hunmatched : (source.within r).unmatched = ⟨opens.length, closes.length⟩ :=
    (alike_within hr.spans h).unmatched_eq.trans hcore
  have hchars : (source.within r).matched.chars = List.replicate opens.length '(' ++
      ((source.within r).chars ++ List.replicate closes.length ')') := by
    rw [Text.matched, hunmatched]
    simp [Text.chars, Text.repeated, Glyph.seen]
  have hcloses := alike_repeated ')' rfl rfl hr.closes .start .start []
  rw [List.append_nil] at hcloses
  have hslice := alike_slice h hr.spans (apart_repeated_paren closes.length) .start .start
  rw [← Text.chars_within] at hslice
  have hopens := alike_repeated '(' rfl rfl hr.opens .start .start
    ((source.within r).chars ++ List.replicate closes.length ')')
  rw [hchars, hr.tokens]
  have hnil : (scanAfter 0 Place.start []).tokens = [] := rfl
  rw [hnil, List.append_nil] at hcloses
  exact hopens.trans (Alike.append rfl (hslice.trans (Alike.append rfl hcloses)))

/-- **A node is read off its own text.**  For every node of a term that was read, the text in
its range is the node again, up to ranges, once the parentheses that have a partner in the text are
put back.  If none are missing, the text is the node as it stands; otherwise it is no term. -/
theorem node_read_from_text (h : readTerm c source = .ok t) (hu : u ∈ t.parts) :
    (∃ v, readTerm c (source.within u.range).matched = .ok v ∧ v.same u = true) ∧
      ((source.within u.range).unmatched = .none →
        ∃ v, readTerm c (source.within u.range) = .ok v ∧ v.same u = true) ∧
      ((source.within u.range).unmatched ≠ .none →
        ∃ e, readTerm c (source.within u.range) = .error e) := by
  obtain ⟨us, opens, core, closes, before, after, hcovered, hcore, htokens, hread⟩ :=
    exists_tokens_of_part h hu
  have hmatched : ∃ v, readTerm c (source.within u.range).matched = .ok v ∧ v.same u = true := by
    have halike : Alike (scan (source.within u.range).matched.chars).tokens
        (Tokens.mk us (scan (source.within u.range).matched.chars).finish).tokens :=
      alike_matched hcovered hcore htokens
    have hagree := Tokens.term?_agree halike rfl c
    rw [hread] at hagree
    rcases hagree with ⟨v, w, hv, hw, hsame⟩ | ⟨e, e', he, he', -⟩
    · obtain rfl := Except.ok.inj hw
      exact ⟨v, hv, hsame⟩
    · cases he'
  refine ⟨hmatched, fun hnone => ?_, fun hsome => ?_⟩
  · rw [Text.matched, hnone] at hmatched
    simpa [Unmatched.none, Text.repeated] using hmatched
  · cases hok : readTerm c (source.within u.range) with
    | error e => exact ⟨e, rfl⟩
    | ok v =>
      obtain ⟨hder, -, -⟩ := Tokens.term?_eq_ok.mp hok
      exact absurd hder.unmatched_eq hsome

/-- In `(f) (λx: Int. x)` the argument is read off its text as it stands, and the application is
read off its text, `f) (λx: Int. x`, with one parenthesis put back at each end. -/
theorem node_read_from_text_operands :
    (∃ v, readTerm .systemF (Text.within "(f) (λx: Int. x)" ⟨6, 16⟩) = .ok v ∧
        v.same (.abs ⟨6, 16⟩ "x" .int (.var ⟨15, 16⟩ "x")) = true) ∧
      Text.matched "f) (λx: Int. x" = "(f) (λx: Int. x)" ∧
      (∃ v, readTerm .systemF (Text.within "(f) (λx: Int. x)" ⟨2, 16⟩).matched = .ok v ∧
        v.same (.app ⟨2, 16⟩ (.var ⟨2, 3⟩ "f") (.abs ⟨6, 16⟩ "x" .int (.var ⟨15, 16⟩ "x"))) =
          true) ∧
      ∃ e, readTerm .systemF (Text.within "(f) (λx: Int. x)" ⟨2, 16⟩) = .error e := by
  have h : readTerm .systemF "(f) (λx: Int. x)" = .ok (.app ⟨2, 16⟩ (.var ⟨2, 3⟩ "f")
      (.abs ⟨6, 16⟩ "x" .int (.var ⟨15, 16⟩ "x"))) := by rfl
  have hargument := node_read_from_text (u := .abs ⟨6, 16⟩ "x" .int (.var ⟨15, 16⟩ "x")) h
    (by decide)
  have hwhole := node_read_from_text h (Term.mem_parts_self _)
  exact ⟨hargument.2.1 rfl, rfl, hwhole.1, hwhole.2.2 (by decide)⟩

/-- The range of `(f) x` starts at `f`, inside the parentheses, and the text from there is no
term. -/
theorem parenthesized_operand_cut :
    ∃ t, readTerm .systemF "(f) x" = .ok t ∧ Text.within "(f) x" t.range = "f) x" ∧
      ¬ ∃ v, readTerm .systemF (Text.within "(f) x" t.range) = .ok v := by
  refine ⟨.app ⟨2, 6⟩ (.var ⟨2, 3⟩ "f") (.var ⟨5, 6⟩ "x"), rfl, rfl, ?_⟩
  rintro ⟨v, hv⟩
  cases hv

end PolyLambda
