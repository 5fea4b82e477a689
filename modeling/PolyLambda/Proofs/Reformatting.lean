import PolyLambda.Proofs.Grammar.Agreement
import PolyLambda.Proofs.Incomplete
import PolyLambda.Proofs.Token.Tiling

/-!
# Layout and spelling do not matter

A source is **reformatted** by inserting layout where a token starts or ends, and by spelling a
mark that stands between white space in another way (`Reformats`).

Neither changes what the tokens are to a reader (`Reformats.alike`).  A token that layout is
inserted after is still cut off where it was, unless it is a lone `-` or `/`, which is why there
must be no illegal tokens; and where something else is written after white space, no token in
front looks at it.  All later tokens only move, and their places do not count.  So both sources
are read as the same term, or refused with the same message.
-/

namespace PolyLambda

/-- The ways to spell a mark, for those that have two. -/
def spellings : TokenKind → List Text
  | .lambda => ["λ", "\\"]
  | .bigLambda => ["Λ", "/\\"]
  | .forAll => ["∀", "forall"]
  | .arrow => ["→", "->"]
  | _ => []

/-- `Reformats source source'`: the second source is the first with layout inserted directly
before or after tokens, and with marks spelled in another way.  A mark that is spelled anew
has white space on both sides, or an end of the source. -/
inductive Reformats : Text → Text → Prop where
  | refl (source : Text) : Reformats source source
  | trans {s t u : Text} : Reformats s t → Reformats t u → Reformats s u
  | insert {a l b : Text} {t : Token} : t ∈ (scan (a ++ b).chars).toList →
      a.length = t.place.offset ∨ a.length = t.stop → Layout l.chars →
      Reformats (a ++ b) (a ++ l ++ b)
  | respell {a w v b : Text} {t : Token} : t ∈ (scan (a ++ w ++ b).chars).tokens →
      a.length = t.place.offset → t.text = w.chars → v ∈ spellings t.kind →
      a.chars.getLast?.all Text.isSpace = true → b.chars.head?.all Text.isSpace = true →
      Reformats (a ++ w ++ b) (a ++ v ++ b)

/-! ## Tokens that only move -/

theorem Alike.append {ts us vs ws : List Token} (h : Alike ts us) (h' : Alike vs ws) :
    Alike (ts ++ vs) (us ++ ws) := by
  rw [Alike, List.map_append, List.map_append, h, h']

/-- Whether tokens are legal is part of what they are to a reader. -/
theorem Alike.legal {ts us : List Token} (h : Alike ts us) (hts : ∀ t ∈ ts, t.kind ≠ .illegal) :
    ∀ u ∈ us, u.kind ≠ .illegal := by
  intro u hu
  have hmem : u.sense ∈ ts.map Token.sense := by
    rw [h]
    exact List.mem_map_of_mem hu
  obtain ⟨t, ht, hsense⟩ := List.mem_map.mp hmem
  rw [← Token.kind_eq_of_sense hsense]
  exact hts t ht

/-- Scanning the same characters elsewhere gives tokens that are alike. -/
theorem alike_scanAfter (k : Nat) (p q : Place) (cs : List Char) :
    Alike (scanAfter k p cs).tokens (scanAfter k q cs).tokens := by
  fun_induction scanAfter k p cs generalizing q with
  | case1 k p => rfl
  | case2 k p c cs ih => exact ih (q.next c)
  | case3 p c cs hspace ih =>
    rw [scanAfter, if_pos hspace]
    exact ih (q.next c)
  | case4 p c cs hspace hcomment ih =>
    rw [scanAfter, if_neg hspace, if_pos hcomment]
    exact ih (q.next c)
  | case5 p c cs hspace hcomment kind n hlexeme ih =>
    rw [scanAfter, if_neg hspace, if_neg hcomment, hlexeme]
    exact .cons rfl (ih (q.next c))

/-! ## Inserting layout -/

theorem alike_insert {x y gap : List Char} {ts : List Token} (hx : Tiles y .start x ts)
    (hlegal : ∀ t ∈ ts, t.kind ≠ .illegal) (hgap : Layout gap) :
    Alike (scan (x ++ y)).tokens (scan (x ++ (gap ++ y))).tokens := by
  have hx' : Tiles (gap ++ y) .start x ts :=
    hx.replace fun t ht hlexeme => hlexeme.of_layout (hlegal t ht) hgap
  rw [scan, hx.tokens_scan, scan, hx'.tokens_scan, hgap.scanAfter_append]
  exact .append rfl (alike_scanAfter _ _ _ y)

/-- In front of a token and after it a source is cut between tiles. -/
theorem exists_tiles_of_cut {x y : List Char} {t : Token} (ht : t ∈ (scan (x ++ y)).tokens)
    (hx : x.length = t.place.offset ∨ x.length = t.stop) :
    ∃ ts, (∀ u ∈ ts, u ∈ (scan (x ++ y)).tokens) ∧ Tiles y .start x ts := by
  obtain ⟨before, after, htokens⟩ := List.append_of_mem ht
  obtain ⟨front, back, hcs, hplace, hfront, hlexeme⟩ := exists_front htokens
  have hoffset := t.offset_of_place hplace
  rw [htokens]
  rcases hx with hx | hx
  · obtain ⟨rfl, rfl⟩ := List.append_inj hcs (hx.trans hoffset)
    exact ⟨before, fun u hu => List.mem_append_left _ hu, hfront⟩
  · have hlength : x.length = (front ++ t.text).length := by
      rw [hx, Token.stop, hoffset, List.length_append]
    rw [← List.append_assoc] at hcs
    obtain ⟨rfl, rfl⟩ := List.append_inj hcs hlength
    refine ⟨before ++ [t], fun u hu => ?_, hfront.append (hplace ▸ .single hlexeme)⟩
    rw [List.append_cons]
    exact List.mem_append_left _ hu

/-- Layout goes on after its first newline. -/
theorem Layout.exists_line {cs : List Char} (h : Layout cs) : '\n' ∉ cs ∨
    ∃ line rest, cs = line ++ '\n' :: rest ∧ '\n' ∉ line ∧ Layout rest := by
  induction h with
  | nil => exact .inl nofun
  | @space c cs _ hcs ih =>
    by_cases hc : c = '\n'
    · exact .inr ⟨[], cs, by rw [hc]; rfl, nofun, hcs⟩
    · rcases ih with hcs | ⟨line, rest, rfl, hline, hrest⟩
      · exact .inl (List.not_mem_cons_of_ne_of_not_mem (Ne.symm hc) hcs)
      · have hline' := List.not_mem_cons_of_ne_of_not_mem (Ne.symm hc) hline
        exact .inr ⟨c :: line, rest, rfl, hline', hrest⟩
  | @comment body cs hbody hcs _ =>
    refine .inr ⟨'-' :: '-' :: body, cs, rfl, ?_, hcs⟩
    simpa using hbody

/-- A comment at the end of a source swallows layout up to its first newline. -/
theorem tokens_comment_layout {body gap : List Char} (p : Place) (hbody : '\n' ∉ body)
    (hgap : Layout gap) : (scanAfter 0 p ('-' :: '-' :: (body ++ gap))).tokens = [] := by
  have happend : ∀ {cs : List Char}, '\n' ∉ cs → '\n' ∉ body ++ cs :=
    fun hcs hmem => (List.mem_append.mp hmem).elim hbody hcs
  rcases hgap.exists_line with hline | ⟨line, rest, rfl, hline, hrest⟩
  · exact OpenComment.tokens_scan (.inr ⟨body ++ gap, rfl, happend hline⟩) p
  · have hlayout : Layout ('\n' :: rest) := .space rfl hrest
    rw [← List.append_assoc, scanAfter_comment p _ (happend hline) rfl]
    exact hlayout.tokens_scan _

/-- Layout may be added at the end where the last token allows it. -/
theorem alike_append {cs gap : List Char} (hgap : Layout gap)
    (hfits : ∀ t ∈ (scan cs).tokens, Lexeme t.kind t.text [] → Lexeme t.kind t.text gap) :
    Alike (scan cs).tokens (scan (cs ++ gap)).tokens := by
  obtain ⟨used, rest, rfl, hopen, htiles⟩ := exists_tiles .start cs
  rcases hopen with rfl | ⟨body, rfl, hbody⟩
  · have htokens := (htiles.replace hfits).tokens_scan
    rw [hgap.tokens_scan] at htokens
    simp only [List.append_nil] at htokens ⊢
    exact congrArg (List.map Token.sense) htokens.symm
  · have htiles' : Tiles ('-' :: '-' :: (body ++ gap)) .start used _ :=
      htiles.replace fun _ _ hlexeme => hlexeme.of_head rfl
    have htokens := htiles'.tokens_scan
    rw [tokens_comment_layout _ hbody hgap, List.append_nil] at htokens
    rw [List.append_assoc]
    exact congrArg (List.map Token.sense) htokens.symm

theorem alike_insert_at_end {cs gap : List Char}
    (hlegal : ∀ t ∈ (scan cs).tokens, t.kind ≠ .illegal) (hgap : Layout gap) :
    Alike (scan cs).tokens (scan (cs ++ gap)).tokens := by
  apply alike_append hgap
  intro t ht hlexeme
  have hlayout := hlexeme.of_layout (hlegal t ht) hgap
  rwa [List.append_nil] at hlayout

/-! ## Spelling marks -/

theorem hasText_of_mem_spellings {k : TokenKind} {w : Text} (h : w ∈ spellings k) :
    k.hasText = false := by
  cases k with
  | int | ident | typeVar | illegal => cases h
  | _ => rfl

/-- Every spelling of a mark is a token of its kind. -/
theorem lexeme_of_spelling (k : TokenKind) {rest : List Char}
    (hrest : rest.head?.all Text.isSpace = true) : ∀ w ∈ spellings k, Lexeme k w.chars rest := by
  have hapart : Apart rest := by
    cases rest with
    | nil => trivial
    | cons c rest => exact apart_of_isSpace hrest rest
  cases k with
  | lambda =>
    exact List.forall_mem_cons.mpr
      ⟨.mark (c := 'λ') rfl, List.forall_mem_singleton.mpr (.mark (c := '\\') rfl)⟩
  | bigLambda =>
    exact List.forall_mem_cons.mpr
      ⟨.mark (c := 'Λ') rfl, List.forall_mem_singleton.mpr .bigLambda⟩
  | forAll =>
    have hword : ∀ x ∈ ['o', 'r', 'a', 'l', 'l'], isWordChar x = true := List.all_eq_true.mp rfl
    exact List.forall_mem_cons.mpr
      ⟨.mark (c := '∀') rfl, List.forall_mem_singleton.mpr (.lower (c := 'f') rfl hword hapart)⟩
  | arrow =>
    exact List.forall_mem_cons.mpr
      ⟨.mark (c := '→') rfl, List.forall_mem_singleton.mpr .arrow⟩
  | _ => exact List.forall_mem_nil _

theorem alike_respell {x w v y : List Char} {k : TokenKind} {ts : List Token}
    (hx : Tiles (w ++ y) .start x ts) (hspace : x.getLast?.all Text.isSpace = true)
    (hw : Lexeme k w y) (hv : Lexeme k v y) (hk : k.hasText = false) :
    Alike (scan (x ++ (w ++ y))).tokens (scan (x ++ (v ++ y))).tokens := by
  have hx' := hx.replace_of_space hspace (v ++ y)
  rw [scan, hx.tokens_scan, hw.scanAfter_append, scan, hx'.tokens_scan, hv.scanAfter_append]
  refine .append rfl (.cons ?_ (alike_scanAfter _ _ _ y))
  simp only [Token.sense, hk]
  rfl

/-! ## Reading -/

/-- **Reformatting keeps the sense of tokens.** -/
theorem Reformats.alike {source source' : Text} (h : Reformats source source')
    (hlegal : ∀ t ∈ (scan source.chars).tokens, t.kind ≠ .illegal) :
    Alike (scan source.chars).tokens (scan source'.chars).tokens := by
  induction h with
  | refl => rfl
  | trans _ _ ih ih' =>
    have hfirst := ih hlegal
    exact hfirst.trans (ih' (hfirst.legal hlegal))
  | @insert a l b t ht hat hl =>
    rcases List.mem_append.mp ht with ht | ht
    · rw [Text.chars_append] at ht hlegal
      rw [← a.length_chars] at hat
      obtain ⟨ts, hts, htiles⟩ := exists_tiles_of_cut ht hat
      have halike := alike_insert htiles (fun u hu => hlegal u (hts u hu)) hl
      rwa [← List.append_assoc, ← Text.chars_append, ← Text.chars_append,
        ← Text.chars_append] at halike
    · -- before the end, which is also after it, nothing follows
      obtain rfl := List.mem_singleton.mp ht
      rw [stop_finish_scan, offset_finish_scan, or_self, List.length_append] at hat
      obtain rfl : b = [] := List.eq_nil_of_length_eq_zero (by omega)
      have halike := alike_insert_at_end hlegal hl
      rw [List.append_nil] at halike ⊢
      rwa [List.append_nil, Text.chars_append]
  | @respell a w v b t ht hat htext hv hbefore hafter =>
    rw [Text.chars_append, Text.chars_append, List.append_assoc] at ht
    rw [Text.chars_append, Text.chars_append, Text.chars_append, Text.chars_append,
      List.append_assoc, List.append_assoc]
    obtain ⟨before, after, htokens⟩ := List.append_of_mem ht
    obtain ⟨front, back, hcs, hplace, hfront, hlexeme⟩ := exists_front htokens
    rw [← a.length_chars, t.offset_of_place hplace] at hat
    obtain ⟨rfl, htail⟩ := List.append_inj hcs hat
    rw [htext] at htail hfront hlexeme
    obtain rfl := List.append_cancel_left htail
    exact alike_respell hfront hbefore hlexeme (lexeme_of_spelling t.kind hafter v hv)
      (hasText_of_mem_spellings hv)

/-- **Layout and spelling do not matter.**  A source without illegal tokens and what it is
reformatted to are both read as one term, up to ranges, or both refused with one message. -/
theorem reformatting_keeps_reading {c : Calculus} {source source' : Text}
    (hlegal : ∀ t ∈ (scan source.chars).tokens, t.kind ≠ .illegal)
    (h : Reformats source source') :
    (∃ t t', readTerm c source = .ok t ∧ readTerm c source' = .ok t' ∧ t.same t' = true) ∨
      ∃ e e', readTerm c source = .error e ∧ readTerm c source' = .error e' ∧
        e.message = e'.message := by
  have hfinish : (scan source.chars).finish.sense = (scan source'.chars).finish.sense := by
    rw [scan, scan, finish_scanAfter, finish_scanAfter]
    rfl
  exact Tokens.term?_agree (h.alike hlegal) hfinish c

/-- `∀` is spelled out, and a comment is inserted directly after the body. -/
theorem reformatting_keeps_reading_universal :
    Reformats "λf: ∀ X: *. X. f" "λf: forall X: *. X. f--f\n" ∧
      ∃ t t', readTerm .systemF "λf: ∀ X: *. X. f" = .ok t ∧
        readTerm .systemF "λf: forall X: *. X. f--f\n" = .ok t' ∧ t.same t' = true := by
  have hword : Reformats "λf: ∀ X: *. X. f" "λf: forall X: *. X. f" :=
    .respell (a := "λf: ") (w := "∀") (v := "forall") (b := " X: *. X. f")
      (t := ⟨.forAll, ['∀'], ⟨4, 1, 5⟩⟩) (by decide) rfl rfl (by decide) rfl rfl
  have hlayout : Layout ('-' :: '-' :: (['f'] ++ ['\n'])) := .comment (by decide) .nil
  have hcomment : Reformats "λf: forall X: *. X. f" "λf: forall X: *. X. f--f\n" :=
    .insert (a := "λf: forall X: *. X. f") (l := "--f\n") (b := [])
      (t := ⟨.ident, ['f'], ⟨20, 1, 21⟩⟩) (by decide) (.inr rfl) hlayout
  have hread : readTerm .systemF "λf: ∀ X: *. X. f" =
      .ok (.abs ⟨1, 17⟩ "f" (.all "X" .star (.var "X")) (.var ⟨16, 17⟩ "f")) := rfl
  have hreformats := hword.trans hcomment
  refine ⟨hreformats, ?_⟩
  rcases reformatting_keeps_reading (by decide) hreformats with h | h
  · exact h
  · obtain ⟨e, e', he, -⟩ := h
    rw [hread] at he
    cases he

end PolyLambda
