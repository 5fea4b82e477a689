import PolyLambda.Proofs.RoundTrip
import PolyLambda.Proofs.Token.Tiling
import PolyLambda.Proofs.Typing.Erasure

/-!
# Printed parentheses are as few as can be

A term has many notations, and the printed one opens the fewest parentheses of all.  The
parentheses of a printed text are counted as characters, those of a source as tokens.

* A derivation opens at least as many parentheses as are printed at the position that belongs
  to its nonterminal (`Grammar.Derives.openings_le`).  A nonterminal that is written in
  parentheses pays for one, and one is all that a position ever adds.
* A source has no more tokens `(` than characters (`parentheses_le_openings`).

So no notation of a term opens fewer parentheses than are printed, and the printed text, which
is one of them, opens exactly those.
-/

namespace PolyLambda

open Grammar

/-- The number of opening parentheses among tokens. -/
def parenthesesIn (ts : List Token) : Nat := ts.countP (·.kind = .leftParen)

namespace Text

/-- The number of parentheses that a source opens, those in comments left out. -/
def parentheses (source : Text) : Nat := parenthesesIn (scan source.chars).tokens

/-- The number of characters `(` in a text. -/
def openings (t : Text) : Nat := t.chars.count '('

end Text

/-! ## Tokens and characters -/

theorem parenthesesIn_append (ts us : List Token) :
    parenthesesIn (ts ++ us) = parenthesesIn ts + parenthesesIn us := List.countP_append

theorem parenthesesIn_append_le (ts us : List Token) :
    parenthesesIn ts ≤ parenthesesIn (ts ++ us) := (List.sublist_append_left ts us).countP_le

theorem parenthesesIn_le_append (ts us : List Token) :
    parenthesesIn us ≤ parenthesesIn (ts ++ us) := (List.sublist_append_right ts us).countP_le

theorem parenthesesIn_paren {t : Token} (ts : List Token) (ht : t.kind = .leftParen) :
    parenthesesIn (t :: ts) = parenthesesIn ts + 1 :=
  List.countP_cons_of_pos (decide_eq_true ht)

theorem Lexeme.paren_mem {cs rest : List Char} (h : Lexeme .leftParen cs rest) : '(' ∈ cs := by
  generalize hk : TokenKind.leftParen = k at h
  cases h with
  | bigLambda | arrow | number | negative | slash | minus => cases hk
  | lower => unfold lowerWordKind at hk; split at hk <;> cases hk
  | upper => unfold upperWordKind at hk; split at hk <;> cases hk
  | @mark c _ _ =>
    unfold markKind at hk
    split at hk <;> cases hk
    exact List.mem_cons_self

/-- Every token `(` has its own character. -/
theorem Tiles.parenthesesIn_le {rest cs : List Char} {p : Place} {ts : List Token}
    (h : Tiles rest p cs ts) : parenthesesIn ts ≤ cs.count '(' := by
  induction h with
  | gap => exact Nat.zero_le _
  | @token p gap cs t ts _ _ hlexeme _ ih =>
    rw [List.count_append, List.count_append]
    by_cases ht : t.kind = .leftParen
    · rw [ht] at hlexeme
      have hpos := List.count_pos_iff.mpr hlexeme.paren_mem
      rw [parenthesesIn_paren ts ht]
      omega
    · have hskip : parenthesesIn (t :: ts) = parenthesesIn ts :=
        List.countP_cons_of_neg (by simpa using ht)
      rw [hskip]
      omega

theorem parentheses_le_openings (source : Text) : source.parentheses ≤ source.openings := by
  obtain ⟨used, rest, hchars, -, htiles⟩ := exists_tiles .start source.chars
  have hle := htiles.parenthesesIn_le
  rw [Text.openings, hchars, List.count_append]
  exact Nat.le_add_right_of_le hle

/-! ## Openings of printed texts -/

namespace Text

theorem openings_append (t u : Text) : (t ++ u).openings = t.openings + u.openings := by
  rw [openings, chars_append, List.count_append]
  rfl

theorem openings_parenthesize (needed : Bool) (t : Text) :
    (parenthesize needed t).openings = t.openings + needed.toNat := by
  cases needed with
  | false => rfl
  | true =>
    have hparen : parenthesize true t = [.char '('] ++ t ++ [.char ')'] := rfl
    have hopen : openings [.char '('] = 1 := rfl
    have hclose : openings [.char ')'] = 0 := rfl
    rw [hparen, openings_append, openings_append, hopen, hclose, Bool.toNat_true]
    omega

theorem openings_binderText {mark : Char} (hmark : openings [.char mark] = 0) (name note : Text) :
    (binderText mark name note).openings = name.openings + note.openings := by
  have hbinder : binderText mark name note =
      [.char mark] ++ name ++ ofString ": " ++ note ++ ofString ". " := rfl
  have hcolon : (ofString ": ").openings = 0 := rfl
  have hdot : (ofString ". ").openings = 0 := rfl
  rw [hbinder, openings_append, openings_append, openings_append, openings_append, hmark, hcolon,
    hdot]
  omega

theorem openings_separated {separator : String} (hseparator : (ofString separator).openings = 0)
    (t u : Text) : (t ++ ofString separator ++ u).openings = t.openings + u.openings := by
  rw [openings_append, openings_append, hseparator, Nat.add_zero]

/-- There is no parenthesis in a word. -/
theorem openings_of_isWord {first : Char → Bool} {x : Text} (hx : x.isWord first = true)
    (hfirst : first '(' = false) : x.openings = 0 := by
  obtain ⟨c, w, rfl, hc, hw⟩ := isWord_iff.mp hx
  rw [openings, chars_ofChars, List.count_eq_zero]
  intro hmem
  rcases List.mem_cons.mp hmem with rfl | hmem
  · rw [hfirst] at hc
    cases hc
  · cases hw _ hmem

theorem openings_of_isVariable {x : Text} (hx : x.isVariable = true) : x.openings = 0 :=
  openings_of_isWord (Bool.and_eq_true_iff.mp hx).1 rfl

theorem openings_of_isTypeVariable {x : Text} (hx : x.isTypeVariable = true) : x.openings = 0 :=
  openings_of_isWord (Bool.and_eq_true_iff.mp hx).1 rfl

theorem openings_typeBinder {mark : Char} (hmark : openings [.char mark] = 0) {x : Text}
    (hx : x.isTypeVariable = true) (t : Text) :
    (binderText mark x (ofString "*") ++ t).openings = t.openings := by
  have hkind : (ofString "*").openings = 0 := rfl
  rw [openings_append, openings_binderText hmark, openings_of_isTypeVariable hx, hkind,
    Nat.zero_add]

theorem openings_ofInt (n : Int) : (ofInt n).openings = 0 := by
  obtain ⟨d, ds, hdigits, hd, hds⟩ := toDigits_eq_cons n.natAbs
  have hall : ∀ x ∈ d :: ds, isDigit x = true := List.forall_mem_cons.mpr ⟨hd, hds⟩
  have hnot : '(' ∉ Nat.toDigits 10 n.natAbs := by
    rw [hdigits]
    intro hmem
    cases hall '(' hmem
  rw [openings, ofInt]
  split
  · rw [chars_ofChars, List.count_eq_zero]
    intro hmem
    rcases List.mem_cons.mp hmem with h | h
    · cases h
    · exact hnot h
  · rw [ofNat, chars_ofChars, List.count_eq_zero]
    exact hnot

end Text

/-! ## Openings at a position -/

/-- What positions cost: each of the three asks for no fewer parentheses than the one before
it, and the last for at most one more than the first. -/
structure OpensAt (print : Position → Text) : Prop where
  top_le_left : (print .top).openings ≤ (print .left).openings
  left_le_atom : (print .left).openings ≤ (print .atom).openings
  atom_le_top : (print .atom).openings ≤ (print .top).openings + 1

theorem opensAt_const (t : Text) : OpensAt fun _ => t :=
  ⟨Nat.le_refl _, Nat.le_refl _, Nat.le_succ _⟩

theorem opensAt_parenthesize (t : Text) {needed : Position → Bool} (htop : needed .top = false)
    (hatom : needed .atom = true) : OpensAt fun pos => parenthesize (needed pos) t := by
  have hleft := Bool.toNat_le (needed .left)
  constructor
  · rw [Text.openings_parenthesize, Text.openings_parenthesize, htop, Bool.toNat_false]
    omega
  · rw [Text.openings_parenthesize, Text.openings_parenthesize, hatom, Bool.toNat_true]
    omega
  · rw [Text.openings_parenthesize, Text.openings_parenthesize, htop, hatom]
    exact Nat.le_refl _

theorem Ty.opensAt (a : Ty) : OpensAt a.renderAt := by
  cases a with
  | int | var | gap => exact opensAt_const _
  | arrow | all => exact opensAt_parenthesize _ rfl rfl

theorem Term.opensAt (t : Term) : OpensAt t.renderAt := by
  cases t with
  | int | var | gap => exact opensAt_const _
  | app | tapp | abs | tabs => exact opensAt_parenthesize _ rfl rfl

theorem OpensAt.top_le_atom {print : Position → Text} (h : OpensAt print) :
    (print .top).openings ≤ (print .atom).openings := Nat.le_trans h.top_le_left h.left_le_atom

theorem Ty.openings_render_arrow (p r : Ty) :
    ((Ty.arrow p r).renderAt .top).openings =
      (p.renderAt .left).openings + (r.renderAt .top).openings :=
  Text.openings_separated rfl _ _

theorem Ty.openings_render_all {x : Text} {b : Ty} (hx : x.isTypeVariable = true) :
    ((Ty.all x .star b).renderAt .top).openings = (b.renderAt .top).openings :=
  Text.openings_typeBinder rfl hx _

namespace Term

variable {r : Range}

theorem openings_render_abs {x : Text} {a : Ty} {b : Term} (hx : x.isVariable = true) :
    ((Term.abs r x a b).renderAt .top).openings =
      (a.renderAt .top).openings + (b.renderAt .top).openings := by
  have hprint : (Term.abs r x a b).renderAt .top =
      binderText 'λ' x (a.renderAt .top) ++ b.renderAt .top := rfl
  rw [hprint, Text.openings_append, Text.openings_binderText rfl, Text.openings_of_isVariable hx,
    Nat.zero_add]

theorem openings_render_tabs {x : Text} {b : Term} (hx : x.isTypeVariable = true) :
    ((Term.tabs r x .star b).renderAt .top).openings = (b.renderAt .top).openings :=
  Text.openings_typeBinder rfl hx _

theorem openings_render_app (f a : Term) :
    ((Term.app r f a).renderAt .left).openings =
      (f.renderAt .left).openings + (a.renderAt .atom).openings :=
  Text.openings_separated rfl _ _

theorem openings_render_tapp (f : Term) (a : Ty) :
    ((Term.tapp r f a).renderAt .left).openings =
      (f.renderAt .left).openings + (a.renderAt .top).openings := by
  have hprint : (Term.tapp r f a).renderAt .left =
      f.renderAt .left ++ Text.ofString " [" ++ a.renderAt .top ++ Text.ofString "]" := rfl
  have hclose : (Text.ofString "]").openings = 0 := rfl
  rw [hprint, Text.openings_append, Text.openings_separated rfl, hclose, Nat.add_zero]

end Term

/-! ## Derivations -/

/-- The position that a nonterminal of types is printed at. -/
def Grammar.TypeForm.position : TypeForm → Position
  | .type => .top
  | .atom => .atom

/-- The position that a nonterminal of terms is printed at. -/
def Grammar.TermForm.position : TermForm → Position
  | .term => .top
  | .app => .left
  | .atom => .atom

/-- A subtree in parentheses pays for the one that its position may add. -/
theorem OpensAt.paren_le {print : Position → Text} (h : OpensAt print) {l r : Token}
    {ts : List Token} (hl : l.kind = .leftParen)
    (hle : (print .top).openings ≤ parenthesesIn ts) :
    (print .atom).openings ≤ parenthesesIn (l :: (ts ++ [r])) := by
  have hatom := h.atom_le_top
  rw [parenthesesIn_paren _ hl, parenthesesIn_append]
  omega

/-- **A type needs the parentheses it is printed with.** -/
theorem Grammar.DerivesType.openings_le {f : TypeForm} {ts : List Token} {a : Ty}
    (h : DerivesType f ts a) (ha : a.isPrintable = true) :
    (a.renderAt f.position).openings ≤ parenthesesIn ts := by
  induction h with
  | @all mark x colon star dot ts b _ _ _ _ _ _ ih =>
    obtain ⟨hxk, hb⟩ := Bool.and_eq_true_iff.mp ha
    have hx := (Bool.and_eq_true_iff.mp hxk).1
    show ((Ty.all x.name .star b).renderAt .top).openings ≤ _
    rw [Ty.openings_render_all hx]
    exact Nat.le_trans (ih hb) (parenthesesIn_le_append [mark, x, colon, star, dot] ts)
  | @arrow mark ps rs p r _ _ _ ihp ihr =>
    obtain ⟨hp, hr⟩ := Bool.and_eq_true_iff.mp ha
    -- the parameter is derived as an atom, and on the left it needs no more than that
    have hparam := Nat.le_trans p.opensAt.left_le_atom (ihp hp)
    have hresult := Nat.le_trans (ihr hr) (parenthesesIn_le_append [mark] rs)
    show ((Ty.arrow p r).renderAt .top).openings ≤ _
    rw [Ty.openings_render_arrow, parenthesesIn_append]
    exact Nat.add_le_add hparam hresult
  | @ofAtom ts a _ ih => exact Nat.le_trans a.opensAt.top_le_atom (ih ha)
  | int _ => exact Nat.zero_le _
  | var _ => exact Nat.le_trans (Nat.le_of_eq (Text.openings_of_isTypeVariable ha)) (Nat.zero_le _)
  | @paren l r ts a hl _ _ ih => exact a.opensAt.paren_le hl (ih ha)

/-- **A term needs the parentheses it is printed with.** -/
theorem Grammar.Derives.openings_le {f : TermForm} {ts : List Token} {t : Term}
    (h : Derives f ts t) (ht : t.isPrintable = true) :
    (t.renderAt f.position).openings ≤ parenthesesIn ts := by
  induction h with
  | @abs mark x colon dot as bs a b _ _ _ has _ _ ih =>
    obtain ⟨hxa, hb⟩ := Bool.and_eq_true_iff.mp ht
    obtain ⟨hx, ha⟩ := Bool.and_eq_true_iff.mp hxa
    have hbody := Nat.le_trans (ih hb) (parenthesesIn_le_append [dot] bs)
    have hskip := parenthesesIn_le_append [mark, x, colon] (as ++ dot :: bs)
    rw [parenthesesIn_append] at hskip
    show ((Term.abs _ x.name a b).renderAt .top).openings ≤ _
    rw [Term.openings_render_abs hx]
    exact Nat.le_trans (Nat.add_le_add (has.openings_le ha) hbody) hskip
  | @tabs mark x colon star dot bs b _ _ _ _ _ _ ih =>
    obtain ⟨hxk, hb⟩ := Bool.and_eq_true_iff.mp ht
    have hx := (Bool.and_eq_true_iff.mp hxk).1
    show ((Term.tabs _ x.name .star b).renderAt .top).openings ≤ _
    rw [Term.openings_render_tabs hx]
    exact Nat.le_trans (ih hb) (parenthesesIn_le_append [mark, x, colon, star, dot] bs)
  | @ofApp ts t _ ih => exact Nat.le_trans t.opensAt.top_le_left (ih ht)
  | @app fs as f a _ _ ihf iha =>
    obtain ⟨hf, ha⟩ := Bool.and_eq_true_iff.mp ht
    show ((Term.app _ f a).renderAt .left).openings ≤ _
    rw [Term.openings_render_app, parenthesesIn_append]
    exact Nat.add_le_add (ihf hf) (iha ha)
  | @tapp l r fs as f a _ _ has _ ihf =>
    obtain ⟨hf, ha⟩ := Bool.and_eq_true_iff.mp ht
    have harg := Nat.le_trans (has.openings_le ha)
      (Nat.le_trans (parenthesesIn_le_append [l] as) (parenthesesIn_append_le (l :: as) [r]))
    show ((Term.tapp _ f a).renderAt .left).openings ≤ _
    rw [Term.openings_render_tapp, parenthesesIn_append]
    exact Nat.add_le_add (ihf hf) harg
  | @ofAtom ts t _ ih => exact Nat.le_trans t.opensAt.left_le_atom (ih ht)
  | int _ => exact Nat.le_trans (Nat.le_of_eq (Text.openings_ofInt _)) (Nat.zero_le _)
  | var _ => exact Nat.le_trans (Nat.le_of_eq (Text.openings_of_isVariable ht)) (Nat.zero_le _)
  | @paren l r ts t hl _ _ ih => exact t.opensAt.paren_le hl (ih ht)

/-! ## Sources -/

theorem render_parentheses_le {c : Calculus} {source : Text} {t : Term}
    (h : readTerm c source = .ok t) : t.render.parentheses ≤ source.parentheses :=
  Nat.le_trans (parentheses_le_openings t.render)
    ((Tokens.term?_eq_ok.mp h).1.openings_le (isPrintable_of_readTerm h))

/-- **Printed parentheses are as few as can be.**  Whatever source reads as a term, up to
ranges, opens at least as many parentheses as the printed term, which reads as that term too;
and so it is with types. -/
theorem printed_parentheses_least :
    (∀ (c : Calculus) (t u : Term) (source : Text), readTerm c source = .ok u → u.same t = true →
      t.render.parentheses ≤ source.parentheses ∧
        ∃ v, readTerm c t.render = .ok v ∧ v.same t = true) ∧
    (∀ (c : Calculus) (a : Ty) (source : Text), readType c source = .ok a →
      a.render.parentheses ≤ source.parentheses ∧ readType c a.render = .ok a) := by
  constructor
  · intro c t u source hread hsame
    have herase : u.erase = t.erase := of_decide_eq_true hsame
    have hrender : t.render = u.render := by rw [← t.render_erase, ← herase, u.render_erase]
    obtain ⟨v, hv, hvu⟩ := readTerm_render_of_readTerm hread
    have hvt : v.erase = t.erase := (of_decide_eq_true hvu).trans herase
    rw [hrender]
    exact ⟨render_parentheses_le hread, v, hv, decide_eq_true hvt⟩
  · intro c a source hread
    obtain ⟨hder, hsimple⟩ := Tokens.type?_eq_ok.mp hread
    have hprint := isPrintable_of_readType hread
    exact ⟨Nat.le_trans (parentheses_le_openings a.render) (hder.openings_le hprint),
      readType_render hprint hsimple⟩

theorem printed_parentheses_least_application :
    Text.parentheses "((f) (λx: ((Int)). (x)))" = 6 ∧ Text.parentheses "f (λx: Int. x)" = 1 ∧
      Text.parentheses "f (λx: Int. x)" ≤ Text.parentheses "((f) (λx: ((Int)). (x)))" :=
  ⟨by decide, by decide,
    (printed_parentheses_least.1 .simplyTyped
      (.app .nowhere (.var .nowhere "f") (.abs .nowhere "x" .int (.var .nowhere "x"))) _
      "((f) (λx: ((Int)). (x)))" rfl (by decide)).1⟩

end PolyLambda
