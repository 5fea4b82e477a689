import PolyLambda.Printer
import PolyLambda.Proofs.Grammar.Reading
import PolyLambda.Proofs.Token.Spelling

/-!
# Printing and reading are inverse

A type or term is **printable** when it could have been written: its names are names, its
kinds are `*`, and it has no gap.  What is printed scans to tokens that the grammar derives
with the same tree, at each of the three positions of a subtree from the nonterminal that
belongs to it.  By the completeness of the readers the text then reads as that tree, the
ranges of terms apart.

Conversely a tree that was read is printable, since the scanner gives names only to words
that are names.
-/

namespace PolyLambda

open Grammar

/-- Whether a type has a notation. -/
def Ty.isPrintable : Ty → Bool
  | .int => true
  | .var x => x.isTypeVariable
  | .arrow p r => p.isPrintable && r.isPrintable
  | .all x k b => x.isTypeVariable && k = .star && b.isPrintable
  | .gap => false

/-- Whether a term has a notation. -/
def Term.isPrintable : Term → Bool
  | .int .. => true
  | .var _ x => x.isVariable
  | .app _ f a => f.isPrintable && a.isPrintable
  | .abs _ x t b => x.isVariable && t.isPrintable && b.isPrintable
  | .tabs _ x k b => x.isTypeVariable && k = .star && b.isPrintable
  | .tapp _ t a => t.isPrintable && a.isPrintable
  | .gap => false

/-- What a type printed at a position is derived from. -/
def Position.typeForm : Position → TypeForm
  | .top => .type
  | .left | .atom => .atom

/-- What a term printed at a position is derived from. -/
def Position.termForm : Position → TermForm
  | .top => .term
  | .left => .app
  | .atom => .atom

/-! ## Pieces of printed texts -/

namespace Text.Spells

variable {t : Text} {P Q R : List Token → Prop}

theorem parenthesize {needed : Bool} (h : t.Spells P)
    (hbare : needed = false → ∀ ts, P ts → R ts)
    (hparen : needed = true → ∀ l r ts, l.kind = .leftParen → r.kind = .rightParen → P ts →
      R (l :: (ts ++ [r]))) : (parenthesize needed t).Spells R := by
  cases needed with
  | false => exact h.imp (hbare rfl)
  | true =>
    refine .mark rfl (h.append (.mark rfl (.nil ?_)) fun _ => rfl)
    intro r hr ts hts l hl
    exact hparen rfl l r ts hl hr hts

theorem binderText_append (mark : Char) (name note body : Text) :
    binderText mark name note ++ body =
      .char mark ::
        (name ++ .char ':' :: .char ' ' :: (note ++ .char '.' :: .char ' ' :: body)) := by
  have hcolon : Text.ofString ": " = [.char ':', .char ' '] := rfl
  have hdot : Text.ofString ". " = [.char '.', .char ' '] := rfl
  simp [binderText, hcolon, hdot]

theorem binder {c : Char} {name note body : Text} {N : Token → Prop} (hc : isMark c = true)
    (hname : name.Spells fun ts => ∃ x, ts = [x] ∧ N x) (hnote : note.Spells P)
    (hbody : body.Spells fun bs => ∀ (mark x colon dot : Token) as, mark.kind = markKind c → N x →
      colon.kind = .colon → P as → dot.kind = .dot →
      R (mark :: x :: colon :: (as ++ dot :: bs))) :
    (binderText c name note ++ body).Spells R := by
  rw [binderText_append]
  refine .mark hc (hname.append (.mark rfl (.space ?_)) fun _ => rfl)
  refine hnote.append (.mark rfl (.space (hbody.imp ?_))) fun _ => rfl
  rintro bs hR dot hdot as has colon hcolon _ ⟨x, rfl, hx⟩ mark hmark
  exact hR mark x colon dot as hmark hx hcolon has hdot

theorem star : Spells Kind.star.name fun ts => ∃ s : Token, ts = [s] ∧ s.kind = .star :=
  .mark rfl (.nil fun s hs => ⟨s, rfl, hs⟩)

end Text.Spells

/-! ## Printed types -/

theorem Grammar.DerivesType.atPosition {ts : List Token} {a : Ty} (h : DerivesType .atom ts a)
    (pos : Position) : DerivesType pos.typeForm ts a := by
  cases pos with
  | top => exact .ofAtom h
  | left => exact h
  | atom => exact h

/-- A type that stands in parentheses everywhere but at the top. -/
theorem spells_parenthesize_type {t : Text} {a : Ty} (h : t.Spells (DerivesType .type · a))
    (pos : Position) : (parenthesize (pos ≠ .top) t).Spells (DerivesType pos.typeForm · a) := by
  refine h.parenthesize (fun hpos ts hts => ?_) (fun _ l r ts hl hr hts => ?_)
  · obtain rfl : pos = .top := Decidable.not_not.mp (of_decide_eq_false hpos)
    exact hts
  · exact DerivesType.atPosition (.paren hl hts hr) pos

theorem Ty.spells_renderAt {a : Ty} (h : a.isPrintable = true) (pos : Position) :
    (a.renderAt pos).Spells (DerivesType pos.typeForm · a) := by
  induction a generalizing pos with
  | int => exact .intType fun t ht => DerivesType.atPosition (.int ht) pos
  | var x =>
    refine .typeVariableName h fun t ht hname => ?_
    obtain rfl : t.name = x := hname
    exact DerivesType.atPosition (.var ht) pos
  | arrow p r ihp ihr =>
    obtain ⟨hp, hr⟩ := Bool.and_eq_true_iff.mp h
    refine spells_parenthesize_type ?_ pos
    have harrow : Text.ofString " -> " = [.char ' ', .char '-', .char '>', .char ' '] := rfl
    rw [harrow, List.append_assoc]
    refine (ihp hp .left).append (.space (.arrow (.space ((ihr hr .top).imp ?_)))) fun _ => rfl
    intro rs hr mark hmark ps hp
    exact .arrow hp hmark hr
  | all x k b ih =>
    obtain ⟨hxk, hb⟩ := Bool.and_eq_true_iff.mp h
    obtain ⟨hx, hk⟩ := Bool.and_eq_true_iff.mp hxk
    -- only `*` is printed as a kind that can be read
    obtain rfl := of_decide_eq_true hk
    refine spells_parenthesize_type ?_ pos
    have hname : x.Spells fun ts => ∃ t : Token, ts = [t] ∧ t.kind = .typeVar ∧ t.name = x :=
      .typeVariableName hx fun t ht hname => ⟨t, rfl, ht, hname⟩
    refine .binder rfl hname .star ((ih hb .top).imp ?_)
    rintro bs hder mark t colon dot _ hmark ⟨ht, rfl⟩ hcolon ⟨s, rfl, hs⟩ hdot
    exact .all hmark ht hcolon hs hdot hder
  | gap => cases h

/-! ## Printed terms -/

/-- The tokens are derived with the tree of `t`, whatever its ranges, and their literals
fit. -/
def Writes (f : TermForm) (t : Term) (ts : List Token) : Prop :=
  ∃ u, Fitting f ts u ∧ u.erase = t.erase

namespace Writes

variable {t : Term} {ts : List Token}

theorem ofAtom (h : Writes .atom t ts) : Writes .app t ts := by
  obtain ⟨u, hder, herase⟩ := h
  exact ⟨u, hder.ofAtom, herase⟩

theorem ofApp (h : Writes .app t ts) : Writes .term t ts := by
  obtain ⟨u, hder, herase⟩ := h
  exact ⟨u, hder.ofApp, herase⟩

theorem atPosition (h : Writes .atom t ts) (pos : Position) : Writes pos.termForm t ts := by
  cases pos with
  | top => exact h.ofAtom.ofApp
  | left => exact h.ofAtom
  | atom => exact h

theorem paren {l r : Token} (hl : l.kind = .leftParen) (h : Writes .term t ts)
    (hr : r.kind = .rightParen) : Writes .atom t (l :: (ts ++ [r])) := by
  obtain ⟨u, hder, herase⟩ := h
  exact ⟨u, .paren hl hder hr, herase⟩

theorem int {r : Range} {n : Int32} {x : Token} (hx : x.kind = .int)
    (hvalue : literalValue x.text = n.toInt) : Writes .atom (.int r n) [x] := by
  have hlower := n.le_toInt
  have hupper := n.toInt_lt
  have hfits : x.Fits := fun _ => by omega
  have hn : Int32.ofInt (literalValue x.text) = n := by rw [hvalue, Int32.ofInt_toInt]
  exact ⟨_, .int hx hfits, congrArg (Term.int .nowhere) hn⟩

theorem var {r : Range} {x : Token} (hx : x.kind = .ident) : Writes .atom (.var r x.name) [x] :=
  ⟨_, .var hx, rfl⟩

theorem app {r : Range} {f a : Term} {fs as : List Token} (hf : Writes .app f fs)
    (ha : Writes .atom a as) : Writes .app (.app r f a) (fs ++ as) := by
  obtain ⟨f', hderf, herasef⟩ := hf
  obtain ⟨a', hdera, herasea⟩ := ha
  refine ⟨_, hderf.app hdera, ?_⟩
  show Term.app .nowhere f'.erase a'.erase = Term.app .nowhere f.erase a.erase
  rw [herasef, herasea]

theorem tapp {r : Range} {f : Term} {a : Ty} {fs as : List Token} {l c : Token}
    (hf : Writes .app f fs) (hl : l.kind = .leftBracket) (ha : DerivesType .type as a)
    (hc : c.kind = .rightBracket) : Writes .app (.tapp r f a) (fs ++ l :: (as ++ [c])) := by
  obtain ⟨f', hder, herase⟩ := hf
  exact ⟨_, hder.tapp hl ha hc, congrArg (Term.tapp .nowhere · a) herase⟩

theorem abs {r : Range} {a : Ty} {b : Term} {mark x colon dot : Token} {as bs : List Token}
    (hm : mark.kind = .lambda) (hx : x.kind = .ident) (hc : colon.kind = .colon)
    (ha : DerivesType .type as a) (hd : dot.kind = .dot) (hb : Writes .term b bs) :
    Writes .term (.abs r x.name a b) (mark :: x :: colon :: (as ++ dot :: bs)) := by
  obtain ⟨b', hder, herase⟩ := hb
  exact ⟨_, .abs hm hx hc ha hd hder, congrArg (Term.abs .nowhere x.name a) herase⟩

theorem tabs {r : Range} {b : Term} {mark x colon star dot : Token} {bs : List Token}
    (hm : mark.kind = .bigLambda) (hx : x.kind = .typeVar) (hc : colon.kind = .colon)
    (hs : star.kind = .star) (hd : dot.kind = .dot) (hb : Writes .term b bs) :
    Writes .term (.tabs r x.name .star b) (mark :: x :: colon :: star :: dot :: bs) := by
  obtain ⟨b', hder, herase⟩ := hb
  exact ⟨_, .tabs hm hx hc hs hd hder, congrArg (Term.tabs .nowhere x.name .star) herase⟩

end Writes

/-- A binder stands in parentheses everywhere but at the top. -/
theorem spells_parenthesize_binder {t : Text} {u : Term} (h : t.Spells (Writes .term u))
    (pos : Position) : (parenthesize (pos ≠ .top) t).Spells (Writes pos.termForm u) := by
  refine h.parenthesize (fun hpos ts hts => ?_) (fun _ l r ts hl hr hts => ?_)
  · obtain rfl : pos = .top := Decidable.not_not.mp (of_decide_eq_false hpos)
    exact hts
  · exact (Writes.paren hl hts hr).atPosition pos

/-- An application stands in parentheses where only atoms do not. -/
theorem spells_parenthesize_app {t : Text} {u : Term} (h : t.Spells (Writes .app u))
    (pos : Position) : (parenthesize (pos = .atom) t).Spells (Writes pos.termForm u) := by
  refine h.parenthesize (fun hpos ts hts => ?_) (fun _ l r ts hl hr hts => ?_)
  · cases pos with
    | top => exact hts.ofApp
    | left => exact hts
    | atom => cases hpos
  · exact (Writes.paren hl hts.ofApp hr).atPosition pos

theorem Term.spells_renderAt {t : Term} (h : t.isPrintable = true) (pos : Position) :
    (t.renderAt pos).Spells (Writes pos.termForm t) := by
  induction t generalizing pos with
  | int r n => exact .number n.toInt fun x hx hvalue => (Writes.int hx hvalue).atPosition pos
  | var r x =>
    refine .variableName h fun t ht hname => ?_
    obtain rfl : t.name = x := hname
    exact (Writes.var ht).atPosition pos
  | app r f a ihf iha =>
    obtain ⟨hf, ha⟩ := Bool.and_eq_true_iff.mp h
    refine spells_parenthesize_app ?_ pos
    rw [List.append_assoc]
    -- the space keeps a negative literal and a name apart from what is applied to them
    refine (ihf hf .left).append (.space ((iha ha .atom).imp ?_)) fun _ => rfl
    intro as ha fs hf
    exact .app hf ha
  | tapp r f a ihf =>
    obtain ⟨hf, ha⟩ := Bool.and_eq_true_iff.mp h
    refine spells_parenthesize_app ?_ pos
    rw [List.append_assoc, List.append_assoc]
    refine (ihf hf .left).append (.space (.mark rfl ?_)) fun _ => rfl
    refine (Ty.spells_renderAt ha .top).append (.mark rfl (.nil ?_)) fun _ => rfl
    intro c hc as ha l hl fs hf
    exact .tapp hf hl ha hc
  | abs r x a b ih =>
    obtain ⟨hxa, hb⟩ := Bool.and_eq_true_iff.mp h
    obtain ⟨hx, ha⟩ := Bool.and_eq_true_iff.mp hxa
    refine spells_parenthesize_binder ?_ pos
    have hname : x.Spells fun ts => ∃ t : Token, ts = [t] ∧ t.kind = .ident ∧ t.name = x :=
      .variableName hx fun t ht hname => ⟨t, rfl, ht, hname⟩
    refine .binder rfl hname (Ty.spells_renderAt ha .top) ((ih hb .top).imp ?_)
    rintro bs hbody mark t colon dot as hmark ⟨ht, rfl⟩ hcolon ha hdot
    exact .abs hmark ht hcolon ha hdot hbody
  | tabs r x k b ih =>
    obtain ⟨hxk, hb⟩ := Bool.and_eq_true_iff.mp h
    obtain ⟨hx, hk⟩ := Bool.and_eq_true_iff.mp hxk
    obtain rfl := of_decide_eq_true hk
    refine spells_parenthesize_binder ?_ pos
    have hname : x.Spells fun ts => ∃ t : Token, ts = [t] ∧ t.kind = .typeVar ∧ t.name = x :=
      .typeVariableName hx fun t ht hname => ⟨t, rfl, ht, hname⟩
    refine .binder rfl hname .star ((ih hb .top).imp ?_)
    rintro bs hbody mark t colon dot _ hmark ⟨ht, rfl⟩ hcolon ⟨s, rfl, hs⟩ hdot
    exact .tabs hmark ht hcolon hs hdot hbody
  | gap => cases h

/-! ## Reading what is printed -/

theorem Text.Spells.tokens_scan {t : Text} {R : List Token → Prop} (h : t.Spells R) :
    R (scan t.chars).tokens := by
  obtain ⟨ts, q, hts, hR⟩ := h .start [] trivial
  rw [List.append_nil] at hts
  rw [scan, hts]
  exact (List.append_nil ts).symm ▸ hR

theorem Term.isSimplyTyped_erase (t : Term) : t.erase.isSimplyTyped = t.isSimplyTyped := by
  induction t with
  | int r n => rfl
  | var r x => rfl
  | app r f a ihf iha =>
    show (f.erase.isSimplyTyped && a.erase.isSimplyTyped) = (f.isSimplyTyped && a.isSimplyTyped)
    rw [ihf, iha]
  | abs r x a b ih =>
    show (a.isSimple && b.erase.isSimplyTyped) = (a.isSimple && b.isSimplyTyped)
    rw [ih]
  | tabs r x k b ih => rfl
  | tapp r f a ih => rfl
  | gap => rfl

theorem readType_render {c : Calculus} {a : Ty} (h : a.isPrintable = true)
    (hsimple : c = .simplyTyped → a.isSimple = true) : readType c a.render = .ok a :=
  Tokens.type?_eq_ok.mpr ⟨(Ty.spells_renderAt h .top).tokens_scan, hsimple⟩

theorem readTerm_render {c : Calculus} {t : Term} (h : t.isPrintable = true)
    (hsimple : c = .simplyTyped → t.isSimplyTyped = true) :
    ∃ u, readTerm c t.render = .ok u ∧ u.same t = true := by
  obtain ⟨u, ⟨hder, hfits⟩, herase⟩ := (Term.spells_renderAt h .top).tokens_scan
  refine ⟨u, Tokens.term?_eq_ok.mpr ⟨hder, hfits, fun hc => ?_⟩, decide_eq_true herase⟩
  rw [← u.isSimplyTyped_erase, herase, t.isSimplyTyped_erase]
  exact hsimple hc

/-! ## Printing what was read -/

theorem Grammar.DerivesType.isPrintable {f : TypeForm} {ts : List Token} {a : Ty}
    (h : DerivesType f ts a) (hts : ∀ t ∈ ts, t.WellNamed) : a.isPrintable = true := by
  induction h with
  | all hm hx hc hs hd _ ih =>
    simp only [List.forall_mem_cons] at hts
    exact Bool.and_eq_true_iff.mpr
      ⟨Bool.and_eq_true_iff.mpr ⟨hts.2.1.2 hx, rfl⟩, ih hts.2.2.2.2.2⟩
  | arrow _ _ _ ihp ihr =>
    rw [List.forall_mem_append, List.forall_mem_cons] at hts
    exact Bool.and_eq_true_iff.mpr ⟨ihp hts.1, ihr hts.2.2⟩
  | ofAtom _ ih => exact ih hts
  | int _ => rfl
  | var hk => exact (List.forall_mem_singleton.mp hts).2 hk
  | paren _ _ _ ih =>
    rw [List.forall_mem_cons, List.forall_mem_append] at hts
    exact ih hts.2.1

theorem Grammar.Derives.isPrintable {f : TermForm} {ts : List Token} {t : Term} (h : Derives f ts t)
    (hts : ∀ t ∈ ts, t.WellNamed) : t.isPrintable = true := by
  induction h with
  | abs hm hx hc ha hd _ ih =>
    simp only [List.forall_mem_cons, List.forall_mem_append] at hts
    exact Bool.and_eq_true_iff.mpr
      ⟨Bool.and_eq_true_iff.mpr ⟨hts.2.1.1 hx, ha.isPrintable hts.2.2.2.1⟩, ih hts.2.2.2.2.2⟩
  | tabs hm hx hc hs hd _ ih =>
    simp only [List.forall_mem_cons] at hts
    exact Bool.and_eq_true_iff.mpr
      ⟨Bool.and_eq_true_iff.mpr ⟨hts.2.1.2 hx, rfl⟩, ih hts.2.2.2.2.2⟩
  | ofApp _ ih => exact ih hts
  | app _ _ ihf iha =>
    rw [List.forall_mem_append] at hts
    exact Bool.and_eq_true_iff.mpr ⟨ihf hts.1, iha hts.2⟩
  | tapp _ _ ha _ ihf =>
    simp only [List.forall_mem_append, List.forall_mem_cons] at hts
    exact Bool.and_eq_true_iff.mpr ⟨ihf hts.1, ha.isPrintable hts.2.2.1⟩
  | ofAtom _ ih => exact ih hts
  | int _ => rfl
  | var hk => exact (List.forall_mem_singleton.mp hts).1 hk
  | paren _ _ _ ih =>
    rw [List.forall_mem_cons, List.forall_mem_append] at hts
    exact ih hts.2.1

theorem isPrintable_of_readTerm {c : Calculus} {source : Text} {t : Term}
    (h : readTerm c source = .ok t) : t.isPrintable = true :=
  (Tokens.term?_eq_ok.mp h).1.isPrintable fun _ => wellNamed_of_mem_scan

theorem isPrintable_of_readType {c : Calculus} {source : Text} {a : Ty}
    (h : readType c source = .ok a) : a.isPrintable = true :=
  (Tokens.type?_eq_ok.mp h).1.isPrintable fun _ => wellNamed_of_mem_scan

/-- What was read is read again from its notation, in the same calculus. -/
theorem readTerm_render_of_readTerm {c : Calculus} {source : Text} {t : Term}
    (h : readTerm c source = .ok t) : ∃ u, readTerm c t.render = .ok u ∧ u.same t = true :=
  readTerm_render (isPrintable_of_readTerm h) (Tokens.term?_eq_ok.mp h).2.2

/-- **Printing and reading are inverse.**  A printable term prints as a source that reads as
the same term, up to ranges, and a printable type as one that reads as that very type.
Whatever was read is printable, so in either calculus printing it and reading again gives
the same tree. -/
theorem printing_inverts_reading :
    (∀ t : Term, t.isPrintable = true →
      ∃ u, readTerm .systemF t.render = .ok u ∧ u.same t = true) ∧
    (∀ a : Ty, a.isPrintable = true → readType .systemF a.render = .ok a) ∧
    (∀ c source t, readTerm c source = .ok t → t.isPrintable = true ∧
      ∃ u, readTerm c t.render = .ok u ∧ u.same t = true) ∧
    (∀ c source a, readType c source = .ok a → a.isPrintable = true ∧
      readType c a.render = .ok a) := by
  refine ⟨fun t h => readTerm_render h nofun, fun a h => readType_render h nofun, ?_, ?_⟩
  · intro c source t h
    obtain ⟨hder, -, hsimple⟩ := Tokens.term?_eq_ok.mp h
    have hprint := hder.isPrintable fun _ => wellNamed_of_mem_scan
    exact ⟨hprint, readTerm_render hprint hsimple⟩
  · intro c source a h
    obtain ⟨hder, hsimple⟩ := Tokens.type?_eq_ok.mp h
    have hprint := hder.isPrintable fun _ => wellNamed_of_mem_scan
    exact ⟨hprint, readType_render hprint hsimple⟩

theorem printing_inverts_reading_application :
    ∃ u, readTerm .systemF "f [(Int -> X) -> Int] -5" = .ok u ∧
      u.same (.app .nowhere (.tapp .nowhere (.var .nowhere "f")
        (.arrow (.arrow .int (.var "X")) .int)) (.int .nowhere (-5))) = true :=
  printing_inverts_reading.1 (.app .nowhere (.tapp .nowhere (.var .nowhere "f")
    (.arrow (.arrow .int (.var "X")) .int)) (.int .nowhere (-5))) (by decide)

end PolyLambda
