import PolyLambda.Proofs.Grammar.Levels

/-!
# Reading sees only what tokens mean

To a reader a token is its kind, together with its text where tokens of its kind differ by
their text (`Token.sense`).  Neither the place of a token nor another spelling of it makes a
difference.

Tokens are **alike** when they have the same sense one by one.  On tokens that are alike two
readings of the same calculus **agree**: both succeed, with results that look the same and
tokens left that are alike, or both fail with one message (`Agree`).  Readings that agree are
put together one after another (`Agree.bind`), so the readers of types and terms agree
(`agree_type`, `agree_term`).  Of a term only what is left without its ranges is compared.
-/

namespace PolyLambda

open Grammar

/-- What a token is to a reader. -/
def Token.sense (t : Token) : TokenKind × List Char :=
  (t.kind, if t.kind.hasText then t.text else [])

namespace Token

variable {t u : Token}

theorem kind_eq_of_sense (h : t.sense = u.sense) : t.kind = u.kind := congrArg Prod.fst h

theorem text_eq_of_sense (h : t.sense = u.sense) (ht : t.kind.hasText = true) :
    t.text = u.text := by
  have htext : (if t.kind.hasText then t.text else []) = if u.kind.hasText then u.text else [] :=
    congrArg Prod.snd h
  rwa [← kind_eq_of_sense h, if_pos ht, if_pos ht] at htext

theorem name_eq_of_sense (h : t.sense = u.sense) (ht : t.kind.hasText = true) :
    t.name = u.name := congrArg Text.ofChars (text_eq_of_sense h ht)

theorem describe_eq_of_sense (h : t.sense = u.sense) : t.describe = u.describe := by
  rw [describe, describe, ← kind_eq_of_sense h]
  split
  · next ht => rw [name_eq_of_sense h ht]
  · rfl

end Token

namespace ParseError

/-- Whether the wording of a cause quotes the text of its token, whatever its kind is. -/
def Cause.quotes : Cause → Bool
  | .illegal | .tooLarge | .restricted .typeVariable => true
  | _ => false

variable {cause : Cause} {t u : Token}

theorem message_eq_of_sense (h : t.sense = u.sense)
    (htext : cause.quotes = false ∨ t.kind.hasText = true) :
    (⟨cause, t⟩ : ParseError).message = (⟨cause, u⟩ : ParseError).message := by
  cases cause with
  | expected | expectedTerm | expectedType =>
    simp only [message, Token.describe_eq_of_sense h]
  | illegal | tooLarge =>
    simp only [message, Token.name_eq_of_sense h (htext.resolve_left (by decide))]
  | restricted c =>
    cases c with
    | typeAbstraction | typeApplication | universalType => rfl
    | typeVariable =>
      have hname := Token.name_eq_of_sense h (htext.resolve_left (by decide))
      simp only [message, constructText, hname]

theorem message_unexpected (h : t.sense = u.sense) (hcause : cause.quotes = false) :
    (unexpected cause t).message = (unexpected cause u).message := by
  rw [unexpected, unexpected, ← Token.kind_eq_of_sense h]
  split
  · next ht => exact message_eq_of_sense h (.inr (by rw [ht]; rfl))
  · exact message_eq_of_sense h (.inl hcause)

end ParseError

/-- The same tokens to a reader, one by one. -/
def Alike (ts us : List Token) : Prop := ts.map Token.sense = us.map Token.sense

theorem Alike.cons {t u : Token} {ts us : List Token} (ht : t.sense = u.sense) (h : Alike ts us) :
    Alike (t :: ts) (u :: us) := by
  rw [Alike, List.map_cons, List.map_cons, ht, h]

theorem Alike.cases {ts us : List Token} (h : Alike ts us) : ts = [] ∧ us = [] ∨
    ∃ t ts' u us', ts = t :: ts' ∧ us = u :: us' ∧ t.sense = u.sense ∧ Alike ts' us' := by
  cases ts with
  | nil => exact .inl ⟨rfl, List.map_eq_nil_iff.mp h.symm⟩
  | cons t ts =>
    obtain ⟨u, us, rfl, hu, hus⟩ := List.map_eq_cons_iff.mp h.symm
    exact .inr ⟨t, ts, u, us, rfl, rfl, hu.symm, hus.symm⟩

theorem Alike.length_eq {ts us : List Token} (h : Alike ts us) : ts.length = us.length := by
  have hlength := congrArg List.length h
  rwa [List.length_map, List.length_map] at hlength

namespace Reading

/-- Readings of one calculus, whose ends look the same. -/
structure Matches (r s : Reading) : Prop where
  calculus : r.calculus = s.calculus
  finish : r.finish.sense = s.finish.sense

/-- Two results that look the same through `view`, with tokens left that are alike, or two
errors with one message. -/
inductive Agree {α β : Type} (view : α → β) :
    Except ParseError (α × List Token) → Except ParseError (α × List Token) → Prop where
  | ok {a b : α} {ts us : List Token} : view a = view b → Alike ts us →
      Agree view (.ok (a, ts)) (.ok (b, us))
  | error {e e' : ParseError} : e.message = e'.message → Agree view (.error e) (.error e')

/-- Readers that agree on what is alike. -/
def Agrees {α β : Type} (view : α → β)
    (p q : List Token → Except ParseError (α × List Token)) : Prop :=
  ∀ {ts us : List Token}, Alike ts us → Agree view (p ts) (q us)

/-- **Reading on.** -/
theorem Agree.bind {α β γ δ : Type} {view : α → β} {view' : γ → δ}
    {x y : Except ParseError (α × List Token)}
    {f g : α × List Token → Except ParseError (γ × List Token)} (h : Agree view x y)
    (hnext : ∀ {a b ts us}, view a = view b → Alike ts us →
      Agree view' (f (a, ts)) (g (b, us))) : Agree view' (x >>= f) (y >>= g) := by
  cases h with
  | ok hab hts => exact hnext hab hts
  | error he => exact .error he

variable {r s : Reading} {α β : Type} {view : α → β}

theorem Matches.ahead (h : r.Matches s) {ts us : List Token} (hts : Alike ts us) :
    (r.ahead ts).sense = (s.ahead us).sense := by
  obtain ⟨rfl, rfl⟩ | ⟨t, ts, u, us, rfl, rfl, ht, -⟩ := hts.cases
  · exact h.finish
  · exact ht

theorem agree_fail (h : r.Matches s) {ts us : List Token} (hts : Alike ts us)
    {cause : ParseError.Cause} (hcause : cause.quotes = false) :
    Agree view (r.fail cause ts) (s.fail cause us) :=
  .error (ParseError.message_unexpected (h.ahead hts) hcause)

/-- Of a token of a kind that is asked for only its name counts, if it has one. -/
theorem agree_expect (h : r.Matches s) (k : TokenKind) :
    Agrees (fun t : Token => if k.hasText then t.name else []) (r.expect k) (s.expect k) := by
  intro ts us hts
  obtain ⟨rfl, rfl⟩ | ⟨t, ts, u, us, rfl, rfl, ht, hts'⟩ := hts.cases
  · exact agree_fail h hts rfl
  rw [expect, expect, ← Token.kind_eq_of_sense ht]
  by_cases hk : t.kind = k
  · rw [if_pos hk, if_pos hk]
    refine .ok ?_ hts'
    split
    · next htext => exact Token.name_eq_of_sense ht (hk ▸ htext)
    · rfl
  · rw [if_neg hk, if_neg hk]
    exact agree_fail h hts rfl

/-- A construct of System F is refused in both readings or in none. -/
theorem agree_allow (h : r.Matches s) {k : Construct} {t u : Token} (ht : t.sense = u.sense)
    (htext : (ParseError.Cause.restricted k).quotes = false ∨ t.kind.hasText = true)
    {x y : Except ParseError (α × List Token)} (hnext : Agree view x y) :
    Agree view (r.allow k t >>= fun _ => x) (s.allow k u >>= fun _ => y) := by
  rw [allow, allow, ← h.calculus]
  split
  · exact .error (ParseError.message_eq_of_sense ht htext)
  · exact hnext

theorem agree_kind (h : r.Matches s) : Agrees id r.kind s.kind := by
  intro ts us hts
  exact (agree_expect h .star hts).bind fun _ hts => .ok rfl hts

theorem agree_typeBinder (h : r.Matches s) : Agrees id r.typeBinder s.typeBinder := by
  intro ts us hts
  refine (agree_expect h .typeVar hts).bind fun {x y _ _} hx hts => ?_
  have hname : x.name = y.name := hx
  refine (agree_expect h .colon hts).bind fun _ hts => (agree_kind h hts).bind fun hk hts => ?_
  refine (agree_expect h .dot hts).bind fun _ hts => .ok ?_ hts
  exact Prod.ext hname hk

/-- What stands in parentheses. -/
theorem agree_parenthesized (h : r.Matches s) {x y : Except ParseError (α × List Token)}
    (hinner : Agree view x y) :
    Agree view
      (x >>= fun (a, us) => r.expect .rightParen us >>= fun (_, vs) => .ok (a, vs))
      (y >>= fun (a, us) => s.expect .rightParen us >>= fun (_, vs) => .ok (a, vs)) :=
  hinner.bind fun ha hts => (agree_expect h .rightParen hts).bind fun _ hts => .ok ha hts

/-! ## Types -/

section Types

variable {inner inner' : List Token → Except ParseError (Ty × List Token)}

theorem agree_typeAtom (h : r.Matches s) (hinner : Agrees id inner inner') :
    Agrees id (r.typeAtom inner) (s.typeAtom inner') := by
  intro ts us hts
  obtain ⟨rfl, rfl⟩ | ⟨t, ts, u, us, rfl, rfl, ht, hts'⟩ := hts.cases
  · exact agree_fail h hts rfl
  have hkind := Token.kind_eq_of_sense ht
  by_cases hint : t.kind = .intType
  · rw [typeAtom_int hint, typeAtom_int (hkind ▸ hint)]
    exact .ok rfl hts'
  by_cases hvar : t.kind = .typeVar
  · have htext : t.kind.hasText = true := by rw [hvar]; rfl
    rw [typeAtom_var hvar, typeAtom_var (hkind ▸ hvar)]
    exact agree_allow h ht (.inr htext)
      (.ok (congrArg Ty.var (Token.name_eq_of_sense ht htext)) hts')
  by_cases hparen : t.kind = .leftParen
  · rw [typeAtom_paren hparen, typeAtom_paren (hkind ▸ hparen)]
    exact agree_parenthesized h (hinner hts')
  · have hfail : startsTypeAtom t.kind = false := by simp [startsTypeAtom, hint, hvar, hparen]
    rw [typeAtom_fail hfail, typeAtom_fail (hkind ▸ hfail)]
    exact .error (ParseError.message_unexpected ht rfl)

theorem agree_resultLayer (hinner : Agrees id inner inner') (param : Ty) :
    Agrees id (resultLayer inner param) (resultLayer inner' param) := by
  intro ts us hts
  obtain ⟨rfl, rfl⟩ | ⟨t, ts, u, us, rfl, rfl, ht, hts'⟩ := hts.cases
  · exact .ok rfl hts
  have hkind := Token.kind_eq_of_sense ht
  by_cases harrow : t.kind = .arrow
  · rw [resultLayer_arrow harrow, resultLayer_arrow (hkind ▸ harrow)]
    exact (hinner hts').bind fun hresult hts => .ok (congrArg (Ty.arrow param) hresult) hts
  · rw [resultLayer_stop harrow, resultLayer_stop (hkind ▸ harrow)]
    exact .ok rfl hts

theorem agree_typeLayer (h : r.Matches s) (hinner : Agrees id inner inner') :
    Agrees id (r.typeLayer inner) (s.typeLayer inner') := by
  intro ts us hts
  obtain ⟨rfl, rfl⟩ | ⟨t, ts, u, us, rfl, rfl, ht, hts'⟩ := hts.cases
  · exact agree_fail h hts rfl
  have hkind := Token.kind_eq_of_sense ht
  by_cases hall : t.kind = .forAll
  · rw [typeLayer_all hall, typeLayer_all (hkind ▸ hall)]
    refine agree_allow h ht (.inl rfl) ((agree_typeBinder h hts').bind fun {x y _ _} hx hts => ?_)
    obtain rfl : x = y := hx
    exact (hinner hts).bind fun hbody hts => .ok (congrArg (Ty.all x.1 x.2) hbody) hts
  · rw [typeLayer_atom hall, typeLayer_atom (hkind ▸ hall)]
    refine (agree_typeAtom h hinner hts).bind fun {p q _ _} hparam hts => ?_
    obtain rfl : p = q := hparam
    exact agree_resultLayer hinner p hts

end Types

theorem agree_typeWithin (h : r.Matches s) (n : Nat) :
    Agrees id (r.typeWithin n) (s.typeWithin n) := by
  induction n with
  | zero =>
    intro ts us hts
    exact agree_fail h hts rfl
  | succ n ih =>
    intro ts us hts
    rw [typeWithin_succ, typeWithin_succ]
    exact agree_typeLayer h ih hts

/-- Two readings of a type agree. -/
theorem agree_type (h : r.Matches s) : Agrees id r.type s.type := by
  intro ts us hts
  -- there are as many tokens on both sides, and so as many levels
  rw [type, type, hts.length_eq]
  exact agree_typeWithin h _ hts

/-! ## Terms -/

section Terms

variable {inner inner' : List Token → Except ParseError (Term × List Token)}
  {loop loop' : Term → List Token → Except ParseError (Term × List Token)}

theorem agree_atom (h : r.Matches s) (hinner : Agrees Term.erase inner inner') :
    Agrees Term.erase (r.atom inner) (s.atom inner') := by
  intro ts us hts
  obtain ⟨rfl, rfl⟩ | ⟨t, ts, u, us, rfl, rfl, ht, hts'⟩ := hts.cases
  · exact agree_fail h hts rfl
  have hkind := Token.kind_eq_of_sense ht
  by_cases hint : t.kind = .int
  · have htext := Token.text_eq_of_sense ht (by rw [hint]; rfl)
    cases hn : int32OfLiteral? t.text with
    | some n =>
      rw [atom_int hint hn, atom_int (hkind ▸ hint) (htext ▸ hn)]
      exact .ok rfl hts'
    | none =>
      rw [atom_tooLarge hint hn, atom_tooLarge (hkind ▸ hint) (htext ▸ hn)]
      exact .error (ParseError.message_eq_of_sense ht (.inr (by rw [hint]; rfl)))
  by_cases hvar : t.kind = .ident
  · have hname := Token.name_eq_of_sense ht (by rw [hvar]; rfl)
    rw [atom_var hvar, atom_var (hkind ▸ hvar)]
    exact .ok (congrArg (Term.var .nowhere) hname) hts'
  by_cases hparen : t.kind = .leftParen
  · rw [atom_paren hparen, atom_paren (hkind ▸ hparen)]
    exact agree_parenthesized h (hinner hts')
  · have hfail : startsAtom t.kind = false := by simp [startsAtom, hint, hvar, hparen]
    rw [atom_fail hfail, atom_fail (hkind ▸ hfail)]
    exact .error (ParseError.message_unexpected ht rfl)

/-- Loops that agree, whatever terms that look the same they start with. -/
def LoopsAgree (loop loop' : Term → List Token → Except ParseError (Term × List Token)) : Prop :=
  ∀ {f g : Term}, f.erase = g.erase → Agrees Term.erase (loop f) (loop' g)

theorem agree_termLayer (h : r.Matches s) (hinner : Agrees Term.erase inner inner')
    (hloop : LoopsAgree loop loop') :
    Agrees Term.erase (r.termLayer inner loop) (s.termLayer inner' loop') := by
  intro ts us hts
  obtain ⟨rfl, rfl⟩ | ⟨t, ts, u, us, rfl, rfl, ht, hts'⟩ := hts.cases
  · exact agree_fail h hts rfl
  have hkind := Token.kind_eq_of_sense ht
  by_cases hlambda : t.kind = .lambda
  · rw [termLayer_abs hlambda, termLayer_abs (hkind ▸ hlambda)]
    refine (agree_expect h .ident hts').bind fun {x y _ _} hx hts => ?_
    refine (agree_expect h .colon hts).bind fun _ hts => ?_
    refine (agree_type h hts).bind fun {a b _ _} ha hts => ?_
    refine (agree_expect h .dot hts).bind fun _ hts => ?_
    refine (hinner hts).bind fun {m n _ _} hbody hts => .ok ?_ hts
    have hname : x.name = y.name := hx
    obtain rfl : a = b := ha
    show Term.abs .nowhere x.name a m.erase = Term.abs .nowhere y.name a n.erase
    rw [hname, hbody]
  by_cases hbigLambda : t.kind = .bigLambda
  · rw [termLayer_tabs hbigLambda, termLayer_tabs (hkind ▸ hbigLambda)]
    refine agree_allow h ht (.inl rfl) ((agree_typeBinder h hts').bind fun {x y _ _} hx hts => ?_)
    obtain rfl : x = y := hx
    exact (hinner hts).bind fun hbody hts =>
      .ok (congrArg (Term.tabs .nowhere x.1 x.2) hbody) hts
  · rw [termLayer_app hlambda hbigLambda, termLayer_app (hkind ▸ hlambda) (hkind ▸ hbigLambda)]
    exact (agree_atom h hinner hts).bind fun hfn hts => hloop hfn hts

theorem agree_spineLayer (h : r.Matches s) (hinner : Agrees Term.erase inner inner')
    (hloop : LoopsAgree loop loop') :
    LoopsAgree (r.spineLayer inner loop) (s.spineLayer inner' loop') := by
  intro f g hfn ts us hts
  obtain ⟨rfl, rfl⟩ | ⟨t, ts, u, us, rfl, rfl, ht, hts'⟩ := hts.cases
  · exact .ok hfn hts
  have hkind := Token.kind_eq_of_sense ht
  by_cases hbracket : t.kind = .leftBracket
  · rw [spineLayer_tapp hbracket, spineLayer_tapp (hkind ▸ hbracket)]
    refine agree_allow h ht (.inl rfl) ((agree_type h hts').bind fun {a b _ _} ha hts => ?_)
    obtain rfl : a = b := ha
    refine (agree_expect h .rightBracket hts).bind fun _ hts => hloop ?_ hts
    exact congrArg (Term.tapp .nowhere · a) hfn
  by_cases hstart : startsAtom t.kind = true
  · rw [spineLayer_app hstart, spineLayer_app (hkind ▸ hstart)]
    refine (agree_atom h hinner hts).bind fun {a b _ _} harg hts => hloop ?_ hts
    show Term.app .nowhere f.erase a.erase = Term.app .nowhere g.erase b.erase
    rw [hfn, harg]
  · have hstop : continuesTerm t.kind = false := by simp [continuesTerm, hbracket, hstart]
    rw [spineLayer_stop hstop, spineLayer_stop (hkind ▸ hstop)]
    exact .ok hfn hts

end Terms

theorem agree_termWithin_and_spineWithin (h : r.Matches s) (n : Nat) :
    Agrees Term.erase (r.termWithin n) (s.termWithin n) ∧
      LoopsAgree (r.spineWithin n) (s.spineWithin n) := by
  induction n with
  | zero =>
    constructor
    · intro ts us hts
      exact agree_fail h hts rfl
    · intro f g hfn ts us hts
      exact .ok hfn hts
  | succ n ih =>
    constructor
    · intro ts us hts
      rw [termWithin_succ, termWithin_succ]
      exact agree_termLayer h ih.1 ih.2 hts
    · intro f g hfn ts us hts
      rw [spineWithin_succ, spineWithin_succ]
      exact agree_spineLayer h ih.1 ih.2 hfn hts

/-- Two readings of a term agree. -/
theorem agree_term (h : r.Matches s) : Agrees Term.erase r.term s.term := by
  intro ts us hts
  rw [term, term, hts.length_eq]
  exact (agree_termWithin_and_spineWithin h _).1 hts

/-- Readings of whole sources that agree. -/
theorem Agree.complete {α β : Type} {view : α → β} {x y : Except ParseError (α × List Token)}
    (h : Agree view x y) :
    (∃ a b, Reading.complete x = .ok a ∧ Reading.complete y = .ok b ∧ view a = view b) ∨
      ∃ e e', Reading.complete x = .error e ∧ Reading.complete y = .error e' ∧
        e.message = e'.message := by
  cases h with
  | @ok a b rest rest' hab hrest =>
    obtain ⟨rfl, rfl⟩ | ⟨v, vs, w, ws, rfl, rfl, hv, -⟩ := hrest.cases
    · exact .inl ⟨a, b, rfl, rfl, hab⟩
    · exact .inr ⟨_, _, rfl, rfl, ParseError.message_unexpected hv rfl⟩
  | @error e e' he => exact .inr ⟨e, e', rfl, rfl, he⟩

end Reading

namespace Tokens

variable {ts us : Tokens}

/-- **The sense of tokens decides how they are read**, up to the ranges of the term. -/
theorem term?_agree (htokens : Alike ts.tokens us.tokens)
    (hfinish : ts.finish.sense = us.finish.sense) (c : Calculus) :
    (∃ t u, ts.term? c = .ok t ∧ us.term? c = .ok u ∧ t.same u = true) ∨
      ∃ e e', ts.term? c = .error e ∧ us.term? c = .error e' ∧ e.message = e'.message := by
  have hmatches : (ts.reading c).Matches (us.reading c) := ⟨rfl, hfinish⟩
  rcases (Reading.agree_term hmatches htokens).complete with ⟨t, u, ht, hu, htu⟩ | herror
  · exact .inl ⟨t, u, ht, hu, decide_eq_true htu⟩
  · exact .inr herror

/-- Types have no ranges, so the sense of tokens decides all of a type. -/
theorem type?_agree (htokens : Alike ts.tokens us.tokens)
    (hfinish : ts.finish.sense = us.finish.sense) (c : Calculus) :
    (∃ a, ts.type? c = .ok a ∧ us.type? c = .ok a) ∨
      ∃ e e', ts.type? c = .error e ∧ us.type? c = .error e' ∧ e.message = e'.message := by
  have hmatches : (ts.reading c).Matches (us.reading c) := ⟨rfl, hfinish⟩
  rcases (Reading.agree_type hmatches htokens).complete with ⟨a, b, ha, hb, hab⟩ | herror
  · obtain rfl : a = b := hab
    exact .inl ⟨a, ha, hb⟩
  · exact .inr herror

end Tokens
end PolyLambda
