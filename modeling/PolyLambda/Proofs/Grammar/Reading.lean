import PolyLambda.Proofs.Grammar
import PolyLambda.Proofs.Outcome

/-!
# Readers accept exactly the grammar

Each reader is **sound**: what it takes off the tokens is derived from its nonterminal
with the tree it returns.  And each is **complete**: it reads a derived sequence wherever
nothing that follows could continue it, given as many levels as the sequence has tokens.

Both are proved for either calculus at once.  The simply-typed lambda calculus refuses
its tokens one by one while the tree is being built, and the trees it lets through are
the simply-typed ones.

Literals are the one place where reading asks for more than the grammar: a literal has
to fit in 32 bits (`Token.Fits`).
-/

namespace PolyLambda

/-- An integer literal has a value in 32 bits. -/
def Token.Fits (t : Token) : Prop :=
  t.kind = .int → -2147483648 ≤ literalValue t.text ∧ literalValue t.text ≤ 2147483647

instance (t : Token) : Decidable t.Fits :=
  inferInstanceAs (Decidable (t.kind = .int →
    -2147483648 ≤ literalValue t.text ∧ literalValue t.text ≤ 2147483647))

theorem Token.fits_of_kind {t : Token} {k : TokenKind} (ht : t.kind = k) (hk : k ≠ .int) :
    t.Fits := fun h => absurd (ht.symm.trans h) hk

/-- There are no literals in a type. -/
theorem Grammar.DerivesType.fits {f : Grammar.TypeForm} {ts : List Token} {a : Ty}
    (h : Grammar.DerivesType f ts a) : ∀ t ∈ ts, t.Fits := by
  induction h with
  | all hm hx hc hs hd _ ih =>
    simp only [List.forall_mem_cons]
    exact ⟨Token.fits_of_kind hm nofun, Token.fits_of_kind hx nofun, Token.fits_of_kind hc nofun,
      Token.fits_of_kind hs nofun, Token.fits_of_kind hd nofun, ih⟩
  | arrow _ hm _ ihp ihr =>
    rw [List.forall_mem_append, List.forall_mem_cons]
    exact ⟨ihp, Token.fits_of_kind hm nofun, ihr⟩
  | ofAtom _ ih => exact ih
  | int hk => exact List.forall_mem_singleton.mpr (Token.fits_of_kind hk nofun)
  | var hk => exact List.forall_mem_singleton.mpr (Token.fits_of_kind hk nofun)
  | paren hl _ hr ih =>
    rw [List.forall_mem_cons, List.forall_mem_append, List.forall_mem_singleton]
    exact ⟨Token.fits_of_kind hl nofun, ih, Token.fits_of_kind hr nofun⟩

/-- A derivation of a term whose literals fit. -/
def Grammar.Fitting (f : Grammar.TermForm) (ts : List Token) (t : Term) : Prop :=
  Grammar.Derives f ts t ∧ ∀ u ∈ ts, u.Fits

namespace Grammar.Fitting

variable {ts : List Token} {t : Term}

theorem abs {mark x colon dot : Token} {as bs : List Token} {a : Ty} {b : Term}
    (hm : mark.kind = .lambda) (hx : x.kind = .ident) (hc : colon.kind = .colon)
    (ha : DerivesType .type as a) (hd : dot.kind = .dot) (hb : Fitting .term bs b) :
    Fitting .term (mark :: x :: colon :: (as ++ dot :: bs))
      (.abs (mark.range.between b.range) x.name a b) := by
  refine ⟨.abs hm hx hc ha hd hb.1, ?_⟩
  simp only [List.forall_mem_cons, List.forall_mem_append]
  exact ⟨Token.fits_of_kind hm nofun, Token.fits_of_kind hx nofun, Token.fits_of_kind hc nofun,
    ha.fits, Token.fits_of_kind hd nofun, hb.2⟩

theorem tabs {mark x colon star dot : Token} {bs : List Token} {b : Term}
    (hm : mark.kind = .bigLambda) (hx : x.kind = .typeVar) (hc : colon.kind = .colon)
    (hs : star.kind = .star) (hd : dot.kind = .dot) (hb : Fitting .term bs b) :
    Fitting .term (mark :: x :: colon :: star :: dot :: bs)
      (.tabs (mark.range.between b.range) x.name .star b) := by
  refine ⟨.tabs hm hx hc hs hd hb.1, ?_⟩
  simp only [List.forall_mem_cons]
  exact ⟨Token.fits_of_kind hm nofun, Token.fits_of_kind hx nofun, Token.fits_of_kind hc nofun,
    Token.fits_of_kind hs nofun, Token.fits_of_kind hd nofun, hb.2⟩

theorem ofApp (h : Fitting .app ts t) : Fitting .term ts t := ⟨.ofApp h.1, h.2⟩

theorem app {fs as : List Token} {f a : Term} (hf : Fitting .app fs f) (ha : Fitting .atom as a) :
    Fitting .app (fs ++ as) (.app (f.range.between a.range) f a) :=
  ⟨.app hf.1 ha.1, List.forall_mem_append.mpr ⟨hf.2, ha.2⟩⟩

theorem tapp {l r : Token} {fs as : List Token} {f : Term} {a : Ty} (hf : Fitting .app fs f)
    (hl : l.kind = .leftBracket) (ha : DerivesType .type as a) (hr : r.kind = .rightBracket) :
    Fitting .app (fs ++ l :: (as ++ [r])) (.tapp (f.range.between r.range) f a) := by
  refine ⟨.tapp hf.1 hl ha hr, ?_⟩
  simp only [List.forall_mem_append, List.forall_mem_cons]
  exact ⟨hf.2, Token.fits_of_kind hl nofun, ha.fits, Token.fits_of_kind hr nofun, nofun⟩

theorem ofAtom (h : Fitting .atom ts t) : Fitting .app ts t := ⟨.ofAtom h.1, h.2⟩

theorem int {u : Token} (hu : u.kind = .int) (hfits : u.Fits) :
    Fitting .atom [u] (.int u.range (.ofInt (literalValue u.text))) :=
  ⟨.int hu, List.forall_mem_singleton.mpr hfits⟩

theorem var {u : Token} (hu : u.kind = .ident) : Fitting .atom [u] (.var u.range u.name) :=
  ⟨.var hu, List.forall_mem_singleton.mpr (Token.fits_of_kind hu nofun)⟩

theorem paren {l r : Token} (hl : l.kind = .leftParen) (h : Fitting .term ts t)
    (hr : r.kind = .rightParen) : Fitting .atom (l :: (ts ++ [r])) t := by
  refine ⟨.paren hl h.1 hr, ?_⟩
  simp only [List.forall_mem_append, List.forall_mem_cons]
  exact ⟨Token.fits_of_kind hl nofun, h.2, Token.fits_of_kind hr nofun, nofun⟩

end Grammar.Fitting

theorem int32OfLiteral?_eq_some {text : List Char} {n : Int32} :
    int32OfLiteral? text = some n ↔
      (-2147483648 ≤ literalValue text ∧ literalValue text ≤ 2147483647) ∧
        n = .ofInt (literalValue text) := by
  simp only [int32OfLiteral?]
  split
  · next h => simp [h, eq_comm]
  · next h => simp [h]

namespace Reading

open Grammar

variable {r : Reading}

/-! ## Single tokens -/

theorem expect_eq_ok {k : TokenKind} {ts rest : List Token} {t : Token} :
    r.expect k ts = .ok (t, rest) ↔ ts = t :: rest ∧ t.kind = k := by
  cases ts with
  | nil => simp [expect, fail]
  | cons u us =>
    rw [expect]
    split
    · next hk =>
      constructor
      · intro h
        obtain ⟨rfl, rfl⟩ := Prod.mk.inj (Except.ok.inj h)
        exact ⟨rfl, hk⟩
      · rintro ⟨heq, -⟩
        rw [(List.cons.inj heq).1, (List.cons.inj heq).2]
    · next hk =>
      constructor
      · intro h
        cases h
      · rintro ⟨heq, ht⟩
        rw [(List.cons.inj heq).1] at hk
        exact absurd ht hk

theorem expect_cons {k : TokenKind} {t : Token} {rest : List Token} (ht : t.kind = k) :
    r.expect k (t :: rest) = .ok (t, rest) := expect_eq_ok.mpr ⟨rfl, ht⟩

theorem allow_eq_ok {c : Construct} {t : Token} {u : Unit} :
    r.allow c t = .ok u ↔ r.calculus ≠ .simplyTyped := by
  unfold allow
  split
  · next h => simp [h]
  · next h => simp [h]

theorem kind_eq_ok {ts rest : List Token} {k : Kind} :
    r.kind ts = .ok (k, rest) ↔
      ∃ star : Token, ts = star :: rest ∧ star.kind = .star ∧ k = .star := by
  unfold kind
  simp only [bind_eq_ok, pure_eq_ok, Prod.exists, expect_eq_ok, Prod.mk.injEq]
  constructor
  · rintro ⟨star, _, ⟨hts, hk⟩, rfl, rfl⟩
    exact ⟨star, hts, hk, rfl⟩
  · rintro ⟨star, hts, hk, rfl⟩
    exact ⟨star, _, ⟨hts, hk⟩, rfl, rfl⟩

theorem typeBinder_eq_ok {ts rest : List Token} {name : Text} {k : Kind} :
    r.typeBinder ts = .ok ((name, k), rest) ↔ ∃ x colon star dot : Token,
      ts = x :: colon :: star :: dot :: rest ∧ x.kind = .typeVar ∧ colon.kind = .colon ∧
        star.kind = .star ∧ dot.kind = .dot ∧ name = x.name ∧ k = .star := by
  unfold typeBinder
  simp only [bind_eq_ok, pure_eq_ok, Prod.exists, expect_eq_ok, kind_eq_ok, Prod.mk.injEq]
  constructor
  · rintro ⟨x, _, ⟨rfl, hx⟩, colon, _, ⟨rfl, hc⟩, _, _, ⟨star, rfl, hs, rfl⟩, dot, _, ⟨rfl, hd⟩,
      ⟨rfl, rfl⟩, rfl⟩
    exact ⟨x, colon, star, dot, rfl, hx, hc, hs, hd, rfl, rfl⟩
  · rintro ⟨x, colon, star, dot, rfl, hx, hc, hs, hd, rfl, rfl⟩
    exact ⟨x, _, ⟨rfl, hx⟩, colon, _, ⟨rfl, hc⟩, _, _, ⟨star, rfl, hs, rfl⟩, dot, _, ⟨rfl, hd⟩,
      ⟨rfl, rfl⟩, rfl⟩

/-! ## What is taken off the tokens

`SpellsType` and `Spells` are derivations with the tokens left over.  There is one lemma
for each production, and the soundness proofs follow the readers through them. -/

/-- The tokens `ts` begin with what `f` derives with the tree `a`, one that the calculus
has, and go on with `rest`. -/
def SpellsType (r : Reading) (f : TypeForm) (ts : List Token) (a : Ty) (rest : List Token) : Prop :=
  ∃ used, ts = used ++ rest ∧ DerivesType f used a ∧
    (r.calculus = .simplyTyped → a.isSimple = true)

/-- The tokens `ts` begin with what `f` derives with the tree `t`, one that the calculus
has, and go on with `rest`; the literals on the way fit. -/
def Spells (r : Reading) (f : TermForm) (ts : List Token) (t : Term) (rest : List Token) : Prop :=
  ∃ used, ts = used ++ rest ∧ Fitting f used t ∧
    (r.calculus = .simplyTyped → t.isSimplyTyped = true)

theorem SpellsType.all {mark x colon star dot : Token} {ts rest : List Token} {a : Ty}
    (hm : mark.kind = .forAll) (hx : x.kind = .typeVar) (hc : colon.kind = .colon)
    (hs : star.kind = .star) (hd : dot.kind = .dot) (hcalc : r.calculus ≠ .simplyTyped)
    (h : r.SpellsType .type ts a rest) :
    r.SpellsType .type (mark :: x :: colon :: star :: dot :: ts) (.all x.name .star a) rest := by
  obtain ⟨used, rfl, hder, -⟩ := h
  exact ⟨_, rfl, .all hm hx hc hs hd hder, fun h => absurd h hcalc⟩

theorem SpellsType.arrow {mark : Token} {ts us rest : List Token} {p q : Ty}
    (hp : r.SpellsType .atom ts p (mark :: us)) (hm : mark.kind = .arrow)
    (hq : r.SpellsType .type us q rest) : r.SpellsType .type ts (.arrow p q) rest := by
  obtain ⟨ps, rfl, hderp, hsimplep⟩ := hp
  obtain ⟨qs, rfl, hderq, hsimpleq⟩ := hq
  refine ⟨ps ++ mark :: qs, by rw [List.append_assoc]; rfl, .arrow hderp hm hderq, fun h => ?_⟩
  rw [Ty.isSimple, hsimplep h, hsimpleq h]
  rfl

theorem SpellsType.ofAtom {ts rest : List Token} {a : Ty} (h : r.SpellsType .atom ts a rest) :
    r.SpellsType .type ts a rest := by
  obtain ⟨used, rfl, hder, hsimple⟩ := h
  exact ⟨used, rfl, .ofAtom hder, hsimple⟩

theorem SpellsType.paren {l c : Token} {ts rest : List Token} {a : Ty} (hl : l.kind = .leftParen)
    (h : r.SpellsType .type ts a (c :: rest)) (hc : c.kind = .rightParen) :
    r.SpellsType .atom (l :: ts) a rest := by
  obtain ⟨used, rfl, hder, hsimple⟩ := h
  refine ⟨l :: (used ++ [c]), ?_, .paren hl hder hc, hsimple⟩
  rw [List.cons_append, List.append_assoc]
  rfl

theorem typeAtom_sound {inner : List Token → Except ParseError (Ty × List Token)}
    (hinner : ∀ ts a rest, inner ts = .ok (a, rest) → r.SpellsType .type ts a rest)
    {ts rest : List Token} {a : Ty} (h : r.typeAtom inner ts = .ok (a, rest)) :
    r.SpellsType .atom ts a rest := by
  cases ts with
  | nil => cases h
  | cons t ts =>
    rw [typeAtom] at h
    split at h
    · next hk =>
      obtain ⟨rfl, rfl⟩ := Prod.mk.inj (Except.ok.inj h)
      exact ⟨[t], rfl, .int hk, fun _ => rfl⟩
    · next hk =>
      simp only [bind_eq_ok, allow_eq_ok, pure_eq_ok, Prod.mk.injEq] at h
      obtain ⟨-, hcalc, rfl, rfl⟩ := h
      exact ⟨[t], rfl, .var hk, fun h => absurd h hcalc⟩
    · next hk =>
      simp only [bind_eq_ok, pure_eq_ok, Prod.exists, expect_eq_ok, Prod.mk.injEq] at h
      obtain ⟨b, us, hb, c, vs, ⟨rfl, hc⟩, rfl, rfl⟩ := h
      exact .paren hk (hinner _ _ _ hb) hc
    · cases h

theorem typeWithin_sound {n : Nat} {ts rest : List Token} {a : Ty}
    (h : r.typeWithin n ts = .ok (a, rest)) : r.SpellsType .type ts a rest := by
  induction n generalizing ts rest a with
  | zero => cases h
  | succ n ih =>
    cases ts with
    | nil => cases h
    | cons t ts =>
      rw [typeWithin] at h
      split at h
      · next hk =>
        simp only [bind_eq_ok, pure_eq_ok, Prod.exists, allow_eq_ok, typeBinder_eq_ok,
          Prod.mk.injEq] at h
        obtain ⟨-, hcalc, -, -, _, ⟨x, colon, star, dot, rfl, hx, hc, hs, hd, rfl, rfl⟩, b, us, hb,
          rfl, rfl⟩ := h
        exact .all hk hx hc hs hd hcalc (ih hb)
      · simp only [bind_eq_ok, Prod.exists] at h
        obtain ⟨p, us, hp, h⟩ := h
        have hp := typeAtom_sound (fun _ _ _ => ih) hp
        split at h
        · obtain ⟨rfl, rfl⟩ := Prod.mk.inj (pure_eq_ok.mp h)
          exact .ofAtom hp
        · split at h
          · next hk =>
            simp only [bind_eq_ok, pure_eq_ok, Prod.exists, Prod.mk.injEq] at h
            obtain ⟨q, vs, hq, rfl, rfl⟩ := h
            exact .arrow hp hk (ih hq)
          · obtain ⟨rfl, rfl⟩ := Prod.mk.inj (pure_eq_ok.mp h)
            exact .ofAtom hp

/-- **The type reader is sound.** -/
theorem type_sound {ts rest : List Token} {a : Ty} (h : r.type ts = .ok (a, rest)) :
    r.SpellsType .type ts a rest := typeWithin_sound h

theorem Spells.abs {mark x colon dot : Token} {ts us rest : List Token} {a : Ty} {b : Term}
    (hm : mark.kind = .lambda) (hx : x.kind = .ident) (hc : colon.kind = .colon)
    (ha : r.SpellsType .type ts a (dot :: us)) (hd : dot.kind = .dot)
    (hb : r.Spells .term us b rest) :
    r.Spells .term (mark :: x :: colon :: ts) (.abs (mark.range.between b.range) x.name a b)
      rest := by
  obtain ⟨as, rfl, hdera, hsimplea⟩ := ha
  obtain ⟨bs, rfl, hderb, hsimpleb⟩ := hb
  refine ⟨_, ?_, .abs hm hx hc hdera hd hderb, fun h => ?_⟩
  · simp only [List.cons_append, List.append_assoc]
  · rw [Term.isSimplyTyped, hsimplea h, hsimpleb h]
    rfl

theorem Spells.tabs {mark x colon star dot : Token} {ts rest : List Token} {b : Term}
    (hm : mark.kind = .bigLambda) (hx : x.kind = .typeVar) (hc : colon.kind = .colon)
    (hs : star.kind = .star) (hd : dot.kind = .dot) (hcalc : r.calculus ≠ .simplyTyped)
    (hb : r.Spells .term ts b rest) :
    r.Spells .term (mark :: x :: colon :: star :: dot :: ts)
      (.tabs (mark.range.between b.range) x.name .star b) rest := by
  obtain ⟨bs, rfl, hder, -⟩ := hb
  exact ⟨_, rfl, .tabs hm hx hc hs hd hder, fun h => absurd h hcalc⟩

theorem Spells.ofApp {ts rest : List Token} {t : Term} (h : r.Spells .app ts t rest) :
    r.Spells .term ts t rest := by
  obtain ⟨used, rfl, hder, hsimple⟩ := h
  exact ⟨used, rfl, hder.ofApp, hsimple⟩

theorem Spells.app {ts us rest : List Token} {f a : Term} (hf : r.Spells .app ts f us)
    (ha : r.Spells .atom us a rest) :
    r.Spells .app ts (.app (f.range.between a.range) f a) rest := by
  obtain ⟨fs, rfl, hderf, hsimplef⟩ := hf
  obtain ⟨as, rfl, hdera, hsimplea⟩ := ha
  refine ⟨fs ++ as, (List.append_assoc ..).symm, hderf.app hdera, fun h => ?_⟩
  rw [Term.isSimplyTyped, hsimplef h, hsimplea h]
  rfl

theorem Spells.tapp {l c : Token} {ts us rest : List Token} {f : Term} {a : Ty}
    (hf : r.Spells .app ts f (l :: us)) (hl : l.kind = .leftBracket)
    (hcalc : r.calculus ≠ .simplyTyped) (ha : r.SpellsType .type us a (c :: rest))
    (hc : c.kind = .rightBracket) :
    r.Spells .app ts (.tapp (f.range.between c.range) f a) rest := by
  obtain ⟨fs, rfl, hderf, -⟩ := hf
  obtain ⟨as, rfl, hdera, -⟩ := ha
  refine ⟨_, ?_, hderf.tapp hl hdera hc, fun h => absurd h hcalc⟩
  simp only [List.append_assoc, List.cons_append, List.nil_append]

theorem Spells.ofAtom {ts rest : List Token} {t : Term} (h : r.Spells .atom ts t rest) :
    r.Spells .app ts t rest := by
  obtain ⟨used, rfl, hder, hsimple⟩ := h
  exact ⟨used, rfl, hder.ofAtom, hsimple⟩

theorem Spells.paren {l c : Token} {ts rest : List Token} {t : Term} (hl : l.kind = .leftParen)
    (h : r.Spells .term ts t (c :: rest)) (hc : c.kind = .rightParen) :
    r.Spells .atom (l :: ts) t rest := by
  obtain ⟨used, rfl, hder, hsimple⟩ := h
  refine ⟨_, ?_, .paren hl hder hc, hsimple⟩
  simp only [List.cons_append, List.append_assoc, List.nil_append]

theorem atom_sound {inner : List Token → Except ParseError (Term × List Token)}
    (hinner : ∀ ts t rest, inner ts = .ok (t, rest) → r.Spells .term ts t rest)
    {ts rest : List Token} {t : Term} (h : r.atom inner ts = .ok (t, rest)) :
    r.Spells .atom ts t rest := by
  cases ts with
  | nil => cases h
  | cons u ts =>
    rw [atom] at h
    split at h
    · next hk =>
      split at h
      · next n hn =>
        obtain ⟨hrange, rfl⟩ := int32OfLiteral?_eq_some.mp hn
        obtain ⟨rfl, rfl⟩ := Prod.mk.inj (Except.ok.inj h)
        exact ⟨[u], rfl, .int hk fun _ => hrange, fun _ => rfl⟩
      · cases h
    · next hk =>
      obtain ⟨rfl, rfl⟩ := Prod.mk.inj (Except.ok.inj h)
      exact ⟨[u], rfl, .var hk, fun _ => rfl⟩
    · next hk =>
      simp only [bind_eq_ok, pure_eq_ok, Prod.exists, expect_eq_ok, Prod.mk.injEq] at h
      obtain ⟨b, us, hb, c, vs, ⟨rfl, hc⟩, rfl, rfl⟩ := h
      exact .paren hk (hinner _ _ _ hb) hc
    · cases h

/-- At most `n` levels deep, what is read as a term is one. -/
def TermSound (r : Reading) (n : Nat) : Prop :=
  ∀ ts t rest, r.termWithin n ts = .ok (t, rest) → r.Spells .term ts t rest

/-- At most `n` levels deep, the loop over arguments keeps an application read, from the
first token of its function part to the argument it has reached. -/
def SpineSound (r : Reading) (n : Nat) : Prop :=
  ∀ start ts fn t rest, r.Spells .app start fn ts → r.spineWithin n fn ts = .ok (t, rest) →
    r.Spells .app start t rest

theorem termSound_succ {n : Nat} (hterm : r.TermSound n) (hspine : r.SpineSound n) :
    r.TermSound (n + 1) := by
  intro ts t rest h
  cases ts with
  | nil => cases h
  | cons u ts =>
    rw [termWithin] at h
    split at h
    · next hk =>
      simp only [bind_eq_ok, pure_eq_ok, Prod.exists, expect_eq_ok, Prod.mk.injEq] at h
      obtain ⟨x, _, ⟨rfl, hx⟩, colon, _, ⟨rfl, hc⟩, a, us, ha, dot, _, ⟨rfl, hd⟩, b, vs, hb, rfl,
        rfl⟩ := h
      exact .abs hk hx hc (type_sound ha) hd (hterm _ _ _ hb)
    · split at h
      · next hk =>
        simp only [bind_eq_ok, pure_eq_ok, Prod.exists, allow_eq_ok, typeBinder_eq_ok,
          Prod.mk.injEq] at h
        obtain ⟨-, hcalc, -, -, _, ⟨x, colon, star, dot, rfl, hx, hc, hs, hd, rfl, rfl⟩, b, vs, hb,
          rfl, rfl⟩ := h
        exact .tabs hk hx hc hs hd hcalc (hterm _ _ _ hb)
      · simp only [bind_eq_ok, Prod.exists] at h
        obtain ⟨fn, us, hfn, h⟩ := h
        exact .ofApp (hspine _ _ _ _ _ (.ofAtom (atom_sound hterm hfn)) h)

theorem spineSound_succ {n : Nat} (hterm : r.TermSound n) (hspine : r.SpineSound n) :
    r.SpineSound (n + 1) := by
  intro start ts fn t rest hfn h
  cases ts with
  | nil =>
    rw [spineWithin] at h
    obtain ⟨rfl, rfl⟩ := Prod.mk.inj (Except.ok.inj h)
    exact hfn
  | cons u ts =>
    rw [spineWithin] at h
    split at h
    · next hk =>
      simp only [bind_eq_ok, Prod.exists, allow_eq_ok, expect_eq_ok] at h
      obtain ⟨-, hcalc, a, us, ha, c, vs, ⟨rfl, hc⟩, h⟩ := h
      exact hspine _ _ _ _ _ (.tapp hfn hk hcalc (type_sound ha) hc) h
    · split at h
      · simp only [bind_eq_ok, Prod.exists] at h
        obtain ⟨arg, us, harg, h⟩ := h
        exact hspine _ _ _ _ _ (.app hfn (atom_sound hterm harg)) h
      · obtain ⟨rfl, rfl⟩ := Prod.mk.inj (Except.ok.inj h)
        exact hfn

theorem termSound_and_spineSound (n : Nat) : r.TermSound n ∧ r.SpineSound n := by
  induction n with
  | zero =>
    constructor
    · intro ts t rest h
      cases h
    · -- without a level left the loop ends where it is
      intro start ts fn t rest hfn h
      rw [spineWithin] at h
      obtain ⟨rfl, rfl⟩ := Prod.mk.inj (Except.ok.inj h)
      exact hfn
  | succ n ih => exact ⟨termSound_succ ih.1 ih.2, spineSound_succ ih.1 ih.2⟩

/-- **The term reader is sound.** -/
theorem term_sound {ts rest : List Token} {t : Term} (h : r.term ts = .ok (t, rest)) :
    r.Spells .term ts t rest := (termSound_and_spineSound _).1 _ _ _ h

/-! ## Derived sequences are read -/

/-- What the induction proves of a derivation of `ts` with the type `a`: it is read
wherever nothing continues it.  Levels are counted against its tokens. -/
def TypeReadable (r : Reading) (ts : List Token) (a : Ty) : TypeForm → Prop
  | .type => ∀ n rest, ts.length < n → Stops continuesType rest →
      r.typeWithin n (ts ++ rest) = .ok (a, rest)
  | .atom => ∀ n rest, ts.length ≤ n → r.typeAtom (r.typeWithin n) (ts ++ rest) = .ok (a, rest)

theorem typeWithin_arrow {n : Nat} {ts us rest : List Token} {mark : Token} {p q : Ty}
    (hder : DerivesType .atom ts p)
    (hp : r.typeAtom (r.typeWithin n) (ts ++ mark :: us) = .ok (p, mark :: us))
    (hm : mark.kind = .arrow) (hq : r.typeWithin n us = .ok (q, rest)) :
    r.typeWithin (n + 1) (ts ++ mark :: us) = .ok (.arrow p q, rest) := by
  obtain ⟨t, ts, rfl, ht⟩ := hder.head
  have hne : t.kind ≠ .forAll := fun h => by rw [h] at ht; cases ht
  rw [List.cons_append, typeWithin, if_neg hne]
  refine bind_eq_ok.mpr ⟨_, hp, ?_⟩
  simp only [if_pos hm]
  exact bind_eq_ok.mpr ⟨_, hq, rfl⟩

theorem typeWithin_ofAtom {n : Nat} {ts rest : List Token} {p : Ty}
    (hder : DerivesType .atom ts p)
    (hp : r.typeAtom (r.typeWithin n) (ts ++ rest) = .ok (p, rest))
    (hstop : Stops continuesType rest) : r.typeWithin (n + 1) (ts ++ rest) = .ok (p, rest) := by
  obtain ⟨t, ts, rfl, ht⟩ := hder.head
  have hne : t.kind ≠ .forAll := fun h => by rw [h] at ht; cases ht
  rw [List.cons_append, typeWithin, if_neg hne]
  refine bind_eq_ok.mpr ⟨_, hp, ?_⟩
  cases rest with
  | nil => rfl
  | cons u rest =>
    have hu : u.kind ≠ .arrow := of_decide_eq_false hstop
    simp only [if_neg hu]
    rfl

theorem typeReadable_of_derives {f : TypeForm} {ts : List Token} {a : Ty} (h : DerivesType f ts a)
    (hsimple : r.calculus = .simplyTyped → a.isSimple = true) : r.TypeReadable ts a f := by
  induction h with
  | all hm hx hc hs hd _ ih =>
    intro n rest hlen hstop
    have hcalc : r.calculus ≠ .simplyTyped := fun h => by cases hsimple h
    obtain ⟨n, rfl⟩ : ∃ m, n = m + 1 := ⟨n - 1, by omega⟩
    simp only [List.length_cons] at hlen
    rw [List.cons_append, typeWithin, if_pos hm]
    refine bind_eq_ok.mpr ⟨(), allow_eq_ok.mpr hcalc, ?_⟩
    refine bind_eq_ok.mpr ⟨_, typeBinder_eq_ok.mpr ⟨_, _, _, _, rfl, hx, hc, hs, hd, rfl, rfl⟩, ?_⟩
    exact bind_eq_ok.mpr ⟨_, ih (fun h => absurd h hcalc) n rest (by omega) hstop, rfl⟩
  | arrow hp hm _ ihp ihr =>
    intro n rest hlen hstop
    have hsimple' : r.calculus = .simplyTyped → _ ∧ _ :=
      fun h => Bool.and_eq_true_iff.mp (hsimple h)
    obtain ⟨n, rfl⟩ : ∃ m, n = m + 1 := ⟨n - 1, by omega⟩
    obtain ⟨t, ps, rfl, -⟩ := hp.head
    simp only [List.length_append, List.length_cons] at hlen
    rw [List.append_assoc]
    refine typeWithin_arrow hp (ihp (fun h => (hsimple' h).1) n _ ?_) hm ?_
    · rw [List.length_cons]
      omega
    · exact ihr (fun h => (hsimple' h).2) n rest (by omega) hstop
  | ofAtom ha ih =>
    intro n rest hlen hstop
    obtain ⟨n, rfl⟩ : ∃ m, n = m + 1 := ⟨n - 1, by omega⟩
    exact typeWithin_ofAtom ha (ih hsimple n rest (by omega)) hstop
  | int hk =>
    intro n rest _
    simp only [List.cons_append, typeAtom, hk]
    rfl
  | var hk =>
    intro n rest _
    have hcalc : r.calculus ≠ .simplyTyped := fun h => by cases hsimple h
    simp only [List.cons_append, typeAtom, hk]
    exact bind_eq_ok.mpr ⟨(), allow_eq_ok.mpr hcalc, rfl⟩
  | paren hl _ hr ih =>
    intro n rest hlen
    simp only [List.length_cons, List.length_append, List.length_nil] at hlen
    simp only [List.cons_append, List.append_assoc, typeAtom, hl]
    refine bind_eq_ok.mpr ⟨_, ih hsimple n _ (by omega) (stops_of_kind _ hr rfl), ?_⟩
    exact bind_eq_ok.mpr ⟨_, expect_cons hr, rfl⟩

/-- **The type reader is complete.** -/
theorem type_complete {ts rest : List Token} {a : Ty} (h : DerivesType .type ts a)
    (hsimple : r.calculus = .simplyTyped → a.isSimple = true) (hstop : Stops continuesType rest) :
    r.type (ts ++ rest) = .ok (a, rest) := by
  refine typeReadable_of_derives h hsimple _ rest ?_ hstop
  rw [List.length_append]
  omega

/-- What the induction proves of a derivation of `ts` with the term `t`.  Of an application
it says that the loop over arguments reaches it, with enough levels left for what may
follow. -/
def Readable (r : Reading) (ts : List Token) (t : Term) : TermForm → Prop
  | .term => ∀ n rest, ts.length < n → Stops continuesTerm rest →
      r.termWithin n (ts ++ rest) = .ok (t, rest)
  | .app => ∀ n rest, ts.length ≤ n → ∃ fn us m,
      r.atom (r.termWithin n) (ts ++ rest) = .ok (fn, us) ∧
      r.spineWithin n fn us = r.spineWithin m t rest ∧ n < m + ts.length
  | .atom => ∀ n rest, ts.length ≤ n → r.atom (r.termWithin n) (ts ++ rest) = .ok (t, rest)

theorem termWithin_abs {n : Nat} {mark x colon dot : Token} {us vs rest : List Token} {a : Ty}
    {b : Term} (hm : mark.kind = .lambda) (hx : x.kind = .ident) (hc : colon.kind = .colon)
    (ha : r.type us = .ok (a, dot :: vs)) (hd : dot.kind = .dot)
    (hb : r.termWithin n vs = .ok (b, rest)) :
    r.termWithin (n + 1) (mark :: x :: colon :: us) =
      .ok (.abs (mark.range.between b.range) x.name a b, rest) := by
  rw [termWithin, if_pos hm]
  refine bind_eq_ok.mpr ⟨_, expect_cons hx, bind_eq_ok.mpr ⟨_, expect_cons hc, ?_⟩⟩
  refine bind_eq_ok.mpr ⟨_, ha, bind_eq_ok.mpr ⟨_, expect_cons hd, ?_⟩⟩
  exact bind_eq_ok.mpr ⟨_, hb, rfl⟩

theorem termWithin_tabs {n : Nat} {mark x colon star dot : Token} {us rest : List Token} {b : Term}
    (hm : mark.kind = .bigLambda) (hcalc : r.calculus ≠ .simplyTyped) (hx : x.kind = .typeVar)
    (hc : colon.kind = .colon) (hs : star.kind = .star) (hd : dot.kind = .dot)
    (hb : r.termWithin n us = .ok (b, rest)) :
    r.termWithin (n + 1) (mark :: x :: colon :: star :: dot :: us) =
      .ok (.tabs (mark.range.between b.range) x.name .star b, rest) := by
  have hne : TokenKind.bigLambda ≠ .lambda := nofun
  rw [termWithin, if_neg (hm ▸ hne), if_pos hm]
  refine bind_eq_ok.mpr ⟨(), allow_eq_ok.mpr hcalc, ?_⟩
  refine bind_eq_ok.mpr ⟨_, typeBinder_eq_ok.mpr ⟨_, _, _, _, rfl, hx, hc, hs, hd, rfl, rfl⟩, ?_⟩
  exact bind_eq_ok.mpr ⟨_, hb, rfl⟩

theorem termWithin_ofApp {n : Nat} {ts us rest : List Token} {fn t u : Term}
    (hder : Derives .app ts u) (hfn : r.atom (r.termWithin n) (ts ++ rest) = .ok (fn, us))
    (hspine : r.spineWithin n fn us = .ok (t, rest)) :
    r.termWithin (n + 1) (ts ++ rest) = .ok (t, rest) := by
  obtain ⟨hs, head, as, rfl, hhead, -⟩ := hder.spine
  obtain ⟨t, hs, rfl, ht⟩ := hhead.head_atom
  have hlambda : t.kind ≠ .lambda := fun h => by rw [h] at ht; cases ht
  have hbigLambda : t.kind ≠ .bigLambda := fun h => by rw [h] at ht; cases ht
  simp only [List.cons_append] at hfn ⊢
  rw [termWithin, if_neg hlambda, if_neg hbigLambda]
  exact bind_eq_ok.mpr ⟨_, hfn, hspine⟩

theorem spineWithin_app {m : Nat} {as rest : List Token} {f a : Term} (hder : Derives .atom as a)
    (ha : r.atom (r.termWithin m) (as ++ rest) = .ok (a, rest)) :
    r.spineWithin (m + 1) f (as ++ rest) =
      r.spineWithin m (.app (f.range.between a.range) f a) rest := by
  obtain ⟨u, as, rfl, hu⟩ := hder.head_atom
  have hne : u.kind ≠ .leftBracket := fun h => by rw [h] at hu; cases hu
  rw [List.cons_append] at ha ⊢
  rw [spineWithin, if_neg hne, if_pos hu, ha, ok_bind]

theorem spineWithin_tapp {m : Nat} {l c : Token} {us rest : List Token} {f : Term} {a : Ty}
    (hl : l.kind = .leftBracket) (hcalc : r.calculus ≠ .simplyTyped)
    (ha : r.type us = .ok (a, c :: rest)) (hc : c.kind = .rightBracket) :
    r.spineWithin (m + 1) f (l :: us) =
      r.spineWithin m (.tapp (f.range.between c.range) f a) rest := by
  have hallow : r.allow .typeApplication l = .ok () := allow_eq_ok.mpr hcalc
  rw [spineWithin, if_pos hl, hallow, ok_bind, ha, ok_bind]
  simp only [expect_cons hc, ok_bind]

/-- Where nothing continues a term the loop over arguments ends. -/
theorem spineWithin_stop {m : Nat} {f : Term} {rest : List Token}
    (hstop : Stops continuesTerm rest) : r.spineWithin m f rest = .ok (f, rest) := by
  cases m with
  | zero => rw [spineWithin]
  | succ m =>
    cases rest with
    | nil => rw [spineWithin]
    | cons u rest =>
      rw [Stops, continuesTerm, Bool.or_eq_false_iff] at hstop
      rw [spineWithin, if_neg (of_decide_eq_false hstop.1), hstop.2]
      rfl

theorem readable_of_derives {f : TermForm} {ts : List Token} {t : Term} (h : Derives f ts t)
    (hfits : ∀ u ∈ ts, u.Fits) (hsimple : r.calculus = .simplyTyped → t.isSimplyTyped = true) :
    r.Readable ts t f := by
  induction h with
  | @abs mark x colon dot as bs a b hm hx hc ha hd _ ih =>
    intro n rest hlen hstop
    have hsimple' : r.calculus = .simplyTyped → _ ∧ _ :=
      fun h => Bool.and_eq_true_iff.mp (hsimple h)
    simp only [List.forall_mem_cons, List.forall_mem_append] at hfits
    obtain ⟨n, rfl⟩ : ∃ m, n = m + 1 := ⟨n - 1, by omega⟩
    simp only [List.length_cons, List.length_append] at hlen
    simp only [List.cons_append, List.append_assoc]
    have htype := type_complete ha (fun h => (hsimple' h).1) (stops_of_kind (bs ++ rest) hd rfl)
    have hbody := ih hfits.2.2.2.2.2 (fun h => (hsimple' h).2) n rest (by omega) hstop
    exact termWithin_abs hm hx hc htype hd hbody
  | tabs hm hx hc hs hd _ ih =>
    intro n rest hlen hstop
    have hcalc : r.calculus ≠ .simplyTyped := fun h => by cases hsimple h
    simp only [List.forall_mem_cons] at hfits
    obtain ⟨n, rfl⟩ : ∃ m, n = m + 1 := ⟨n - 1, by omega⟩
    simp only [List.length_cons] at hlen
    have hbody := ih hfits.2.2.2.2.2 (fun h => absurd h hcalc) n rest (by omega) hstop
    exact termWithin_tabs hm hcalc hx hc hs hd hbody
  | ofApp happ ih =>
    intro n rest hlen hstop
    obtain ⟨n, rfl⟩ : ∃ m, n = m + 1 := ⟨n - 1, by omega⟩
    obtain ⟨fn, us, m, hatom, hspine, -⟩ := ih hfits hsimple n rest (by omega)
    exact termWithin_ofApp happ hatom (hspine.trans (spineWithin_stop hstop))
  | @app fs as f a hf ha ihf iha =>
    intro n rest hlen
    have hsimple' : r.calculus = .simplyTyped → _ ∧ _ :=
      fun h => Bool.and_eq_true_iff.mp (hsimple h)
    rw [List.forall_mem_append] at hfits
    rw [List.length_append] at hlen
    -- one level goes to this argument; the tokens before it pay for the levels used up
    obtain ⟨fn, us, m, hatom, hspine, hm⟩ :=
      ihf hfits.1 (fun h => (hsimple' h).1) n (as ++ rest) (by omega)
    obtain ⟨m, rfl⟩ : ∃ k, m = k + 1 := ⟨m - 1, by omega⟩
    have harg := iha hfits.2 (fun h => (hsimple' h).2) m rest (by omega)
    have hpos : 0 < as.length := by
      obtain ⟨u, us, rfl, -⟩ := ha.head_atom
      exact Nat.succ_pos _
    refine ⟨fn, us, m, ?_, hspine.trans (spineWithin_app ha harg), ?_⟩
    · rw [List.append_assoc]
      exact hatom
    · rw [List.length_append]
      omega
  | tapp hf hl ha hr ihf =>
    intro n rest hlen
    have hcalc : r.calculus ≠ .simplyTyped := fun h => by cases hsimple h
    rw [List.forall_mem_append] at hfits
    simp only [List.length_append, List.length_cons, List.length_nil] at hlen
    obtain ⟨fn, us, m, hatom, hspine, hm⟩ :=
      ihf hfits.1 (fun h => absurd h hcalc) n (_ :: (_ ++ _ :: rest)) (by omega)
    obtain ⟨m, rfl⟩ : ∃ k, m = k + 1 := ⟨m - 1, by omega⟩
    have harg := type_complete ha (fun h => absurd h hcalc) (stops_of_kind rest hr rfl)
    refine ⟨fn, us, m, ?_, hspine.trans (spineWithin_tapp hl hcalc harg hr), ?_⟩
    · simp only [List.append_assoc, List.cons_append, List.nil_append]
      exact hatom
    · simp only [List.length_append, List.length_cons]
      omega
  | ofAtom ha ih =>
    intro n rest hlen
    obtain ⟨u, us, rfl, -⟩ := ha.head_atom
    refine ⟨_, rest, n, ih hfits hsimple n rest hlen, rfl, ?_⟩
    rw [List.length_cons]
    omega
  | int hk =>
    -- the one place where the literal has to fit
    intro n rest _
    have hvalue := int32OfLiteral?_eq_some.mpr ⟨List.forall_mem_singleton.mp hfits hk, rfl⟩
    simp only [List.cons_append, atom, hk, hvalue]
    rfl
  | var hk =>
    intro n rest _
    simp only [List.cons_append, atom, hk]
    rfl
  | paren hl _ hr ih =>
    intro n rest hlen
    simp only [List.forall_mem_append, List.forall_mem_cons] at hfits
    simp only [List.length_cons, List.length_append, List.length_nil] at hlen
    simp only [List.cons_append, List.append_assoc, atom, hl]
    refine bind_eq_ok.mpr
      ⟨_, ih hfits.2.1 hsimple n _ (by omega) (stops_of_kind _ hr rfl), ?_⟩
    exact bind_eq_ok.mpr ⟨_, expect_cons hr, rfl⟩

/-- **The term reader is complete.** -/
theorem term_complete {ts rest : List Token} {t : Term} (h : Derives .term ts t)
    (hfits : ∀ u ∈ ts, u.Fits) (hsimple : r.calculus = .simplyTyped → t.isSimplyTyped = true)
    (hstop : Stops continuesTerm rest) : r.term (ts ++ rest) = .ok (t, rest) := by
  refine readable_of_derives h hfits hsimple _ rest ?_ hstop
  rw [List.length_append]
  omega

theorem complete_eq_ok {α : Type} {p : Except ParseError (α × List Token)} {a : α} :
    complete p = .ok a ↔ p = .ok (a, []) := by
  unfold complete
  rw [bind_eq_ok]
  constructor
  · rintro ⟨⟨b, ts⟩, hp, h⟩
    cases ts with
    | nil => rw [hp, pure_eq_ok.mp h]
    | cons t ts => cases h
  · intro hp
    exact ⟨(a, []), hp, rfl⟩

end Reading

/-! ## Whole sources -/

theorem Tokens.term?_eq_ok {ts : Tokens} {c : Calculus} {t : Term} :
    ts.term? c = .ok t ↔ Grammar.Derives .term ts.tokens t ∧ (∀ u ∈ ts.tokens, u.Fits) ∧
      (c = .simplyTyped → t.isSimplyTyped = true) := by
  rw [Tokens.term?, Reading.complete_eq_ok]
  constructor
  · intro h
    obtain ⟨used, hts, ⟨hder, hfits⟩, hsimple⟩ := Reading.term_sound h
    rw [List.append_nil] at hts
    exact hts ▸ ⟨hder, hfits, hsimple⟩
  · rintro ⟨hder, hfits, hsimple⟩
    have h : (ts.reading c).term (ts.tokens ++ []) = .ok (t, []) :=
      Reading.term_complete hder hfits hsimple trivial
    rwa [List.append_nil] at h

theorem Tokens.type?_eq_ok {ts : Tokens} {c : Calculus} {a : Ty} :
    ts.type? c = .ok a ↔ Grammar.DerivesType .type ts.tokens a ∧
      (c = .simplyTyped → a.isSimple = true) := by
  rw [Tokens.type?, Reading.complete_eq_ok]
  constructor
  · intro h
    obtain ⟨used, hts, hder, hsimple⟩ := Reading.type_sound h
    rw [List.append_nil] at hts
    exact hts ▸ ⟨hder, hsimple⟩
  · rintro ⟨hder, hsimple⟩
    have h : (ts.reading c).type (ts.tokens ++ []) = .ok (a, []) :=
      Reading.type_complete hder hsimple trivial
    rwa [List.append_nil] at h

/-- **Sources are read exactly as the grammar derives them.**  In System F a source reads
as a term just when its tokens are derived from the nonterminal of terms with that tree,
ranges included, and its literals fit in 32 bits; the same for types.  And no sequence of
tokens, from a source or not, has two trees. -/
theorem reads_iff_derives :
    (∀ source t, readTerm .systemF source = .ok t ↔
      Grammar.Derives .term (scan source.chars).tokens t ∧
        ∀ u ∈ (scan source.chars).tokens, u.Fits) ∧
    (∀ source a, readType .systemF source = .ok a ↔
      Grammar.DerivesType .type (scan source.chars).tokens a) ∧
    (∀ ts t u, Grammar.Derives .term ts t → Grammar.Derives .term ts u → t = u) ∧
    (∀ ts a b, Grammar.DerivesType .type ts a → Grammar.DerivesType .type ts b → a = b) := by
  refine ⟨fun source t => ?_, fun source a => ?_, fun ts t u => ?_, fun ts a b ha hb => ?_⟩
  · rw [readTerm, Tokens.term?_eq_ok]
    exact ⟨fun ⟨hder, hfits, _⟩ => ⟨hder, hfits⟩, fun ⟨hder, hfits⟩ => ⟨hder, hfits, nofun⟩⟩
  · rw [readType, Tokens.type?_eq_ok]
    exact ⟨fun ⟨hder, _⟩ => hder, fun hder => ⟨hder, nofun⟩⟩
  · exact Grammar.Derives.unique
  · have heq : ts ++ [] = ts ++ [] := rfl
    exact (ha.unique hb heq (fun _ => trivial) (fun _ => trivial)).2

theorem reads_iff_derives_application :
    readTerm .systemF "f [Int] -1" =
        .ok (.app ⟨1, 11⟩ (.tapp ⟨1, 8⟩ (.var ⟨1, 2⟩ "f") .int) (.int ⟨9, 11⟩ (-1))) ∧
      Grammar.Derives .term (scan (Text.ofString "f [Int] -1").chars).tokens
        (.app ⟨1, 11⟩ (.tapp ⟨1, 8⟩ (.var ⟨1, 2⟩ "f") .int) (.int ⟨9, 11⟩ (-1))) := by
  have h : readTerm .systemF "f [Int] -1" =
      .ok (.app ⟨1, 11⟩ (.tapp ⟨1, 8⟩ (.var ⟨1, 2⟩ "f") .int) (.int ⟨9, 11⟩ (-1))) := by rfl
  exact ⟨h, ((reads_iff_derives.1 _ _).mp h).1⟩

/-! ## The simply-typed fragment -/

/-- What is read in the simply-typed calculus is what is read in System F and stays within
the fragment. -/
theorem Tokens.term?_simplyTyped {ts : Tokens} {t : Term} :
    ts.term? .simplyTyped = .ok t ↔ ts.term? .systemF = .ok t ∧ t.isSimplyTyped = true := by
  rw [term?_eq_ok, term?_eq_ok]
  constructor
  · rintro ⟨hder, hfits, hsimple⟩
    exact ⟨⟨hder, hfits, nofun⟩, hsimple rfl⟩
  · rintro ⟨⟨hder, hfits, _⟩, hsimple⟩
    exact ⟨hder, hfits, fun _ => hsimple⟩

theorem Tokens.type?_simplyTyped {ts : Tokens} {a : Ty} :
    ts.type? .simplyTyped = .ok a ↔ ts.type? .systemF = .ok a ∧ a.isSimple = true := by
  rw [type?_eq_ok, type?_eq_ok]
  constructor
  · rintro ⟨hder, hsimple⟩
    exact ⟨⟨hder, nofun⟩, hsimple rfl⟩
  · rintro ⟨⟨hder, _⟩, hsimple⟩
    exact ⟨hder, fun _ => hsimple⟩

/-- **The simply-typed reader is the System F reader on the fragment.**  It reads a source
as a term, ranges included, just when System F reads it as that term and the term has no
polymorphism; the same for types. -/
theorem simplyTyped_reads_fragment :
    (∀ source t, readTerm .simplyTyped source = .ok t ↔
      readTerm .systemF source = .ok t ∧ t.isSimplyTyped = true) ∧
    (∀ source a, readType .simplyTyped source = .ok a ↔
      readType .systemF source = .ok a ∧ a.isSimple = true) :=
  ⟨fun _ _ => Tokens.term?_simplyTyped, fun _ _ => Tokens.type?_simplyTyped⟩

end PolyLambda
