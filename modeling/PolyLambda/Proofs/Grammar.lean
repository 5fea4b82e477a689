import PolyLambda.Parser

/-!
# The grammar of types and terms

```text
Term  ::= "λ" ident ":" Type "." Term | "Λ" TypeVar ":" Kind "." Term | App
App   ::= App Atom | App "[" Type "]" | Atom
Atom  ::= int | ident | "(" Term ")"
Type  ::= "∀" TypeVar ":" Kind "." Type | TAtom "->" Type | TAtom
TAtom ::= "Int" | TypeVar | "(" Type ")"
Kind  ::= "*"
```

`DerivesType` and `Derives` say which sequences of tokens the nonterminals derive, and
with which tree.  Nothing in them is about reading: `App` is left-recursive, there is no
order in which alternatives are tried, and no token is looked ahead at.  A node carries
the range from its first token to its last one, parentheses around it left out.

**The grammar is unambiguous** (`DerivesType.unique`, `Derives.unique`).  Since pieces
are derived inside longer sequences, this is proved for two derivations of beginnings of
one sequence, each followed by something that cannot continue it (`Stops`).  Left
recursion is the difficulty: the function part of an application is always followed by
something that continues it.  So an application is compared, argument by argument, with
the list of arguments of the other one (`Arguments`).
-/

namespace PolyLambda
namespace Grammar

/-- The nonterminals of types. -/
inductive TypeForm where
  | type
  | atom
  deriving DecidableEq, Repr

/-- The nonterminals of terms. -/
inductive TermForm where
  | term
  | app
  | atom
  deriving DecidableEq, Repr

/-- `DerivesType f ts a`: the nonterminal `f` derives the tokens `ts` with the tree `a`. -/
inductive DerivesType : TypeForm → List Token → Ty → Prop where
  | all {mark x colon star dot : Token} {ts : List Token} {a : Ty} :
      mark.kind = .forAll → x.kind = .typeVar → colon.kind = .colon → star.kind = .star →
      dot.kind = .dot → DerivesType .type ts a →
      DerivesType .type (mark :: x :: colon :: star :: dot :: ts) (.all x.name .star a)
  | arrow {mark : Token} {ps rs : List Token} {p r : Ty} :
      DerivesType .atom ps p → mark.kind = .arrow → DerivesType .type rs r →
      DerivesType .type (ps ++ mark :: rs) (.arrow p r)
  | ofAtom {ts : List Token} {a : Ty} : DerivesType .atom ts a → DerivesType .type ts a
  | int {t : Token} : t.kind = .intType → DerivesType .atom [t] .int
  | var {t : Token} : t.kind = .typeVar → DerivesType .atom [t] (.var t.name)
  | paren {l r : Token} {ts : List Token} {a : Ty} :
      l.kind = .leftParen → DerivesType .type ts a → r.kind = .rightParen →
      DerivesType .atom (l :: (ts ++ [r])) a

/-- `Derives f ts t`: the nonterminal `f` derives the tokens `ts` with the tree `t`.  An
integer literal stands for its value in 32 bits, whether or not it fits there. -/
inductive Derives : TermForm → List Token → Term → Prop where
  | abs {mark x colon dot : Token} {as bs : List Token} {a : Ty} {b : Term} :
      mark.kind = .lambda → x.kind = .ident → colon.kind = .colon → DerivesType .type as a →
      dot.kind = .dot → Derives .term bs b →
      Derives .term (mark :: x :: colon :: (as ++ dot :: bs))
        (.abs (mark.range.between b.range) x.name a b)
  | tabs {mark x colon star dot : Token} {bs : List Token} {b : Term} :
      mark.kind = .bigLambda → x.kind = .typeVar → colon.kind = .colon → star.kind = .star →
      dot.kind = .dot → Derives .term bs b →
      Derives .term (mark :: x :: colon :: star :: dot :: bs)
        (.tabs (mark.range.between b.range) x.name .star b)
  | ofApp {ts : List Token} {t : Term} : Derives .app ts t → Derives .term ts t
  | app {fs as : List Token} {f a : Term} :
      Derives .app fs f → Derives .atom as a →
      Derives .app (fs ++ as) (.app (f.range.between a.range) f a)
  | tapp {l r : Token} {fs as : List Token} {f : Term} {a : Ty} :
      Derives .app fs f → l.kind = .leftBracket → DerivesType .type as a →
      r.kind = .rightBracket →
      Derives .app (fs ++ l :: (as ++ [r])) (.tapp (f.range.between r.range) f a)
  | ofAtom {ts : List Token} {t : Term} : Derives .atom ts t → Derives .app ts t
  | int {t : Token} :
      t.kind = .int → Derives .atom [t] (.int t.range (.ofInt (literalValue t.text)))
  | var {t : Token} : t.kind = .ident → Derives .atom [t] (.var t.range t.name)
  | paren {l r : Token} {ts : List Token} {t : Term} :
      l.kind = .leftParen → Derives .term ts t → r.kind = .rightParen →
      Derives .atom (l :: (ts ++ [r])) t

/-! ## First tokens -/

/-- Whether a token of this kind starts a type without arrows and quantifiers outside
parentheses. -/
def startsTypeAtom (k : TokenKind) : Bool := k = .intType || k = .typeVar || k = .leftParen

/-- Whether a token of this kind goes on with a type that could end before it. -/
def continuesType (k : TokenKind) : Bool := k = .arrow

/-- Whether a token of this kind goes on with a term that could end before it. -/
def continuesTerm (k : TokenKind) : Bool := k = .leftBracket || Reading.startsAtom k

/-- The tokens do not start with one of the given kinds. -/
def Stops (continues : TokenKind → Bool) : List Token → Prop
  | [] => True
  | t :: _ => continues t.kind = false

theorem DerivesType.head {ts : List Token} {a : Ty} (h : DerivesType .atom ts a) :
    ∃ t rest, ts = t :: rest ∧ startsTypeAtom t.kind = true := by
  cases h with
  | int hk => exact ⟨_, _, rfl, by rw [hk]; rfl⟩
  | var hk => exact ⟨_, _, rfl, by rw [hk]; rfl⟩
  | paren hl _ _ => exact ⟨_, _, rfl, by rw [hl]; rfl⟩

theorem Derives.head_atom {ts : List Token} {t : Term} (h : Derives .atom ts t) :
    ∃ u rest, ts = u :: rest ∧ Reading.startsAtom u.kind = true := by
  cases h with
  | int hk => exact ⟨_, _, rfl, by rw [hk]; rfl⟩
  | var hk => exact ⟨_, _, rfl, by rw [hk]; rfl⟩
  | paren hl _ _ => exact ⟨_, _, rfl, by rw [hl]; rfl⟩

/-- A type atom and something that starts otherwise do not begin the same sequence. -/
theorem DerivesType.atom_append_ne {ts us r : List Token} {a : Ty} {t : Token}
    (h : DerivesType .atom ts a) (ht : startsTypeAtom t.kind = false) :
    ts ++ r ≠ t :: us := by
  obtain ⟨u, rest, rfl, hu⟩ := h.head
  intro heq
  rw [List.cons_append, List.cons.injEq] at heq
  rw [heq.1, ht] at hu
  cases hu

/-- A term atom and something that starts otherwise do not begin the same sequence. -/
theorem Derives.atom_append_ne {ts us r : List Token} {a : Term} {t : Token}
    (h : Derives .atom ts a) (ht : Reading.startsAtom t.kind = false) :
    ts ++ r ≠ t :: us := by
  obtain ⟨u, rest, rfl, hu⟩ := h.head_atom
  intro heq
  rw [List.cons_append, List.cons.injEq] at heq
  rw [heq.1, ht] at hu
  cases hu

/-! ## Unambiguity of types -/

/-- Sequences that start with the same token start with one kind. -/
theorem kind_eq_of_cons_eq {t u : Token} {ts us : List Token} {k k' : TokenKind}
    (heq : t :: ts = u :: us) (ht : t.kind = k) (hu : u.kind = k') : k = k' := by
  rw [← ht, ← hu, (List.cons.inj heq).1]

theorem stops_of_kind {continues : TokenKind → Bool} {t : Token} {k : TokenKind}
    (rest : List Token) (ht : t.kind = k) (hk : continues k = false) :
    Stops continues (t :: rest) := by
  rw [Stops, ht, hk]

/-- **Types are unambiguous**: of two types that begin one sequence, each of them followed
by what cannot continue it, the tokens and the trees are the same. -/
theorem DerivesType.unique {f : TypeForm} {ts us rest rest' : List Token} {a b : Ty}
    (h : DerivesType f ts a) (h' : DerivesType f us b) (heq : ts ++ rest = us ++ rest')
    (hstop : f = .type → Stops continuesType rest)
    (hstop' : f = .type → Stops continuesType rest') : ts = us ∧ a = b := by
  induction h generalizing us b rest rest' with
  | all hm hx hc hs hd _ ih =>
    cases h' with
    | all hm' hx' hc' hs' hd' hbody =>
      simp only [List.cons_append, List.cons.injEq] at heq
      obtain ⟨rfl, rfl, rfl, rfl, rfl, heq⟩ := heq
      obtain ⟨rfl, rfl⟩ := ih hbody heq hstop hstop'
      exact ⟨rfl, rfl⟩
    | arrow hp _ _ =>
      rw [List.append_assoc] at heq
      exact absurd heq.symm (hp.atom_append_ne (by rw [hm]; rfl))
    | ofAtom hatom => exact absurd heq.symm (hatom.atom_append_ne (by rw [hm]; rfl))
  | arrow hp hm hr ihp ihr =>
    rw [List.append_assoc] at heq
    cases h' with
    | all hm' _ _ _ _ _ => exact absurd heq (hp.atom_append_ne (by rw [hm']; rfl))
    | arrow hp' hm' hr' =>
      rw [List.append_assoc] at heq
      obtain ⟨rfl, rfl⟩ := ihp hp' heq nofun nofun
      rw [List.append_cancel_left_eq, List.cons_append, List.cons_append, List.cons.injEq] at heq
      obtain ⟨rfl, heq⟩ := heq
      obtain ⟨rfl, rfl⟩ := ihr hr' heq hstop hstop'
      exact ⟨rfl, rfl⟩
    | ofAtom hatom =>
      -- the other type ends before this arrow, which continues it
      obtain ⟨rfl, rfl⟩ := ihp hatom heq nofun nofun
      rw [List.append_cancel_left_eq] at heq
      have hcont := hstop' rfl
      rw [← heq, List.cons_append, Stops, hm] at hcont
      cases hcont
  | ofAtom hatom ih =>
    cases h' with
    | all hm' _ _ _ _ _ => exact absurd heq (hatom.atom_append_ne (by rw [hm']; rfl))
    | arrow hp' hm' _ =>
      rw [List.append_assoc] at heq
      obtain ⟨rfl, rfl⟩ := ih hp' heq nofun nofun
      rw [List.append_cancel_left_eq] at heq
      have hcont := hstop rfl
      rw [heq, List.cons_append, Stops, hm'] at hcont
      cases hcont
    | ofAtom hatom' => exact ih hatom' heq nofun nofun
  | int hk =>
    cases h' with
    | int _ =>
      obtain ⟨rfl, -⟩ := List.cons.inj heq
      exact ⟨rfl, rfl⟩
    | var hk' => cases kind_eq_of_cons_eq heq hk hk'
    | paren hl' _ _ => cases kind_eq_of_cons_eq heq hk hl'
  | var hk =>
    cases h' with
    | int hk' => cases kind_eq_of_cons_eq heq hk hk'
    | var _ =>
      obtain ⟨rfl, -⟩ := List.cons.inj heq
      exact ⟨rfl, rfl⟩
    | paren hl' _ _ => cases kind_eq_of_cons_eq heq hk hl'
  | paren hl _ hr ih =>
    cases h' with
    | int hk' => cases kind_eq_of_cons_eq heq hl hk'
    | var hk' => cases kind_eq_of_cons_eq heq hl hk'
    | paren hl' hinner hr' =>
      simp only [List.cons_append, List.append_assoc, List.cons.injEq] at heq
      obtain ⟨rfl, heq⟩ := heq
      obtain ⟨rfl, rfl⟩ := ih hinner heq (fun _ => stops_of_kind _ hr rfl)
        (fun _ => stops_of_kind _ hr' rfl)
      rw [List.append_cancel_left_eq] at heq
      obtain ⟨rfl, -⟩ := List.cons.inj heq
      exact ⟨rfl, rfl⟩

/-! ## Unambiguity of terms -/

/-- `Arguments f ts t`: the tokens `ts` spell arguments, and `f` applied to them one after
the other is `t`. -/
inductive Arguments : Term → List Token → Term → Prop where
  | nil {f : Term} : Arguments f [] f
  | app {as ts : List Token} {f a t : Term} :
      Derives .atom as a → Arguments (.app (f.range.between a.range) f a) ts t →
      Arguments f (as ++ ts) t
  | tapp {l r : Token} {as ts : List Token} {f t : Term} {a : Ty} :
      l.kind = .leftBracket → DerivesType .type as a → r.kind = .rightBracket →
      Arguments (.tapp (f.range.between r.range) f a) ts t →
      Arguments f (l :: (as ++ r :: ts)) t

theorem Arguments.trans {f g t : Term} {ts us : List Token} (h : Arguments f ts g)
    (h' : Arguments g us t) : Arguments f (ts ++ us) t := by
  induction h with
  | nil => exact h'
  | app ha _ ih =>
    rw [List.append_assoc]
    exact .app ha (ih h')
  | tapp hl ha hr _ ih =>
    rw [List.cons_append, List.append_assoc, List.cons_append]
    exact .tapp hl ha hr (ih h')

/-- **Left recursion undone**: an application is an atom followed by arguments. -/
theorem Derives.spine {ts : List Token} {t : Term} (h : Derives .app ts t) :
    ∃ hs head as, ts = hs ++ as ∧ Derives .atom hs head ∧ Arguments head as t := by
  generalize hf : TermForm.app = f at h
  induction h with
  | app _ ha ihf _ =>
    obtain ⟨hs, head, as, rfl, hhead, hargs⟩ := ihf hf
    have hlast := hargs.trans (.app ha .nil)
    rw [List.append_nil] at hlast
    exact ⟨hs, head, _, List.append_assoc .., hhead, hlast⟩
  | tapp _ hl ha hr ihf =>
    obtain ⟨hs, head, as, rfl, hhead, hargs⟩ := ihf hf
    exact ⟨hs, head, _, List.append_assoc .., hhead, hargs.trans (.tapp hl ha hr .nil)⟩
  | ofAtom ha _ => exact ⟨_, _, [], (List.append_nil _).symm, ha, .nil⟩
  | abs | tabs | ofApp | int | var | paren => cases hf

/-- Where nothing continues a term there are no arguments. -/
theorem Arguments.eq_nil {f t : Term} {ts rest : List Token} (h : Arguments f ts t)
    (hstop : Stops continuesTerm (ts ++ rest)) : ts = [] ∧ f = t := by
  cases h with
  | nil => exact ⟨rfl, rfl⟩
  | app ha _ =>
    obtain ⟨u, us, rfl, hu⟩ := ha.head_atom
    rw [List.cons_append, List.cons_append, Stops, continuesTerm, hu, Bool.or_true] at hstop
    cases hstop
  | tapp hl _ _ _ =>
    rw [List.cons_append, Stops, hl] at hstop
    cases hstop

/-- Where arguments begin like an atom, followed by anything, that atom is the first one. -/
theorem Arguments.first_atom {f a u : Term} {as more rest rest' : List Token}
    (ha : Derives .atom as a)
    (hunique : ∀ {bs rest' : List Token} {b : Term}, Derives .atom bs b →
      as ++ rest = bs ++ rest' → as = bs ∧ a = b)
    (h : Arguments f more u) (heq : as ++ rest = more ++ rest')
    (hstop : Stops continuesTerm rest') :
    ∃ more', more = as ++ more' ∧ Arguments (.app (f.range.between a.range) f a) more' u := by
  cases h with
  | nil =>
    obtain ⟨v, vs, rfl, hv⟩ := ha.head_atom
    rw [List.nil_append] at heq
    rw [← heq, List.cons_append, Stops, continuesTerm, hv, Bool.or_true] at hstop
    cases hstop
  | app ha' hrest =>
    rw [List.append_assoc] at heq
    obtain ⟨rfl, rfl⟩ := hunique ha' heq
    exact ⟨_, rfl, hrest⟩
  | tapp hl' _ _ _ => exact absurd heq (ha.atom_append_ne (by rw [hl']; rfl))

/-- Where arguments begin like a type in brackets, that type is the first one. -/
theorem Arguments.first_type {f u : Term} {a : Ty} {l r : Token} {as more rest rest' : List Token}
    (hl : l.kind = .leftBracket) (ha : DerivesType .type as a) (hr : r.kind = .rightBracket)
    (h : Arguments f more u) (heq : l :: (as ++ r :: rest) = more ++ rest')
    (hstop : Stops continuesTerm rest') :
    ∃ more', more = l :: (as ++ r :: more') ∧
      Arguments (.tapp (f.range.between r.range) f a) more' u := by
  cases h with
  | nil =>
    rw [List.nil_append] at heq
    rw [← heq, Stops, hl] at hstop
    cases hstop
  | app ha' _ =>
    rw [List.append_assoc] at heq
    exact absurd heq.symm (ha'.atom_append_ne (by rw [hl]; rfl))
  | tapp hl' ha' hr' hrest =>
    simp only [List.cons_append, List.append_assoc, List.cons.injEq] at heq
    obtain ⟨rfl, heq⟩ := heq
    obtain ⟨rfl, rfl⟩ := ha.unique ha' heq (fun _ => stops_of_kind _ hr rfl)
      (fun _ => stops_of_kind _ hr' rfl)
    rw [List.append_cancel_left_eq, List.cons.injEq] at heq
    obtain ⟨rfl, -⟩ := heq
    exact ⟨_, rfl, hrest⟩

/-- What the induction proves of a derivation of `ts` with the tree `t`.  A term and an
atom are compared with another one that begins the same sequence.  An application is
compared with an atom and its arguments up to where nothing continues them: it is found
among these, with some arguments left. -/
def TermForm.Unique (ts : List Token) (t : Term) : TermForm → Prop
  | .term => ∀ {us rest rest' : List Token} {u : Term}, Derives .term us u →
      ts ++ rest = us ++ rest' → Stops continuesTerm rest → Stops continuesTerm rest' →
      ts = us ∧ t = u
  | .app => ∀ {hs as rest rest' : List Token} {head u : Term}, Derives .atom hs head →
      Arguments head as u → ts ++ rest = hs ++ (as ++ rest') → Stops continuesTerm rest' →
      ∃ more, hs ++ as = ts ++ more ∧ Arguments t more u
  | .atom => ∀ {us rest rest' : List Token} {u : Term}, Derives .atom us u →
      ts ++ rest = us ++ rest' → ts = us ∧ t = u

/-- An application starts with an atom. -/
theorem Derives.app_append_ne {ts us rest : List Token} {t : Term} {u : Token}
    (h : Derives .app ts t) (hu : Reading.startsAtom u.kind = false) : ts ++ rest ≠ u :: us := by
  obtain ⟨hs, head, as, rfl, hhead, -⟩ := h.spine
  rw [List.append_assoc]
  exact hhead.atom_append_ne hu

theorem Derives.unique_form {f : TermForm} {ts : List Token} {t : Term} (h : Derives f ts t) :
    f.Unique ts t := by
  induction h with
  | abs hm hx hc ha hd _ ih =>
    intro us rest rest' u h' heq hstop hstop'
    cases h' with
    | abs hm' hx' hc' ha' hd' hb' =>
      simp only [List.cons_append, List.append_assoc, List.cons.injEq] at heq
      obtain ⟨rfl, rfl, rfl, heq⟩ := heq
      obtain ⟨rfl, rfl⟩ := ha.unique ha' heq (fun _ => stops_of_kind _ hd rfl)
        (fun _ => stops_of_kind _ hd' rfl)
      rw [List.append_cancel_left_eq, List.cons.injEq] at heq
      obtain ⟨rfl, heq⟩ := heq
      obtain ⟨rfl, rfl⟩ := ih hb' heq hstop hstop'
      exact ⟨rfl, rfl⟩
    | tabs hm' _ _ _ _ _ => cases kind_eq_of_cons_eq heq hm hm'
    | ofApp happ => exact absurd heq.symm (happ.app_append_ne (by rw [hm]; rfl))
  | tabs hm hx hc hs hd _ ih =>
    intro us rest rest' u h' heq hstop hstop'
    cases h' with
    | abs hm' _ _ _ _ _ => cases kind_eq_of_cons_eq heq hm hm'
    | tabs hm' hx' hc' hs' hd' hb' =>
      simp only [List.cons_append, List.cons.injEq] at heq
      obtain ⟨rfl, rfl, rfl, rfl, rfl, heq⟩ := heq
      obtain ⟨rfl, rfl⟩ := ih hb' heq hstop hstop'
      exact ⟨rfl, rfl⟩
    | ofApp happ => exact absurd heq.symm (happ.app_append_ne (by rw [hm]; rfl))
  | ofApp happ ih =>
    intro us rest rest' u h' heq hstop hstop'
    cases h' with
    | abs hm' _ _ _ _ _ => exact absurd heq (happ.app_append_ne (by rw [hm']; rfl))
    | tabs hm' _ _ _ _ _ => exact absurd heq (happ.app_append_ne (by rw [hm']; rfl))
    | ofApp happ' =>
      obtain ⟨hs, head, as, rfl, hhead, hargs⟩ := happ'.spine
      rw [List.append_assoc] at heq
      -- this application is found in the other one, and nothing continues it there
      obtain ⟨more, hmore, hrest⟩ := ih hhead hargs heq hstop'
      rw [← List.append_assoc, hmore, List.append_assoc, List.append_cancel_left_eq] at heq
      rw [heq] at hstop
      obtain ⟨rfl, rfl⟩ := hrest.eq_nil hstop
      rw [List.append_nil] at hmore
      exact ⟨hmore.symm, rfl⟩
  | app hf ha ihf iha =>
    intro hs bs rest rest' head u hhead hargs heq hstop
    rw [List.append_assoc] at heq
    obtain ⟨more, hmore, hrest⟩ := ihf hhead hargs heq hstop
    rw [← List.append_assoc hs, hmore, List.append_assoc, List.append_cancel_left_eq] at heq
    -- the next argument of the other application is this one
    obtain ⟨more', rfl, hmore'⟩ := hrest.first_atom ha (fun hb h => iha hb h) heq hstop
    exact ⟨more', by rw [hmore, List.append_assoc], hmore'⟩
  | tapp hf hl ha hr ihf =>
    intro hs bs rest rest' head u hhead hargs heq hstop
    rw [List.append_assoc] at heq
    obtain ⟨more, hmore, hrest⟩ := ihf hhead hargs heq hstop
    rw [← List.append_assoc hs, hmore, List.append_assoc, List.append_cancel_left_eq,
      List.cons_append, List.append_assoc] at heq
    obtain ⟨more', rfl, hmore'⟩ := hrest.first_type hl ha hr heq hstop
    refine ⟨more', ?_, hmore'⟩
    simp only [hmore, List.append_assoc, List.cons_append, List.nil_append]
  | ofAtom ha ih =>
    intro hs bs rest rest' head u hhead hargs heq _
    obtain ⟨rfl, rfl⟩ := ih hhead heq
    exact ⟨bs, rfl, hargs⟩
  | int hk =>
    intro us rest rest' u h' heq
    cases h' with
    | int _ =>
      obtain ⟨rfl, -⟩ := List.cons.inj heq
      exact ⟨rfl, rfl⟩
    | var hk' => cases kind_eq_of_cons_eq heq hk hk'
    | paren hl' _ _ => cases kind_eq_of_cons_eq heq hk hl'
  | var hk =>
    intro us rest rest' u h' heq
    cases h' with
    | int hk' => cases kind_eq_of_cons_eq heq hk hk'
    | var _ =>
      obtain ⟨rfl, -⟩ := List.cons.inj heq
      exact ⟨rfl, rfl⟩
    | paren hl' _ _ => cases kind_eq_of_cons_eq heq hk hl'
  | paren hl _ hr ih =>
    intro us rest rest' u h' heq
    cases h' with
    | int hk' => cases kind_eq_of_cons_eq heq hl hk'
    | var hk' => cases kind_eq_of_cons_eq heq hl hk'
    | paren hl' hinner hr' =>
      simp only [List.cons_append, List.append_assoc, List.cons.injEq] at heq
      obtain ⟨rfl, heq⟩ := heq
      obtain ⟨rfl, rfl⟩ := ih hinner heq (stops_of_kind _ hr rfl) (stops_of_kind _ hr' rfl)
      rw [List.append_cancel_left_eq, List.cons.injEq] at heq
      obtain ⟨rfl, -⟩ := heq
      exact ⟨rfl, rfl⟩

/-- **Terms are unambiguous**: a sequence of tokens is derived with one tree. -/
theorem Derives.unique {ts : List Token} {t u : Term} (h : Derives .term ts t)
    (h' : Derives .term ts u) : t = u := by
  have heq : ts ++ [] = ts ++ [] := rfl
  exact (h.unique_form h' heq trivial trivial).2

end Grammar
end PolyLambda
