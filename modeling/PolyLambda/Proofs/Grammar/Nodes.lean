import PolyLambda.Proofs.Grammar.Ranges

/-!
# The tokens of a node

Every part of a derived term is spelled by some of the tokens, next to each other
(`Derives.exists_node`).  A node is spelled without the parentheses around it (`Node`), and the
range of a node does not cover all of its tokens: where its first operand is in parentheses, the
range starts after they open, and where its last operand is, it stops before they close.

What is missing can be told from the tokens that are covered (`Node.exists_core`).  There are as
many parentheses missing in front as close without having been opened among the covered tokens,
and as many at the end as open without being closed.  Parentheses without a partner are counted
for pieces of a sequence (`unmatched`), and the counts are put together (`unmatched_append`).
-/

namespace PolyLambda
namespace Grammar

/-- `Node ts t`: the tokens `ts` spell `t`, with no parentheses around it. -/
inductive Node : List Token → Term → Prop where
  | abs {mark x colon dot : Token} {as bs : List Token} {a : Ty} {b : Term} :
      mark.kind = .lambda → x.kind = .ident → colon.kind = .colon → DerivesType .type as a →
      dot.kind = .dot → Derives .term bs b →
      Node (mark :: x :: colon :: (as ++ dot :: bs)) (.abs (mark.range.between b.range) x.name a b)
  | tabs {mark x colon star dot : Token} {bs : List Token} {b : Term} :
      mark.kind = .bigLambda → x.kind = .typeVar → colon.kind = .colon → star.kind = .star →
      dot.kind = .dot → Derives .term bs b →
      Node (mark :: x :: colon :: star :: dot :: bs)
        (.tabs (mark.range.between b.range) x.name .star b)
  | app {fs as : List Token} {f a : Term} : Derives .app fs f → Derives .atom as a →
      Node (fs ++ as) (.app (f.range.between a.range) f a)
  | tapp {l r : Token} {fs as : List Token} {f : Term} {a : Ty} :
      Derives .app fs f → l.kind = .leftBracket → DerivesType .type as a →
      r.kind = .rightBracket →
      Node (fs ++ l :: (as ++ [r])) (.tapp (f.range.between r.range) f a)
  | int {t : Token} : t.kind = .int → Node [t] (.int t.range (.ofInt (literalValue t.text)))
  | var {t : Token} : t.kind = .ident → Node [t] (.var t.range t.name)

theorem Node.derives {ts : List Token} {t : Term} (h : Node ts t) : Derives .term ts t := by
  cases h with
  | abs hm hx hc ha hd hb => exact .abs hm hx hc ha hd hb
  | tabs hm hx hc hs hd hb => exact .tabs hm hx hc hs hd hb
  | app hf ha => exact .ofApp (.app hf ha)
  | tapp hf hl ha hr => exact .ofApp (.tapp hf hl ha hr)
  | int hk => exact .ofApp (.ofAtom (.int hk))
  | var hk => exact .ofApp (.ofAtom (.var hk))

/-- **Every part of a derived term is spelled by some of the tokens.** -/
theorem Derives.exists_node {f : TermForm} {ts : List Token} {t u : Term} (h : Derives f ts t)
    (hu : u ∈ t.parts) : ∃ us, us <:+: ts ∧ Node us u := by
  induction h with
  | @abs mark x colon dot as bs a b hm hx hc ha hd hb ih =>
    rcases List.mem_cons.mp hu with rfl | hu
    · exact ⟨_, List.infix_refl _, .abs hm hx hc ha hd hb⟩
    · obtain ⟨us, hus, hnode⟩ := ih hu
      have hsuffix : bs <:+ mark :: x :: colon :: (as ++ dot :: bs) :=
        ⟨mark :: x :: colon :: (as ++ [dot]), by simp⟩
      exact ⟨us, hus.trans hsuffix.isInfix, hnode⟩
  | @tabs mark x colon star dot bs b hm hx hc hs hd hb ih =>
    rcases List.mem_cons.mp hu with rfl | hu
    · exact ⟨_, List.infix_refl _, .tabs hm hx hc hs hd hb⟩
    · obtain ⟨us, hus, hnode⟩ := ih hu
      have hsuffix : bs <:+ [mark, x, colon, star, dot] ++ bs := List.suffix_append _ _
      exact ⟨us, hus.trans hsuffix.isInfix, hnode⟩
  | ofApp _ ih => exact ih hu
  | app hf ha ihf iha =>
    rcases List.mem_cons.mp hu with rfl | hu
    · exact ⟨_, List.infix_refl _, .app hf ha⟩
    rcases List.mem_append.mp hu with hu | hu
    · obtain ⟨us, hus, hnode⟩ := ihf hu
      exact ⟨us, hus.trans (List.prefix_append _ _).isInfix, hnode⟩
    · obtain ⟨us, hus, hnode⟩ := iha hu
      exact ⟨us, hus.trans (List.suffix_append _ _).isInfix, hnode⟩
  | tapp hf hl ha hr ihf =>
    rcases List.mem_cons.mp hu with rfl | hu
    · exact ⟨_, List.infix_refl _, .tapp hf hl ha hr⟩
    · obtain ⟨us, hus, hnode⟩ := ihf hu
      exact ⟨us, hus.trans (List.prefix_append _ _).isInfix, hnode⟩
  | ofAtom _ ih => exact ih hu
  | int hk =>
    obtain rfl := List.mem_singleton.mp hu
    exact ⟨_, List.infix_refl _, .int hk⟩
  | var hk =>
    obtain rfl := List.mem_singleton.mp hu
    exact ⟨_, List.infix_refl _, .var hk⟩
  | @paren l r ts t _ _ _ ih =>
    obtain ⟨us, hus, hnode⟩ := ih hu
    exact ⟨us, hus.trans (List.infix_append [l] ts [r]), hnode⟩

/-! ## Parentheses without a partner -/

/-- Parentheses without a partner: some that close, and after them some that open. -/
structure Unmatched where
  closing : Nat
  opening : Nat
  deriving DecidableEq, Repr

namespace Unmatched

/-- Every parenthesis has a partner. -/
def none : Unmatched := ⟨0, 0⟩

/-- What is left without a partner of two sequences in a row: those that open in the first one
are closed in the second. -/
def followedBy (a b : Unmatched) : Unmatched :=
  ⟨a.closing + (b.closing - a.opening), b.opening + (a.opening - b.closing)⟩

theorem followedBy_assoc (a b c : Unmatched) :
    (a.followedBy b).followedBy c = a.followedBy (b.followedBy c) := by
  simp only [followedBy, mk.injEq]
  omega

@[simp]
theorem none_followedBy (a : Unmatched) : none.followedBy a = a := by simp [followedBy, none]

@[simp]
theorem followedBy_none (a : Unmatched) : a.followedBy none = a := by simp [followedBy, none]

end Unmatched

/-- The parenthesis that a single token is. -/
def unmatchedKind : TokenKind → Unmatched
  | .leftParen => ⟨0, 1⟩
  | .rightParen => ⟨1, 0⟩
  | _ => .none

/-- The parentheses without a partner among tokens. -/
def unmatched : List Token → Unmatched
  | [] => .none
  | t :: ts => (unmatchedKind t.kind).followedBy (unmatched ts)

@[simp]
theorem unmatched_nil : unmatched [] = .none := rfl

theorem unmatched_cons (t : Token) (ts : List Token) :
    unmatched (t :: ts) = (unmatchedKind t.kind).followedBy (unmatched ts) := rfl

@[simp]
theorem unmatched_append (ts us : List Token) :
    unmatched (ts ++ us) = (unmatched ts).followedBy (unmatched us) := by
  induction ts with
  | nil => simp
  | cons t ts ih => rw [List.cons_append, unmatched_cons, ih, unmatched_cons,
      Unmatched.followedBy_assoc]

/-- A token that is no parenthesis does not count. -/
theorem unmatched_cons_of_kind {t : Token} {k : TokenKind} (ts : List Token) (ht : t.kind = k)
    (hk : unmatchedKind k = .none) : unmatched (t :: ts) = unmatched ts := by
  rw [unmatched_cons, ht, hk, Unmatched.none_followedBy]

/-- There is no parenthesis in front of the body of a type binder. -/
theorem unmatched_typeBinder {mark x colon star dot : Token} {k : TokenKind} (bs : List Token)
    (hm : mark.kind = k) (hk : unmatchedKind k = .none) (hx : x.kind = .typeVar)
    (hc : colon.kind = .colon) (hs : star.kind = .star) (hd : dot.kind = .dot) :
    unmatched (mark :: x :: colon :: star :: dot :: bs) = unmatched bs := by
  rw [unmatched_cons_of_kind _ hm hk, unmatched_cons_of_kind _ hx rfl,
    unmatched_cons_of_kind _ hc rfl, unmatched_cons_of_kind _ hs rfl,
    unmatched_cons_of_kind _ hd rfl]

/-- In a type every parenthesis has a partner. -/
theorem DerivesType.unmatched_eq {f : TypeForm} {ts : List Token} {a : Ty}
    (h : DerivesType f ts a) : unmatched ts = .none := by
  induction h with
  | all hm hx hc hs hd _ ih => rw [unmatched_typeBinder _ hm rfl hx hc hs hd, ih]
  | arrow _ hm _ ihp ihr => simp [unmatched_cons_of_kind _ hm rfl, ihp, ihr]
  | ofAtom _ ih => exact ih
  | int hk => exact unmatched_cons_of_kind _ hk rfl
  | var hk => exact unmatched_cons_of_kind _ hk rfl
  | paren hl _ hr ih =>
    rw [unmatched_cons, unmatched_append, ih, unmatched_cons, hl, hr]
    rfl

/-- In front of the body of a function every parenthesis has a partner. -/
theorem unmatched_binder {mark x colon dot : Token} {as : List Token} {a : Ty} (bs : List Token)
    (hm : mark.kind = .lambda) (hx : x.kind = .ident) (hc : colon.kind = .colon)
    (ha : DerivesType .type as a) (hd : dot.kind = .dot) :
    unmatched (mark :: x :: colon :: (as ++ dot :: bs)) = unmatched bs := by
  rw [unmatched_cons_of_kind _ hm rfl, unmatched_cons_of_kind _ hx rfl,
    unmatched_cons_of_kind _ hc rfl, unmatched_append, ha.unmatched_eq,
    unmatched_cons_of_kind _ hd rfl, Unmatched.none_followedBy]

/-- In a type argument every parenthesis has a partner. -/
theorem unmatched_typeArgument {l r : Token} {as : List Token} {a : Ty} (fs : List Token)
    (hl : l.kind = .leftBracket) (ha : DerivesType .type as a) (hr : r.kind = .rightBracket) :
    unmatched (fs ++ l :: (as ++ [r])) = unmatched fs := by
  rw [unmatched_append, unmatched_cons_of_kind _ hl rfl, unmatched_append, ha.unmatched_eq,
    unmatched_cons_of_kind _ hr rfl, unmatched_nil, Unmatched.followedBy_none,
    Unmatched.followedBy_none]

/-- In a term every parenthesis has a partner. -/
theorem Derives.unmatched_eq {f : TermForm} {ts : List Token} {t : Term} (h : Derives f ts t) :
    unmatched ts = .none := by
  induction h with
  | abs hm hx hc ha hd _ ih => rw [unmatched_binder _ hm hx hc ha hd, ih]
  | tabs hm hx hc hs hd _ ih => rw [unmatched_typeBinder _ hm rfl hx hc hs hd, ih]
  | ofApp _ ih => exact ih
  | app _ _ ihf iha => simp [ihf, iha]
  | tapp _ hl ha hr ihf => rw [unmatched_typeArgument _ hl ha hr, ihf]
  | ofAtom _ ih => exact ih
  | int hk => exact unmatched_cons_of_kind _ hk rfl
  | var hk => exact unmatched_cons_of_kind _ hk rfl
  | paren hl _ hr ih =>
    rw [unmatched_cons, unmatched_append, ih, unmatched_cons, hl, hr]
    rfl

section Edges

variable {ts opens closes : List Token}

theorem unmatched_opens (h : ∀ l ∈ opens, l.kind = .leftParen) :
    unmatched opens = ⟨0, opens.length⟩ := by
  induction opens with
  | nil => rfl
  | cons l opens ih =>
    rw [List.forall_mem_cons] at h
    rw [unmatched_cons, h.1, ih h.2]
    rfl

theorem unmatched_closes (h : ∀ r ∈ closes, r.kind = .rightParen) :
    unmatched closes = ⟨closes.length, 0⟩ := by
  induction closes with
  | nil => rfl
  | cons r closes ih =>
    rw [List.forall_mem_cons] at h
    rw [unmatched_cons, h.1, ih h.2]
    simp only [unmatchedKind, Unmatched.followedBy, List.length_cons, Unmatched.mk.injEq]
    omega

/-- What closes at the end of a sequence where all is matched is open before that. -/
theorem unmatched_of_closes (h : unmatched (ts ++ closes) = .none)
    (hcloses : ∀ r ∈ closes, r.kind = .rightParen) : unmatched ts = ⟨0, closes.length⟩ := by
  rw [unmatched_append, unmatched_closes hcloses] at h
  generalize unmatched ts = m at h ⊢
  obtain ⟨closing, opening⟩ := m
  simp only [Unmatched.followedBy, Unmatched.none, Unmatched.mk.injEq] at h ⊢
  omega

/-- What opens in front of a sequence where all is matched is closed after that. -/
theorem unmatched_of_opens (h : unmatched (opens ++ ts) = .none)
    (hopens : ∀ l ∈ opens, l.kind = .leftParen) : unmatched ts = ⟨opens.length, 0⟩ := by
  rw [unmatched_append, unmatched_opens hopens] at h
  generalize unmatched ts = m at h ⊢
  obtain ⟨closing, opening⟩ := m
  simp only [Unmatched.followedBy, Unmatched.none, Unmatched.mk.injEq] at h ⊢
  omega

end Edges

/-! ## Covered tokens -/

/-- The range `r` starts where the first of the tokens does and stops where the last one does,
which is a legal one. -/
structure Spans (r : Range) (ts : List Token) : Prop where
  first : ∃ u rest, ts = u :: rest ∧ r.start = u.range.start
  last : ∃ rest v, ts = rest ++ [v] ∧ r.stop = v.range.stop ∧ v.kind ≠ .illegal

theorem Spans.single {t : Token} {k : TokenKind} (ht : t.kind = k) (hk : k ≠ .illegal) :
    Spans t.range [t] :=
  ⟨⟨t, [], rfl, rfl⟩, [], t, rfl, rfl, ht ▸ hk⟩

/-- From the first token of one piece to the last token of another. -/
theorem Spans.between {r r' : Range} {ts us : List Token} (ht : Spans r ts) (hu : Spans r' us)
    (mid : List Token) : Spans (r.between r') (ts ++ (mid ++ us)) := by
  obtain ⟨a, rest, rfl, hstart⟩ := ht.first
  obtain ⟨rest', b, rfl, hstop, hlegal⟩ := hu.last
  refine ⟨⟨a, rest ++ (mid ++ (rest' ++ [b])), rfl, hstart⟩, a :: rest ++ (mid ++ rest'), b, ?_,
    hstop, hlegal⟩
  simp only [List.append_assoc]

/-- Of the tokens `ts`, the range `r` covers `core`: all but some parentheses that open in front
of it and some that close after it. -/
structure Covered (r : Range) (ts opens core closes : List Token) : Prop where
  tokens : ts = opens ++ (core ++ closes)
  opens : ∀ l ∈ opens, l.kind = .leftParen
  spans : Spans r core
  closes : ∀ r ∈ closes, r.kind = .rightParen

namespace Covered

variable {r : Range} {ts opens core closes : List Token}

/-- Parentheses around the tokens are not covered. -/
theorem within {ls rs : List Token} (h : Covered r ts opens core closes)
    (hls : ∀ l ∈ ls, l.kind = .leftParen) (hrs : ∀ r ∈ rs, r.kind = .rightParen) :
    Covered r (ls ++ (ts ++ rs)) (ls ++ opens) core (closes ++ rs) where
  tokens := by simp only [h.tokens, List.append_assoc]
  opens := List.forall_mem_append.mpr ⟨hls, h.opens⟩
  spans := h.spans
  closes := List.forall_mem_append.mpr ⟨h.closes, hrs⟩

theorem unmatched_front (h : Covered r ts opens core closes) (hts : unmatched ts = .none) :
    unmatched (opens ++ core) = ⟨0, closes.length⟩ := by
  rw [h.tokens, ← List.append_assoc] at hts
  exact unmatched_of_closes hts h.closes

theorem unmatched_back (h : Covered r ts opens core closes) (hts : unmatched ts = .none) :
    unmatched (core ++ closes) = ⟨opens.length, 0⟩ := by
  rw [h.tokens] at hts
  exact unmatched_of_opens hts h.opens

end Covered

/-- What is derived is a node in some parentheses. -/
theorem Derives.exists_parens {f : TermForm} {ts : List Token} {t : Term} (h : Derives f ts t) :
    ∃ ls us rs, ts = ls ++ (us ++ rs) ∧ (∀ l ∈ ls, l.kind = .leftParen) ∧ Node us t ∧
      ∀ r ∈ rs, r.kind = .rightParen := by
  have hbare : ∀ {ts : List Token} {t : Term}, Node ts t → ∃ ls us rs, ts = ls ++ (us ++ rs) ∧
      (∀ l ∈ ls, l.kind = .leftParen) ∧ Node us t ∧ ∀ r ∈ rs, r.kind = .rightParen := by
    intro ts t hnode
    exact ⟨[], ts, [], by simp, List.forall_mem_nil _, hnode, List.forall_mem_nil _⟩
  induction h with
  | abs hm hx hc ha hd hb => exact hbare (.abs hm hx hc ha hd hb)
  | tabs hm hx hc hs hd hb => exact hbare (.tabs hm hx hc hs hd hb)
  | ofApp _ ih => exact ih
  | app hf ha => exact hbare (.app hf ha)
  | tapp hf hl ha hr => exact hbare (.tapp hf hl ha hr)
  | ofAtom _ ih => exact ih
  | int hk => exact hbare (.int hk)
  | var hk => exact hbare (.var hk)
  | @paren l r _ _ hl _ hr ih =>
    obtain ⟨ls, us, rs, rfl, hls, hnode, hrs⟩ := ih
    refine ⟨l :: ls, us, rs ++ [r], by simp, List.forall_mem_cons.mpr ⟨hl, hls⟩, hnode, ?_⟩
    exact List.forall_mem_append.mpr ⟨hrs, List.forall_mem_singleton.mpr hr⟩

/-- Tokens that derive a term are covered as those of its node are. -/
theorem Derives.exists_covered {f : TermForm} {ts : List Token} {t : Term} (h : Derives f ts t)
    (hnode : ∀ {us : List Token}, Node us t → ∃ opens core closes,
      Covered t.range us opens core closes ∧ unmatched core = ⟨opens.length, closes.length⟩) :
    ∃ opens core closes, Covered t.range ts opens core closes := by
  obtain ⟨ls, us, rs, rfl, hls, hus, hrs⟩ := h.exists_parens
  obtain ⟨opens, core, closes, hcovered, -⟩ := hnode hus
  exact ⟨_, _, _, hcovered.within hls hrs⟩

/-- **What is missing can be told from what is covered.**  The range of a node covers its tokens
but for as many parentheses in front as close in it without having been opened there, and as many
after it as open in it without being closed there. -/
theorem Node.exists_core {ts : List Token} {t : Term} (h : Node ts t) :
    ∃ opens core closes, Covered t.range ts opens core closes ∧
      unmatched core = ⟨opens.length, closes.length⟩ := by
  have hnil : ∀ k : TokenKind, ∀ u ∈ ([] : List Token), u.kind = k := fun _ => List.forall_mem_nil _
  induction t generalizing ts with
  | int r n =>
    cases h with
    | @int t hk =>
      exact ⟨[], [t], [], ⟨rfl, hnil _, .single hk nofun, hnil _⟩, unmatched_cons_of_kind _ hk rfl⟩
  | var r x =>
    cases h with
    | @var t hk =>
      exact ⟨[], [t], [], ⟨rfl, hnil _, .single hk nofun, hnil _⟩, unmatched_cons_of_kind _ hk rfl⟩
  | app r f a ihf iha =>
    cases h with
    | app hf ha =>
      obtain ⟨opens, core, closes, hfs⟩ := hf.exists_covered ihf
      obtain ⟨opens', core', closes', has⟩ := ha.exists_covered iha
      refine ⟨opens, core ++ ((closes ++ opens') ++ core'), closes',
        ⟨?_, hfs.opens, hfs.spans.between has.spans _, has.closes⟩, ?_⟩
      · rw [hfs.tokens, has.tokens]
        simp only [List.append_assoc]
      · rw [List.append_assoc, ← List.append_assoc, unmatched_append,
          hfs.unmatched_back hf.unmatched_eq, has.unmatched_front ha.unmatched_eq]
        rfl
  | abs r x a b ih =>
    cases h with
    | @abs mark x colon dot as bs _ _ hm hx hc ha hd hb =>
      obtain ⟨opens, core, closes, hbs⟩ := hb.exists_covered ih
      refine ⟨[], [mark] ++ ((x :: colon :: (as ++ dot :: opens)) ++ core), closes,
        ⟨by simp [hbs.tokens], hnil _, .between (.single hm nofun) hbs.spans _, hbs.closes⟩, ?_⟩
      have hcore : [mark] ++ ((x :: colon :: (as ++ dot :: opens)) ++ core) =
          mark :: x :: colon :: (as ++ dot :: (opens ++ core)) := by simp
      rw [hcore, unmatched_binder _ hm hx hc ha hd]
      exact hbs.unmatched_front hb.unmatched_eq
  | tabs r x k b ih =>
    cases h with
    | @tabs mark x colon star dot bs _ hm hx hc hs hd hb =>
      obtain ⟨opens, core, closes, hbs⟩ := hb.exists_covered ih
      refine ⟨[], [mark] ++ ((x :: colon :: star :: dot :: opens) ++ core), closes,
        ⟨by simp [hbs.tokens], hnil _, .between (.single hm nofun) hbs.spans _, hbs.closes⟩, ?_⟩
      exact (unmatched_typeBinder _ hm rfl hx hc hs hd).trans
        (hbs.unmatched_front hb.unmatched_eq)
  | tapp r f a ih =>
    cases h with
    | @tapp l r fs as _ _ hf hl ha hr =>
      obtain ⟨opens, core, closes, hfs⟩ := hf.exists_covered ih
      refine ⟨opens, core ++ ((closes ++ l :: as) ++ [r]), [],
        ⟨by simp [hfs.tokens], hfs.opens, hfs.spans.between (.single hr nofun) _, hnil _⟩, ?_⟩
      have hcore : core ++ ((closes ++ l :: as) ++ [r]) =
          (core ++ closes) ++ l :: (as ++ [r]) := by simp
      rw [hcore, unmatched_typeArgument _ hl ha hr]
      exact hfs.unmatched_back hf.unmatched_eq
  | gap => cases h

end Grammar
end PolyLambda
