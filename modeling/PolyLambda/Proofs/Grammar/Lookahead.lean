import PolyLambda.Proofs.Grammar.Levels

/-!
# Reading looks one token ahead

A reader is **decided** on its tokens when the first token it leaves, or the token it
rejects, is the last one it has looked at: with any other tokens after that one, and any
other end of the source, the result is the same (`Decided`).  Where a reader gets to the
end of its tokens nothing is said.

Readers are put together from decided pieces one after another (`Decided.bind`), so all of
them are decided (`decided_type`, `decided_term`).  It follows that what stands after a
rejected token never matters (`decided_complete`).
-/

namespace PolyLambda

theorem ParseError.token_unexpected (cause : ParseError.Cause) (t : Token) :
    (ParseError.unexpected cause t).token = t := by
  unfold unexpected
  split <;> rfl

namespace Reading

open Grammar

/-- A reader of tokens, given the token that stands for their end. -/
abbrev Reader (α : Type) := Token → List Token → Except ParseError (α × List Token)

/-- The result of `p` on `ts` depends on nothing after the first token left or the token
rejected. -/
structure Decided {α : Type} (p : Reader α) (finish : Token) (ts : List Token) : Prop where
  ok : ∀ a t post, p finish ts = .ok (a, t :: post) → ∃ pre, ts = pre ++ t :: post ∧
    ∀ finish' post', p finish' (pre ++ t :: post') = .ok (a, t :: post')
  error : ∀ e, p finish ts = .error e → e.token = finish ∨ ∃ pre post, ts = pre ++ e.token :: post ∧
    ∀ finish' post', p finish' (pre ++ e.token :: post') = .error e

namespace Decided

variable {α β : Type} {p q : Reader α} {finish t : Token} {ts : List Token} {a : α} {e : ParseError}

theorem end_ok (h : p finish [] = .ok (a, [])) : Decided p finish [] where
  ok b u post hok := by
    rw [h] at hok
    cases hok
  error e herr := by
    rw [h] at herr
    cases herr

theorem end_error (h : p finish [] = .error e) (he : e.token = finish) : Decided p finish [] where
  ok b u post hok := by
    rw [h] at hok
    cases hok
  error e' herr := by
    rw [h] at herr
    obtain rfl := Except.error.inj herr
    exact .inl he

/-- A token that is left, and only looked at. -/
theorem leave (h : ∀ finish us, p finish (t :: us) = .ok (a, t :: us)) :
    Decided p finish (t :: ts) where
  ok b u post hok := by
    rw [h] at hok
    cases hok
    exact ⟨[], rfl, h⟩
  error e herr := by
    rw [h] at herr
    cases herr

/-- A token that is rejected. -/
theorem reject (h : ∀ finish us, p finish (t :: us) = .error e) (he : e.token = t) :
    Decided p finish (t :: ts) where
  ok b u post hok := by
    rw [h] at hok
    cases hok
  error e' herr := by
    rw [h] at herr
    obtain rfl := Except.error.inj herr
    subst he
    exact .inr ⟨[], ts, rfl, h⟩

/-- A token that is taken. -/
theorem take (h : ∀ finish us, p finish (t :: us) = q finish us) (hq : Decided q finish ts) :
    Decided p finish (t :: ts) where
  ok b u post hok := by
    rw [h] at hok
    obtain ⟨pre, rfl, hpre⟩ := hq.ok b u post hok
    exact ⟨t :: pre, rfl, fun finish' post' => (h finish' _).trans (hpre finish' post')⟩
  error e' herr := by
    rw [h] at herr
    rcases hq.error e' herr with he | ⟨pre, post, rfl, hpre⟩
    · exact .inl he
    · refine .inr ⟨t :: pre, post, rfl, fun finish' post' => ?_⟩
      exact (h finish' _).trans (hpre finish' post')

/-- A token that says which reader to go on with. -/
theorem choose (hq : Decided q finish (t :: ts))
    (h : ∀ finish us, p finish (t :: us) = q finish (t :: us)) : Decided p finish (t :: ts) := by
  -- every beginning of the tokens that has a token has this one
  have hbeginning : ∀ {pre post u}, t :: ts = pre ++ u :: post → ∀ finish' post',
      p finish' (pre ++ u :: post') = q finish' (pre ++ u :: post') := by
    intro pre post u heq finish' post'
    cases pre with
    | nil =>
      obtain ⟨rfl, -⟩ := List.cons.inj heq
      exact h finish' post'
    | cons v pre =>
      obtain ⟨rfl, -⟩ := List.cons.inj heq
      exact h finish' _
  constructor
  · intro b u post hok
    rw [h] at hok
    obtain ⟨pre, heq, hpre⟩ := hq.ok b u post hok
    exact ⟨pre, heq, fun finish' post' =>
      (hbeginning heq finish' post').trans (hpre finish' post')⟩
  · intro e' herr
    rw [h] at herr
    rcases hq.error e' herr with he | ⟨pre, post, heq, hpre⟩
    · exact .inl he
    · exact .inr ⟨pre, post, heq, fun finish' post' =>
        (hbeginning heq finish' post').trans (hpre finish' post')⟩

/-- Nothing more is read. -/
theorem done (h : ∀ finish us, p finish us = .ok (a, us)) : Decided p finish ts := by
  cases ts with
  | nil => exact end_ok (h finish [])
  | cons t ts => exact leave fun finish us => h finish (t :: us)

/-- A token that only System F allows. -/
theorem allow {c : Calculus} {k : Construct}
    (h : ∀ finish us, p finish (t :: us) =
      (⟨c, finish⟩ : Reading).allow k t >>= fun _ => q finish us)
    (hq : Decided q finish ts) : Decided p finish (t :: ts) := by
  by_cases hc : c = .simplyTyped
  · refine reject (e := ⟨.restricted k, t⟩) (fun finish us => ?_) rfl
    rw [h, Reading.allow, if_pos hc]
    rfl
  · refine take (fun finish us => ?_) hq
    rw [h, Reading.allow, if_neg hc]
    rfl

/-- The tokens left may be changed from any of them on. -/
theorem ok_append {pre post : List Token} {u : Token} (hp : Decided p finish ts)
    (h : p finish ts = .ok (a, pre ++ u :: post)) : ∃ used, ts = used ++ (pre ++ u :: post) ∧
      ∀ finish' post', p finish' (used ++ (pre ++ u :: post')) = .ok (a, pre ++ u :: post') := by
  cases pre with
  | nil => exact hp.ok a u post h
  | cons v pre =>
    obtain ⟨used, hts, hused⟩ := hp.ok a v (pre ++ u :: post) h
    exact ⟨used, hts, fun finish' post' => hused finish' (pre ++ u :: post')⟩

/-- **Reading on.**  A reader followed by readers that are decided on the tokens it
leaves. -/
theorem bind {f : Token → α × List Token → Except ParseError (β × List Token)}
    (hp : Decided p finish ts)
    (hf : ∀ a us, p finish ts = .ok (a, us) →
      Decided (fun finish us => f finish (a, us)) finish us) :
    Decided (fun finish ts => p finish ts >>= f finish) finish ts where
  ok b u post hok := by
    obtain ⟨⟨a, us⟩, hpok, hfok⟩ := bind_eq_ok.mp hok
    -- the second reader has left a token, so the first one has left that or an earlier one
    obtain ⟨pre, rfl, hpre⟩ := (hf a us hpok).ok b u post hfok
    obtain ⟨used, rfl, hused⟩ := hp.ok_append hpok
    refine ⟨used ++ pre, (List.append_assoc ..).symm, fun finish' post' => ?_⟩
    rw [List.append_assoc]
    exact bind_eq_ok.mpr ⟨_, hused finish' post', hpre finish' post'⟩
  error e herr := by
    rcases bind_eq_error.mp herr with hperr | ⟨⟨a, us⟩, hpok, hferr⟩
    · rcases hp.error e hperr with he | ⟨pre, post, rfl, hpre⟩
      · exact .inl he
      · refine .inr ⟨pre, post, rfl, fun finish' post' => ?_⟩
        exact bind_eq_error.mpr (.inl (hpre finish' post'))
    · rcases (hf a us hpok).error e hferr with he | ⟨pre, post, rfl, hpre⟩
      · exact .inl he
      · obtain ⟨used, rfl, hused⟩ := hp.ok_append hpok
        refine .inr ⟨used ++ pre, post, (List.append_assoc ..).symm, fun finish' post' => ?_⟩
        rw [List.append_assoc]
        exact bind_eq_error.mpr (.inr ⟨_, hused finish' post', hpre finish' post'⟩)

end Decided

variable {c : Calculus} {finish : Token}

/-! ## The readers of types -/

theorem decided_expect (k : TokenKind) (ts : List Token) :
    Decided (fun finish => Reading.expect ⟨c, finish⟩ k) finish ts := by
  cases ts with
  | nil => exact .end_error rfl (ParseError.token_unexpected ..)
  | cons t ts =>
    by_cases ht : t.kind = k
    · refine .take (fun finish us => ?_) (.done (a := t) fun _ _ => rfl)
      rw [expect, if_pos ht]
    · refine .reject (fun finish us => ?_) (ParseError.token_unexpected (.expected k) t)
      rw [expect, if_neg ht]
      rfl

theorem decided_typeBinder (ts : List Token) :
    Decided (fun finish => Reading.typeBinder ⟨c, finish⟩) finish ts := by
  refine .bind (decided_expect _ _) fun x us _ => .bind (decided_expect _ _) fun colon us _ => ?_
  refine .bind (.bind (decided_expect _ _) fun star us _ => .done fun _ _ => rfl) fun k us _ => ?_
  exact .bind (decided_expect _ _) fun dot us _ => .done fun _ _ => rfl

/-- What stands in parentheses. -/
theorem decided_parenthesized {α : Type} {p : Reader α} {ts : List Token}
    (hp : Decided p finish ts) :
    Decided (fun finish ts => p finish ts >>= fun (a, us) =>
      Reading.expect ⟨c, finish⟩ .rightParen us >>= fun (_, vs) => .ok (a, vs)) finish ts := by
  refine hp.bind fun a us _ => ?_
  exact .bind (decided_expect _ _) fun _ vs _ => .done fun _ _ => rfl

theorem decided_typeAtom {inner : Reader Ty} {t : Token} {ts : List Token}
    (hinner : Decided inner finish ts) :
    Decided (fun finish => Reading.typeAtom ⟨c, finish⟩ (inner finish)) finish (t :: ts) := by
  by_cases hint : t.kind = .intType
  · exact .take (fun _ _ => typeAtom_int hint) (.done fun _ _ => rfl)
  by_cases hvar : t.kind = .typeVar
  · exact .allow (fun _ _ => typeAtom_var hvar) (.done fun _ _ => rfl)
  by_cases hparen : t.kind = .leftParen
  · exact .take (fun _ _ => typeAtom_paren hparen) (decided_parenthesized hinner)
  · have hfail : startsTypeAtom t.kind = false := by simp [startsTypeAtom, hint, hvar, hparen]
    exact .reject (fun _ _ => typeAtom_fail hfail) (ParseError.token_unexpected ..)

theorem decided_resultLayer {inner : Reader Ty} {param : Ty} {ts : List Token}
    (hinner : ∀ us : List Token, us.length < ts.length → Decided inner finish us) :
    Decided (fun finish => resultLayer (inner finish) param) finish ts := by
  cases ts with
  | nil => exact .end_ok rfl
  | cons t ts =>
    by_cases ht : t.kind = .arrow
    · refine .take (fun _ _ => resultLayer_arrow ht) ?_
      exact (hinner ts (Nat.lt_succ_self _)).bind fun _ us _ => .done fun _ _ => rfl
    · exact .leave fun _ _ => resultLayer_stop ht

/-- Reading a type is decided. -/
theorem decided_type (ts : List Token) :
    Decided (fun finish => Reading.type ⟨c, finish⟩) finish ts := by
  have heq : (fun finish => Reading.type ⟨c, finish⟩) =
      fun finish => Reading.typeLayer ⟨c, finish⟩ (Reading.type ⟨c, finish⟩) := by
    funext finish ts
    exact type_eq ts
  induction hn : ts.length using Nat.strongRecOn generalizing ts with
  | ind n ih =>
    have hinner : ∀ us : List Token, us.length < ts.length →
        Decided (fun finish => Reading.type ⟨c, finish⟩) finish us :=
      fun us hus => ih us.length (hn ▸ hus) us rfl
    rw [heq]
    cases ts with
    | nil => exact .end_error rfl (ParseError.token_unexpected ..)
    | cons t ts =>
      by_cases ht : t.kind = .forAll
      · refine .allow (fun _ _ => typeLayer_all ht) ((decided_typeBinder ts).bind ?_)
        rintro ⟨x, k⟩ us hbinder
        have hlt := length_lt_of_typeBinder hbinder
        exact (hinner us (Nat.lt_succ_of_lt hlt)).bind fun _ vs _ => .done fun _ _ => rfl
      · have hatom := decided_typeAtom (c := c) (t := t) (hinner ts (Nat.lt_succ_self _))
        refine (hatom.bind (f := fun finish x =>
          resultLayer (Reading.type ⟨c, finish⟩) x.1 x.2) fun param us hparam => ?_).choose
          fun _ _ => typeLayer_atom ht
        have hlt := (typeAtom_sound (fun _ _ _ => type_sound) hparam).length_lt
        exact decided_resultLayer fun vs hvs => hinner vs (Nat.lt_trans hvs hlt)

/-! ## The readers of terms -/

theorem decided_atom {inner : Reader Term} {t : Token} {ts : List Token}
    (hinner : Decided inner finish ts) :
    Decided (fun finish => Reading.atom ⟨c, finish⟩ (inner finish)) finish (t :: ts) := by
  by_cases hint : t.kind = .int
  · cases hn : int32OfLiteral? t.text with
    | some n => exact .take (fun _ _ => atom_int hint hn) (.done fun _ _ => rfl)
    | none => exact .reject (fun _ _ => atom_tooLarge hint hn) rfl
  by_cases hvar : t.kind = .ident
  · exact .take (fun _ _ => atom_var hvar) (.done fun _ _ => rfl)
  by_cases hparen : t.kind = .leftParen
  · exact .take (fun _ _ => atom_paren hparen) (decided_parenthesized hinner)
  · have hfail : startsAtom t.kind = false := by simp [startsAtom, hint, hvar, hparen]
    exact .reject (fun _ _ => atom_fail hfail) (ParseError.token_unexpected ..)

/-- On fewer than `n` tokens, reading a term and reading arguments are decided. -/
def TermDecided (c : Calculus) (finish : Token) (n : Nat) : Prop :=
  (∀ ts : List Token, ts.length < n →
    Decided (fun finish => Reading.term ⟨c, finish⟩) finish ts) ∧
  (∀ fn (ts : List Token), ts.length < n →
    Decided (fun finish => Reading.spine ⟨c, finish⟩ fn) finish ts)

theorem decided_termLayer {ts : List Token} (h : TermDecided c finish ts.length) :
    Decided (fun finish => Reading.termLayer ⟨c, finish⟩ (Reading.term ⟨c, finish⟩)
      (Reading.spine ⟨c, finish⟩)) finish ts := by
  cases ts with
  | nil => exact .end_error rfl (ParseError.token_unexpected ..)
  | cons t ts =>
    by_cases hlambda : t.kind = .lambda
    · refine .take (fun _ _ => termLayer_abs hlambda) ?_
      refine (decided_expect _ _).bind fun x us hx => ?_
      refine (decided_expect _ _).bind fun colon vs hcolon => ?_
      refine (decided_type _).bind fun a ws ha => (decided_expect _ _).bind fun dot zs hdot => ?_
      have hus := length_lt_of_expect hx
      have hvs := length_lt_of_expect hcolon
      have hws := (type_sound ha).length_lt
      have hzs := length_lt_of_expect hdot
      refine (h.1 zs ?_).bind fun _ us _ => .done fun _ _ => rfl
      rw [List.length_cons]
      omega
    by_cases hbigLambda : t.kind = .bigLambda
    · refine .allow (fun _ _ => termLayer_tabs hbigLambda) ((decided_typeBinder ts).bind ?_)
      rintro ⟨x, k⟩ us hbinder
      have hlt := length_lt_of_typeBinder hbinder
      exact (h.1 us (Nat.lt_succ_of_lt hlt)).bind fun _ vs _ => .done fun _ _ => rfl
    · have hatom := decided_atom (c := c) (t := t) (h.1 ts (Nat.lt_succ_self _))
      refine (hatom.bind (f := fun finish x => Reading.spine ⟨c, finish⟩ x.1 x.2)
        fun fn us hfn => ?_).choose fun _ _ => termLayer_app hlambda hbigLambda
      exact h.2 fn us (atom_sound (fun _ _ _ => term_sound) hfn).length_lt

theorem decided_spineLayer {fn : Term} {ts : List Token} (h : TermDecided c finish ts.length) :
    Decided (fun finish => Reading.spineLayer ⟨c, finish⟩ (Reading.term ⟨c, finish⟩)
      (Reading.spine ⟨c, finish⟩) fn) finish ts := by
  cases ts with
  | nil => exact .end_ok rfl
  | cons t ts =>
    by_cases hbracket : t.kind = .leftBracket
    · refine .allow (fun _ _ => spineLayer_tapp hbracket) ?_
      refine (decided_type _).bind fun a us ha => ?_
      refine (decided_expect _ _).bind fun close vs hclose => ?_
      have hus := (type_sound ha).length_lt
      have hvs := length_lt_of_expect hclose
      exact h.2 _ vs (by rw [List.length_cons]; omega)
    by_cases hstart : startsAtom t.kind = true
    · have hatom := decided_atom (c := c) (t := t) (h.1 ts (Nat.lt_succ_self _))
      refine (hatom.bind (f := fun finish x =>
        Reading.spine ⟨c, finish⟩ (.app (fn.range.between x.1.range) fn x.1) x.2)
        fun arg us harg => ?_).choose fun _ _ => spineLayer_app hstart
      have hlt := (atom_sound (fun _ _ _ => term_sound) harg).length_lt
      exact h.2 (.app (fn.range.between arg.range) fn arg) us hlt
    · have hstop : continuesTerm t.kind = false := by simp [continuesTerm, hbracket, hstart]
      exact .leave fun _ _ => spineLayer_stop hstop

theorem termDecided (n : Nat) : TermDecided c finish n := by
  have hterm : (fun finish => Reading.term ⟨c, finish⟩) = fun finish =>
      Reading.termLayer ⟨c, finish⟩ (Reading.term ⟨c, finish⟩) (Reading.spine ⟨c, finish⟩) := by
    funext finish ts
    exact term_eq ts
  have hspine : ∀ fn, (fun finish => Reading.spine ⟨c, finish⟩ fn) = fun finish =>
      Reading.spineLayer ⟨c, finish⟩ (Reading.term ⟨c, finish⟩) (Reading.spine ⟨c, finish⟩) fn := by
    intro fn
    funext finish ts
    exact spine_eq fn ts
  induction n with
  | zero =>
    constructor
    · intro ts hts
      omega
    · intro fn ts hts
      omega
  | succ n ih =>
    have hbelow : ∀ ts : List Token, ts.length < n + 1 → TermDecided c finish ts.length :=
      fun ts hts => ⟨fun us hus => ih.1 us (by omega), fun fn us hus => ih.2 fn us (by omega)⟩
    constructor
    · intro ts hts
      rw [hterm]
      exact decided_termLayer (hbelow ts hts)
    · intro fn ts hts
      rw [hspine]
      exact decided_spineLayer (hbelow ts hts)

/-- Reading a term is decided. -/
theorem decided_term (ts : List Token) :
    Decided (fun finish => Reading.term ⟨c, finish⟩) finish ts :=
  (termDecided (ts.length + 1)).1 ts (Nat.lt_succ_self _)

/-- **No later token repairs an error.**  Where a whole sequence of tokens is to be read, an
error lies at its end or at one of its tokens, and then it does not depend on what follows
that token. -/
theorem decided_complete {α : Type} {p : Reader α} {ts : List Token} {e : ParseError}
    (hp : Decided p finish ts) (h : complete (p finish ts) = .error e) :
    e.token = finish ∨ ∃ pre post, ts = pre ++ e.token :: post ∧
      ∀ finish' post', complete (p finish' (pre ++ e.token :: post')) = .error e := by
  unfold complete at h
  rcases bind_eq_error.mp h with herr | ⟨⟨a, us⟩, hok, hrest⟩
  · rcases hp.error e herr with he | ⟨pre, post, rfl, hpre⟩
    · exact .inl he
    · refine .inr ⟨pre, post, rfl, fun finish' post' => ?_⟩
      exact bind_eq_error.mpr (.inl (hpre finish' post'))
  · cases us with
    | nil => exact absurd hrest pure_ne_error
    | cons t post =>
      obtain ⟨pre, rfl, hpre⟩ := hp.ok a t post hok
      obtain rfl := Except.error.inj hrest
      rw [ParseError.token_unexpected]
      refine .inr ⟨pre, post, rfl, fun finish' post' => ?_⟩
      exact bind_eq_error.mpr (.inr ⟨_, hpre finish' post', rfl⟩)

end Reading
end PolyLambda
