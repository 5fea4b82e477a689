import PolyLambda.Proofs.Grammar.Lookahead
import PolyLambda.Proofs.Token.Continuation

/-!
# What can still be completed

A reading **runs out** when it fails at the end of the source.  Then the tokens so far are
the beginning of something: there is a text that continues them to what was to be read
(`completable_type`, `completable_term`).  The text is put together on the way back from
the end, one piece for each reader that was still open there: the token that was
expected, the rest of a binder, a type or a term.

What a reader asks of the tokens ahead is written as a form: one token (`Next`), a type
(`NextType`) or a term (`NextTerm`), each followed by what the reader asks after it.  For
types and terms alike this needs only that they take tokens off the front (`TakesOff`).
-/

namespace PolyLambda
namespace Reading

open Grammar

variable {r : Reading}

/-! ## Spelling and completing -/

/-- Some text spells tokens with the property `R`. -/
def Spellable (R : List Token → Prop) : Prop := ∃ w : Text, w.Spells R

/-- Some text continues `ts` to tokens with the property `Q`. -/
def Completable (Q : List Token → Prop) (ts : List Token) : Prop :=
  Spellable fun us => Q (ts ++ us)

/-- No token is left. -/
def Ended (ts : List Token) : Prop := ts = []

/-- A token of kind `k`, and after it what `Q` says. -/
def Next (k : TokenKind) (Q : List Token → Prop) (ts : List Token) : Prop :=
  ∃ t us, ts = t :: us ∧ t.kind = k ∧ Q us

/-- What `S` takes off the front, and after it what `Q` says. -/
def NextPart {α : Type} (S : List Token → α → List Token → Prop) (Q : List Token → Prop)
    (ts : List Token) : Prop :=
  ∃ a us, S ts a us ∧ Q us

/-- A type, and after it what `Q` says. -/
abbrev NextType (r : Reading) (f : TypeForm) : (List Token → Prop) → List Token → Prop :=
  NextPart (r.SpellsType f)

/-- A term, and after it what `Q` says. -/
abbrev NextTerm (r : Reading) (f : TermForm) : (List Token → Prop) → List Token → Prop :=
  NextPart (r.Spells f)

/-- `S` takes at least one token off the front and does not look at the rest. -/
def TakesOff {α : Type} (S : List Token → α → List Token → Prop) : Prop :=
  ∀ ts a rest, S ts a rest →
    ∃ used, ts = used ++ rest ∧ 0 < used.length ∧ ∀ more, S (used ++ more) a more

section Forms

variable {α : Type} {S : List Token → α → List Token → Prop} {P Q R : List Token → Prop}
  {ts us rest : List Token} {a : α}

theorem Spellable.imp (h : Spellable P) (hR : ∀ ts, P ts → R ts) : Spellable R := by
  obtain ⟨w, hw⟩ := h
  exact ⟨w, hw.imp hR⟩

theorem Spellable.append (hP : Spellable P) (hQ : Spellable Q)
    (hR : ∀ ts us, P ts → Q us → R (ts ++ us)) : Spellable R := by
  obtain ⟨w, hw⟩ := hP
  obtain ⟨v, hv⟩ := hQ
  -- a space keeps the two texts apart
  refine ⟨w ++ .char ' ' :: v, hw.append (.space (hv.imp ?_)) fun _ => rfl⟩
  exact fun us hus ts hts => hR ts us hts hus

theorem TakesOff.append_right (hS : TakesOff S) (h : S ts a rest) (more : List Token) :
    S (ts ++ more) a (rest ++ more) := by
  obtain ⟨used, rfl, -, hmore⟩ := hS ts a rest h
  rw [List.append_assoc]
  exact hmore (rest ++ more)

theorem TakesOff.length_lt (hS : TakesOff S) (h : S ts a rest) : rest.length < ts.length := by
  obtain ⟨used, rfl, hpos, -⟩ := hS ts a rest h
  rw [List.length_append]
  omega

theorem TakesOff.not_mem (hS : TakesOff S) (h : S ts a rest) {t : Token} (ht : t ∉ ts) :
    t ∉ rest := by
  obtain ⟨used, rfl, -⟩ := hS ts a rest h
  exact fun hmem => ht (List.mem_append_right _ hmem)

theorem takesOff_spellsType {f : TypeForm} : TakesOff (r.SpellsType f) := by
  rintro _ a rest ⟨used, rfl, hder, hsimple⟩
  exact ⟨used, rfl, hder.length_pos, fun more => ⟨used, rfl, hder, hsimple⟩⟩

theorem takesOff_spells {f : TermForm} : TakesOff (r.Spells f) := by
  rintro _ t rest ⟨used, rfl, hder, hsimple⟩
  exact ⟨used, rfl, hder.1.length_pos, fun more => ⟨used, rfl, hder, hsimple⟩⟩

theorem Next.append {k : TokenKind} (h : Next k Ended ts) (hQ : Q us) : Next k Q (ts ++ us) := by
  obtain ⟨t, _, rfl, ht, rfl⟩ := h
  exact ⟨t, us, rfl, ht, hQ⟩

theorem spellable_next {k : TokenKind} (hk : Spellable (Next k Ended)) (hQ : Spellable Q) :
    Spellable (Next k Q) := hk.append hQ fun _ _ => Next.append

theorem NextPart.append (hS : TakesOff S) (h : NextPart S Ended ts) (hQ : Q us) :
    NextPart S Q (ts ++ us) := by
  obtain ⟨a, _, ha, rfl⟩ := h
  exact ⟨a, us, hS.append_right ha us, hQ⟩

end Forms

theorem spellable_ended : Spellable Ended := ⟨[], .nil rfl⟩

theorem spellable_mark {c : Char} (hc : isMark c = true) : Spellable (Next (markKind c) Ended) :=
  ⟨[.char c], .mark hc (.nil fun m hm => ⟨m, [], rfl, hm, rfl⟩)⟩

theorem spellable_colon : Spellable (Next .colon Ended) := spellable_mark (c := ':') rfl

theorem spellable_star : Spellable (Next .star Ended) := spellable_mark (c := '*') rfl

theorem spellable_dot : Spellable (Next .dot Ended) := spellable_mark (c := '.') rfl

theorem spellable_rightParen : Spellable (Next .rightParen Ended) := spellable_mark (c := ')') rfl

theorem spellable_rightBracket : Spellable (Next .rightBracket Ended) :=
  spellable_mark (c := ']') rfl

theorem spellable_ident : Spellable (Next .ident Ended) :=
  ⟨"x", .variableName rfl fun t ht _ => ⟨t, [], rfl, ht, rfl⟩⟩

theorem spellable_typeVar : Spellable (Next .typeVar Ended) :=
  ⟨"X", .typeVariableName rfl fun t ht _ => ⟨t, [], rfl, ht, rfl⟩⟩

/-- `Int` is a type of either calculus. -/
theorem spellable_type : Spellable (r.NextType .type Ended) :=
  ⟨"Int", .intType fun t ht => ⟨.int, [], ⟨[t], rfl, .ofAtom (.int ht), fun _ => rfl⟩, rfl⟩⟩

/-- A variable is a term of either calculus. -/
theorem spellable_term : Spellable (r.NextTerm .term Ended) := by
  refine spellable_ident.imp ?_
  rintro _ ⟨x, _, rfl, hx, rfl⟩
  exact ⟨_, [], ⟨[x], rfl, (Fitting.var hx).ofAtom.ofApp, fun _ => rfl⟩, rfl⟩

/-! ## Readings that run out -/

/-- The reading fails at the end of the source. -/
def RunsOut (r : Reading) {α : Type} (x : Except ParseError α) : Prop :=
  ∃ e, x = .error e ∧ e.token = r.finish

section RunsOut

variable {α β : Type} {x : Except ParseError α} {f : α → Except ParseError β} {t : Token}

theorem runsOut_bind :
    r.RunsOut (x >>= f) ↔ r.RunsOut x ∨ ∃ a, x = .ok a ∧ r.RunsOut (f a) := by
  constructor
  · rintro ⟨e, herr, he⟩
    rcases bind_eq_error.mp herr with h | ⟨a, ha, h⟩
    · exact .inl ⟨e, h, he⟩
    · exact .inr ⟨a, ha, e, h, he⟩
  · rintro (⟨e, h, he⟩ | ⟨a, ha, e, h, he⟩)
    · exact ⟨e, bind_eq_error.mpr (.inl h), he⟩
    · exact ⟨e, bind_eq_error.mpr (.inr ⟨a, ha, h⟩), he⟩

theorem not_runsOut_ok {a : α} : ¬ r.RunsOut (.ok a : Except ParseError α) := by
  rintro ⟨e, h, -⟩
  cases h

theorem RunsOut.of_bind (h : r.RunsOut (x >>= f)) (hf : ∀ a, ¬ r.RunsOut (f a)) : r.RunsOut x := by
  rcases runsOut_bind.mp h with h | ⟨a, -, h⟩
  · exact h
  · exact absurd h (hf a)

theorem not_runsOut_error {e : ParseError} (he : e.token ≠ r.finish) :
    ¬ r.RunsOut (.error e : Except ParseError α) := by
  rintro ⟨e', h, he'⟩
  obtain rfl := Except.error.inj h
  exact he he'

/-- A construct that is not allowed is no reason to run out. -/
theorem RunsOut.of_allow {k : Construct} (h : r.RunsOut (r.allow k t >>= fun _ => x))
    (ht : t ≠ r.finish) : r.calculus ≠ .simplyTyped ∧ r.RunsOut x := by
  rcases runsOut_bind.mp h with h | ⟨u, hu, h⟩
  · unfold allow at h
    split at h
    · exact absurd h (not_runsOut_error ht)
    · exact absurd h not_runsOut_ok
  · exact ⟨allow_eq_ok.mp hu, h⟩

end RunsOut

/-! ## One reader after another

Each lemma is about a reader and what is read after it.  Of the tokens left for the latter
it says that they are fewer, and that the end of the source is still not among them. -/

section Steps

variable {β : Type} {Q : List Token → Prop} {ts : List Token}

/-- Where a token is missing there is none. -/
theorem eq_nil_of_runsOut_expect {k : TokenKind} (hts : r.finish ∉ ts)
    (h : r.RunsOut (r.expect k ts)) : ts = [] := by
  cases ts with
  | nil => rfl
  | cons t us =>
    have ht : t ≠ r.finish := (List.ne_of_not_mem_cons hts).symm
    rw [expect] at h
    split at h
    · exact absurd h not_runsOut_ok
    · refine absurd h (not_runsOut_error ?_)
      rwa [ParseError.token_unexpected]

/-- A token that is missing, or something that is missing after it. -/
theorem completable_expect {k : TokenKind} {f : Token × List Token → Except ParseError β}
    (hk : Spellable (Next k Ended)) (hQ : Spellable Q) (hts : r.finish ∉ ts)
    (h : r.RunsOut (r.expect k ts >>= f))
    (hf : ∀ t us, us.length < ts.length → r.finish ∉ us → r.RunsOut (f (t, us)) →
      Completable Q us) :
    Completable (Next k Q) ts := by
  rcases runsOut_bind.mp h with h | ⟨⟨t, us⟩, hexpect, hrest⟩
  · obtain rfl := eq_nil_of_runsOut_expect hts h
    exact spellable_next hk hQ
  · obtain ⟨rfl, ht⟩ := expect_eq_ok.mp hexpect
    have hus := List.not_mem_of_not_mem_cons hts
    exact (hf t us (Nat.lt_succ_self _) hus hrest).imp fun vs hvs => ⟨t, us ++ vs, rfl, ht, hvs⟩

/-- A part that is not complete, or something that is missing after it. -/
theorem completable_nextPart {α : Type} {S : List Token → α → List Token → Prop}
    {p : List Token → Except ParseError (α × List Token)}
    {f : α × List Token → Except ParseError β} (hS : TakesOff S)
    (hsound : ∀ a us, p ts = .ok (a, us) → S ts a us) (hQ : Spellable Q) (hts : r.finish ∉ ts)
    (hpart : r.RunsOut (p ts) → Completable (NextPart S Ended) ts) (h : r.RunsOut (p ts >>= f))
    (hf : ∀ a us, us.length < ts.length → r.finish ∉ us → r.RunsOut (f (a, us)) →
      Completable Q us) :
    Completable (NextPart S Q) ts := by
  rcases runsOut_bind.mp h with h | ⟨⟨a, us⟩, ha, hrest⟩
  · refine (hpart h).append hQ fun vs ws hvs hws => ?_
    rw [← List.append_assoc]
    exact hvs.append hS hws
  · have hspells := hsound a us ha
    have hus := hS.not_mem hspells hts
    refine (hf a us (hS.length_lt hspells) hus hrest).imp fun vs hvs => ?_
    exact ⟨a, us ++ vs, hS.append_right hspells vs, hvs⟩

theorem completable_nextType {f : Ty × List Token → Except ParseError β} (hQ : Spellable Q)
    (hts : r.finish ∉ ts)
    (htype : r.RunsOut (r.type ts) → Completable (r.NextType .type Ended) ts)
    (h : r.RunsOut (r.type ts >>= f))
    (hf : ∀ a us, us.length < ts.length → r.finish ∉ us → r.RunsOut (f (a, us)) →
      Completable Q us) :
    Completable (r.NextType .type Q) ts :=
  completable_nextPart takesOff_spellsType (fun _ _ => type_sound) hQ hts htype h hf

theorem completable_nextTerm {f : Term × List Token → Except ParseError β} (hQ : Spellable Q)
    (hts : r.finish ∉ ts)
    (hterm : r.RunsOut (r.term ts) → Completable (r.NextTerm .term Ended) ts)
    (h : r.RunsOut (r.term ts >>= f))
    (hf : ∀ t us, us.length < ts.length → r.finish ∉ us → r.RunsOut (f (t, us)) →
      Completable Q us) :
    Completable (r.NextTerm .term Q) ts :=
  completable_nextPart takesOff_spells (fun _ _ => term_sound) hQ hts hterm h hf

/-- What stands between the mark of a type binder and its body. -/
def BinderThen (Q : List Token → Prop) : List Token → Prop :=
  Next .typeVar (Next .colon (Next .star (Next .dot Q)))

/-- A type binder that is not complete, or something that is missing after it. -/
theorem completable_typeBinder {f : (Text × Kind) × List Token → Except ParseError β}
    (hQ : Spellable Q) (hts : r.finish ∉ ts) (h : r.RunsOut (r.typeBinder ts >>= f))
    (hf : ∀ x us, us.length < ts.length → r.finish ∉ us → r.RunsOut (f (x, us)) →
      Completable Q us) :
    Completable (BinderThen Q) ts := by
  have hdot := spellable_next spellable_dot hQ
  have hstar := spellable_next spellable_star hdot
  have hcolon := spellable_next spellable_colon hstar
  simp only [typeBinder, kind, bind_assoc, pure_bind] at h
  refine completable_expect spellable_typeVar hcolon hts h fun x us hus hmem h => ?_
  refine completable_expect spellable_colon hstar hmem h fun colon vs hvs hmem h => ?_
  refine completable_expect spellable_star hdot hmem h fun star ws hws hmem h => ?_
  refine completable_expect spellable_dot hQ hmem h fun dot zs hzs hmem h => ?_
  exact hf (x.name, .star) zs (by omega) hmem h

end Steps

/-! ## Types -/

/-- Only what stands in parentheses can be missing from an atom. -/
theorem completable_typeAtom {t : Token} {ts : List Token} (hts : r.finish ∉ t :: ts)
    (hinner : r.finish ∉ ts → r.RunsOut (r.type ts) → Completable (r.NextType .type Ended) ts)
    (h : r.RunsOut (r.typeAtom r.type (t :: ts))) :
    Completable (r.NextType .atom Ended) (t :: ts) := by
  have ht : t ≠ r.finish := (List.ne_of_not_mem_cons hts).symm
  have hmem := List.not_mem_of_not_mem_cons hts
  by_cases hint : t.kind = .intType
  · rw [typeAtom_int hint] at h
    exact absurd h not_runsOut_ok
  by_cases hvar : t.kind = .typeVar
  · rw [typeAtom_var hvar] at h
    exact absurd (h.of_allow ht).2 not_runsOut_ok
  by_cases hparen : t.kind = .leftParen
  · rw [typeAtom_paren hparen] at h
    have hinside := completable_nextType spellable_rightParen hmem (hinner hmem) h
      fun a us _ hmem h => completable_expect spellable_rightParen spellable_ended hmem h
        fun _ _ _ _ h => absurd h not_runsOut_ok
    refine hinside.imp ?_
    rintro us ⟨a, _, ha, close, _, rfl, hclose, rfl⟩
    exact ⟨a, [], .paren hparen ha hclose, rfl⟩
  · have hfail : startsTypeAtom t.kind = false := by simp [startsTypeAtom, hint, hvar, hparen]
    rw [typeAtom_fail hfail] at h
    refine absurd h (not_runsOut_error ?_)
    rwa [ParseError.token_unexpected]

/-- After a type that could be a parameter, only a result can be missing. -/
theorem completable_result {start ts : List Token} {param : Ty}
    (hparam : r.SpellsType .atom start param ts) (hts : r.finish ∉ ts)
    (hinner : ∀ us : List Token, us.length < ts.length → r.finish ∉ us → r.RunsOut (r.type us) →
      Completable (r.NextType .type Ended) us)
    (h : r.RunsOut (resultLayer r.type param ts)) :
    Completable (r.NextType .type Ended) start := by
  cases ts with
  | nil => exact absurd h not_runsOut_ok
  | cons u us =>
    by_cases hu : u.kind = .arrow
    · rw [resultLayer_arrow hu] at h
      have hresult := h.of_bind fun _ => not_runsOut_ok
      have hmem := List.not_mem_of_not_mem_cons hts
      refine (hinner us (Nat.lt_succ_self _) hmem hresult).imp ?_
      rintro vs ⟨result, _, hresult, rfl⟩
      have hparam := takesOff_spellsType.append_right hparam vs
      exact ⟨_, [], .arrow hparam hu hresult, rfl⟩
    · rw [resultLayer_stop hu] at h
      exact absurd h not_runsOut_ok

/-- **Types are completed.** -/
theorem completable_type {ts : List Token} (hts : r.finish ∉ ts) (h : r.RunsOut (r.type ts)) :
    Completable (r.NextType .type Ended) ts := by
  induction hn : ts.length using Nat.strongRecOn generalizing ts with
  | ind n ih =>
    have hinner : ∀ us : List Token, us.length < ts.length → r.finish ∉ us →
        r.RunsOut (r.type us) → Completable (r.NextType .type Ended) us :=
      fun us hus hmem h => ih us.length (hn ▸ hus) hmem h rfl
    rw [type_eq] at h
    cases ts with
    | nil => exact spellable_type
    | cons t ts =>
      have ht : t ≠ r.finish := (List.ne_of_not_mem_cons hts).symm
      have hmem := List.not_mem_of_not_mem_cons hts
      by_cases hall : t.kind = .forAll
      · rw [typeLayer_all hall] at h
        obtain ⟨hcalc, h⟩ := h.of_allow ht
        have hbinder := completable_typeBinder spellable_type hmem h fun x us hus hmem h =>
          hinner us (Nat.lt_succ_of_lt hus) hmem (h.of_bind fun _ => not_runsOut_ok)
        refine hbinder.imp ?_
        rintro us ⟨x, _, heq, hx, colon, _, rfl, hc, star, _, rfl, hs, dot, _, rfl, hd,
          a, _, ha, rfl⟩
        rw [List.cons_append, heq]
        exact ⟨_, [], .all hall hx hc hs hd hcalc ha, rfl⟩
      · rw [typeLayer_atom hall] at h
        rcases runsOut_bind.mp h with h | ⟨⟨param, us⟩, hparam, h⟩
        · refine (completable_typeAtom hts (hinner ts (Nat.lt_succ_self _)) h).imp ?_
          rintro us ⟨a, _, ha, rfl⟩
          exact ⟨a, [], .ofAtom ha, rfl⟩
        · have hspells := typeAtom_sound (fun _ _ _ => type_sound) hparam
          exact completable_result hspells (takesOff_spellsType.not_mem hspells hts)
            (fun vs hvs => hinner vs (Nat.lt_trans hvs hspells.length_lt)) h

/-! ## Terms -/

/-- Only what stands in parentheses can be missing from an atom. -/
theorem completable_atom {t : Token} {ts : List Token} (hts : r.finish ∉ t :: ts)
    (hinner : r.finish ∉ ts → r.RunsOut (r.term ts) → Completable (r.NextTerm .term Ended) ts)
    (h : r.RunsOut (r.atom r.term (t :: ts))) :
    Completable (r.NextTerm .atom Ended) (t :: ts) := by
  have ht : t ≠ r.finish := (List.ne_of_not_mem_cons hts).symm
  have hmem := List.not_mem_of_not_mem_cons hts
  by_cases hint : t.kind = .int
  · cases hn : int32OfLiteral? t.text with
    | some n =>
      rw [atom_int hint hn] at h
      exact absurd h not_runsOut_ok
    | none =>
      rw [atom_tooLarge hint hn] at h
      exact absurd h (not_runsOut_error ht)
  by_cases hvar : t.kind = .ident
  · rw [atom_var hvar] at h
    exact absurd h not_runsOut_ok
  by_cases hparen : t.kind = .leftParen
  · rw [atom_paren hparen] at h
    have hinside := completable_nextTerm spellable_rightParen hmem (hinner hmem) h
      fun a us _ hmem h => completable_expect spellable_rightParen spellable_ended hmem h
        fun _ _ _ _ h => absurd h not_runsOut_ok
    refine hinside.imp ?_
    rintro us ⟨a, _, ha, close, _, rfl, hclose, rfl⟩
    exact ⟨a, [], .paren hparen ha hclose, rfl⟩
  · have hfail : startsAtom t.kind = false := by simp [startsAtom, hint, hvar, hparen]
    rw [atom_fail hfail] at h
    refine absurd h (not_runsOut_error ?_)
    rwa [ParseError.token_unexpected]

/-- On fewer than `n` tokens, terms and applications whose reading runs out can be
completed.  An application has been read from `start` up to the tokens ahead. -/
def TermCompletable (r : Reading) (n : Nat) : Prop :=
  (∀ ts : List Token, ts.length < n → r.finish ∉ ts → r.RunsOut (r.term ts) →
    Completable (r.NextTerm .term Ended) ts) ∧
  (∀ start fn (ts : List Token), ts.length < n → r.finish ∉ ts → r.Spells .app start fn ts →
    r.RunsOut (r.spine fn ts) → Completable (r.NextTerm .app Ended) start)

theorem completable_abs {t : Token} {ts : List Token} (ht : t.kind = .lambda)
    (hts : r.finish ∉ ts) (hterm : r.TermCompletable (ts.length + 1))
    (h : r.RunsOut (r.termLayer r.term r.spine (t :: ts))) :
    Completable (r.NextTerm .term Ended) (t :: ts) := by
  rw [termLayer_abs ht] at h
  have hbody := spellable_term (r := r)
  have hdot := spellable_next spellable_dot hbody
  have htype := (spellable_type (r := r)).append hdot
    fun _ _ => NextPart.append takesOff_spellsType
  have hcolon := spellable_next spellable_colon htype
  have hrest : Completable (Next .ident (Next .colon (r.NextType .type (Next .dot
      (r.NextTerm .term Ended))))) ts := by
    refine completable_expect spellable_ident hcolon hts h fun x us hus hmem h => ?_
    refine completable_expect spellable_colon htype hmem h fun colon vs hvs hmem h => ?_
    refine completable_nextType hdot hmem (completable_type hmem) h fun a ws hws hmem h => ?_
    refine completable_expect spellable_dot hbody hmem h fun dot zs hzs hmem h => ?_
    exact hterm.1 zs (by omega) hmem (h.of_bind fun _ => not_runsOut_ok)
  refine hrest.imp ?_
  rintro us ⟨x, _, heq, hx, colon, _, rfl, hc, a, _, ha, dot, _, rfl, hd, b, _, hb, rfl⟩
  rw [List.cons_append, heq]
  exact ⟨_, [], .abs ht hx hc ha hd hb, rfl⟩

theorem completable_tabs {t : Token} {ts : List Token} (ht : t.kind = .bigLambda)
    (hts : r.finish ∉ t :: ts) (hterm : r.TermCompletable (ts.length + 1))
    (h : r.RunsOut (r.termLayer r.term r.spine (t :: ts))) :
    Completable (r.NextTerm .term Ended) (t :: ts) := by
  rw [termLayer_tabs ht] at h
  obtain ⟨hcalc, h⟩ := h.of_allow (List.ne_of_not_mem_cons hts).symm
  have hmem := List.not_mem_of_not_mem_cons hts
  have hbinder := completable_typeBinder spellable_term hmem h fun x us hus hmem h =>
    hterm.1 us (Nat.lt_succ_of_lt hus) hmem (h.of_bind fun _ => not_runsOut_ok)
  refine hbinder.imp ?_
  rintro us ⟨x, _, heq, hx, colon, _, rfl, hc, star, _, rfl, hs, dot, _, rfl, hd, b, _, hb, rfl⟩
  rw [List.cons_append, heq]
  exact ⟨_, [], .tabs ht hx hc hs hd hcalc hb, rfl⟩

theorem completable_termLayer {ts : List Token} (hts : r.finish ∉ ts)
    (hterm : r.TermCompletable ts.length)
    (h : r.RunsOut (r.termLayer r.term r.spine ts)) :
    Completable (r.NextTerm .term Ended) ts := by
  cases ts with
  | nil => exact spellable_term
  | cons t ts =>
    have hmem := List.not_mem_of_not_mem_cons hts
    by_cases hlambda : t.kind = .lambda
    · exact completable_abs hlambda hmem hterm h
    by_cases hbigLambda : t.kind = .bigLambda
    · exact completable_tabs hbigLambda hts hterm h
    · rw [termLayer_app hlambda hbigLambda] at h
      rcases runsOut_bind.mp h with h | ⟨⟨fn, us⟩, hfn, h⟩
      · refine (completable_atom hts (hterm.1 ts (Nat.lt_succ_self _)) h).imp ?_
        rintro us ⟨a, _, ha, rfl⟩
        exact ⟨a, [], ha.ofAtom.ofApp, rfl⟩
      · have hspells := atom_sound (fun _ _ _ => term_sound) hfn
        have hmem' := takesOff_spells.not_mem hspells hts
        have hspine := hterm.2 _ fn us hspells.length_lt hmem' hspells.ofAtom h
        refine hspine.imp ?_
        rintro us ⟨a, _, ha, rfl⟩
        exact ⟨a, [], ha.ofApp, rfl⟩

theorem completable_spineLayer {start ts : List Token} {fn : Term} (hts : r.finish ∉ ts)
    (hfn : r.Spells .app start fn ts) (hterm : r.TermCompletable ts.length)
    (h : r.RunsOut (r.spineLayer r.term r.spine fn ts)) :
    Completable (r.NextTerm .app Ended) start := by
  cases ts with
  | nil => exact absurd h not_runsOut_ok
  | cons t ts =>
    have ht : t ≠ r.finish := (List.ne_of_not_mem_cons hts).symm
    have hmem := List.not_mem_of_not_mem_cons hts
    by_cases hbracket : t.kind = .leftBracket
    · rw [spineLayer_tapp hbracket] at h
      obtain ⟨hcalc, h⟩ := h.of_allow ht
      have hclosed : Completable (r.NextType .type (Next .rightBracket Ended)) ts →
          Completable (r.NextTerm .app Ended) start := by
        intro hargument
        refine hargument.imp ?_
        rintro us ⟨a, _, ha, close, _, rfl, hclose, rfl⟩
        have hfn := takesOff_spells.append_right hfn us
        exact ⟨_, [], .tapp hfn hbracket hcalc ha hclose, rfl⟩
      rcases runsOut_bind.mp h with h | ⟨⟨a, us⟩, ha, h⟩
      · refine hclosed ((completable_type hmem h).append spellable_rightBracket ?_)
        intro vs ws hvs hws
        rw [← List.append_assoc]
        exact hvs.append takesOff_spellsType hws
      · have htype := type_sound ha
        have hmem' := takesOff_spellsType.not_mem htype hmem
        rcases runsOut_bind.mp h with h | ⟨⟨close, vs⟩, hexpect, hspine⟩
        · obtain rfl := eq_nil_of_runsOut_expect hmem' h
          refine hclosed (spellable_rightBracket.imp fun ws hws => ?_)
          exact ⟨a, ws, takesOff_spellsType.append_right htype ws, hws⟩
        · obtain ⟨rfl, hclose⟩ := expect_eq_ok.mp hexpect
          have hlt := htype.length_lt
          simp only [List.length_cons] at hlt
          have happ := hfn.tapp hbracket hcalc htype hclose
          exact hterm.2 start _ vs (by rw [List.length_cons]; omega)
            (List.not_mem_of_not_mem_cons hmem') happ hspine
    by_cases hstart : startsAtom t.kind = true
    · rw [spineLayer_app hstart] at h
      rcases runsOut_bind.mp h with h | ⟨⟨arg, us⟩, harg, h⟩
      · refine (completable_atom hts (hterm.1 ts (Nat.lt_succ_self _)) h).imp ?_
        rintro us ⟨a, _, ha, rfl⟩
        exact ⟨_, [], .app (takesOff_spells.append_right hfn us) ha, rfl⟩
      · have hspells := atom_sound (fun _ _ _ => term_sound) harg
        have hmem' := takesOff_spells.not_mem hspells hts
        exact hterm.2 start _ us hspells.length_lt hmem' (.app hfn hspells) h
    · have hstop : continuesTerm t.kind = false := by simp [continuesTerm, hbracket, hstart]
      rw [spineLayer_stop hstop] at h
      exact absurd h not_runsOut_ok

theorem termCompletable (n : Nat) : r.TermCompletable n := by
  induction n with
  | zero =>
    constructor
    · intro ts hts
      omega
    · intro start fn ts hts
      omega
  | succ n ih =>
    have hbelow : ∀ ts : List Token, ts.length < n + 1 → r.TermCompletable ts.length := by
      intro ts hts
      exact ⟨fun us hus => ih.1 us (by omega), fun start fn us hus => ih.2 start fn us (by omega)⟩
    constructor
    · intro ts hts hmem h
      rw [term_eq] at h
      exact completable_termLayer hmem (hbelow ts hts) h
    · intro start fn ts hts hmem hfn h
      rw [spine_eq] at h
      exact completable_spineLayer hmem hfn (hbelow ts hts) h

/-- **Terms are completed.** -/
theorem completable_term {ts : List Token} (hts : r.finish ∉ ts) (h : r.RunsOut (r.term ts)) :
    Completable (r.NextTerm .term Ended) ts :=
  (termCompletable (ts.length + 1)).1 ts (Nat.lt_succ_self _) hts h

end Reading
end PolyLambda
