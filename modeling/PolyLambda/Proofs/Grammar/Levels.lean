import PolyLambda.Proofs.Grammar.Reading

/-!
# Levels are never short

The recursive readers count levels, so that their recursion ends.  A **layer** is what a
reader does before it goes a level down, with the readers of the level below as arguments
(`typeLayer`, `termLayer`, `spineLayer`).  Every call of a layer is on fewer tokens than
the layer was given.  So a reader with more levels than tokens reads the same whatever
the number of its levels is, and the readers satisfy the equations of a recursive descent
without levels (`type_eq`, `term_eq`, `spine_eq`).  What is proved about reading after
this is proved from these equations, by induction on the number of tokens.
-/

namespace PolyLambda

open Grammar

theorem Grammar.DerivesType.length_pos {f : TypeForm} {ts : List Token} {a : Ty}
    (h : DerivesType f ts a) : 0 < ts.length := by
  induction h with
  | all | int | var | paren => exact Nat.succ_pos _
  | arrow _ _ _ ihp _ => rw [List.length_append]; omega
  | ofAtom _ ih => exact ih

theorem Grammar.Derives.length_pos {f : TermForm} {ts : List Token} {t : Term}
    (h : Derives f ts t) : 0 < ts.length := by
  induction h with
  | abs | tabs | int | var | paren => exact Nat.succ_pos _
  | app _ _ ihf _ => rw [List.length_append]; omega
  | tapp _ _ _ _ ihf => rw [List.length_append]; omega
  | ofApp _ ih | ofAtom _ ih => exact ih

namespace Reading

variable {r : Reading}

theorem length_lt_of_expect {k : TokenKind} {ts rest : List Token} {t : Token}
    (h : r.expect k ts = .ok (t, rest)) : rest.length < ts.length := by
  obtain ⟨rfl, -⟩ := expect_eq_ok.mp h
  exact Nat.lt_succ_self _

theorem length_lt_of_typeBinder {ts rest : List Token} {x : Text} {k : Kind}
    (h : r.typeBinder ts = .ok ((x, k), rest)) : rest.length < ts.length := by
  obtain ⟨x, colon, star, dot, rfl, -⟩ := typeBinder_eq_ok.mp h
  simp only [List.length_cons]
  omega

theorem SpellsType.length_lt {f : TypeForm} {ts rest : List Token} {a : Ty}
    (h : r.SpellsType f ts a rest) : rest.length < ts.length := by
  obtain ⟨used, rfl, hder, -⟩ := h
  have hpos := hder.length_pos
  rw [List.length_append]
  omega

theorem Spells.length_lt {f : TermForm} {ts rest : List Token} {t : Term}
    (h : r.Spells f ts t rest) : rest.length < ts.length := by
  obtain ⟨used, rfl, hder, -⟩ := h
  have hpos := hder.1.length_pos
  rw [List.length_append]
  omega

/-! ## Types -/

/-- Reads what follows `param`: an arrow and a result, or nothing of the type. -/
def resultLayer (inner : List Token → Except ParseError (Ty × List Token)) (param : Ty) :
    List Token → Except ParseError (Ty × List Token)
  | [] => return (param, [])
  | u :: rest =>
    if u.kind = .arrow then do
      let (result, rest) ← inner rest
      return (.arrow param result, rest)
    else return (param, u :: rest)

/-- One level of reading a type; `inner` reads the types below. -/
def typeLayer (r : Reading) (inner : List Token → Except ParseError (Ty × List Token)) :
    List Token → Except ParseError (Ty × List Token)
  | [] => r.fail .expectedType []
  | t :: rest =>
    if t.kind = .forAll then do
      r.allow .universalType t
      let ((x, k), rest) ← r.typeBinder rest
      let (body, rest) ← inner rest
      return (.all x k body, rest)
    else do
      let (param, rest) ← r.typeAtom inner (t :: rest)
      resultLayer inner param rest

theorem typeWithin_succ (n : Nat) (ts : List Token) :
    r.typeWithin (n + 1) ts = r.typeLayer (r.typeWithin n) ts := by
  cases ts with
  | nil => rfl
  | cons t rest => rfl

theorem typeAtom_congr {inner inner' : List Token → Except ParseError (Ty × List Token)} {t : Token}
    {ts : List Token} (h : inner ts = inner' ts) :
    r.typeAtom inner (t :: ts) = r.typeAtom inner' (t :: ts) := by
  rw [typeAtom, typeAtom, h]

theorem typeLayer_congr {inner inner' : List Token → Except ParseError (Ty × List Token)}
    {ts : List Token}
    (hsound : ∀ us a rest, inner us = .ok (a, rest) → r.SpellsType .type us a rest)
    (h : ∀ us : List Token, us.length < ts.length → inner us = inner' us) :
    r.typeLayer inner ts = r.typeLayer inner' ts := by
  cases ts with
  | nil => rfl
  | cons t rest =>
    rw [typeLayer, typeLayer]
    split
    · refine bind_congr_ok fun _ _ => bind_congr_ok fun ⟨⟨x, k⟩, us⟩ hbinder => ?_
      have hlt := length_lt_of_typeBinder hbinder
      simp only [h us (Nat.lt_succ_of_lt hlt)]
    · rw [← typeAtom_congr (h rest (Nat.lt_succ_self _))]
      refine bind_congr_ok fun ⟨p, us⟩ hp => ?_
      have hlt := (typeAtom_sound hsound hp).length_lt
      cases us with
      | nil => rfl
      | cons u us => simp only [resultLayer, h us (Nat.lt_of_succ_lt hlt)]

theorem typeWithin_congr {n m : Nat} {ts : List Token} (hn : ts.length < n) (hm : ts.length < m) :
    r.typeWithin n ts = r.typeWithin m ts := by
  induction n generalizing m ts with
  | zero => omega
  | succ n ih =>
    obtain ⟨m, rfl⟩ : ∃ k, m = k + 1 := ⟨m - 1, by omega⟩
    rw [typeWithin_succ, typeWithin_succ]
    refine typeLayer_congr (fun _ _ _ => typeWithin_sound) fun us hus => ?_
    exact ih (by omega) (by omega)

/-- Reading a type, without levels. -/
theorem type_eq (ts : List Token) : r.type ts = r.typeLayer r.type ts := by
  rw [type, typeWithin_succ]
  refine typeLayer_congr (fun _ _ _ => typeWithin_sound) fun us hus => ?_
  exact typeWithin_congr hus (Nat.lt_succ_self _)

/-! ## Terms -/

/-- Reads the arguments that `fn` is applied to, if any. -/
def spine (r : Reading) (fn : Term) (ts : List Token) : Except ParseError (Term × List Token) :=
  r.spineWithin (ts.length + 1) fn ts

/-- One level of reading a term; `inner` reads the terms below, and `loop` the arguments of
an application. -/
def termLayer (r : Reading) (inner : List Token → Except ParseError (Term × List Token))
    (loop : Term → List Token → Except ParseError (Term × List Token)) :
    List Token → Except ParseError (Term × List Token)
  | [] => r.fail .expectedTerm []
  | t :: rest =>
    if t.kind = .lambda then do
      let (x, rest) ← r.expect .ident rest
      let (_, rest) ← r.expect .colon rest
      let (a, rest) ← r.type rest
      let (_, rest) ← r.expect .dot rest
      let (body, rest) ← inner rest
      return (.abs (t.range.between body.range) x.name a body, rest)
    else if t.kind = .bigLambda then do
      r.allow .typeAbstraction t
      let ((x, k), rest) ← r.typeBinder rest
      let (body, rest) ← inner rest
      return (.tabs (t.range.between body.range) x k body, rest)
    else do
      let (fn, rest) ← r.atom inner (t :: rest)
      loop fn rest

/-- One turn of the loop over arguments. -/
def spineLayer (r : Reading) (inner : List Token → Except ParseError (Term × List Token))
    (loop : Term → List Token → Except ParseError (Term × List Token)) (fn : Term) :
    List Token → Except ParseError (Term × List Token)
  | [] => .ok (fn, [])
  | t :: rest =>
    if t.kind = .leftBracket then do
      r.allow .typeApplication t
      let (a, rest) ← r.type rest
      let (close, rest) ← r.expect .rightBracket rest
      loop (.tapp (fn.range.between close.range) fn a) rest
    else if startsAtom t.kind then do
      let (arg, rest) ← r.atom inner (t :: rest)
      loop (.app (fn.range.between arg.range) fn arg) rest
    else .ok (fn, t :: rest)

theorem termWithin_succ (n : Nat) (ts : List Token) :
    r.termWithin (n + 1) ts = r.termLayer (r.termWithin n) (r.spineWithin n) ts := by
  cases ts with
  | nil => rfl
  | cons t rest => rfl

theorem spineWithin_succ (n : Nat) (fn : Term) (ts : List Token) :
    r.spineWithin (n + 1) fn ts = r.spineLayer (r.termWithin n) (r.spineWithin n) fn ts := by
  cases ts with
  | nil => rfl
  | cons t rest => rfl

section Congruence

variable {inner inner' : List Token → Except ParseError (Term × List Token)}
  {loop loop' : Term → List Token → Except ParseError (Term × List Token)}

theorem atom_congr {t : Token} {ts : List Token} (h : inner ts = inner' ts) :
    r.atom inner (t :: ts) = r.atom inner' (t :: ts) := by
  rw [atom, atom, h]

theorem termLayer_congr {ts : List Token}
    (hsound : ∀ us t rest, inner us = .ok (t, rest) → r.Spells .term us t rest)
    (hinner : ∀ us : List Token, us.length < ts.length → inner us = inner' us)
    (hloop : ∀ fn (us : List Token), us.length < ts.length → loop fn us = loop' fn us) :
    r.termLayer inner loop ts = r.termLayer inner' loop' ts := by
  cases ts with
  | nil => rfl
  | cons t rest =>
    rw [termLayer, termLayer]
    split
    · refine bind_congr_ok fun ⟨x, us⟩ hx => bind_congr_ok fun ⟨colon, vs⟩ hcolon => ?_
      refine bind_congr_ok fun ⟨a, ws⟩ ha => bind_congr_ok fun ⟨dot, zs⟩ hdot => ?_
      have hus := length_lt_of_expect hx
      have hvs := length_lt_of_expect hcolon
      have hws := (type_sound ha).length_lt
      have hzs := length_lt_of_expect hdot
      have hlt : zs.length < (t :: rest).length := by
        rw [List.length_cons]
        omega
      simp only [hinner zs hlt]
    · split
      · refine bind_congr_ok fun _ _ => bind_congr_ok fun ⟨⟨x, k⟩, us⟩ hbinder => ?_
        have hlt := length_lt_of_typeBinder hbinder
        simp only [hinner us (Nat.lt_succ_of_lt hlt)]
      · rw [← atom_congr (hinner rest (Nat.lt_succ_self _))]
        refine bind_congr_ok fun ⟨fn, us⟩ hfn => ?_
        exact hloop fn us (atom_sound hsound hfn).length_lt

theorem spineLayer_congr {fn : Term} {ts : List Token}
    (hsound : ∀ us t rest, inner us = .ok (t, rest) → r.Spells .term us t rest)
    (hinner : ∀ us : List Token, us.length < ts.length → inner us = inner' us)
    (hloop : ∀ fn (us : List Token), us.length < ts.length → loop fn us = loop' fn us) :
    r.spineLayer inner loop fn ts = r.spineLayer inner' loop' fn ts := by
  cases ts with
  | nil => rfl
  | cons t rest =>
    rw [spineLayer, spineLayer]
    split
    · refine bind_congr_ok fun _ _ => bind_congr_ok fun ⟨a, us⟩ ha => ?_
      refine bind_congr_ok fun ⟨close, vs⟩ hclose => ?_
      have hus := (type_sound ha).length_lt
      have hvs := length_lt_of_expect hclose
      exact hloop _ vs (by rw [List.length_cons]; omega)
    · split
      · rw [← atom_congr (hinner rest (Nat.lt_succ_self _))]
        refine bind_congr_ok fun ⟨arg, us⟩ harg => ?_
        exact hloop _ us (atom_sound hsound harg).length_lt
      · rfl

end Congruence

/-- With more levels than tokens, reading a term and reading arguments do not depend on the
number of levels. -/
def TermSettled (r : Reading) (n : Nat) : Prop :=
  (∀ m (ts : List Token), ts.length < n → ts.length < m →
    r.termWithin n ts = r.termWithin m ts) ∧
  (∀ m fn (ts : List Token), ts.length < n → ts.length < m →
    r.spineWithin n fn ts = r.spineWithin m fn ts)

theorem termSettled (n : Nat) : r.TermSettled n := by
  induction n with
  | zero =>
    constructor
    · intro m ts hn
      omega
    · intro m fn ts hn
      omega
  | succ n ih =>
    have hsound := (termSound_and_spineSound (r := r) n).1
    constructor
    · intro m ts hn hm
      obtain ⟨m, rfl⟩ : ∃ k, m = k + 1 := ⟨m - 1, by omega⟩
      rw [termWithin_succ, termWithin_succ]
      exact termLayer_congr hsound (fun us hus => ih.1 m us (by omega) (by omega))
        fun fn us hus => ih.2 m fn us (by omega) (by omega)
    · intro m fn ts hn hm
      obtain ⟨m, rfl⟩ : ∃ k, m = k + 1 := ⟨m - 1, by omega⟩
      rw [spineWithin_succ, spineWithin_succ]
      exact spineLayer_congr hsound (fun us hus => ih.1 m us (by omega) (by omega))
        fun fn us hus => ih.2 m fn us (by omega) (by omega)

/-- Reading a term, without levels. -/
theorem term_eq (ts : List Token) : r.term ts = r.termLayer r.term r.spine ts := by
  rw [term, termWithin_succ]
  refine termLayer_congr (termSound_and_spineSound _).1 (fun us hus => ?_) fun fn us hus => ?_
  · exact (termSettled _).1 _ us hus (Nat.lt_succ_self _)
  · exact (termSettled _).2 _ fn us hus (Nat.lt_succ_self _)

/-- Reading arguments, without levels. -/
theorem spine_eq (fn : Term) (ts : List Token) :
    r.spine fn ts = r.spineLayer r.term r.spine fn ts := by
  rw [spine, spineWithin_succ]
  refine spineLayer_congr (termSound_and_spineSound _).1 (fun us hus => ?_) fun fn us hus => ?_
  · exact (termSettled _).1 _ us hus (Nat.lt_succ_self _)
  · exact (termSettled _).2 _ fn us hus (Nat.lt_succ_self _)

/-! ## One case for each first token -/

section Types

variable {inner : List Token → Except ParseError (Ty × List Token)} {t : Token} {ts : List Token}

theorem typeAtom_int (ht : t.kind = .intType) : r.typeAtom inner (t :: ts) = .ok (.int, ts) := by
  simp only [typeAtom, ht]

theorem typeAtom_var (ht : t.kind = .typeVar) :
    r.typeAtom inner (t :: ts) = r.allow .typeVariable t >>= fun _ => .ok (.var t.name, ts) := by
  simp only [typeAtom, ht]
  rfl

theorem typeAtom_paren (ht : t.kind = .leftParen) :
    r.typeAtom inner (t :: ts) =
      inner ts >>= fun (a, us) => r.expect .rightParen us >>= fun (_, vs) => .ok (a, vs) := by
  simp only [typeAtom, ht]
  rfl

theorem typeAtom_fail (ht : startsTypeAtom t.kind = false) :
    r.typeAtom inner (t :: ts) = .error (.unexpected .expectedType t) := by
  rw [typeAtom]
  split
  · next hk => rw [hk] at ht; cases ht
  · next hk => rw [hk] at ht; cases ht
  · next hk => rw [hk] at ht; cases ht
  · rfl

theorem resultLayer_arrow {param : Ty} (ht : t.kind = .arrow) :
    resultLayer inner param (t :: ts) =
      inner ts >>= fun (result, us) => .ok (.arrow param result, us) := by
  rw [resultLayer, if_pos ht]
  rfl

theorem resultLayer_stop {param : Ty} (ht : t.kind ≠ .arrow) :
    resultLayer inner param (t :: ts) = .ok (param, t :: ts) := by
  rw [resultLayer, if_neg ht]
  rfl

theorem typeLayer_all (ht : t.kind = .forAll) :
    r.typeLayer inner (t :: ts) = r.allow .universalType t >>= fun _ =>
      r.typeBinder ts >>= fun ((x, k), us) => inner us >>= fun (b, vs) => .ok (.all x k b, vs) := by
  rw [typeLayer, if_pos ht]
  rfl

theorem typeLayer_atom (ht : t.kind ≠ .forAll) :
    r.typeLayer inner (t :: ts) =
      r.typeAtom inner (t :: ts) >>= fun (param, us) => resultLayer inner param us := by
  rw [typeLayer, if_neg ht]

end Types

section Terms

variable {inner : List Token → Except ParseError (Term × List Token)}
  {loop : Term → List Token → Except ParseError (Term × List Token)}
  {fn : Term} {t : Token} {ts : List Token}

theorem atom_int {n : Int32} (ht : t.kind = .int) (hn : int32OfLiteral? t.text = some n) :
    r.atom inner (t :: ts) = .ok (.int t.range n, ts) := by
  simp only [atom, ht, hn]

theorem atom_tooLarge (ht : t.kind = .int) (hn : int32OfLiteral? t.text = none) :
    r.atom inner (t :: ts) = .error ⟨.tooLarge, t⟩ := by
  simp only [atom, ht, hn]

theorem atom_var (ht : t.kind = .ident) :
    r.atom inner (t :: ts) = .ok (.var t.range t.name, ts) := by
  simp only [atom, ht]

theorem atom_paren (ht : t.kind = .leftParen) :
    r.atom inner (t :: ts) =
      inner ts >>= fun (a, us) => r.expect .rightParen us >>= fun (_, vs) => .ok (a, vs) := by
  simp only [atom, ht]
  rfl

theorem atom_fail (ht : startsAtom t.kind = false) :
    r.atom inner (t :: ts) = .error (.unexpected .expectedTerm t) := by
  rw [atom]
  split
  · next hk => rw [hk] at ht; cases ht
  · next hk => rw [hk] at ht; cases ht
  · next hk => rw [hk] at ht; cases ht
  · rfl

theorem termLayer_abs (ht : t.kind = .lambda) :
    r.termLayer inner loop (t :: ts) =
      r.expect .ident ts >>= fun (x, us) => r.expect .colon us >>= fun (_, vs) =>
        r.type vs >>= fun (a, ws) => r.expect .dot ws >>= fun (_, zs) =>
          inner zs >>= fun (b, rest) =>
            .ok (.abs (t.range.between b.range) x.name a b, rest) := by
  rw [termLayer, if_pos ht]
  rfl

theorem termLayer_tabs (ht : t.kind = .bigLambda) :
    r.termLayer inner loop (t :: ts) = r.allow .typeAbstraction t >>= fun _ =>
      r.typeBinder ts >>= fun ((x, k), us) => inner us >>= fun (b, vs) =>
        .ok (.tabs (t.range.between b.range) x k b, vs) := by
  have hne : t.kind ≠ .lambda := by
    rw [ht]
    exact nofun
  rw [termLayer, if_neg hne, if_pos ht]
  rfl

theorem termLayer_app (hlambda : t.kind ≠ .lambda) (hbigLambda : t.kind ≠ .bigLambda) :
    r.termLayer inner loop (t :: ts) =
      r.atom inner (t :: ts) >>= fun (fn, us) => loop fn us := by
  rw [termLayer, if_neg hlambda, if_neg hbigLambda]

theorem spineLayer_tapp (ht : t.kind = .leftBracket) :
    r.spineLayer inner loop fn (t :: ts) = r.allow .typeApplication t >>= fun _ =>
      r.type ts >>= fun (a, us) => r.expect .rightBracket us >>= fun (close, vs) =>
        loop (.tapp (fn.range.between close.range) fn a) vs := by
  rw [spineLayer, if_pos ht]

theorem spineLayer_app (ht : startsAtom t.kind = true) :
    r.spineLayer inner loop fn (t :: ts) = r.atom inner (t :: ts) >>= fun (arg, us) =>
      loop (.app (fn.range.between arg.range) fn arg) us := by
  have hne : t.kind ≠ .leftBracket := by
    intro h
    rw [h] at ht
    cases ht
  rw [spineLayer, if_neg hne, if_pos ht]

theorem spineLayer_stop (ht : continuesTerm t.kind = false) :
    r.spineLayer inner loop fn (t :: ts) = .ok (fn, t :: ts) := by
  rw [continuesTerm, Bool.or_eq_false_iff] at ht
  rw [spineLayer, if_neg (of_decide_eq_false ht.1), ht.2]
  rfl

end Terms

end Reading
end PolyLambda
