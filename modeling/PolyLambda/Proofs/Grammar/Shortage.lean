import PolyLambda.Proofs.Grammar.Levels

/-!
# Readers that give up

Out of levels, the readers of types and terms answer with an error, and the reader of
arguments with the term it has.  Neither tells a shortage of levels from an answer about the
source.  The readers of this module do the same as those, but they **give up** where a level is
missing: their outcomes are an `Option`, and giving up is `none`.

No reader gives up that has more levels than tokens (`Reading.settles_typeWithin?`,
`Reading.neverShort`), because each takes a token before it goes a level down.
-/

namespace PolyLambda

open Grammar

/-- Outcomes of readers that may give up. -/
abbrev Guarded (α : Type) := ExceptT ParseError Option α

namespace Reading

section Definitions

variable (r : Reading)

/-! ## Types -/

/-- `typeAtom`, for an `inner` that may give up. -/
def typeAtom? (inner : List Token → Guarded (Ty × List Token)) :
    List Token → Guarded (Ty × List Token)
  | [] => liftM (r.fail .expectedType [])
  | t :: ts =>
    match t.kind with
    | .intType => return (.int, ts)
    | .typeVar => do
      r.allow .typeVariable t
      return (.var t.name, ts)
    | .leftParen => do
      let (a, ts) ← inner ts
      let (_, ts) ← r.expect .rightParen ts
      return (a, ts)
    | _ => liftM (r.fail .expectedType (t :: ts))

/-- `typeWithin`, giving up where a level is missing. -/
def typeWithin? : Nat → List Token → Guarded (Ty × List Token)
  | 0, _ => .mk none
  | n + 1, ts =>
    match ts with
    | [] => liftM (r.fail .expectedType [])
    | t :: rest =>
      if t.kind = .forAll then do
        r.allow .universalType t
        let ((x, k), rest) ← r.typeBinder rest
        let (body, rest) ← typeWithin? n rest
        return (.all x k body, rest)
      else do
        let (param, rest) ← r.typeAtom? (typeWithin? n) (t :: rest)
        match rest with
        | [] => return (param, [])
        | u :: rest =>
          if u.kind = .arrow then do
            let (result, rest) ← typeWithin? n rest
            return (.arrow param result, rest)
          else return (param, u :: rest)

/-- `type`, giving up where a level is missing. -/
def type? (ts : List Token) : Guarded (Ty × List Token) := r.typeWithin? (ts.length + 1) ts

/-! ## Terms -/

/-- `atom`, for an `inner` that may give up. -/
def atom? (inner : List Token → Guarded (Term × List Token)) :
    List Token → Guarded (Term × List Token)
  | [] => liftM (r.fail .expectedTerm [])
  | t :: ts =>
    match t.kind with
    | .int =>
      match int32OfLiteral? t.text with
      | some n => return (.int t.range n, ts)
      | none => throw ⟨.tooLarge, t⟩
    | .ident => return (.var t.range t.name, ts)
    | .leftParen => do
      let (a, ts) ← inner ts
      let (_, ts) ← r.expect .rightParen ts
      return (a, ts)
    | _ => liftM (r.fail .expectedTerm (t :: ts))

mutual

/-- `termWithin`, giving up where a level is missing. -/
def termWithin? : Nat → List Token → Guarded (Term × List Token)
  | 0, _ => .mk none
  | n + 1, ts =>
    match ts with
    | [] => liftM (r.fail .expectedTerm [])
    | t :: rest =>
      if t.kind = .lambda then do
        let (x, rest) ← r.expect .ident rest
        let (_, rest) ← r.expect .colon rest
        let (a, rest) ← r.type? rest
        let (_, rest) ← r.expect .dot rest
        let (body, rest) ← termWithin? n rest
        return (.abs (t.range.between body.range) x.name a body, rest)
      else if t.kind = .bigLambda then do
        r.allow .typeAbstraction t
        let ((x, k), rest) ← r.typeBinder rest
        let (body, rest) ← termWithin? n rest
        return (.tabs (t.range.between body.range) x k body, rest)
      else do
        let (fn, rest) ← r.atom? (termWithin? n) (t :: rest)
        spineWithin? n fn rest

/-- `spineWithin`, giving up where a level is missing. -/
def spineWithin? : Nat → Term → List Token → Guarded (Term × List Token)
  | 0, _, _ => .mk none
  | n + 1, fn, ts =>
    match ts with
    | [] => return (fn, [])
    | t :: rest =>
      if t.kind = .leftBracket then do
        r.allow .typeApplication t
        let (a, rest) ← r.type? rest
        let (close, rest) ← r.expect .rightBracket rest
        spineWithin? n (.tapp (fn.range.between close.range) fn a) rest
      else if startsAtom t.kind then do
        let (arg, rest) ← r.atom? (termWithin? n) (t :: rest)
        spineWithin? n (.app (fn.range.between arg.range) fn arg) rest
      else return (fn, t :: rest)

end

end Definitions

/-! ## Not giving up -/

/-- A reader does not give up, and its outcome is that of another. -/
def Settles {α : Type} (x? : Guarded α) (x : Except ParseError α) : Prop := x?.run = some x

theorem Settles.lift {α : Type} (x : Except ParseError α) : Settles (liftM x) x := rfl

/-- A sequence of readers does not give up if neither its first reader does nor what follows
after each outcome that the first can have. -/
theorem Settles.bind {α β : Type} {x? : Guarded α} {x : Except ParseError α}
    {f? : α → Guarded β} {f : α → Except ParseError β} (hx : Settles x? x)
    (hf : ∀ a, x = .ok a → Settles (f? a) (f a)) : Settles (x? >>= f?) (x >>= f) := by
  have hbind : (x? >>= f?).run = x?.run >>= ExceptT.bindCont f? := rfl
  rw [Settles, hbind, hx]
  cases x with
  | error e => rfl
  | ok a => exact hf a rfl

variable {r : Reading}

theorem settles_typeAtom? {inner? : List Token → Guarded (Ty × List Token)}
    {inner : List Token → Except ParseError (Ty × List Token)} (t : Token) {ts : List Token}
    (h : Settles (inner? ts) (inner ts)) :
    Settles (r.typeAtom? inner? (t :: ts)) (r.typeAtom inner (t :: ts)) := by
  rw [typeAtom?]
  split
  · next hk =>
    rw [typeAtom_int hk]
    rfl
  · next hk =>
    rw [typeAtom_var hk]
    exact .bind (.lift _) fun _ _ => rfl
  · next hk =>
    rw [typeAtom_paren hk]
    exact .bind h fun _ _ => .bind (.lift _) fun _ _ => rfl
  · next hint hvar hparen =>
    have hfail : startsTypeAtom t.kind = false := by
      simp only [startsTypeAtom, Bool.or_eq_false_iff, decide_eq_false_iff_not]
      exact ⟨⟨hint, hvar⟩, hparen⟩
    rw [typeAtom_fail hfail]
    rfl

/-- With more levels than tokens, reading a type does not give up. -/
theorem settles_typeWithin? {n : Nat} {ts : List Token} (h : ts.length < n) :
    Settles (r.typeWithin? n ts) (r.typeWithin n ts) := by
  induction n generalizing ts with
  | zero => exact absurd h (Nat.not_lt_zero _)
  | succ n ih =>
    cases ts with
    | nil => rfl
    | cons t rest =>
      -- A type below is read from fewer tokens than these, so a level less is still enough.
      have hrest : rest.length < n := Nat.lt_of_succ_lt_succ h
      rw [typeWithin?, typeWithin]
      split
      · refine .bind (.lift _) fun _ _ => ?_
        apply Settles.bind (.lift _)
        rintro ⟨⟨x, k⟩, us⟩ hbinder
        have hus := length_lt_of_typeBinder hbinder
        exact .bind (ih (by omega)) fun _ _ => rfl
      · apply Settles.bind (settles_typeAtom? t (ih hrest))
        rintro ⟨p, us⟩ hp
        have hus := (typeAtom_sound (fun _ _ _ => typeWithin_sound) hp).length_lt
        cases us with
        | nil => rfl
        | cons u us =>
          show Settles (if u.kind = .arrow then _ else _) (if u.kind = .arrow then _ else _)
          split
          · refine .bind (ih ?_) fun _ _ => rfl
            simp only [List.length_cons] at hus
            omega
          · rfl

theorem settles_type? (ts : List Token) : Settles (r.type? ts) (r.type ts) :=
  settles_typeWithin? (Nat.lt_succ_self _)

theorem settles_atom? {inner? : List Token → Guarded (Term × List Token)}
    {inner : List Token → Except ParseError (Term × List Token)} (t : Token) {ts : List Token}
    (h : Settles (inner? ts) (inner ts)) :
    Settles (r.atom? inner? (t :: ts)) (r.atom inner (t :: ts)) := by
  rw [atom?]
  split
  · next hk =>
    split
    · next n hn =>
      rw [atom_int hk hn]
      rfl
    · next hn =>
      rw [atom_tooLarge hk hn]
      rfl
  · next hk =>
    rw [atom_var hk]
    rfl
  · next hk =>
    rw [atom_paren hk]
    exact .bind h fun _ _ => .bind (.lift _) fun _ _ => rfl
  · next hint hident hparen =>
    have hfail : startsAtom t.kind = false := by
      simp only [startsAtom, Bool.or_eq_false_iff, decide_eq_false_iff_not]
      exact ⟨⟨hint, hident⟩, hparen⟩
    rw [atom_fail hfail]
    rfl

/-- With more levels than tokens, neither reading a term nor reading arguments gives up. -/
def NeverShort (r : Reading) (n : Nat) : Prop :=
  (∀ ts : List Token, ts.length < n → Settles (r.termWithin? n ts) (r.termWithin n ts)) ∧
    ∀ fn (ts : List Token), ts.length < n →
      Settles (r.spineWithin? n fn ts) (r.spineWithin n fn ts)

/-- One more level is enough for one more token of a term, because its parts have fewer. -/
theorem NeverShort.termWithin?_succ {n : Nat} (ih : r.NeverShort n) {ts : List Token}
    (h : ts.length < n + 1) : Settles (r.termWithin? (n + 1) ts) (r.termWithin (n + 1) ts) := by
  cases ts with
  | nil => rfl
  | cons t rest =>
    have hrest : rest.length < n := Nat.lt_of_succ_lt_succ h
    rw [termWithin?, termWithin]
    split
    · apply Settles.bind (.lift _)
      rintro ⟨x, us⟩ hx
      apply Settles.bind (.lift _)
      rintro ⟨colon, vs⟩ hcolon
      apply Settles.bind (settles_type? vs)
      rintro ⟨a, ws⟩ ha
      apply Settles.bind (.lift _)
      rintro ⟨dot, zs⟩ hdot
      have hus := length_lt_of_expect hx
      have hvs := length_lt_of_expect hcolon
      have hws := (type_sound ha).length_lt
      have hzs := length_lt_of_expect hdot
      exact .bind (ih.1 zs (by omega)) fun _ _ => rfl
    · split
      · refine .bind (.lift _) fun _ _ => ?_
        apply Settles.bind (.lift _)
        rintro ⟨⟨x, k⟩, us⟩ hbinder
        have hus := length_lt_of_typeBinder hbinder
        exact .bind (ih.1 us (by omega)) fun _ _ => rfl
      · apply Settles.bind (settles_atom? t (ih.1 rest hrest))
        rintro ⟨fn, us⟩ hfn
        have hus := (atom_sound (termSound_and_spineSound n).1 hfn).length_lt
        exact ih.2 fn us (Nat.lt_of_lt_of_le hus (Nat.le_of_lt_succ h))

/-- One more level is enough for one more token of arguments, because an argument has one. -/
theorem NeverShort.spineWithin?_succ {n : Nat} (ih : r.NeverShort n) {fn : Term}
    {ts : List Token} (h : ts.length < n + 1) :
    Settles (r.spineWithin? (n + 1) fn ts) (r.spineWithin (n + 1) fn ts) := by
  cases ts with
  | nil => rfl
  | cons t rest =>
    have hrest : rest.length < n := Nat.lt_of_succ_lt_succ h
    rw [spineWithin?, spineWithin]
    split
    · refine .bind (.lift _) fun _ _ => ?_
      apply Settles.bind (settles_type? rest)
      rintro ⟨a, us⟩ ha
      apply Settles.bind (.lift _)
      rintro ⟨close, vs⟩ hclose
      have hus := (type_sound ha).length_lt
      have hvs := length_lt_of_expect hclose
      exact ih.2 _ vs (by omega)
    · split
      · apply Settles.bind (settles_atom? t (ih.1 rest hrest))
        rintro ⟨arg, us⟩ harg
        have hus := (atom_sound (termSound_and_spineSound n).1 harg).length_lt
        exact ih.2 _ us (Nat.lt_of_lt_of_le hus (Nat.le_of_lt_succ h))
      · rfl

theorem neverShort (n : Nat) : r.NeverShort n := by
  induction n with
  | zero =>
    constructor
    · intro ts h
      omega
    · intro fn ts h
      omega
  | succ n ih => exact ⟨fun _ => ih.termWithin?_succ, fun _ _ => ih.spineWithin?_succ⟩

/-- As many levels as tokens are not enough. -/
example : (termWithin? ⟨.systemF, .atEnd ⟨2, 1, 3⟩⟩ 2
    [⟨.leftParen, ['('], ⟨0, 1, 1⟩⟩, ⟨.leftParen, ['('], ⟨1, 1, 2⟩⟩]).run = none := rfl

end Reading
end PolyLambda
