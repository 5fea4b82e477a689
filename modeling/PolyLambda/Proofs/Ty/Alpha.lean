import PolyLambda.Ty.Substitution

/-!
# Types up to the names of bound variables

The checker compares types as trees and substitutes without renaming.  The textbook
system takes types up to **alpha-equivalence** and substitutes without capture.  This
module holds those two notions.

* `Ty.nameless` replaces each bound variable by the number of quantifiers between it
  and its binder.  Two types are alpha-equivalent when their nameless forms are equal
  (`Ty.AlphaEq`), which can be decided.
* `Ty.subst` replaces the free occurrences of a variable and renames each binder that
  would capture.  Its nameless form is the substitution on nameless types, where there
  is nothing to capture (`nameless_subst`).

The link to the substitution of the checker is `substitute_eq_subst`: without a captured
and a shadowed binder the two substitutions are the same tree.
-/

namespace PolyLambda

/-! ## Nameless types -/

/-- A type without the names of its bound variables. -/
inductive Nameless where
  | int
  /-- The variable of the quantifier with `index` others in between. -/
  | bound (index : Nat)
  | free (name : Text)
  | arrow (param result : Nameless)
  | all (kind : Kind) (body : Nameless)
  | gap
  deriving DecidableEq, Repr, Inhabited

namespace Nameless

/-- A variable seen from below one more quantifier. -/
def deeper : Nameless → Nameless
  | bound i => bound (i + 1)
  | t => t

/-- What a name stands for under the given binders, the nearest first. -/
def ofName : List Text → Text → Nameless
  | [], x => free x
  | y :: scope, x => if x = y then bound 0 else (ofName scope x).deeper

/-- The type `t` with the free variable `x` replaced by `s`, which has no index that
points out of it. -/
def replace (t : Nameless) (x : Text) (s : Nameless) : Nameless :=
  match t with
  | int => int
  | bound i => bound i
  | free y => if y = x then s else free y
  | arrow p r => arrow (p.replace x s) (r.replace x s)
  | all k b => all k (b.replace x s)
  | gap => gap

theorem ofName_cons_self {scope : List Text} {x : Text} : ofName (x :: scope) x = bound 0 :=
  if_pos rfl

theorem ofName_cons_ne {scope : List Text} {x y : Text} (h : x ≠ y) :
    ofName (y :: scope) x = (ofName scope x).deeper := if_neg h

theorem ofName_of_not_mem {scope : List Text} {x : Text} (h : x ∉ scope) :
    ofName scope x = free x := by
  induction scope with
  | nil => rfl
  | cons y scope ih =>
    rw [List.mem_cons, not_or] at h
    rw [ofName_cons_ne h.1, ih h.2]
    rfl

/-- A name stands for a binder, or for itself when none of its name is in scope. -/
theorem ofName_bound_or_free (scope : List Text) (x : Text) :
    (∃ i, ofName scope x = bound i) ∨ (ofName scope x = free x ∧ x ∉ scope) := by
  induction scope with
  | nil => exact .inr ⟨rfl, List.not_mem_nil⟩
  | cons y scope ih =>
    by_cases hx : x = y
    · exact .inl ⟨0, if_pos hx⟩
    · rw [ofName_cons_ne hx]
      rcases ih with ⟨i, hi⟩ | ⟨hi, hm⟩
      · exact .inl ⟨i + 1, by rw [hi]; rfl⟩
      · refine .inr ⟨by rw [hi]; rfl, ?_⟩
        rw [List.mem_cons, not_or]
        exact ⟨hx, hm⟩

theorem replace_ofName {scope : List Text} {x y : Text} {s : Nameless} (h : y = x → x ∈ scope) :
    (ofName scope y).replace x s = ofName scope y := by
  rcases ofName_bound_or_free scope y with ⟨i, hi⟩ | ⟨hi, hy⟩
  · rw [hi]; rfl
  · rw [hi, replace, if_neg]
    intro hyx
    exact hy (hyx ▸ h hyx)

end Nameless

namespace Ty

/-- The nameless form of a type under the given binders, the nearest first. -/
def nameless (scope : List Text) : Ty → Nameless
  | int => .int
  | var x => .ofName scope x
  | arrow p r => .arrow (p.nameless scope) (r.nameless scope)
  | all x k b => .all k (b.nameless (x :: scope))
  | gap => .gap

/-- Two types that differ at most in the names of bound variables. -/
def AlphaEq (a b : Ty) : Prop := a.nameless [] = b.nameless []

instance (a b : Ty) : Decidable (AlphaEq a b) :=
  inferInstanceAs (Decidable (a.nameless [] = b.nameless []))

theorem mem_freeVars_arrow {x : Text} {p r : Ty} :
    x ∈ (arrow p r).freeVars ↔ x ∈ p.freeVars ∨ x ∈ r.freeVars := NameSet.mem_union

theorem mem_freeVars_all {x y : Text} {k : Kind} {b : Ty} :
    x ∈ (all y k b).freeVars ↔ x ∈ b.freeVars ∧ x ≠ y := NameSet.mem_erase

/-- The nameless form depends only on what the free variables stand for. -/
theorem nameless_congr {t : Ty} {scope scope' : List Text}
    (h : ∀ x ∈ t.freeVars, Nameless.ofName scope x = Nameless.ofName scope' x) :
    t.nameless scope = t.nameless scope' := by
  induction t generalizing scope scope' with
  | int => rfl
  | var x => exact h x (List.mem_singleton.mpr rfl)
  | arrow p r ihp ihr =>
    rw [nameless, nameless, ihp fun x hx => h x (mem_freeVars_arrow.mpr (.inl hx)),
      ihr fun x hx => h x (mem_freeVars_arrow.mpr (.inr hx))]
  | all y k b ih =>
    rw [nameless, nameless, ih]
    intro x hx
    by_cases hxy : x = y
    · rw [hxy, Nameless.ofName_cons_self, Nameless.ofName_cons_self]
    · rw [Nameless.ofName_cons_ne hxy, Nameless.ofName_cons_ne hxy,
        h x (mem_freeVars_all.mpr ⟨hx, hxy⟩)]
  | gap => rfl

/-- Binders that bind no free variable do not matter. -/
theorem nameless_eq_of_disjoint {t : Ty} {scope : List Text} (h : ∀ x ∈ t.freeVars, x ∉ scope) :
    t.nameless scope = t.nameless [] :=
  nameless_congr fun x hx => by
    rw [Nameless.ofName_of_not_mem (h x hx), Nameless.ofName_of_not_mem List.not_mem_nil]

/-- Replacing a variable that is not free changes nothing. -/
theorem replace_nameless {t : Ty} {scope : List Text} {x : Text} {s : Nameless}
    (h : x ∈ t.freeVars → x ∈ scope) : (t.nameless scope).replace x s = t.nameless scope := by
  induction t generalizing scope with
  | int | gap => rfl
  | var y => exact Nameless.replace_ofName fun hy => h (List.mem_singleton.mpr hy.symm)
  | arrow p r ihp ihr =>
    rw [nameless, Nameless.replace, ihp fun hx => h (mem_freeVars_arrow.mpr (.inl hx)),
      ihr fun hx => h (mem_freeVars_arrow.mpr (.inr hx))]
  | all y k b ih =>
    rw [nameless, Nameless.replace, ih]
    intro hx
    by_cases hxy : x = y
    · exact hxy ▸ List.mem_cons_self
    · exact List.mem_cons_of_mem _ (h (mem_freeVars_all.mpr ⟨hx, hxy⟩))

/-! ## Renaming -/

/-- All names in a type, of binders and of variables. -/
def names : Ty → List Text
  | int | gap => []
  | var x => [x]
  | arrow p r => p.names ++ r.names
  | all x _ b => x :: b.names

/-- The number of nodes of a type. -/
def size : Ty → Nat
  | int | var _ | gap => 1
  | arrow p r => p.size + r.size + 1
  | all _ _ b => b.size + 1

/-- The type with the free occurrences of `x` named `y`. -/
def rename (x y : Text) : Ty → Ty
  | int => int
  | var z => var (if z = x then y else z)
  | arrow p r => arrow (p.rename x y) (r.rename x y)
  | all z k b => all z k (if z = x then b else b.rename x y)
  | gap => gap

theorem size_rename (x y : Text) (t : Ty) : (t.rename x y).size = t.size := by
  induction t with
  | int | var | gap => rfl
  | arrow p r ihp ihr => rw [rename, size, size, ihp, ihr]
  | all z k b ih =>
    rw [rename, size, size]
    split
    · rfl
    · rw [ih]

theorem mem_names_of_mem_freeVars {t : Ty} {x : Text} (h : x ∈ t.freeVars) : x ∈ t.names := by
  induction t with
  | int | gap => exact h
  | var y => exact h
  | arrow p r ihp ihr =>
    rcases mem_freeVars_arrow.mp h with h | h
    · exact List.mem_append_left _ (ihp h)
    · exact List.mem_append_right _ (ihr h)
  | all y k b ih => exact List.mem_cons_of_mem _ (ih (mem_freeVars_all.mp h).1)

/-- **Renaming to a new name keeps the nameless form**, provided that the scopes are
renamed along. -/
theorem nameless_rename {t : Ty} {x y : Text} (hy : y ∉ t.names) {scope scope' : List Text}
    (h : ∀ z ∈ t.freeVars,
      Nameless.ofName scope' (if z = x then y else z) = Nameless.ofName scope z) :
    (t.rename x y).nameless scope' = t.nameless scope := by
  induction t generalizing scope scope' with
  | int | gap => rfl
  | var z => exact h z (List.mem_singleton.mpr rfl)
  | arrow p r ihp ihr =>
    rw [names, List.mem_append, not_or] at hy
    rw [rename, nameless, nameless, ihp hy.1 fun z hz => h z (mem_freeVars_arrow.mpr (.inl hz)),
      ihr hy.2 fun z hz => h z (mem_freeVars_arrow.mpr (.inr hz))]
  | all w k b ih =>
    rw [names, List.mem_cons, not_or] at hy
    rw [rename, nameless, nameless]
    congr 1
    by_cases hw : w = x
    · -- below a binder of `x` nothing is renamed, and the scopes agree on the rest
      rw [if_pos hw]
      refine nameless_congr fun z hz => ?_
      by_cases hzw : z = w
      · rw [hzw, Nameless.ofName_cons_self, Nameless.ofName_cons_self]
      · have hz' := h z (mem_freeVars_all.mpr ⟨hz, hzw⟩)
        rw [if_neg (hw ▸ hzw)] at hz'
        rw [Nameless.ofName_cons_ne hzw, Nameless.ofName_cons_ne hzw, hz']
    · rw [if_neg hw]
      refine ih hy.2 fun z hz => ?_
      by_cases hzw : z = w
      · rw [hzw, if_neg hw, Nameless.ofName_cons_self, Nameless.ofName_cons_self]
      · have hz' := h z (mem_freeVars_all.mpr ⟨hz, hzw⟩)
        have hne : (if z = x then y else z) ≠ w := by
          split
          · exact hy.1
          · exact hzw
        rw [Nameless.ofName_cons_ne hne, Nameless.ofName_cons_ne hzw, hz']

/-! ## Substitution without capture -/

/-- A name like `x` that is not among the names to avoid: `x` with enough primes. -/
def freshName (x : Text) (avoid : List Text) : Text :=
  x ++ Text.repeated (avoid.flatten.length + 1) '\''

theorem freshName_not_mem (x : Text) (avoid : List Text) : freshName x avoid ∉ avoid := by
  intro h
  have hle := (List.sublist_flatten_of_mem h).length_le
  rw [freshName, List.length_append, Text.repeated, List.length_replicate] at hle
  omega

/-- The name that the binder `y` of `b` takes before `s` goes below it in place of `x`. -/
def newBinder (y : Text) (b : Ty) (x : Text) (s : Ty) : Text :=
  freshName y (x :: s.freeVars ++ b.names)

theorem newBinder_spec (y : Text) (b : Ty) (x : Text) (s : Ty) :
    newBinder y b x s ≠ x ∧ newBinder y b x s ∉ s.freeVars ∧ newBinder y b x s ∉ b.names := by
  have h := freshName_not_mem y (x :: s.freeVars ++ b.names)
  rw [List.cons_append, List.mem_cons, List.mem_append, not_or, not_or] at h
  exact h

/-- The type `t` with the free occurrences of `x` replaced by `s`.  A binder that is free
in `s` is renamed before `s` goes below it. -/
def subst (t : Ty) (x : Text) (s : Ty) : Ty :=
  match t with
  | int => int
  | var y => if y = x then s else var y
  | arrow p r => arrow (p.subst x s) (r.subst x s)
  | all y k b =>
    if x ∉ (all y k b).freeVars then all y k b
    else if y ∈ s.freeVars then
      all (newBinder y b x s) k ((b.rename y (newBinder y b x s)).subst x s)
    else all y k (b.subst x s)
  | gap => gap
termination_by t.size
decreasing_by
  all_goals simp only [size, size_rename]
  all_goals omega

/-- **Substitution is the replacement on nameless types.**  The invariant is about the
binders in scope: none is the variable, and none is free in what replaces it.  Renaming
is what keeps this so. -/
theorem nameless_subst {t : Ty} {x : Text} {s : Ty} {scope : List Text} (hx : x ∉ scope)
    (hs : ∀ y ∈ s.freeVars, y ∉ scope) :
    (t.subst x s).nameless scope = (t.nameless scope).replace x (s.nameless []) := by
  fun_induction subst t x s generalizing scope with
  | case1 => rfl
  | case2 =>
    rw [nameless_eq_of_disjoint hs, nameless, Nameless.ofName_of_not_mem hx, Nameless.replace,
      if_pos rfl]
  | case3 y hy => exact (Nameless.replace_ofName fun h => absurd h hy).symm
  | case4 p r ihp ihr => rw [nameless, nameless, Nameless.replace, ihp hx hs, ihr hx hs]
  | case5 y k b hfree => exact (replace_nameless fun h => absurd h hfree).symm
  | case6 y k b hfree hy ih =>
    obtain ⟨hzx, hzs, hzb⟩ := newBinder_spec y b x s
    have hx' : x ∉ newBinder y b x s :: scope := by
      rw [List.mem_cons, not_or]
      exact ⟨Ne.symm hzx, hx⟩
    have hs' : ∀ w ∈ s.freeVars, w ∉ newBinder y b x s :: scope := by
      intro w hw
      rw [List.mem_cons, not_or]
      exact ⟨fun h => hzs (h ▸ hw), hs w hw⟩
    have hb : (b.rename y (newBinder y b x s)).nameless (newBinder y b x s :: scope) =
        b.nameless (y :: scope) := by
      refine nameless_rename hzb fun w hw => ?_
      by_cases hwy : w = y
      · rw [if_pos hwy, hwy, Nameless.ofName_cons_self, Nameless.ofName_cons_self]
      · have hwz : w ≠ newBinder y b x s := fun h => hzb (h ▸ mem_names_of_mem_freeVars hw)
        rw [if_neg hwy, Nameless.ofName_cons_ne hwz, Nameless.ofName_cons_ne hwy]
    rw [nameless, nameless, Nameless.replace, ih hx' hs', hb]
  | case7 y k b hfree hy ih =>
    have hxy := (mem_freeVars_all.mp (Classical.not_not.mp hfree)).2
    have hx' : x ∉ y :: scope := by
      rw [List.mem_cons, not_or]
      exact ⟨hxy, hx⟩
    have hs' : ∀ w ∈ s.freeVars, w ∉ y :: scope := by
      intro w hw
      rw [List.mem_cons, not_or]
      exact ⟨fun h => hy (h ▸ hw), hs w hw⟩
    rw [nameless, nameless, Nameless.replace, ih hx' hs']
  | case8 => rfl

/-! ## Substitution without renaming -/

/-- A variable occurs where it is free or where it is bound again. -/
theorem occurs_iff {t : Ty} {x : Text} :
    t.occurs x = true ↔ x ∈ t.freeVars ∨ t.shadows x = true := by
  induction t with
  | int | gap => simp [occurs, freeVars, shadows]
  | var y => simp [occurs, freeVars, shadows, eq_comm]
  | arrow p r ihp ihr =>
    rw [occurs, Bool.or_eq_true, ihp, ihr, mem_freeVars_arrow, shadows, Bool.or_eq_true]
    exact or_or_or_comm
  | all y k b ih =>
    rw [occurs, shadows, mem_freeVars_all]
    by_cases hy : y = x
    · simp [hy]
    · simp [hy, ih, Ne.symm hy]

theorem substitute_of_not_occurs {t s : Ty} {x : Text} (h : t.occurs x = false) :
    t.substitute x s = t := by
  induction t with
  | int | gap => rfl
  | var y => exact if_neg (of_decide_eq_false h)
  | arrow p r ihp ihr =>
    rw [occurs, Bool.or_eq_false_iff] at h
    rw [substitute, ihp h.1, ihr h.2]
  | all y k b ih => rw [substitute, ih h]

theorem mem_captures {t s : Ty} {x y : Text} :
    y ∈ t.captures x s ↔ y ∈ t.bindersOver x ∧ y ∈ s.freeVars := by
  rw [captures, NameSet.mem_ofList, List.mem_filter, decide_eq_true_iff]

theorem captures_eq_nil_iff {t s : Ty} {x : Text} :
    t.captures x s = [] ↔ ∀ y ∈ t.bindersOver x, y ∉ s.freeVars := by
  simp only [List.eq_nil_iff_forall_not_mem, mem_captures, not_and]

/-- **Without capture and shadowing no renaming is needed**: both substitutions give the
same tree. -/
theorem substitute_eq_subst {t s : Ty} {x : Text} (hc : ∀ y ∈ t.bindersOver x, y ∉ s.freeVars)
    (hsh : t.shadows x = false) : t.substitute x s = t.subst x s := by
  induction t with
  | int | gap => rw [substitute, subst]
  | var y => rw [substitute, subst]
  | arrow p r ihp ihr =>
    rw [shadows, Bool.or_eq_false_iff] at hsh
    rw [substitute, subst, ihp (fun y hy => hc y (List.mem_append_left _ hy)) hsh.1,
      ihr (fun y hy => hc y (List.mem_append_right _ hy)) hsh.2]
  | all y k b ih =>
    rw [subst]
    by_cases hfree : x ∈ (all y k b).freeVars
    · obtain ⟨hxb, hxy⟩ := mem_freeVars_all.mp hfree
      rw [shadows, if_neg (Ne.symm hxy)] at hsh
      have hocc := occurs_iff.mpr (.inl hxb)
      rw [bindersOver, if_pos hocc] at hc
      rw [if_neg (not_not_intro hfree), if_neg (hc y List.mem_cons_self), substitute,
        ih (fun z hz => hc z (List.mem_cons_of_mem _ hz)) hsh]
    · have hocc : (all y k b).occurs x = false := by
        rw [Bool.eq_false_iff, Ne, occurs_iff, hsh]
        exact fun h => h.elim hfree Bool.false_ne_true
      rw [if_pos hfree, substitute_of_not_occurs hocc]

end Ty
end PolyLambda
