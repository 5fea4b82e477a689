import PolyLambda.Proofs.Ty.Alpha

/-!
# Types that agree under two scopes

Below binders with different names, two types stand for the same thing when their nameless
forms are equal, each taken under its own scope.  This module says how such an agreement
changes with the scopes.

* What matters of the scopes is which variable of the one type stands for which variable of
  the other (`Ty.nameless_rescope`).  So a binder may be added on both sides where neither
  type mentions it (`Ty.nameless_under`).
* Instantiation takes a binder off both scopes.  Substitution without renaming keeps the
  agreement as long as it does not clash on either side (`Ty.nameless_substitute`).
-/

namespace PolyLambda

/-! ## Names -/

namespace Nameless

theorem deeper_inj {a b : Nameless} (h : a.deeper = b.deeper) : a = b := by
  cases a with
  | bound i =>
    cases b with
    | bound j =>
      rw [Nat.succ.inj (Nameless.bound.inj h)]
    | int | free | arrow | all | gap => cases h
  | int | free | arrow | all | gap =>
    cases b with
    | bound j => cases h
    | int | free | arrow | all | gap => exact h

theorem deeper_ne_bound_zero (a : Nameless) : a.deeper ≠ bound 0 := by
  cases a with
  | int | bound | free | arrow | all | gap => nofun

/-- Below one more binder on each side, names agree when they are the two binders, or when
neither is its binder and they agreed before. -/
theorem ofName_cons_eq_iff {σ τ : List Text} {x y z w : Text} :
    ofName (x :: σ) z = ofName (y :: τ) w ↔
      (z = x ∧ w = y) ∨ (z ≠ x ∧ w ≠ y ∧ ofName σ z = ofName τ w) := by
  by_cases hz : z = x
  · by_cases hw : w = y
    · simp [ofName, hz, hw]
    · rw [hz, ofName_cons_self, ofName_cons_ne hw]
      constructor
      · intro h
        exact absurd h.symm (deeper_ne_bound_zero _)
      · rintro (⟨-, h⟩ | ⟨h, -⟩)
        · exact absurd h hw
        · exact absurd rfl h
  · by_cases hw : w = y
    · rw [hw, ofName_cons_self, ofName_cons_ne hz]
      constructor
      · intro h
        exact absurd h (deeper_ne_bound_zero _)
      · rintro (⟨h, -⟩ | ⟨-, h, -⟩)
        · exact absurd h hz
        · exact absurd rfl h
    · rw [ofName_cons_ne hz, ofName_cons_ne hw]
      constructor
      · intro h
        exact .inr ⟨hz, hw, deeper_inj h⟩
      · rintro (⟨h, -⟩ | ⟨-, -, h⟩)
        · exact absurd h hz
        · rw [h]

end Nameless

open Nameless (ofName ofName_cons_eq_iff)

namespace Ty

/-! ## Forms of agreeing types -/

variable {σ τ σ' τ' : List Text}

theorem nameless_eq_var {z : Text} {b : Ty} (h : (var z).nameless σ = b.nameless τ) :
    ∃ w, b = var w ∧ ofName σ z = ofName τ w := by
  cases b with
  | var w => exact ⟨w, rfl, h⟩
  | int | arrow | all | gap =>
    have hname : ofName σ z = _ := h
    rcases Nameless.ofName_bound_or_free σ z with ⟨i, hi⟩ | ⟨hi, -⟩
    · rw [hi] at hname
      cases hname
    · rw [hi] at hname
      cases hname

theorem nameless_eq_int {b : Ty} (h : int.nameless σ = b.nameless τ) : b = int := by
  cases b with
  | int => rfl
  | var w =>
    obtain ⟨_, hvar, -⟩ := nameless_eq_var h.symm
    cases hvar
  | arrow | all | gap => cases h

theorem nameless_eq_gap {b : Ty} (h : gap.nameless σ = b.nameless τ) : b = gap := by
  cases b with
  | gap => rfl
  | var w =>
    obtain ⟨_, hvar, -⟩ := nameless_eq_var h.symm
    cases hvar
  | int | arrow | all => cases h

theorem nameless_eq_arrow {p r b : Ty} (h : (arrow p r).nameless σ = b.nameless τ) :
    ∃ p' r', b = arrow p' r' ∧ p.nameless σ = p'.nameless τ ∧ r.nameless σ = r'.nameless τ := by
  cases b with
  | arrow p' r' =>
    obtain ⟨hp, hr⟩ := Nameless.arrow.inj h
    exact ⟨p', r', rfl, hp, hr⟩
  | var w =>
    obtain ⟨_, hvar, -⟩ := nameless_eq_var h.symm
    cases hvar
  | int | all | gap => cases h

theorem nameless_eq_all {x : Text} {k : Kind} {c b : Ty}
    (h : (all x k c).nameless σ = b.nameless τ) :
    ∃ y c', b = all y k c' ∧ c.nameless (x :: σ) = c'.nameless (y :: τ) := by
  cases b with
  | all y k' c' =>
    obtain ⟨rfl, hc⟩ := Nameless.all.inj h
    exact ⟨y, c', rfl, hc⟩
  | var w =>
    obtain ⟨_, hvar, -⟩ := nameless_eq_var h.symm
    cases hvar
  | int | arrow | gap => cases h

/-! ## Other scopes -/

/-- **Agreement under other scopes.**  Types that agree under one pair of scopes agree under
another one that keeps the names in them together. -/
theorem nameless_rescope {a b : Ty} (h : a.nameless σ = b.nameless τ)
    (hnames : ∀ z ∈ a.freeVars, ∀ w ∈ b.freeVars, ofName σ z = ofName τ w →
      ofName σ' z = ofName τ' w) : a.nameless σ' = b.nameless τ' := by
  induction a generalizing b σ τ σ' τ' with
  | int => rw [nameless_eq_int h]; rfl
  | var z =>
    obtain ⟨w, rfl, hzw⟩ := nameless_eq_var h
    exact hnames z (List.mem_singleton.mpr rfl) w (List.mem_singleton.mpr rfl) hzw
  | arrow p r ihp ihr =>
    obtain ⟨p', r', rfl, hp, hr⟩ := nameless_eq_arrow h
    have hparam := ihp hp fun z hz w hw => hnames z (mem_freeVars_arrow.mpr (.inl hz)) w
      (mem_freeVars_arrow.mpr (.inl hw))
    have hresult := ihr hr fun z hz w hw => hnames z (mem_freeVars_arrow.mpr (.inr hz)) w
      (mem_freeVars_arrow.mpr (.inr hw))
    rw [nameless, nameless, hparam, hresult]
  | all x k c ih =>
    obtain ⟨y, c', rfl, hc⟩ := nameless_eq_all h
    rw [nameless, nameless, ih hc]
    intro z hz w hw hzw
    rw [ofName_cons_eq_iff] at hzw ⊢
    rcases hzw with hbinders | ⟨hzx, hwy, hzw⟩
    · exact .inl hbinders
    · exact .inr ⟨hzx, hwy, hnames z (mem_freeVars_all.mpr ⟨hz, hzx⟩) w
        (mem_freeVars_all.mpr ⟨hw, hwy⟩) hzw⟩
  | gap => rw [nameless_eq_gap h]; rfl

/-- Types that agree still do below binders that are not free in them. -/
theorem nameless_under {a b : Ty} {x y : Text} (h : a.nameless σ = b.nameless τ)
    (hx : x ∉ a.freeVars) (hy : y ∉ b.freeVars) :
    a.nameless (x :: σ) = b.nameless (y :: τ) := by
  apply nameless_rescope h
  intro z hz w hw hzw
  have hzx : z ≠ x := fun heq => hx (heq ▸ hz)
  have hwy : w ≠ y := fun heq => hy (heq ▸ hw)
  exact ofName_cons_eq_iff.mpr (.inr ⟨hzx, hwy, hzw⟩)

/-! ## Substitution -/

theorem occurs_of_mem_bindersOver {t : Ty} {x y : Text} (h : y ∈ t.bindersOver x) :
    t.occurs x = true := by
  induction t with
  | int | var | gap => cases h
  | arrow p r ihp ihr =>
    rw [occurs, Bool.or_eq_true]
    rcases List.mem_append.mp h with h | h
    · exact .inl (ihp h)
    · exact .inr (ihr h)
  | all z k b _ =>
    rw [bindersOver] at h
    split at h
    · next hocc => exact hocc
    · cases h

/-- Replacing `x` by `s` in `t` captures nothing, and `x` is not bound again above an
occurrence. -/
structure Unclashing (t : Ty) (x : Text) (s : Ty) : Prop where
  uncaptured : ∀ y ∈ t.bindersOver x, y ∉ s.freeVars
  unshadowed : t.shadows x = false

namespace Unclashing

variable {x y : Text} {k : Kind} {p r b s : Ty}

theorem param (h : (arrow p r).Unclashing x s) : p.Unclashing x s :=
  ⟨fun y hy => h.uncaptured y (List.mem_append_left _ hy),
    (Bool.or_eq_false_iff.mp h.unshadowed).1⟩

theorem result (h : (arrow p r).Unclashing x s) : r.Unclashing x s :=
  ⟨fun y hy => h.uncaptured y (List.mem_append_right _ hy),
    (Bool.or_eq_false_iff.mp h.unshadowed).2⟩

/-- A binder above a free occurrence is another variable, and not free in what replaces it. -/
theorem binder (h : (all y k b).Unclashing x s) (hx : x ∈ b.freeVars) :
    y ≠ x ∧ y ∉ s.freeVars := by
  have hocc := occurs_iff.mpr (.inl hx)
  constructor
  · rintro rfl
    have hsh := h.unshadowed
    rw [shadows, if_pos rfl, hocc] at hsh
    cases hsh
  · apply h.uncaptured
    rw [bindersOver, if_pos hocc]
    exact List.mem_cons_self

theorem body (h : (all y k b).Unclashing x s) : b.Unclashing x s := by
  constructor
  · intro z hz
    apply h.uncaptured
    rw [bindersOver, if_pos (occurs_of_mem_bindersOver hz)]
    exact List.mem_cons_of_mem _ hz
  · have hsh := h.unshadowed
    rw [shadows] at hsh
    split at hsh
    · rw [Bool.eq_false_iff] at hsh ⊢
      exact fun hb => hsh (occurs_iff.mpr (.inr hb))
    · exact hsh

end Unclashing

/-- **Substitution keeps agreement.**  The invariant of the walk below binders: the scopes
with and without the replaced variables keep the same names together, except that the
replaced variables go together, and where these are free the replacements agree. -/
theorem nameless_substitute {b b' s s' : Ty} {x y : Text} (h : b.nameless σ = b'.nameless τ)
    (hnames : ∀ z ∈ b.freeVars, ∀ w ∈ b'.freeVars, ofName σ z = ofName τ w →
      (z = x ∧ w = y) ∨ (z ≠ x ∧ w ≠ y ∧ ofName σ' z = ofName τ' w))
    (hs : x ∈ b.freeVars → y ∈ b'.freeVars → s.nameless σ' = s'.nameless τ')
    (hb : b.Unclashing x s) (hb' : b'.Unclashing y s') :
    (b.substitute x s).nameless σ' = (b'.substitute y s').nameless τ' := by
  induction b generalizing b' σ τ σ' τ' with
  | int => rw [nameless_eq_int h]; rfl
  | var z =>
    obtain ⟨w, rfl, hzw⟩ := nameless_eq_var h
    have hz : z ∈ (var z).freeVars := List.mem_singleton.mpr rfl
    have hw : w ∈ (var w).freeVars := List.mem_singleton.mpr rfl
    rcases hnames z hz w hw hzw with ⟨rfl, rfl⟩ | ⟨hzx, hwy, hzw⟩
    · rw [substitute, substitute, if_pos rfl, if_pos rfl]
      exact hs hz hw
    · rw [substitute, substitute, if_neg hzx, if_neg hwy]
      exact hzw
  | arrow p r ihp ihr =>
    obtain ⟨p', r', rfl, hp, hr⟩ := nameless_eq_arrow h
    have hparam := ihp hp
      (fun z hz w hw => hnames z (mem_freeVars_arrow.mpr (.inl hz)) w
        (mem_freeVars_arrow.mpr (.inl hw)))
      (fun hx hy => hs (mem_freeVars_arrow.mpr (.inl hx)) (mem_freeVars_arrow.mpr (.inl hy)))
      hb.param hb'.param
    have hresult := ihr hr
      (fun z hz w hw => hnames z (mem_freeVars_arrow.mpr (.inr hz)) w
        (mem_freeVars_arrow.mpr (.inr hw)))
      (fun hx hy => hs (mem_freeVars_arrow.mpr (.inr hx)) (mem_freeVars_arrow.mpr (.inr hy)))
      hb.result hb'.result
    rw [substitute, substitute, nameless, nameless, hparam, hresult]
  | all u k c ih =>
    obtain ⟨v, c', rfl, hc⟩ := nameless_eq_all h
    rw [substitute, substitute, nameless, nameless, ih hc ?_ ?_ hb.body hb'.body]
    · intro z hz w hw hzw
      rcases ofName_cons_eq_iff.mp hzw with ⟨rfl, rfl⟩ | ⟨hzu, hwv, hzw⟩
      · -- two variables bound here are not the replaced ones
        refine .inr ⟨fun hzx => ?_, fun hwy => ?_, ?_⟩
        · exact (hb.binder (hzx ▸ hz)).1 hzx
        · exact (hb'.binder (hwy ▸ hw)).1 hwy
        · rw [Nameless.ofName_cons_self, Nameless.ofName_cons_self]
      · rcases hnames z (mem_freeVars_all.mpr ⟨hz, hzu⟩) w (mem_freeVars_all.mpr ⟨hw, hwv⟩) hzw
          with hxy | ⟨hzx, hwy, hzw⟩
        · exact .inl hxy
        · exact .inr ⟨hzx, hwy, ofName_cons_eq_iff.mpr (.inr ⟨hzu, hwv, hzw⟩)⟩
    · intro hx hy
      obtain ⟨hux, hus⟩ := hb.binder hx
      obtain ⟨hvy, hvs⟩ := hb'.binder hy
      have hagree := hs (mem_freeVars_all.mpr ⟨hx, Ne.symm hux⟩)
        (mem_freeVars_all.mpr ⟨hy, Ne.symm hvy⟩)
      exact nameless_under hagree hus hvs
  | gap => rw [nameless_eq_gap h]; rfl

end Ty
end PolyLambda
