import PolyLambda.Context
import PolyLambda.Proofs.NameSet

/-!
# The views of a context

A context is built by assigning one type after another (`Context.BuiltBy`).  It can be looked at
in several ways: as the list of all assignments, through the lookup of one name, as the list of
the assigned names, and as the list of what is visible.  They are computed by different walks
over the assignments, and they agree.

The link is the **most recent** assignment of a name (`Context.MostRecent`).  One more assignment
is the most recent one of its name and changes nothing for other names
(`Context.mostRecent_concat`).  So a lookup finds the most recent assignment
(`Context.BuiltBy.lookup?_eq_some_iff`), and what is visible is what lookups find
(`Context.mem_visible`).  The names are also what sorting the assigned names and keeping one of
each gives (`Context.namesBy`).
-/

namespace PolyLambda
namespace Context

/-! ## Lookup -/

theorem lookup?_assign_self (Γ : Context) (x : Text) (a : Ty) :
    (Γ.assign x a).lookup? x = some a := if_pos rfl

theorem lookup?_assign_ne (Γ : Context) {x y : Text} (a : Ty) (h : y ≠ x) :
    (Γ.assign y a).lookup? x = Γ.lookup? x := if_neg h

theorem mem_of_lookup? {Γ : Context} {x : Text} {a : Ty} (h : Γ.lookup? x = some a) :
    (x, a) ∈ Γ := by
  induction Γ with
  | nil => cases h
  | cons p Γ ih =>
    obtain ⟨y, b⟩ := p
    rw [lookup?] at h
    split at h
    · next hyx =>
      obtain rfl := Option.some.inj h
      exact hyx ▸ List.mem_cons_self
    · exact List.mem_cons_of_mem _ (ih h)

theorem lookup?_eq_none {Γ : Context} {x : Text} :
    Γ.lookup? x = none ↔ ∀ a, (x, a) ∉ Γ := by
  induction Γ with
  | nil => simp [lookup?]
  | cons p Γ ih =>
    obtain ⟨y, b⟩ := p
    rw [lookup?]
    split
    · next hyx =>
      constructor
      · intro h
        cases h
      · intro h
        exact absurd (hyx ▸ List.mem_cons_self) (h b)
    · next hyx =>
      rw [ih]
      refine forall_congr' fun a => not_congr ?_
      rw [List.mem_cons, or_iff_right]
      exact fun h => hyx (congrArg Prod.fst h).symm

/-! ## Names and visible assignments -/

theorem mem_names {Γ : Context} {x : Text} : x ∈ Γ.names ↔ ∃ t, (x, t) ∈ Γ := by
  rw [names, NameSet.mem_ofList, List.mem_map]
  constructor
  · rintro ⟨⟨_, t⟩, hmem, rfl⟩
    exact ⟨t, hmem⟩
  · rintro ⟨t, hmem⟩
    exact ⟨(x, t), hmem, rfl⟩

theorem exists_lookup?_of_mem_names {Γ : Context} {x : Text} (h : x ∈ Γ.names) :
    ∃ t, Γ.lookup? x = some t := by
  obtain ⟨t, ht⟩ := mem_names.mp h
  cases hlookup : Γ.lookup? x with
  | none => exact absurd ht (lookup?_eq_none.mp hlookup t)
  | some u => exact ⟨u, rfl⟩

/-- **What is visible is what lookups find.** -/
theorem mem_visible {Γ : Context} {x : Text} {t : Ty} :
    (x, t) ∈ Γ.visible ↔ Γ.lookup? x = some t := by
  simp only [visible, List.mem_filterMap, Option.map_eq_some_iff]
  constructor
  · rintro ⟨y, -, u, hu, heq⟩
    obtain ⟨rfl, rfl⟩ := Prod.mk.inj heq
    exact hu
  · intro h
    exact ⟨x, mem_names.mpr ⟨t, mem_of_lookup? h⟩, t, h, rfl⟩

/-- Every assigned name is visible, in the order of the names. -/
theorem map_fst_visible (Γ : Context) : Γ.visible.map Prod.fst = Γ.names := by
  have hfound : ∀ x ∈ Γ.names, ∃ t, Γ.lookup? x = some t :=
    fun _ hx => exists_lookup?_of_mem_names hx
  rw [visible]
  generalize Γ.names = xs at hfound ⊢
  induction xs with
  | nil => rfl
  | cons x xs ih =>
    obtain ⟨⟨t, ht⟩, hfound⟩ := List.forall_mem_cons.mp hfound
    rw [List.filterMap_cons, ht]
    exact congrArg (x :: ·) (ih hfound)

theorem lookup?_filterMap (Γ : Context) (names : List Text) (x : Text) :
    lookup? (names.filterMap fun y => (Γ.lookup? y).map fun a => (y, a)) x =
      if x ∈ names then Γ.lookup? x else none := by
  induction names with
  | nil => rfl
  | cons y names ih =>
    rw [List.filterMap_cons]
    by_cases hyx : y = x
    · subst hyx
      cases hy : Γ.lookup? y with
      | none =>
        show lookup? (names.filterMap _) y = _
        rw [ih, hy, ite_self, ite_self]
      | some a =>
        rw [if_pos List.mem_cons_self]
        exact lookup?_assign_self _ y a
    · have hmem : x ∈ y :: names ↔ x ∈ names :=
        List.mem_cons.trans (or_iff_right (Ne.symm hyx))
      simp only [hmem]
      cases Γ.lookup? y with
      | none => exact ih
      | some a => exact (lookup?_assign_ne _ a hyx).trans ih

/-- Shadowed assignments and the order of the others do not matter for a lookup. -/
theorem lookup?_visible (Γ : Context) (x : Text) : lookup? Γ.visible x = Γ.lookup? x := by
  rw [visible, lookup?_filterMap]
  split
  · rfl
  · next hx =>
    symm
    apply lookup?_eq_none.mpr
    intro a ha
    exact hx (mem_names.mpr ⟨a, ha⟩)

/-! ## Assignments in sequence -/

/-- `BuiltBy as Γ`: the context `Γ` is built from the empty one by the assignments `as`, made in
this order. -/
inductive BuiltBy : List (Text × Ty) → Context → Prop where
  | empty : BuiltBy [] .empty
  | zero : BuiltBy [] default
  | assign {as : List (Text × Ty)} {Γ : Context} {x : Text} {t : Ty} :
      BuiltBy as Γ → BuiltBy (as ++ [(x, t)]) (Γ.assign x t)

/-- Of the assignments `as`, made in this order, the last one of `x` is to `t`. -/
def MostRecent (as : List (Text × Ty)) (x : Text) (t : Ty) : Prop :=
  ∃ before after, as = before ++ (x, t) :: after ∧ ∀ p ∈ after, p.1 ≠ x

/-- **One more assignment** is the most recent one of its name, and for other names nothing
changes. -/
theorem mostRecent_concat {as : List (Text × Ty)} {x y : Text} {t u : Ty} :
    MostRecent (as ++ [(y, u)]) x t ↔ (y = x ∧ u = t) ∨ (y ≠ x ∧ MostRecent as x t) := by
  constructor
  · rintro ⟨before, after, heq, hafter⟩
    rcases List.eq_nil_or_concat after with rfl | ⟨after, p, rfl⟩
    · obtain ⟨-, hlast⟩ := List.append_inj' heq rfl
      obtain ⟨rfl, rfl⟩ := Prod.mk.inj (List.cons.inj hlast).1
      exact .inl ⟨rfl, rfl⟩
    · rw [List.concat_eq_append] at heq hafter
      rw [← List.cons_append, ← List.append_assoc] at heq
      obtain ⟨has, hlast⟩ := List.append_inj' heq rfl
      obtain rfl := (List.cons.inj hlast).1
      have hyx : y ≠ x := hafter (y, u) (List.mem_append_right _ List.mem_cons_self)
      refine .inr ⟨hyx, before, after, has, fun q hq => ?_⟩
      exact hafter q (List.mem_append_left _ hq)
  · rintro (⟨rfl, rfl⟩ | ⟨hyx, before, after, rfl, hafter⟩)
    · exact ⟨as, [], rfl, List.forall_mem_nil _⟩
    · refine ⟨before, after ++ [(y, u)], by simp, ?_⟩
      exact List.forall_mem_append.mpr ⟨hafter, List.forall_mem_singleton.mpr hyx⟩

namespace BuiltBy

variable {as : List (Text × Ty)} {Γ : Context}

theorem eq_reverse (h : BuiltBy as Γ) : Γ = as.reverse := by
  induction h with
  | empty | zero => rfl
  | assign _ ih => rw [Context.assign, ih, List.reverse_append]; rfl

/-- **A lookup finds the most recent assignment.** -/
theorem lookup?_eq_some_iff (h : BuiltBy as Γ) {x : Text} {t : Ty} :
    Γ.lookup? x = some t ↔ MostRecent as x t := by
  induction h with
  | empty | zero =>
    constructor
    · intro h
      cases h
    · rintro ⟨before, after, heq, -⟩
      exact absurd heq.symm (List.append_ne_nil_of_right_ne_nil _ (List.cons_ne_nil _ _))
  | @assign as Γ y u _ ih =>
    rw [mostRecent_concat]
    by_cases hyx : y = x
    · subst hyx
      simp [lookup?_assign_self]
    · rw [lookup?_assign_ne Γ u hyx, ih]
      simp [hyx]

end BuiltBy

theorem BuiltBy.isDecoded {as : List (Text × Ty)} {Γ : Context} (h : BuiltBy as Γ)
    (hnames : ∀ p ∈ as, p.1.IsDecoded) : ∀ x ∈ Γ.map (·.1), x.IsDecoded := by
  intro x hx
  obtain ⟨p, hp, rfl⟩ := List.mem_map.mp hx
  rw [h.eq_reverse, List.mem_reverse] at hp
  exact hnames p hp

/-- The assigned names, sorted and with one of each kept by `uniq`. -/
def namesBy (uniq : List Text → List Text) (Γ : Context) : List Text :=
  uniq (NameSet.sorted (Γ.map (·.1)))

/-- **The views of a context agree.**  Let a context be built by assignments of decoded names.
Its names are strictly increasing in the order of bytes, and they are the assigned ones; they are
also found by sorting and keeping one of each.  What is visible are these names, in this order,
each with the type of its most recent assignment, and it is what lookups find.  All the
assignments are there, in reverse order. -/
theorem context_views_agree {as : List (Text × Ty)} {Γ : Context} (h : BuiltBy as Γ)
    (hnames : ∀ p ∈ as, p.1.IsDecoded) :
    (NameSet.Increasing Γ.names ∧ (∀ x, x ∈ Γ.names ↔ ∃ t, (x, t) ∈ as) ∧
      ∀ uniq, NameSet.KeepsOneOfEach uniq → Γ.namesBy uniq = Γ.names) ∧
    (Γ.visible.map Prod.fst = Γ.names ∧ ∀ x t, (x, t) ∈ Γ.visible ↔ MostRecent as x t) ∧
    (∀ x t, Γ.lookup? x = some t ↔ (x, t) ∈ Γ.visible) ∧
    Γ = as.reverse ∧ Γ.length = as.length := by
  have hall := h.eq_reverse
  have hdecoded := h.isDecoded hnames
  refine ⟨⟨?_, fun x => ?_, fun uniq huniq => ?_⟩, ⟨Γ.map_fst_visible, fun x t => ?_⟩,
    fun x t => ?_, hall, ?_⟩
  · exact (NameSet.IsSet.ofList hdecoded).increasing
  · rw [mem_names, hall]
    simp only [List.mem_reverse]
  · exact huniq.uniq_sorted hdecoded
  · rw [mem_visible, h.lookup?_eq_some_iff]
  · exact mem_visible.symm
  · rw [hall, List.length_reverse]

/-- The zero context with `x: Int`, then `f: Int -> Int`, then `x: X`: the first assignment is
shadowed. -/
theorem context_views_agree_shadowed :
    BuiltBy [("x", .int), ("f", .arrow .int .int), ("x", .var "X")]
        [("x", .var "X"), ("f", .arrow .int .int), ("x", .int)] ∧
      NameSet.Increasing ["f", "x"] ∧
      namesBy NameSet.keepOne [("x", .var "X"), ("f", .arrow .int .int), ("x", .int)] =
        [Text.ofString "f", "x"] ∧
      MostRecent [("x", .int), ("f", .arrow .int .int), ("x", .var "X")] "x" (.var "X") ∧
      (Text.ofString "x", Ty.var "X") ∈
        visible [("x", .var "X"), ("f", .arrow .int .int), ("x", .int)] := by
  have hbuilt : BuiltBy [("x", .int), ("f", .arrow .int .int), ("x", .var "X")]
      [("x", .var "X"), ("f", .arrow .int .int), ("x", .int)] :=
    BuiltBy.zero.assign.assign.assign
  have hdecoded : ∀ p ∈ [(Text.ofString "x", Ty.int), ("f", .arrow .int .int), ("x", .var "X")],
      p.1.IsDecoded :=
    List.forall_mem_cons.mpr ⟨rfl, List.forall_mem_cons.mpr ⟨rfl,
      List.forall_mem_singleton.mpr rfl⟩⟩
  obtain ⟨⟨hincreasing, -, hby⟩, ⟨-, hvisible⟩, hlookup, -⟩ := context_views_agree hbuilt hdecoded
  have hx := (hlookup "x" (.var "X")).mp rfl
  refine ⟨hbuilt, hincreasing, ?_, (hvisible "x" (.var "X")).mp hx, hx⟩
  exact hby NameSet.keepOne NameSet.keepsOneOfEach_keepOne

end Context
end PolyLambda
