import PolyLambda.Proofs.NameSet
import PolyLambda.Proofs.Text.Utf8
import PolyLambda.Proofs.Ty.Scopes

/-!
# Free variables and captured variables

An **occurrence** of a type variable is its name together with the binders above it.  The
occurrences of a type (`Ty.occurrences`) say which variables are free in it
(`Ty.mem_freeVars_iff`) and which binders a replacement goes below (`Ty.mem_bindersOver_iff`).

Both answers are sets of names, kept in the order of bytes.  Free variables are collected with
two operations on sets, union and difference.  `Ty.collect` takes the operations as a parameter
and keeps a record of their inputs.  They need to be right on sets only
(`NameSet.Operations.Correct`): all that they are applied to are sets, since the free variables
of the parts are, and so any such operations collect the same list (`Ty.collect_spec`).

Substitution without renaming binds more than it should where it clashes, and never less
(`Ty.mem_freeVars_substitute`).  Where it does not clash, the free variables of the replacement
stay free at every free occurrence of the replaced variable, if there is one
(`Ty.Unclashing.mem_freeVars_substitute_iff`).
-/

namespace PolyLambda

namespace NameSet

/-- The operations that free variables are collected with. -/
structure Operations where
  union : List Text → List Text → List Text
  difference : List Text → List Text → List Text

/-- Operations that are right on sets, whatever they do with other lists. -/
structure Operations.Correct (ops : Operations) : Prop where
  union : ∀ {xs ys}, IsSet xs → IsSet ys →
    IsSet (ops.union xs ys) ∧ ∀ z, z ∈ ops.union xs ys ↔ z ∈ xs ∨ z ∈ ys
  difference : ∀ {xs ys}, IsSet xs → IsSet ys →
    IsSet (ops.difference xs ys) ∧ ∀ z, z ∈ ops.difference xs ys ↔ z ∈ xs ∧ z ∉ ys

/-- The operations of this library. -/
def operations : Operations := ⟨union, fun xs ys => ys.foldr erase xs⟩

theorem IsSet.difference {xs : List Text} (hxs : IsSet xs) (ys : List Text) :
    IsSet (operations.difference xs ys) := by
  induction ys with
  | nil => exact hxs
  | cons y ys ih => exact ih.erase

theorem mem_difference {z : Text} {xs ys : List Text} :
    z ∈ operations.difference xs ys ↔ z ∈ xs ∧ z ∉ ys := by
  induction ys with
  | nil => simp [operations]
  | cons y ys ih =>
    have hstep : operations.difference xs (y :: ys) = erase y (operations.difference xs ys) := rfl
    rw [hstep, mem_erase, ih, List.mem_cons, not_or, and_assoc, and_comm (b := z ≠ y)]

theorem operations_correct : operations.Correct where
  union hxs hys := ⟨.union hxs.decoded hys, fun _ => mem_union⟩
  difference hxs _ := ⟨hxs.difference _, fun _ => mem_difference⟩

end NameSet

namespace Ty

variable {t s p r b : Ty} {x y : Text} {k : Kind}

/-! ## Occurrences -/

/-- An occurrence of a type variable and the binders above it, the outermost first. -/
structure Occurrence where
  name : Text
  binders : List Text
  deriving DecidableEq, Repr, Inhabited

/-- The same occurrence below one more binder. -/
def Occurrence.under (y : Text) (o : Occurrence) : Occurrence := ⟨o.name, y :: o.binders⟩

/-- The occurrences of type variables in a type, from left to right. -/
def occurrences : Ty → List Occurrence
  | int | gap => []
  | var x => [⟨x, []⟩]
  | arrow p r => p.occurrences ++ r.occurrences
  | all y _ b => b.occurrences.map (.under y)

/-- `x` has an occurrence that no binder of its name is above. -/
def OccursFree (t : Ty) (x : Text) : Prop := ∃ o ∈ t.occurrences, o.name = x ∧ x ∉ o.binders

/-- A binder `y` is above an occurrence of `x`. -/
def Encloses (t : Ty) (y x : Text) : Prop := ∃ o ∈ t.occurrences, o.name = x ∧ y ∈ o.binders

theorem exists_occurrence_arrow {P : Occurrence → Prop} :
    (∃ o ∈ (arrow p r).occurrences, P o) ↔
      (∃ o ∈ p.occurrences, P o) ∨ ∃ o ∈ r.occurrences, P o := by
  simp only [occurrences, List.mem_append, or_and_right, exists_or]

theorem exists_occurrence_all {P : Occurrence → Prop} :
    (∃ o ∈ (all y k b).occurrences, P o) ↔ ∃ o ∈ b.occurrences, P (o.under y) := by
  simp only [occurrences, List.mem_map]
  constructor
  · rintro ⟨_, ⟨o, ho, rfl⟩, hP⟩
    exact ⟨o, ho, hP⟩
  · rintro ⟨o, ho, hP⟩
    exact ⟨_, ⟨o, ho, rfl⟩, hP⟩

theorem occurs_iff_exists : t.occurs x = true ↔ ∃ o ∈ t.occurrences, o.name = x := by
  induction t with
  | int | gap => simp [occurs, occurrences]
  | var z => simp [occurs, occurrences]
  | arrow p r ihp ihr => rw [occurs, Bool.or_eq_true, ihp, ihr, exists_occurrence_arrow]
  | all z k b ih => rw [occurs, ih, exists_occurrence_all]; rfl

/-- **The free variables are those that occur free.** -/
theorem mem_freeVars_iff : x ∈ t.freeVars ↔ t.OccursFree x := by
  unfold OccursFree
  induction t with
  | int | gap => simp [freeVars, occurrences]
  | var z => simp [freeVars, occurrences, eq_comm]
  | arrow p r ihp ihr => rw [mem_freeVars_arrow, ihp, ihr, exists_occurrence_arrow]
  | all z k b ih =>
    rw [mem_freeVars_all, ih, exists_occurrence_all]
    constructor
    · rintro ⟨⟨o, ho, hname, hbinders⟩, hxz⟩
      exact ⟨o, ho, hname, List.not_mem_cons_of_ne_of_not_mem hxz hbinders⟩
    · rintro ⟨o, ho, hname, hbinders⟩
      rw [Occurrence.under, List.mem_cons, not_or] at hbinders
      exact ⟨⟨o, ho, hname, hbinders.2⟩, hbinders.1⟩

/-- **A replacement goes below the binders that enclose an occurrence.** -/
theorem mem_bindersOver_iff : y ∈ t.bindersOver x ↔ t.Encloses y x := by
  unfold Encloses
  induction t with
  | int | gap => simp [bindersOver, occurrences]
  | var z => simp [bindersOver, occurrences]
  | arrow p r ihp ihr => rw [bindersOver, List.mem_append, ihp, ihr, exists_occurrence_arrow]
  | all z k b ih =>
    rw [bindersOver, exists_occurrence_all]
    constructor
    · intro hy
      split at hy
      · next hocc =>
        rcases List.mem_cons.mp hy with rfl | hy
        · obtain ⟨o, ho, hname⟩ := occurs_iff_exists.mp hocc
          exact ⟨o, ho, hname, List.mem_cons_self⟩
        · obtain ⟨o, ho, hname, hbinders⟩ := ih.mp hy
          exact ⟨o, ho, hname, List.mem_cons_of_mem _ hbinders⟩
      · cases hy
    · rintro ⟨o, ho, hname, hbinders⟩
      rw [if_pos (occurs_iff_exists.mpr ⟨o, ho, hname⟩), List.mem_cons, ih]
      rcases List.mem_cons.mp hbinders with hyz | hbinders
      · exact .inl hyz
      · exact .inr ⟨o, ho, hname, hbinders⟩

/-! ## Sets of variables -/

theorem mem_names_of_mem_bindersOver (h : y ∈ t.bindersOver x) : y ∈ t.names := by
  induction t with
  | int | var | gap => cases h
  | arrow p r ihp ihr =>
    rcases List.mem_append.mp h with h | h
    · exact List.mem_append_left _ (ihp h)
    · exact List.mem_append_right _ (ihr h)
  | all z k b ih =>
    rw [bindersOver] at h
    split at h
    · rcases List.mem_cons.mp h with rfl | h
      · exact List.mem_cons_self
      · exact List.mem_cons_of_mem _ (ih h)
    · cases h

theorem isSet_freeVars (h : ∀ x ∈ t.names, x.IsDecoded) : NameSet.IsSet t.freeVars := by
  induction t with
  | int | gap => exact .nil
  | var z => exact .singleton (h z List.mem_cons_self)
  | arrow p r ihp ihr =>
    obtain ⟨hp, hr⟩ := List.forall_mem_append.mp h
    exact .union (ihp hp).decoded (ihr hr)
  | all z k b ih => exact (ih (List.forall_mem_cons.mp h).2).erase

theorem isSet_captures (h : ∀ x ∈ t.names, x.IsDecoded) : NameSet.IsSet (t.captures x s) :=
  .ofList fun y hy => h y (mem_names_of_mem_bindersOver (List.mem_filter.mp hy).1)

/-- Collected names, and the inputs of the operations they were collected with. -/
structure Collected where
  names : List Text
  /-- The pairs of lists that an operation was applied to, one after another. -/
  calls : List (List Text × List Text)
  deriving DecidableEq, Repr, Inhabited

/-- Collects the free variables with the given operations. -/
def collect (ops : NameSet.Operations) : Ty → Collected
  | int | gap => ⟨[], []⟩
  | var x => ⟨[x], []⟩
  | arrow p r =>
    let left := p.collect ops
    let right := r.collect ops
    ⟨ops.union left.names right.names,
      left.calls ++ right.calls ++ [(left.names, right.names)]⟩
  | all x _ b =>
    let inner := b.collect ops
    ⟨ops.difference inner.names [x], inner.calls ++ [(inner.names, [x])]⟩

/-- **Operations that are right on sets collect the free variables**, since they are applied to
sets only. -/
theorem collect_spec {ops : NameSet.Operations} (hops : ops.Correct)
    (h : ∀ x ∈ t.names, x.IsDecoded) : (t.collect ops).names = t.freeVars ∧
      ∀ call ∈ (t.collect ops).calls, NameSet.IsSet call.1 ∧ NameSet.IsSet call.2 := by
  induction t with
  | int | var | gap => exact ⟨rfl, List.forall_mem_nil _⟩
  | arrow p r ihp ihr =>
    obtain ⟨hp, hr⟩ := List.forall_mem_append.mp h
    obtain ⟨hpnames, hpcalls⟩ := ihp hp
    obtain ⟨hrnames, hrcalls⟩ := ihr hr
    obtain ⟨hset, hmem⟩ := hops.union (isSet_freeVars hp) (isSet_freeVars hr)
    rw [collect, hpnames, hrnames]
    constructor
    · refine hset.ext (isSet_freeVars h) fun z => ?_
      rw [hmem, mem_freeVars_arrow]
    · refine List.forall_mem_append.mpr ⟨List.forall_mem_append.mpr ⟨hpcalls, hrcalls⟩, ?_⟩
      exact List.forall_mem_singleton.mpr ⟨isSet_freeVars hp, isSet_freeVars hr⟩
  | all z k b ih =>
    obtain ⟨hz, hb⟩ := List.forall_mem_cons.mp h
    obtain ⟨hnames, hcalls⟩ := ih hb
    obtain ⟨hset, hmem⟩ := hops.difference (isSet_freeVars hb) (.singleton hz)
    rw [collect, hnames]
    constructor
    · refine hset.ext (isSet_freeVars h) fun w => ?_
      rw [hmem, mem_freeVars_all, List.mem_singleton]
    · refine List.forall_mem_append.mpr ⟨hcalls, ?_⟩
      exact List.forall_mem_singleton.mpr ⟨isSet_freeVars hb, .singleton hz⟩

/-- **Sets of variables are in the order of bytes.**  Let the names in `t` be decoded from bytes.
Its free variables are strictly increasing and are the variables that occur free.  Whatever
correct operations collect them, they collect this list and are applied to increasing lists
only.  The captured variables of any replacement are strictly increasing too, and they are the
binders above an occurrence of the replaced variable that are free in the replacement. -/
theorem variable_sets_increasing (h : ∀ x ∈ t.names, x.IsDecoded) :
    (NameSet.Increasing t.freeVars ∧ ∀ x, x ∈ t.freeVars ↔ t.OccursFree x) ∧
    (∀ ops : NameSet.Operations, ops.Correct → (t.collect ops).names = t.freeVars ∧
      ∀ call ∈ (t.collect ops).calls,
        NameSet.Increasing call.1 ∧ NameSet.Increasing call.2) ∧
    ∀ x s, NameSet.Increasing (t.captures x s) ∧
      ∀ y, y ∈ t.captures x s ↔ t.Encloses y x ∧ s.OccursFree y := by
  refine ⟨⟨(isSet_freeVars h).increasing, fun x => mem_freeVars_iff⟩, ?_, ?_⟩
  · intro ops hops
    obtain ⟨hnames, hcalls⟩ := collect_spec hops h
    refine ⟨hnames, fun call hcall => ?_⟩
    obtain ⟨hleft, hright⟩ := hcalls call hcall
    exact ⟨hleft.increasing, hright.increasing⟩
  · intro x s
    refine ⟨(isSet_captures h).increasing, fun y => ?_⟩
    rw [mem_captures, mem_bindersOver_iff, mem_freeVars_iff]

/-- In `∀Y: *. X -> ⟨FF⟩ -> é`, where `⟨FF⟩` is a stray byte, the bytes put the stray byte last.
A replacement of `X` in which `Y` is free is captured. -/
theorem variable_sets_increasing_stray_byte :
    (NameSet.Increasing ["X", "é", [.stray 0xFF]] ∧
      (all "Y" .star (arrow (var "X") (arrow (var [.stray 0xFF]) (var "é")))).OccursFree "é") ∧
    (∀ call ∈ ((all "Y" .star (arrow (var "X") (arrow (var [.stray 0xFF]) (var "é")))).collect
      NameSet.operations).calls, NameSet.Increasing call.1 ∧ NameSet.Increasing call.2) ∧
    (all "Y" .star (arrow (var "X") (arrow (var [.stray 0xFF]) (var "é")))).Encloses "Y" "X" := by
  have h : ∀ x ∈ (all "Y" .star (arrow (var "X") (arrow (var [.stray 0xFF]) (var "é")))).names,
      x.IsDecoded := by
    refine List.forall_mem_cons.mpr ⟨Text.decode_bytes_ofChars _, ?_⟩
    refine List.forall_mem_cons.mpr ⟨Text.decode_bytes_ofChars _, ?_⟩
    refine List.forall_mem_cons.mpr ⟨rfl, ?_⟩
    exact List.forall_mem_singleton.mpr (Text.decode_bytes_ofChars _)
  obtain ⟨⟨hincreasing, hfree⟩, hcollect, hcaptures⟩ := variable_sets_increasing h
  refine ⟨⟨hincreasing, (hfree "é").mp (by decide)⟩, ?_, ?_⟩
  · exact (hcollect NameSet.operations NameSet.operations_correct).2
  · exact (((hcaptures "X" (var "Y")).2 "Y").mp (by decide)).1

/-! ## Substitution -/

/-- Substitution makes no variable free, whatever it captures. -/
theorem mem_freeVars_substitute
    (h : y ∈ (t.substitute x s).freeVars) : (y ∈ t.freeVars ∧ y ≠ x) ∨ y ∈ s.freeVars := by
  induction t with
  | int | gap => cases h
  | var z =>
    rw [substitute] at h
    split at h
    · exact .inr h
    · next hzx =>
      obtain rfl := List.mem_singleton.mp h
      exact .inl ⟨h, hzx⟩
  | arrow p r ihp ihr =>
    rcases mem_freeVars_arrow.mp h with h | h
    · rcases ihp h with ⟨hy, hyx⟩ | hy
      · exact .inl ⟨mem_freeVars_arrow.mpr (.inl hy), hyx⟩
      · exact .inr hy
    · rcases ihr h with ⟨hy, hyx⟩ | hy
      · exact .inl ⟨mem_freeVars_arrow.mpr (.inr hy), hyx⟩
      · exact .inr hy
  | all z k b ih =>
    -- the binder stays where it is, also when it is `x` or captures
    obtain ⟨h, hyz⟩ := mem_freeVars_all.mp h
    rcases ih h with ⟨hy, hyx⟩ | hy
    · exact .inl ⟨mem_freeVars_all.mpr ⟨hy, hyz⟩, hyx⟩
    · exact .inr hy

/-- Without a clash nothing is bound anew. -/
theorem Unclashing.mem_freeVars_substitute_iff (h : t.Unclashing x s) :
    y ∈ (t.substitute x s).freeVars ↔
      (y ∈ t.freeVars ∧ y ≠ x) ∨ (x ∈ t.freeVars ∧ y ∈ s.freeVars) := by
  induction t with
  | int | gap => simp [substitute, freeVars]
  | var z =>
    by_cases hz : z = x
    · simp [substitute, freeVars, hz]
    · simp only [substitute, freeVars, hz, if_false, List.mem_singleton, Ne.symm hz, false_and,
        or_false]
      constructor
      · rintro rfl
        exact ⟨rfl, hz⟩
      · exact And.left
  | arrow p r ihp ihr =>
    rw [substitute, mem_freeVars_arrow, ihp h.param, ihr h.result, mem_freeVars_arrow,
      mem_freeVars_arrow, or_and_right, or_and_right]
    exact or_or_or_comm
  | all z k b ih =>
    rw [substitute, mem_freeVars_all, ih h.body, mem_freeVars_all, mem_freeVars_all]
    constructor
    · rintro ⟨⟨hy, hyx⟩ | ⟨hx, hy⟩, hyz⟩
      · exact .inl ⟨⟨hy, hyz⟩, hyx⟩
      · exact .inr ⟨⟨hx, Ne.symm (h.binder hx).1⟩, hy⟩
    · rintro (⟨⟨hy, hyz⟩, hyx⟩ | ⟨⟨hx, -⟩, hy⟩)
      · exact ⟨.inl ⟨hy, hyx⟩, hyz⟩
      · -- the binder is not free in the replacement, so it is not `y`
        exact ⟨.inr ⟨hx, hy⟩, fun hyz => (h.binder hx).2 (hyz ▸ hy)⟩

/-- **The free variables of a substitution.**  When nothing is captured and the replaced variable
is not shadowed, they are those of `t` other than `x`, together with those of `s` if `x` is free
in `t`.  In any case there are no others than those of `t` other than `x` and those of `s`. -/
theorem free_variables_of_substitution (t : Ty) (x : Text) (s : Ty) :
    (t.captures x s = [] → t.shadows x = false → ∀ y, y ∈ (t.substitute x s).freeVars ↔
      (y ∈ t.freeVars ∧ y ≠ x) ∨ (x ∈ t.freeVars ∧ y ∈ s.freeVars)) ∧
    ∀ y ∈ (t.substitute x s).freeVars, (y ∈ t.freeVars ∧ y ≠ x) ∨ y ∈ s.freeVars := by
  constructor
  · intro hcaptures hshadows y
    have h : t.Unclashing x s := ⟨captures_eq_nil_iff.mp hcaptures, hshadows⟩
    exact h.mem_freeVars_substitute_iff
  · intro y hy
    exact mem_freeVars_substitute hy

/-- Replacing `X` by `Z` in `∀Y: *. X -> Y` makes `Z` free.  Replacing it by `Y -> Z` is captured:
of the two variables of the replacement only `Z` becomes free. -/
theorem free_variables_of_substitution_captured :
    Text.ofString "Z" ∈
      ((all "Y" .star (arrow (var "X") (var "Y"))).substitute "X" (var "Z")).freeVars ∧
    ((all "Y" .star (arrow (var "X") (var "Y"))).substitute "X"
      (arrow (var "Y") (var "Z"))).freeVars = [Text.ofString "Z"] ∧
    ((Text.ofString "Z" ∈ (all "Y" .star (arrow (var "X") (var "Y"))).freeVars ∧
        Text.ofString "Z" ≠ "X") ∨
      Text.ofString "Z" ∈ (arrow (var "Y") (var "Z")).freeVars) := by
  refine ⟨?_, by decide, ?_⟩
  · have hclean := (free_variables_of_substitution (all "Y" .star (arrow (var "X") (var "Y"))) "X"
      (var "Z")).1 (by decide) (by decide)
    exact (hclean "Z").mpr (.inr ⟨by decide, by decide⟩)
  · exact (free_variables_of_substitution (all "Y" .star (arrow (var "X") (var "Y"))) "X"
      (arrow (var "Y") (var "Z"))).2 "Z" (by decide)

end Ty
end PolyLambda
