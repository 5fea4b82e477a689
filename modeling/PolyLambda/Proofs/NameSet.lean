import PolyLambda.NameSet
import PolyLambda.Text.Utf8

/-!
# Sets of names are in the order of bytes

A name comes into the program as bytes, so it is a **decoded** text (`Text.IsDecoded`) and its
bytes tell it apart from other names.  Names are compared through a key (`Text.before`), which
puts the name with the smaller bytes first; what the key holds after the bytes matters only for
texts that are not decoded (`Text.IsDecoded.before_iff`).

`NameSet.IsSet` is what a list needs to stand for a set of names: its names are decoded, and
they are strictly increasing in the order of bytes.  The operations on sets rely on it and keep
it, and a set is determined by its members (`NameSet.IsSet.ext`).  So the set of the names in a
list is also what sorting them and keeping one of each gives, whichever function keeps one of
each (`NameSet.KeepsOneOfEach.uniq_sorted`).
-/

namespace PolyLambda

namespace Text

variable {a b : Text}

/-- A text that is decoded from bytes.  Stray bytes that make up a character together are none
of this sort. -/
def IsDecoded (t : Text) : Prop := decode t.bytes = t

instance (t : Text) : Decidable t.IsDecoded := inferInstanceAs (Decidable (decode t.bytes = t))

theorem IsDecoded.eq_of_bytes_eq (ha : a.IsDecoded) (hb : b.IsDecoded) (h : a.bytes = b.bytes) :
    a = b := by
  rw [← ha, h, hb]

/-! ## The order of names -/

/-- Each byte of a key stands above the zero that ends it, so a shorter sequence comes first. -/
theorem key_lt_iff {as bs : List UInt8} {us vs : List Nat} :
    as.map (·.toNat + 1) ++ 0 :: us < bs.map (·.toNat + 1) ++ 0 :: vs ↔
      as < bs ∨ as = bs ∧ us < vs := by
  induction as generalizing bs with
  | nil =>
    cases bs with
    | nil => simp
    | cons b bs => simp [List.cons_lt_cons_iff]
  | cons a as ih =>
    cases bs with
    | nil => simp [List.cons_lt_cons_iff]
    | cons b bs =>
      rw [List.map_cons, List.map_cons, List.cons_append, List.cons_append,
        List.cons_lt_cons_iff, ih, List.cons_lt_cons_iff, UInt8.lt_iff_toNat_lt,
        Nat.add_lt_add_iff_right, Nat.add_right_cancel_iff, UInt8.toNat_inj, List.cons.injEq,
        and_or_left, ← and_assoc, or_assoc]

/-- **Names are in the order of their bytes.** -/
theorem IsDecoded.before_iff (ha : a.IsDecoded) (hb : b.IsDecoded) :
    a.before b = true ↔ a.bytes < b.bytes := by
  rw [before, decide_eq_true_iff, key, key, key_lt_iff]
  constructor
  · rintro (hlt | ⟨hbytes, hlt⟩)
    · exact hlt
    · rw [ha.eq_of_bytes_eq hb hbytes] at hlt
      exact absurd hlt (List.lt_irrefl _)
  · exact .inl

theorem IsDecoded.lt_of_not_before (ha : a.IsDecoded) (hb : b.IsDecoded) (hne : a ≠ b)
    (h : ¬ a.before b = true) : b.bytes < a.bytes := by
  rw [ha.before_iff hb] at h
  apply Decidable.byContradiction
  intro hnot
  have hbytes := List.le_antisymm (List.not_lt.mp hnot) (List.not_lt.mp h)
  exact hne (ha.eq_of_bytes_eq hb hbytes)

end Text

namespace NameSet

/-! ## Lists that stand for sets -/

/-- Names in strictly increasing order of their bytes. -/
def Increasing (xs : List Text) : Prop := xs.Pairwise fun a b => a.bytes < b.bytes

/-- A list that stands for a set of names. -/
structure IsSet (xs : List Text) : Prop where
  decoded : ∀ x ∈ xs, x.IsDecoded
  increasing : Increasing xs

namespace IsSet

variable {x : Text} {xs ys : List Text}

theorem nil : IsSet [] := ⟨List.forall_mem_nil _, .nil⟩

theorem singleton (hx : x.IsDecoded) : IsSet [x] :=
  ⟨List.forall_mem_singleton.mpr hx, List.pairwise_singleton _ _⟩

theorem tail (h : IsSet (x :: xs)) : IsSet xs :=
  ⟨(List.forall_mem_cons.mp h.decoded).2, h.increasing.of_cons⟩

theorem nodup (h : IsSet xs) : xs.Nodup := by
  apply h.increasing.imp
  rintro a _ hlt rfl
  exact List.lt_irrefl _ hlt

/-- A set is determined by its members. -/
theorem ext (hxs : IsSet xs) (hys : IsSet ys) (h : ∀ z, z ∈ xs ↔ z ∈ ys) : xs = ys := by
  have hperm := (List.perm_ext_iff_of_nodup hxs.nodup hys.nodup).mpr h
  refine hperm.eq_of_pairwise (fun a b _ _ hab hba => ?_) hxs.increasing hys.increasing
  exact absurd hba (List.lt_asymm hab)

/-- **One more name keeps the order.**  A name goes in front of the first one that it comes
before. -/
theorem insert (hx : x.IsDecoded) (hxs : IsSet xs) : IsSet (NameSet.insert x xs) := by
  constructor
  · intro z hz
    rcases mem_insert.mp hz with rfl | hz
    · exact hx
    · exact hxs.decoded z hz
  induction xs with
  | nil => exact List.pairwise_singleton _ _
  | cons y ys ih =>
    obtain ⟨hy, -⟩ := List.forall_mem_cons.mp hxs.decoded
    obtain ⟨habove, -⟩ := List.pairwise_cons.mp hxs.increasing
    rw [NameSet.insert]
    by_cases hxy : x = y
    · rw [if_pos hxy]
      exact hxs.increasing
    rw [if_neg hxy]
    by_cases hbefore : x.before y = true
    · rw [if_pos hbefore]
      have hlt := (hx.before_iff hy).mp hbefore
      refine .cons (List.forall_mem_cons.mpr ⟨hlt, fun z hz => ?_⟩) hxs.increasing
      exact List.lt_trans hlt (habove z hz)
    · rw [if_neg hbefore]
      refine .cons (fun z hz => ?_) (ih hxs.tail)
      rcases mem_insert.mp hz with rfl | hz
      · exact hx.lt_of_not_before hy hxy hbefore
      · exact habove z hz

/-- The names that are added may come in any order and repeatedly. -/
theorem union (hxs : ∀ x ∈ xs, x.IsDecoded) (hys : IsSet ys) : IsSet (NameSet.union xs ys) := by
  induction xs with
  | nil => exact hys
  | cons x xs ih =>
    obtain ⟨hx, hxs⟩ := List.forall_mem_cons.mp hxs
    exact (ih hxs).insert hx

theorem ofList (hxs : ∀ x ∈ xs, x.IsDecoded) : IsSet (NameSet.ofList xs) := union hxs nil

theorem erase (hxs : IsSet xs) : IsSet (NameSet.erase x xs) :=
  ⟨fun z hz => hxs.decoded z (mem_erase.mp hz).1, hxs.increasing.filter _⟩

end IsSet

/-! ## Sorting and keeping one of each name -/

/-- Names in the order of their bytes, repeated or not. -/
structure IsSorted (xs : List Text) : Prop where
  decoded : ∀ x ∈ xs, x.IsDecoded
  ordered : xs.Pairwise fun a b => ¬ b.bytes < a.bytes

/-- The names of a list in order, with their repetitions. -/
def sorted (xs : List Text) : List Text := xs.mergeSort fun a b => !b.before a

/-- `uniq` keeps one name of each run of equal names in a sorted list. -/
structure KeepsOneOfEach (uniq : List Text → List Text) : Prop where
  sublist : ∀ {xs}, IsSorted xs → (uniq xs).Sublist xs
  once : ∀ {xs}, IsSorted xs → ∀ x ∈ xs, (uniq xs).count x = 1

theorem mem_sorted {x : Text} {xs : List Text} : x ∈ sorted xs ↔ x ∈ xs := List.mem_mergeSort

theorem isSorted_sorted {xs : List Text} (hxs : ∀ x ∈ xs, x.IsDecoded) :
    IsSorted (sorted xs) := by
  have hdecoded : ∀ x ∈ sorted xs, x.IsDecoded := fun x hx => hxs x (mem_sorted.mp hx)
  refine ⟨hdecoded, List.Pairwise.imp_of_mem ?_ (List.pairwise_mergeSort ?_ ?_ xs)⟩
  · intro a b ha hb hnot
    rw [Bool.not_eq_true', Bool.eq_false_iff] at hnot
    intro hlt
    exact hnot (((hdecoded b hb).before_iff (hdecoded a ha)).mpr hlt)
  · intro a b c hab hbc
    simp only [Text.before, Bool.not_eq_true', decide_eq_false_iff_not] at hab hbc ⊢
    exact List.le_trans hab hbc
  · intro a b
    simp only [Text.before, Bool.or_eq_true, Bool.not_eq_true', decide_eq_false_iff_not]
    exact List.le_total a.key b.key

namespace KeepsOneOfEach

variable {uniq : List Text → List Text} {xs : List Text}

theorem mem (h : KeepsOneOfEach uniq) (hxs : IsSorted xs) {x : Text} : x ∈ uniq xs ↔ x ∈ xs := by
  constructor
  · exact (h.sublist hxs).mem
  · intro hx
    apply List.count_pos_iff.mp
    rw [h.once hxs x hx]
    exact Nat.one_pos

theorem isSet (h : KeepsOneOfEach uniq) (hxs : IsSorted xs) : IsSet (uniq xs) := by
  have hdecoded : ∀ x ∈ uniq xs, x.IsDecoded := fun x hx => hxs.decoded x ((h.mem hxs).mp hx)
  have hnodup : (uniq xs).Nodup := by
    apply List.nodup_iff_count.mpr
    intro x
    by_cases hx : x ∈ xs
    · exact Nat.le_of_eq (h.once hxs x hx)
    · rw [List.count_eq_zero.mpr fun hmem => hx ((h.mem hxs).mp hmem)]
      exact Nat.zero_le 1
  refine ⟨hdecoded, ((hxs.ordered.sublist (h.sublist hxs)).and hnodup).imp_of_mem ?_⟩
  rintro a b ha hb ⟨hnot, hne⟩
  have hbefore := (hdecoded b hb).before_iff (hdecoded a ha)
  exact (hdecoded b hb).lt_of_not_before (hdecoded a ha) (Ne.symm hne) (mt hbefore.mp hnot)

/-- **Sorting and keeping one of each gives the set of the names.** -/
theorem uniq_sorted (h : KeepsOneOfEach uniq) (hxs : ∀ x ∈ xs, x.IsDecoded) :
    uniq (sorted xs) = ofList xs := by
  have hsorted := isSorted_sorted hxs
  refine (h.isSet hsorted).ext (.ofList hxs) fun z => ?_
  rw [h.mem hsorted, mem_sorted, mem_ofList]

end KeepsOneOfEach

/-- Drops a name where the same one follows. -/
def keepOne : List Text → List Text
  | [] => []
  | x :: xs => if xs.head? = some x then keepOne xs else x :: keepOne xs

theorem keepOne_sublist (xs : List Text) : (keepOne xs).Sublist xs := by
  induction xs with
  | nil => exact .slnil
  | cons x xs ih =>
    rw [keepOne]
    split
    · exact ih.cons x
    · exact ih.cons_cons x

/-- In a sorted list the names equal to the first one come directly after it. -/
theorem IsSorted.not_mem {x : Text} {xs : List Text} (h : IsSorted (x :: xs))
    (hhead : xs.head? ≠ some x) : x ∉ xs := by
  cases xs with
  | nil => exact List.not_mem_nil
  | cons y ys =>
    intro hmem
    obtain ⟨hx, hdecoded⟩ := List.forall_mem_cons.mp h.decoded
    obtain ⟨hbelow, htail⟩ := List.pairwise_cons.mp h.ordered
    have hyx : y ≠ x := fun heq => hhead (congrArg some heq)
    have hx' : x ∈ ys := (List.mem_cons.mp hmem).resolve_left (Ne.symm hyx)
    have hbytes := List.le_antisymm (hbelow y List.mem_cons_self)
      ((List.pairwise_cons.mp htail).1 x hx')
    exact hyx ((hx.eq_of_bytes_eq (hdecoded y List.mem_cons_self) hbytes).symm)

theorem keepsOneOfEach_keepOne : KeepsOneOfEach keepOne where
  sublist _ := keepOne_sublist _
  once := by
    intro xs h
    induction xs with
    | nil => exact List.forall_mem_nil _
    | cons x xs ih =>
      have hxs : IsSorted xs := ⟨(List.forall_mem_cons.mp h.decoded).2, h.ordered.of_cons⟩
      rw [keepOne]
      split
      · next hhead =>
        have hx : x ∈ xs := List.mem_of_head? hhead
        exact List.forall_mem_cons.mpr ⟨ih hxs x hx, ih hxs⟩
      · next hhead =>
        have hx := h.not_mem hhead
        rw [List.forall_mem_cons]
        constructor
        · have hcount : (keepOne xs).count x = 0 :=
            List.count_eq_zero.mpr fun hmem => hx ((keepOne_sublist xs).mem hmem)
          rw [List.count_cons_self, hcount]
        · intro y hy
          have hxy : x ≠ y := fun heq => hx (heq ▸ hy)
          rw [List.count_cons_of_ne hxy]
          exact ih hxs y hy

end NameSet
end PolyLambda
