import PolyLambda.Proofs.Grammar
import PolyLambda.Proofs.Token.Layout

/-!
# Ranges of terms nest

A node's range goes from its first token to its last one, parentheses left out.  Where the
tokens are in order, no range is empty, the ranges of the parts of a term lie inside its own,
and a function ends before its argument starts (`Term.Nests`).

This holds since every range starts where a token of its node starts and stops where one
stops (`Derives.range_tokens`); so ranges are compared through tokens, whose order is known.
-/

namespace PolyLambda

/-- The term itself and every term below it. -/
def Term.parts (t : Term) : List Term :=
  t :: match t with
    | int .. | var .. | gap => []
    | app _ f a => f.parts ++ a.parts
    | abs _ _ _ b | tabs _ _ _ b => b.parts
    | tapp _ t _ => t.parts

theorem Term.mem_parts_self (t : Term) : t ∈ t.parts := by
  cases t with
  | int | var | app | abs | tabs | tapp | gap => exact List.mem_cons_self

/-- The ranges in a term are not empty and nest. -/
inductive Term.Nests : Term → Prop where
  | int {r : Range} {n : Int32} : r.start < r.stop → Nests (.int r n)
  | var {r : Range} {x : Text} : r.start < r.stop → Nests (.var r x)
  | app {f a : Term} : Nests f → Nests a → f.range.stop ≤ a.range.start →
      Nests (.app (f.range.between a.range) f a)
  | abs {r : Range} {x : Text} {a : Ty} {b : Term} : Nests b → r.start < b.range.start →
      Nests (.abs (r.between b.range) x a b)
  | tabs {r : Range} {x : Text} {k : Kind} {b : Term} : Nests b → r.start < b.range.start →
      Nests (.tabs (r.between b.range) x k b)
  | tapp {r : Range} {t : Term} {a : Ty} : Nests t → t.range.stop < r.stop →
      Nests (.tapp (t.range.between r) t a)

namespace Term.Nests

theorem start_lt_stop {t : Term} (h : t.Nests) : t.range.start < t.range.stop := by
  induction h with
  | int hr => exact hr
  | var hr => exact hr
  | @app f a _ _ hle ihf iha =>
    show f.range.start < a.range.stop
    omega
  | @abs r _ _ b _ hlt ih =>
    show r.start < b.range.stop
    omega
  | @tabs r _ _ b _ hlt ih =>
    show r.start < b.range.stop
    omega
  | @tapp r t _ _ hlt ih =>
    show t.range.start < r.stop
    omega

/-- **A part of a term lies inside it**, and its ranges nest as well. -/
theorem of_mem_parts {t u : Term} (h : t.Nests) (hu : u ∈ t.parts) :
    u.Nests ∧ t.range.start ≤ u.range.start ∧ u.range.stop ≤ t.range.stop := by
  have hself : ∀ {t : Term}, t.Nests →
      t.Nests ∧ t.range.start ≤ t.range.start ∧ t.range.stop ≤ t.range.stop :=
    fun h => ⟨h, Int.le_refl _, Int.le_refl _⟩
  induction h with
  | int hr =>
    obtain rfl := List.mem_singleton.mp hu
    exact hself (.int hr)
  | var hr =>
    obtain rfl := List.mem_singleton.mp hu
    exact hself (.var hr)
  | @app f a hf ha hle ihf iha =>
    rcases List.mem_cons.mp hu with rfl | hu
    · exact hself (.app hf ha hle)
    have hflt := hf.start_lt_stop
    have halt := ha.start_lt_stop
    show u.Nests ∧ f.range.start ≤ u.range.start ∧ u.range.stop ≤ a.range.stop
    rcases List.mem_append.mp hu with hu | hu
    · obtain ⟨hnests, hstart, hstop⟩ := ihf hu
      exact ⟨hnests, hstart, by omega⟩
    · obtain ⟨hnests, hstart, hstop⟩ := iha hu
      exact ⟨hnests, by omega, hstop⟩
  | @abs r x a b hb hlt ih =>
    rcases List.mem_cons.mp hu with rfl | hu
    · exact hself (.abs hb hlt)
    obtain ⟨hnests, hstart, hstop⟩ := ih hu
    exact ⟨hnests, Int.le_trans (Int.le_of_lt hlt) hstart, hstop⟩
  | @tabs r x k b hb hlt ih =>
    rcases List.mem_cons.mp hu with rfl | hu
    · exact hself (.tabs hb hlt)
    obtain ⟨hnests, hstart, hstop⟩ := ih hu
    exact ⟨hnests, Int.le_trans (Int.le_of_lt hlt) hstart, hstop⟩
  | @tapp r t a ht hlt ih =>
    rcases List.mem_cons.mp hu with rfl | hu
    · exact hself (.tapp ht hlt)
    obtain ⟨hnests, hstart, hstop⟩ := ih hu
    exact ⟨hnests, hstart, Int.le_trans hstop (Int.le_of_lt hlt)⟩

end Term.Nests

namespace Grammar

/-- A range starts where a token starts and stops where one stops. -/
theorem Derives.range_tokens {f : TermForm} {ts : List Token} {t : Term} (h : Derives f ts t) :
    (∃ u ∈ ts, t.range.start = u.range.start) ∧ ∃ v ∈ ts, t.range.stop = v.range.stop := by
  induction h with
  | @abs mark x colon dot as bs a b _ _ _ _ _ _ ih =>
    obtain ⟨-, v, hv, hstop⟩ := ih
    refine ⟨⟨mark, List.mem_cons_self, rfl⟩, v, ?_, hstop⟩
    exact List.mem_append_right (mark :: x :: colon :: as) (List.mem_cons_of_mem dot hv)
  | @tabs mark x colon star dot bs b _ _ _ _ _ _ ih =>
    obtain ⟨-, v, hv, hstop⟩ := ih
    refine ⟨⟨mark, List.mem_cons_self, rfl⟩, v, ?_, hstop⟩
    exact List.mem_append_right [mark, x, colon, star, dot] hv
  | ofApp _ ih => exact ih
  | app _ _ ihf iha =>
    obtain ⟨⟨u, hu, hstart⟩, -⟩ := ihf
    obtain ⟨-, v, hv, hstop⟩ := iha
    exact ⟨⟨u, List.mem_append_left _ hu, hstart⟩, v, List.mem_append_right _ hv, hstop⟩
  | @tapp l r fs as f a _ _ _ _ ihf =>
    obtain ⟨⟨u, hu, hstart⟩, -⟩ := ihf
    refine ⟨⟨u, List.mem_append_left _ hu, hstart⟩, r, ?_, rfl⟩
    exact List.mem_append_right _ (List.mem_append_right (l :: as) List.mem_cons_self)
  | ofAtom _ ih => exact ih
  | @int t _ => exact ⟨⟨t, List.mem_cons_self, rfl⟩, t, List.mem_cons_self, rfl⟩
  | @var t _ => exact ⟨⟨t, List.mem_cons_self, rfl⟩, t, List.mem_cons_self, rfl⟩
  | paren _ _ _ ih =>
    obtain ⟨⟨u, hu, hstart⟩, v, hv, hstop⟩ := ih
    exact ⟨⟨u, List.mem_cons_of_mem _ (List.mem_append_left _ hu), hstart⟩,
      v, List.mem_cons_of_mem _ (List.mem_append_left _ hv), hstop⟩

/-- What follows a mark starts after the mark does. -/
theorem Derives.mark_lt {f : TermForm} {mark : Token} {ms ts : List Token} {t : Term}
    (h : Derives f ts t) (hts : InOrder (mark :: ms ++ ts)) : mark.range.start < t.range.start := by
  obtain ⟨⟨u, hu, hstart⟩, -⟩ := h.range_tokens
  have hmark := hts.nonempty mark List.mem_cons_self
  have hle := hts.stop_le List.mem_cons_self hu
  omega

/-- **Ranges nest where the tokens are in order.** -/
theorem Derives.nests {f : TermForm} {ts : List Token} {t : Term} (h : Derives f ts t)
    (hts : InOrder ts) : t.Nests := by
  induction h with
  | @abs mark x colon dot as bs a b _ _ _ _ _ hb ih =>
    have hsplit : mark :: x :: colon :: (as ++ dot :: bs) =
        mark :: (x :: colon :: (as ++ [dot])) ++ bs := by simp
    rw [hsplit] at hts
    exact .abs (ih (hts.sublist (List.sublist_append_right _ _))) (hb.mark_lt hts)
  | @tabs mark x colon star dot bs b _ _ _ _ _ hb ih =>
    have hts : InOrder (mark :: [x, colon, star, dot] ++ bs) := hts
    exact .tabs (ih (hts.sublist (List.sublist_append_right _ _))) (hb.mark_lt hts)
  | ofApp _ ih => exact ih hts
  | app hf ha ihf iha =>
    obtain ⟨-, u, hu, hstop⟩ := hf.range_tokens
    obtain ⟨⟨v, hv, hstart⟩, -⟩ := ha.range_tokens
    refine .app (ihf (hts.sublist (List.sublist_append_left _ _)))
      (iha (hts.sublist (List.sublist_append_right _ _))) ?_
    rw [hstop, hstart]
    exact hts.stop_le hu hv
  | @tapp l r fs as f a hf _ _ _ ihf =>
    obtain ⟨-, u, hu, hstop⟩ := hf.range_tokens
    have hr : r ∈ l :: (as ++ [r]) := List.mem_append_right (l :: as) List.mem_cons_self
    have hle := hts.stop_le hu hr
    have hlt := hts.nonempty r (List.mem_append_right _ hr)
    refine .tapp (ihf (hts.sublist (List.sublist_append_left _ _))) ?_
    omega
  | ofAtom _ ih => exact ih hts
  | int _ => exact .int (hts.nonempty _ List.mem_cons_self)
  | var _ => exact .var (hts.nonempty _ List.mem_cons_self)
  | @paren l r ts t _ _ _ ih =>
    exact ih (hts.sublist ((List.sublist_append_left ts [r]).cons l))

end Grammar
end PolyLambda
