import LiveEdit.Order.Sorting
import Mathlib.Data.List.Nodup
import Mathlib.Order.Lattice

/-! Sorting leaves items with equal keys as they were, and so it depends on them alone. -/
namespace LiveEdit

variable {α κ : Type} [LinearOrder κ]

/-- The items of a list in the order of their keys; those with one key are as they were. -/
structure SortedBy (key : α → κ) (as bs : List α) : Prop where
  perm : bs.Perm as
  ordered : bs.Pairwise fun a b => key a ≤ key b
  stable (k : κ) : bs.filter (key · = k) = as.filter (key · = k)

variable {le : α → α → Bool} {key : α → κ} {a b : α} {as bs : List α} {k : κ}

/-- An item passes over those with a smaller key only. -/
theorem filter_insertInOrder (h : ∀ a b, le a b = true ↔ key a ≤ key b) :
    (insertInOrder le a as).filter (key · = k) = (a :: as).filter (key · = k) := by
  induction as with
  | nil => rfl
  | cons b bs ih =>
    rw [insertInOrder]
    split
    next => rfl
    next hab =>
      have hlt : key b < key a := not_le.mp (mt (h a b).mpr hab)
      rw [List.filter_cons, ih]
      by_cases hb : key b = k
      · have ha : key a ≠ k := fun ha => absurd (ha.trans hb.symm) hlt.ne'
        simp [hb, ha]
      · simp [List.filter_cons, hb]

theorem inOrder_sortedBy (h : ∀ a b, le a b = true ↔ key a ≤ key b) (as : List α) :
    SortedBy key as (inOrder le as) where
  perm := inOrder_perm as
  ordered := by
    have htotal (a b : α) (hab : le a b = false) : le b a = true :=
      (h b a).mpr (le_of_not_ge (mt (h a b).mpr (Bool.eq_false_iff.mp hab)))
    have htrans (a b c : α) (hab : le a b = true) (hbc : le b c = true) : le a c = true :=
      (h a c).mpr (((h a b).mp hab).trans ((h b c).mp hbc))
    exact (inOrder_pairwise htotal htrans as).imp fun {a b} => (h a b).mp
  stable k := by
    induction as with
    | nil => rfl
    | cons a as ih => rw [inOrder, filter_insertInOrder h, List.filter_cons, List.filter_cons, ih]

/-- Where no two items have one key, the order of the list before does not matter. -/
theorem inOrder_eq_of_perm (h : ∀ a b, le a b = true ↔ key a ≤ key b) (hperm : as.Perm bs)
    (hdistinct : as.Pairwise fun a b => key a ≠ key b) : inOrder le as = inOrder le bs := by
  have has := inOrder_sortedBy h as
  have hbs := inOrder_sortedBy h bs
  have hnodup : (as.map key).Nodup := List.pairwise_map.mpr hdistinct
  refine List.Perm.eq_of_pairwise ?_ has.ordered hbs.ordered
    (has.perm.trans (hperm.trans hbs.perm.symm))
  intro a b ha hb hab hba
  have ha' : a ∈ as := has.perm.mem_iff.mp ha
  have hb' : b ∈ as := hperm.mem_iff.mpr (hbs.perm.mem_iff.mp hb)
  exact List.inj_on_of_nodup_map hnodup ha' hb' (le_antisymm hab hba)

end LiveEdit
