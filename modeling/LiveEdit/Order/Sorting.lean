/-!
Sorting by insertion. The result holds the same items in ascending order; items that are equal in
the order stay as they were.
-/

namespace LiveEdit

variable {α : Type}

/-- Puts an item in front of the first one that may come after it. -/
def insertInOrder (le : α → α → Bool) (a : α) : List α → List α
  | [] => [a]
  | b :: bs => if le a b then a :: b :: bs else b :: insertInOrder le a bs

def inOrder (le : α → α → Bool) : List α → List α
  | [] => []
  | a :: as => insertInOrder le a (inOrder le as)

variable {le : α → α → Bool} {a : α}

theorem insertInOrder_perm (as : List α) : (insertInOrder le a as).Perm (a :: as) := by
  induction as with
  | nil => exact .refl _
  | cons b bs ih =>
    rw [insertInOrder]
    split
    · exact .refl _
    · exact (ih.cons b).trans (.swap a b bs)

theorem inOrder_perm (as : List α) : (inOrder le as).Perm as := by
  induction as with
  | nil => exact .refl _
  | cons a as ih => exact (insertInOrder_perm _).trans (ih.cons a)

@[simp] theorem mem_inOrder {as : List α} : a ∈ inOrder le as ↔ a ∈ as := (inOrder_perm as).mem_iff

theorem insertInOrder_pairwise (total : ∀ a b, le a b = false → le b a = true)
    (trans : ∀ a b c, le a b = true → le b c = true → le a c = true) {as : List α}
    (h : as.Pairwise (le · ·)) : (insertInOrder le a as).Pairwise (le · ·) := by
  induction as with
  | nil => exact List.pairwise_singleton _ _
  | cons b bs ih =>
    obtain ⟨hb, hbs⟩ := List.pairwise_cons.1 h
    rw [insertInOrder]
    split
    next hab =>
      refine List.pairwise_cons.2 ⟨fun c hc => ?_, h⟩
      obtain rfl | hc := List.mem_cons.1 hc
      · exact hab
      · exact trans _ _ _ hab (hb c hc)
    next hab =>
      refine List.pairwise_cons.2 ⟨fun c hc => ?_, ih hbs⟩
      obtain rfl | hc := List.mem_cons.1 ((insertInOrder_perm bs).mem_iff.1 hc)
      · exact total _ _ (Bool.eq_false_iff.2 hab)
      · exact hb c hc

theorem inOrder_pairwise (total : ∀ a b, le a b = false → le b a = true)
    (trans : ∀ a b c, le a b = true → le b c = true → le a c = true) (as : List α) :
    (inOrder le as).Pairwise (le · ·) := by
  induction as with
  | nil => exact .nil
  | cons a as ih => exact insertInOrder_pairwise total trans ih

end LiveEdit
