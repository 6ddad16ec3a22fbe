/-
  TokenProxy/CallBook.lean
  ========================
  **A book of entries in which one entry is singled out by its place.**

  Some entries of the book are side entries.  The one singled out is the last that is
  not; `others` are all the rest, and summing over them counts every entry but that one
  exactly once.
-/
import Mathlib.Algebra.BigOperators.Group.List.Basic

namespace TokenProxy.CallBook

variable {β : Type} (side : β → Bool)

/-- Every entry but the last that is no side entry. -/
def others (book : List β) : List β :=
  (book.filter fun r => !side r).dropLast ++ book.filter side

variable {side}

/-- A book of side entries only: nothing is singled out. -/
theorem others_of_sides {book : List β} (h : ∀ r ∈ book, side r = true) :
    others side book = book := by
  have hmain : (book.filter fun r => !side r) = [] := by
    rw [List.filter_eq_nil_iff]
    intro r hr
    simp [h r hr]
  have hside : book.filter side = book := List.filter_eq_self.mpr h
  rw [others, hmain, hside]
  rfl

/-- An entry that is no side entry, with only side entries after it, is the one left out. -/
theorem others_perm {pre post : List β} {r : β} (hr : side r = false)
    (hpost : ∀ x ∈ post, side x = true) :
    (others side (pre ++ r :: post)).Perm (pre ++ post) := by
  have hnone : (post.filter fun x => !side x) = [] := by
    rw [List.filter_eq_nil_iff]
    intro x hx
    simp [hpost x hx]
  have hmain : ((pre ++ r :: post).filter fun x => !side x) =
      (pre.filter fun x => !side x) ++ [r] := by
    rw [List.filter_append, List.filter_cons_of_pos (by simp [hr]), hnone]
  have hside : (pre ++ r :: post).filter side = pre.filter side ++ post := by
    rw [List.filter_append, List.filter_cons_of_neg (by simp [hr]), List.filter_eq_self.mpr hpost]
  have hsplit : ((pre.filter fun x => !side x) ++ pre.filter side).Perm pre := by
    have hboth := List.filter_append_perm side pre
    exact (List.perm_append_comm).trans hboth
  rw [others, hmain, List.dropLast_concat, hside, ← List.append_assoc]
  exact hsplit.append_right post

variable {α : Type} [AddCommMonoid α] (price : β → α)

theorem sum_others {pre post : List β} {r : β} (hr : side r = false)
    (hpost : ∀ x ∈ post, side x = true) :
    ((others side (pre ++ r :: post)).map price).sum = ((pre ++ post).map price).sum :=
  ((others_perm hr hpost).map price).sum_eq

/-- Taking the entry at its place out of the book leaves the same rest. -/
theorem eraseIdx_place (pre post : List β) (r : β) :
    (pre ++ r :: post).eraseIdx pre.length = pre ++ post := by
  rw [List.eraseIdx_append_of_length_le (Nat.le_refl _), Nat.sub_self]
  rfl

theorem getElem?_place (pre post : List β) (r : β) :
    (pre ++ r :: post)[pre.length]? = some r := by
  rw [List.getElem?_append_right (Nat.le_refl _), Nat.sub_self]
  rfl

end TokenProxy.CallBook
