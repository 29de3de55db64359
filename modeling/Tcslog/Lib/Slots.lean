import Mathlib.Data.List.Basic

/-!
# Storing elements in consecutive slots

A store writes elements over those of a list, from some slot on, and never makes
the list longer.  Stores into adjacent slots are one store.
-/

namespace Tcslog.Lib.Slots

universe u

variable {α : Type u}

/-- Store elements from slot `off` on, as far as there are slots. -/
def storeAt (slots : List α) (off : Nat) : List α → List α
  | [] => slots
  | x :: xs => storeAt (slots.set off x) (off + 1) xs

variable (slots : List α) (off : Nat) (xs : List α)

@[simp]
theorem storeAt_nil : storeAt slots off [] = slots :=
  rfl

@[simp]
theorem length_storeAt : (storeAt slots off xs).length = slots.length := by
  induction xs generalizing slots off with
  | nil => rfl
  | cons x xs inductionHypothesis =>
      rw [storeAt, inductionHypothesis, List.length_set]

/-- Two stores, the second from where the first ended, are one. -/
theorem storeAt_append (ys : List α) :
    storeAt slots off (xs ++ ys) = storeAt (storeAt slots off xs) (off + xs.length) ys := by
  induction xs generalizing slots off with
  | nil => rfl
  | cons x xs inductionHypothesis =>
      rw [List.cons_append, storeAt, storeAt, inductionHypothesis, List.length_cons]
      congr 1
      omega

variable {slots off xs}

/-- What a store leaves if it has room: the other slots as they were. -/
theorem storeAt_eq (room : off + xs.length ≤ slots.length) :
    storeAt slots off xs = slots.take off ++ xs ++ slots.drop (off + xs.length) := by
  induction xs generalizing slots off with
  | nil => simp
  | cons x xs inductionHypothesis =>
      rw [List.length_cons] at room ⊢
      have inside : off < slots.length := by omega
      have next : off + 1 + xs.length = off + (xs.length + 1) := by omega
      have front : (slots.set off x).take (off + 1) = slots.take off ++ [x] := by
        rw [List.take_succ_eq_append_getElem (by rwa [List.length_set]), List.getElem_set_self,
          List.take_set_of_le (Nat.le_refl off)]
      have back : (slots.set off x).drop (off + (xs.length + 1)) =
          slots.drop (off + (xs.length + 1)) :=
        List.drop_set_of_lt (by omega)
      rw [storeAt, inductionHypothesis (by rw [List.length_set]; omega), front, next, back,
        List.append_assoc (slots.take off) [x], List.singleton_append]

/-- A store from the first slot on replaces the front. -/
theorem storeAt_zero (room : xs.length ≤ slots.length) :
    storeAt slots 0 xs = xs ++ slots.drop xs.length := by
  rw [storeAt_eq (by rwa [Nat.zero_add])]
  simp

end Tcslog.Lib.Slots
