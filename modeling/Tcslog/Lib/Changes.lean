import Mathlib.Data.List.Basic
import Mathlib.Order.Basic

/-!
# The changes of a quantity

A quantity is looked at again and again.  Its changes are the values that differ
from the ones seen just before them: the last of them is the value it has, and
while it never falls they rise.
-/

namespace Tcslog.Lib.Changes

universe u

variable {α : Type u} [DecidableEq α]

/-- The values that differ from the ones before them, the first from `now`. -/
def changes : α → List α → List α
  | _, [] => []
  | now, seen :: later => if seen = now then changes now later else seen :: changes seen later

theorem changes_append (now : α) (seen later : List α) :
    changes now (seen ++ later) = changes now seen ++ changes (seen.getLastD now) later := by
  induction seen generalizing now with
  | nil => rfl
  | cons a seen inductionHypothesis =>
      rw [List.cons_append, changes, changes, List.getLastD_cons]
      by_cases same : a = now
      · rw [if_pos same, if_pos same, inductionHypothesis, same]
      · rw [if_neg same, if_neg same, inductionHypothesis, List.cons_append]

/-- The last change is to the value last seen. -/
theorem getLastD_changes (now : α) (seen : List α) :
    (changes now seen).getLastD now = seen.getLastD now := by
  induction seen generalizing now with
  | nil => rfl
  | cons a seen inductionHypothesis =>
      rw [changes, List.getLastD_cons]
      by_cases same : a = now
      · rw [if_pos same, inductionHypothesis, same]
      · rw [if_neg same, List.getLastD_cons, inductionHypothesis]

/-- Of a quantity that never falls every change is a rise. -/
theorem changes_rise {β : Type u} [PartialOrder β] [DecidableEq β] {now : β} {seen : List β}
    (sorted : (now :: seen).Pairwise (· ≤ ·)) : (now :: changes now seen).Pairwise (· < ·) := by
  induction seen generalizing now with
  | nil => exact List.pairwise_singleton _ _
  | cons a seen inductionHypothesis =>
      obtain ⟨least, rest⟩ := List.pairwise_cons.mp sorted
      rw [changes]
      by_cases same : a = now
      · rw [if_pos same]
        exact inductionHypothesis (same ▸ rest)
      · have risen : now < a := lt_of_le_of_ne (least a List.mem_cons_self) (Ne.symm same)
        have above := inductionHypothesis rest
        rw [if_neg same]
        refine List.pairwise_cons.mpr ⟨fun b mem => ?_, above⟩
        rcases List.mem_cons.mp mem with rfl | later
        · exact risen
        · exact risen.trans ((List.pairwise_cons.mp above).1 b later)

end Tcslog.Lib.Changes
