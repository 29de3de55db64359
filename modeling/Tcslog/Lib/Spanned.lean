import Mathlib.Data.List.Basic
import Mathlib.Algebra.Order.BigOperators.Group.List
import Mathlib.Tactic.Ring

/-!
# Blocks laid end to end over pages of one size

A list of blocks is written as one tape, block after block, and the tape is
cut into pages of a fixed size, so that a block may begin anywhere in a page
and run over any number of further pages.  This file relates the three ways of
naming a place on such a tape: the index of a block, a position on the tape,
and a page together with an offset in it.

The number kept with a page is `owed`: how much of the block in progress at
the page's first position is still to come.  Reading can resume from a page
alone by skipping that much.
-/

namespace Tcslog.Lib.Spanned

universe u

variable {α : Type u}

/-- The position at which block `i` begins on the tape. -/
def offset (blocks : List (List α)) (i : Nat) : Nat :=
  (blocks.take i).flatten.length

/-- How much of the block in progress at position `p` is still to come; zero
where a block begins, and past the end of the tape. -/
def owed : List (List α) → Nat → Nat
  | [], _ => 0
  | block :: blocks, p =>
      if p = 0 then 0
      else if p < block.length then block.length - p
      else owed blocks (p - block.length)

/-- How many blocks have come to their end at position `p`. -/
def ended : List (List α) → Nat → Nat
  | [], _ => 0
  | block :: blocks, p => if p < block.length then 0 else ended blocks (p - block.length) + 1

/-- Page `k` of a tape cut into pages of `size`. -/
def page (size : Nat) (tape : List α) (k : Nat) : List α :=
  (tape.drop (k * size)).take size

/-! ## Where blocks begin -/

@[simp]
theorem offset_zero (blocks : List (List α)) : offset blocks 0 = 0 := by
  simp [offset]

theorem offset_succ {blocks : List (List α)} {i : Nat} {block : List α}
    (blockAt : blocks[i]? = some block) :
    offset blocks (i + 1) = offset blocks i + block.length := by
  simp [offset, List.take_add_one, blockAt]

theorem offset_length (blocks : List (List α)) :
    offset blocks blocks.length = blocks.flatten.length := by
  simp [offset]

theorem offset_of_length_le {blocks : List (List α)} {i : Nat} (past : blocks.length ≤ i) :
    offset blocks i = blocks.flatten.length := by
  rw [offset, List.take_of_length_le past]

theorem offset_mono (blocks : List (List α)) {i k : Nat} (le : i ≤ k) :
    offset blocks i ≤ offset blocks k := by
  have taken : blocks.take i = (blocks.take k).take i := by
    rw [List.take_take, Nat.min_eq_left le]
  have split := congrArg (fun l => l.flatten.length) (List.take_append_drop i (blocks.take k))
  simp only [List.flatten_append, List.length_append] at split
  rw [offset, offset, taken]
  omega

theorem offset_append_of_le (blocks more : List (List α)) {i : Nat}
    (within : i ≤ blocks.length) :
    offset (blocks ++ more) i = offset blocks i := by
  rw [offset, offset, List.take_append_of_le_length within]

/-- Blocks that all hold something begin at strictly increasing positions. -/
theorem offset_lt_offset_succ {blocks : List (List α)} (nonempty : ∀ block ∈ blocks, block ≠ [])
    {i : Nat} (within : i < blocks.length) : offset blocks i < offset blocks (i + 1) := by
  rw [offset_succ (List.getElem?_eq_getElem within)]
  have := List.length_pos_of_ne_nil (nonempty _ (List.getElem_mem within))
  omega

theorem offset_lt {blocks : List (List α)} (nonempty : ∀ block ∈ blocks, block ≠ [])
    {i k : Nat} (lt : i < k) (within : k ≤ blocks.length) :
    offset blocks i < offset blocks k :=
  (offset_lt_offset_succ nonempty (by omega)).trans_le (offset_mono blocks lt)

/-- The tape from the beginning of a block on starts with that block. -/
theorem take_drop_offset {blocks : List (List α)} {i : Nat} {block : List α}
    (blockAt : blocks[i]? = some block) :
    (blocks.flatten.drop (offset blocks i)).take block.length = block := by
  have cut : blocks.flatten = (blocks.take i).flatten ++ (block ++ (blocks.drop (i + 1)).flatten) := by
    conv_lhs => rw [← List.take_append_drop i blocks]
    rw [List.drop_eq_getElem?_toList_append, blockAt]
    simp
  rw [cut, offset, List.drop_left, List.take_left]

/-! ## What a position still owes -/

@[simp]
theorem owed_zero (blocks : List (List α)) : owed blocks 0 = 0 := by
  cases blocks <;> simp [owed]

theorem owed_append_left (block : List α) (blocks : List (List α)) (p : Nat) :
    owed (block :: blocks) (block.length + p) = if block.length + p = 0 then 0 else owed blocks p := by
  simp [owed]

/-- The first beginning of a block at or after a position on the tape. -/
theorem exists_offset_eq_add_owed (blocks : List (List α)) {p : Nat}
    (within : p ≤ blocks.flatten.length) :
    ∃ i, i ≤ blocks.length ∧ offset blocks i = p + owed blocks p ∧
      ∀ k, k < i → offset blocks k < p := by
  induction blocks generalizing p with
  | nil =>
      have : p = 0 := by simpa using within
      exact ⟨0, by simp, by simp [this], by simp⟩
  | cons block blocks ih =>
      by_cases atStart : p = 0
      · exact ⟨0, by simp, by simp [atStart], by simp⟩
      by_cases inside : p < block.length
      · refine ⟨1, by simp, ?_, ?_⟩
        · simp [offset, owed, atStart, inside]
          omega
        · intro k less
          obtain rfl : k = 0 := by omega
          simp
          omega
      · simp only [List.flatten_cons, List.length_append] at within
        obtain ⟨i, le, offsetEq, before⟩ := ih (p := p - block.length) (by omega)
        refine ⟨i + 1, by simpa using le, ?_, ?_⟩
        · simp only [offset, List.take_succ_cons, List.flatten_cons, List.length_append] at offsetEq ⊢
          simp only [owed, atStart, inside, if_false]
          omega
        · intro k less
          cases k with
          | zero => simp; omega
          | succ k =>
              have := before k (by omega)
              simp only [offset, List.take_succ_cons, List.flatten_cons, List.length_append] at this ⊢
              omega

/-- Strictly inside a block, what is owed is the rest of that block. -/
theorem owed_of_inside (blocks : List (List α)) {p i : Nat}
    (after : offset blocks i < p) (before : p < offset blocks (i + 1)) :
    owed blocks p = offset blocks (i + 1) - p := by
  induction blocks generalizing p i with
  | nil => simp [offset] at before
  | cons block blocks ih =>
      have notStart : p ≠ 0 := by omega
      cases i with
      | zero =>
          have inside : p < block.length := by simpa [offset] using before
          simp [owed, notStart, inside, offset]
      | succ i =>
          simp only [offset, List.take_succ_cons, List.flatten_cons, List.length_append] at after before
          have outside : ¬ p < block.length := by omega
          simp only [owed, notStart, outside, if_false]
          rw [ih (i := i) (by simp only [offset]; omega) (by simp only [offset]; omega)]
          simp only [offset, List.take_succ_cons, List.flatten_cons, List.length_append]
          omega

/-- Nothing is owed where a block begins. -/
@[simp]
theorem owed_offset {blocks : List (List α)} (nonempty : ∀ block ∈ blocks, block ≠ []) (i : Nat) :
    owed blocks (offset blocks i) = 0 := by
  induction blocks generalizing i with
  | nil => rfl
  | cons block blocks ih =>
      cases i with
      | zero => simp
      | succ i =>
          have positive := List.length_pos_of_ne_nil (nonempty block List.mem_cons_self)
          have rest := ih (fun b mem => nonempty b (List.mem_cons_of_mem _ mem)) i
          have cut : offset (block :: blocks) (i + 1) = block.length + offset blocks i := by
            simp [offset]
          rw [cut, owed_append_left, if_neg (by omega), rest]

/-- Blocks written later do not change what a position on the tape owes. -/
theorem owed_append (blocks more : List (List α)) {p : Nat}
    (within : p ≤ blocks.flatten.length) : owed (blocks ++ more) p = owed blocks p := by
  induction blocks generalizing p with
  | nil =>
      have : p = 0 := by simpa using within
      simp [this]
  | cons block blocks ih =>
      simp only [List.flatten_cons, List.length_append] at within
      simp only [List.cons_append, owed]
      split
      · rfl
      · split
        · rfl
        · exact ih (by omega)

/-- A position that owes something lies strictly inside one block. -/
theorem exists_inside_of_owed_pos {blocks : List (List α)}
    {p : Nat} (within : p ≤ blocks.flatten.length) (owes : 0 < owed blocks p) :
    ∃ i, i < blocks.length ∧ offset blocks i < p ∧ p < offset blocks (i + 1) := by
  obtain ⟨i, le, offsetEq, before⟩ := exists_offset_eq_add_owed blocks within
  cases i with
  | zero => simp at offsetEq; omega
  | succ i => exact ⟨i, by omega, before i (by omega), by omega⟩

/-! ## How many blocks have ended -/

theorem ended_le (blocks : List (List α)) (p : Nat) : ended blocks p ≤ blocks.length := by
  induction blocks generalizing p with
  | nil => exact Nat.le_refl 0
  | cons block blocks ih =>
      rw [ended]
      split
      · exact Nat.zero_le _
      · exact Nat.succ_le_succ (ih _)

/-- So many blocks have ended if the next one begins there or before. -/
theorem le_ended_iff {blocks : List (List α)} {i p : Nat} (within : i ≤ blocks.length) :
    i ≤ ended blocks p ↔ offset blocks i ≤ p := by
  induction blocks generalizing i p with
  | nil =>
      obtain rfl : i = 0 := by simpa using within
      simp
  | cons block blocks ih =>
      cases i with
      | zero => simp
      | succ i =>
          have cut : offset (block :: blocks) (i + 1) = block.length + offset blocks i := by
            simp [offset]
          rw [cut, ended]
          split
          · omega
          · rw [Nat.succ_le_succ_iff, ih (Nat.le_of_succ_le_succ within)]
            omega

theorem offset_ended_le (blocks : List (List α)) (p : Nat) : offset blocks (ended blocks p) ≤ p :=
  (le_ended_iff (ended_le blocks p)).mp (Nat.le_refl _)

/-- The block after those that have ended is still to come or in progress. -/
theorem lt_offset_ended_succ {blocks : List (List α)} {p : Nat} (more : ended blocks p < blocks.length) :
    p < offset blocks (ended blocks p + 1) := by
  rw [← Nat.not_le, ← le_ended_iff more]
  exact Nat.not_succ_le_self _

theorem ended_offset {blocks : List (List α)} (nonempty : ∀ block ∈ blocks, block ≠ []) {i : Nat}
    (within : i ≤ blocks.length) : ended blocks (offset blocks i) = i := by
  refine Nat.le_antisymm ?_ ((le_ended_iff within).mpr (Nat.le_refl _))
  by_contra more
  have less := offset_lt nonempty (Nat.lt_of_not_le more) (ended_le blocks _)
  exact absurd (offset_ended_le blocks (offset blocks i)) (Nat.not_le.mpr less)

theorem ended_mono (blocks : List (List α)) {p q : Nat} (le : p ≤ q) : ended blocks p ≤ ended blocks q :=
  (le_ended_iff (ended_le blocks p)).mpr ((offset_ended_le blocks p).trans le)

/-! ## Pages -/

theorem length_page (size : Nat) (tape : List α) (k : Nat) :
    (page size tape k).length = min size (tape.length - k * size) := by
  simp [page]

theorem page_length_le (size : Nat) (tape : List α) (k : Nat) :
    (page size tape k).length ≤ size := by
  rw [length_page]
  omega

/-- What a page holds from `pos` on is what the tape holds there. -/
theorem take_drop_page {size k pos n : Nat} (tape : List α)
    (within : pos + n ≤ size) :
    ((page size tape k).drop pos).take n = (tape.drop (k * size + pos)).take n := by
  rw [page, List.drop_take, List.take_take, List.drop_drop, Nat.min_eq_left (by omega)]

/-- So it is of a page that stands behind a header and of which the first `cut`
elements are left. -/
theorem take_drop_headed {header : List α} {size k pos n cut len : Nat} (tape : List α)
    (isLen : header.length = len) (within : pos + n ≤ cut) (fits : pos + n ≤ size) :
    (((header ++ page size tape k).take (len + cut)).drop (len + pos)).take n =
      (tape.drop (k * size + pos)).take n := by
  rw [List.drop_take, List.take_take, ← List.drop_drop, List.drop_left' isLen, Nat.min_eq_left (by omega),
    take_drop_page tape fits]

/-- The first pages of a tape, end to end, are its front. -/
theorem flatten_pages (size : Nat) (tape : List α) (n : Nat) :
    ((List.range n).map (page size tape)).flatten = tape.take (n * size) := by
  induction n with
  | zero => simp
  | succ n ih =>
      rw [List.range_succ, List.map_append, List.flatten_append, ih]
      simp only [page, List.map_cons, List.map_nil, List.flatten_cons, List.flatten_nil,
        List.append_nil]
      rw [Nat.succ_mul, List.take_add]

/-- A page that already ends before its size takes what is appended to the tape. -/
theorem page_append {size k : Nat} (tape more : List α) (before : k * size ≤ tape.length)
    (room : tape.length + more.length ≤ k * size + size) :
    page size (tape ++ more) k = page size tape k ++ more := by
  rw [page, page, List.drop_append_of_le_length before,
    List.take_of_length_le (by simp; omega), List.take_of_length_le (by simp; omega)]

/-- A page that is full is not changed by what is appended to the tape. -/
theorem page_append_of_full {size k : Nat} (tape more : List α)
    (full : k * size + size ≤ tape.length) :
    page size (tape ++ more) k = page size tape k := by
  rw [page, page, List.drop_append_of_le_length (by omega),
    List.take_append_of_le_length (by simp; omega)]

end Tcslog.Lib.Spanned
