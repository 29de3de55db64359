import Tcslog.Lib.Text
import Tcslog.Storage

/-!
# Names and listings

The rendering of identifiers keeps their order, so the names of one log sort as
its files do, and a listing finds exactly the files that bear such a name.
-/

namespace Tcslog

open Lib.Text

/-! ## The order of the names -/

theorem hexDigit_lt {m n : Nat} (less : m < n) (small : n < 16) : hexDigit m < hexDigit n := by
  have all : ∀ b : Fin 16, ∀ a : Fin 16, a < b → hexDigit a < hexDigit b := by decide
  exact all ⟨n, small⟩ ⟨m, less.trans small⟩ less

theorem hexGroup_lt {m n : Nat} (less : m < n) (small : n < 2 ^ 16) : hexGroup m < hexGroup n := by
  have digit {a b : Nat} (less : a % 16 < b % 16) : hexDigit (a % 16) < hexDigit (b % 16) :=
    hexDigit_lt less (Nat.mod_lt _ (by omega))
  simp only [hexGroup, List.cons_lt_cons_iff]
  have split : m / 4096 < n / 4096 ∨ m / 4096 = n / 4096 ∧ (m / 256 % 16 < n / 256 % 16 ∨
      m / 256 % 16 = n / 256 % 16 ∧ (m / 16 % 16 < n / 16 % 16 ∨
      m / 16 % 16 = n / 16 % 16 ∧ m % 16 < n % 16)) := by omega
  rcases split with first | ⟨same₁, second | ⟨same₂, third | ⟨same₃, fourth⟩⟩⟩
  · exact .inl (digit (by omega))
  · exact .inr ⟨by rw [same₁], .inl (digit second)⟩
  · exact .inr ⟨by rw [same₁], .inr ⟨by rw [same₂], .inl (digit third)⟩⟩
  · exact .inr ⟨by rw [same₁], .inr ⟨by rw [same₂], .inr ⟨by rw [same₃], .inl (digit fourth)⟩⟩⟩

namespace SegId

theorem display_lt_of_lt {id id' : SegId} (less : id < id') : display id < display id' := by
  have group {m n : Nat} (less : m % 2 ^ 16 < n % 2 ^ 16) :
      hexGroup (m % 2 ^ 16) < hexGroup (n % 2 ^ 16) := hexGroup_lt less (Nat.mod_lt _ (by omega))
  have dashed {text text' : Bytes} (less : text < text') : dash :: text < dash :: text' :=
    List.cons_lt_cons_self.mpr less
  have high (id : SegId) : id.toNat / 2 ^ 48 % 2 ^ 16 = id.toNat / 2 ^ 48 := by
    have := id.toNat_lt
    omega
  have upper (n : Nat) : n / 2 ^ 48 = n / 2 ^ 32 / 2 ^ 16 :=
    (Nat.div_div_eq_div_mul n (2 ^ 32) (2 ^ 16)).symm
  have middle (n : Nat) : n / 2 ^ 32 = n / 2 ^ 16 / 2 ^ 16 :=
    (Nat.div_div_eq_div_mul n (2 ^ 16) (2 ^ 16)).symm
  simp only [display, List.append_assoc, List.cons_append]
  rcases div_lt_or_mod_lt (2 ^ 16) (UInt64.lt_iff_toNat_lt.mp less) with three | ⟨same₃, fourth⟩
  · rcases div_lt_or_mod_lt (2 ^ 16) three with two | ⟨same₂, third⟩
    · rw [← middle, ← middle] at two
      rcases div_lt_or_mod_lt (2 ^ 16) two with one | ⟨same₁, second⟩
      · rw [← upper, ← upper, ← high id, ← high id'] at one
        exact append_lt_append rfl (hexGroup_lt one (Nat.mod_lt _ (by omega)))
      · rw [upper id.toNat, same₁, ← upper]
        exact List.append_left_lt (dashed (append_lt_append rfl (group second)))
    · rw [← middle, ← middle] at same₂
      rw [upper id.toNat, same₂, ← upper]
      exact List.append_left_lt (dashed (List.append_left_lt (dashed (append_lt_append rfl (group third)))))
  · have same₂ : id.toNat / 2 ^ 32 = id'.toNat / 2 ^ 32 := by rw [middle, same₃, ← middle]
    have same₁ : id.toNat / 2 ^ 48 = id'.toNat / 2 ^ 48 := by rw [upper, same₂, ← upper]
    rw [same₁, same₂, same₃]
    exact List.append_left_lt (dashed (List.append_left_lt (dashed (List.append_left_lt
      (dashed (group fourth))))))

/-- Identifiers are ordered as their renderings. -/
theorem display_lt_iff {id id' : SegId} : display id < display id' ↔ id < id' := by
  refine ⟨fun less => UInt64.not_le.mp fun after => ?_, display_lt_of_lt⟩
  rcases UInt64.lt_or_eq_of_le after with after | rfl
  · exact absurd (display_lt_of_lt after) (List.lt_asymm less)
  · exact absurd less (List.lt_irrefl _)

end SegId

/-- Names and listings: the parser accepts exactly what is rendered, renderings
are ordered as the identifiers are, a file name has an identifier exactly when it
is the one the log gives to it, and a listing finds the identifiers of a
directory's names in ascending order. -/
theorem names_and_listings :
    (∀ text id, SegId.parse text = .ok id ↔ text = SegId.display id) ∧
    (∀ id id', SegId.display id < SegId.display id' ↔ id < id') ∧
    (∀ name namePrefix nameSuffix id, idFromName name namePrefix nameSuffix = some id ↔
      name = namePrefix ++ SegId.display id ++ nameSuffix) ∧
    ∀ (dir : Dir) (namePrefix nameSuffix : Bytes),
      (scanSegmentIds dir namePrefix nameSuffix).Pairwise (· < ·) ∧
        ∀ id, id ∈ scanSegmentIds dir namePrefix nameSuffix ↔
          namePrefix ++ SegId.display id ++ nameSuffix ∈ dir :=
  ⟨fun _ _ => SegId.parse_eq_ok_iff, fun _ _ => SegId.display_lt_iff, fun _ _ _ _ => idFromName_eq_some_iff,
    fun dir namePrefix nameSuffix =>
      ⟨scanSegmentIds_sorted dir namePrefix nameSuffix, fun _ => mem_scanSegmentIds⟩⟩

end Tcslog
