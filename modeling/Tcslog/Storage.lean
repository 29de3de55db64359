import Tcslog.Naming
import Tcslog.Lib.Coupling
import Mathlib.Data.List.AList
import Mathlib.Data.List.Sort

/-!
# The directory and the operations that may fail

A directory is a finite map from file names to contents.  Reader and writer
both enumerate it for the identifiers of one log and address its files by
identifier.  Operations end with an error of the library, with a panic of the
language (an arithmetic check), or not at all.
-/

namespace Tcslog

/-- A directory: file names and the contents stored under them. -/
abbrev Dir := AList fun _ : Bytes => Bytes

/-- Why an operation gave no value. -/
inductive Stop
  /-- The library returned an error. -/
  | error (e : LogError)
  /-- An arithmetic check of a debug build failed. -/
  | panic
  /-- A loop made as many attempts as it was given without an end. -/
  | stuck
  deriving DecidableEq, Repr

section Attempt

variable {σ α : Type}

/-- Turn a returned error into a value; nothing else is caught. -/
def attempt (x : EStateM Stop σ α) : EStateM Stop σ (Except LogError α) := fun s =>
  match x.run s with
  | .ok a s' => .ok (.ok a) s'
  | .error (.error e) s' => .ok (.error e) s'
  | .error stop s' => .error stop s'

def fail (e : LogError) : EStateM Stop σ α :=
  throw (.error e)

/-- Subtraction of 64-bit numbers, which panics or wraps as the build decides. -/
def subU64 (overflowChecks : Bool) (a b : Nat) : EStateM Stop σ Nat :=
  if b ≤ a then pure (a - b)
  else if overflowChecks then throw .panic
  else pure (a + 2 ^ 64 - b)

/-- Addition of 64-bit numbers, which panics or wraps as the build decides. -/
def addU64 (overflowChecks : Bool) (a b : Nat) : EStateM Stop σ Nat :=
  if a + b < 2 ^ 64 then pure (a + b)
  else if overflowChecks then throw .panic
  else pure ((a + b) % 2 ^ 64)

/-- Subtraction of 32-bit numbers, which panics or wraps as the build decides. -/
def subU32 (overflowChecks : Bool) (a b : Nat) : EStateM Stop σ Nat :=
  if b ≤ a then pure (a - b)
  else if overflowChecks then throw .panic
  else pure (a + 2 ^ 32 - b)

open Lib.Program

variable {x : EStateM Stop σ α} {s : σ} {failed : Stop → σ → Prop}

@[simp]
theorem meets_attempt {post : Except LogError α → σ → Prop} :
    Meets (attempt x) s post failed ↔
      Meets x s (fun a s' => post (.ok a) s') fun stop s' =>
        match stop with
        | .error e => post (.error e) s'
        | stop => failed stop s' := by
  cases ran : x.run s with
  | ok a s' => simp [Meets, attempt, EStateM.run, show x s = _ from ran]
  | error stop s' =>
      cases stop <;> simp [Meets, attempt, EStateM.run, show x s = _ from ran]

theorem maintains_attempt {I : σ → Prop} (maintains : Maintains I x) : Maintains I (attempt x) := by
  intro s holds
  rw [meets_attempt]
  refine (maintains s holds).imp (fun _ _ holds' => holds') fun stop _ holds' => ?_
  cases stop <;> exact holds'

theorem attempt_of_ok {a : α} {s' : σ} (ran : x.run s = .ok a s') :
    (attempt x).run s = .ok (.ok a) s' := by
  simp only [attempt, EStateM.run, show x s = _ from ran]

theorem attempt_of_error {e : LogError} {s' : σ} (ran : x.run s = .error (.error e) s') :
    (attempt x).run s = .ok (.error e) s' := by
  simp only [attempt, EStateM.run, show x s = _ from ran]

theorem attempt_of_stop {stop : Stop} {s' : σ} (uncaught : ∀ e, stop ≠ .error e)
    (ran : x.run s = .error stop s') : (attempt x).run s = .error stop s' := by
  cases stop with
  | error e => exact absurd rfl (uncaught e)
  | panic => simp only [attempt, EStateM.run, show x s = _ from ran]
  | stuck => simp only [attempt, EStateM.run, show x s = _ from ran]

/-- Two attempts catch errors together. -/
theorem couples_attempt {τ β : Type} {y : EStateM Stop τ β} {t : τ}
    {post : Except LogError α → Except LogError β → σ → τ → Prop}
    {failed : Stop → Stop → σ → τ → Prop}
    (couples : Couples x y s t (fun a b s' t' => post (.ok a) (.ok b) s' t')
      fun stop stop' s' t' =>
        (∃ e e', stop = .error e ∧ stop' = .error e' ∧ post (.error e) (.error e') s' t') ∨
          (∀ e, stop ≠ .error e) ∧ (∀ e, stop' ≠ .error e) ∧ failed stop stop' s' t') :
    Couples (attempt x) (attempt y) s t post failed := by
  rcases couples.cases with ⟨a, s', b, t', left, right, related⟩ | ⟨stop, s', stop', t', left, right, related⟩
  · exact (couples_of_ok (attempt_of_ok left) (attempt_of_ok right)).mpr related
  · rcases related with ⟨e, e', rfl, rfl, related⟩ | ⟨uncaught, uncaught', related⟩
    · exact (couples_of_ok (attempt_of_error left) (attempt_of_error right)).mpr related
    · exact (couples_of_error (attempt_of_stop uncaught left) (attempt_of_stop uncaught' right)).mpr related

@[simp]
theorem meets_fail {e : LogError} {post : α → σ → Prop} :
    Meets (fail e) s post failed ↔ failed (.error e) s :=
  Iff.rfl

@[simp]
theorem subU64_of_le {overflowChecks : Bool} {a b : Nat} (le : b ≤ a) :
    (subU64 overflowChecks a b : EStateM Stop σ Nat) = pure (a - b) :=
  if_pos le

@[simp]
theorem addU64_of_lt {overflowChecks : Bool} {a b : Nat} (fits : a + b < 2 ^ 64) :
    (addU64 overflowChecks a b : EStateM Stop σ Nat) = pure (a + b) :=
  if_pos fits

@[simp]
theorem subU32_of_le {overflowChecks : Bool} {a b : Nat} (le : b ≤ a) :
    (subU32 overflowChecks a b : EStateM Stop σ Nat) = pure (a - b) :=
  if_pos le

end Attempt

/-! ## Finding a log in a directory -/

/-- The segment files of one log in a directory. -/
def Dir.files (dir : Dir) (namePrefix nameSuffix : Bytes) (id : SegId) : Option Bytes :=
  dir.lookup (buildName namePrefix id nameSuffix)

/-- The most characters a name prefix or suffix may have. -/
def prefixSuffixMaxChars : Nat := 16

/-- Whether a name prefix or suffix holds a path separator of any platform. -/
def hasPathDelimiter (text : Bytes) : Bool :=
  text.any fun byte => byte = 0x2f ∨ byte = 0x5c

/-- The number of characters of a text in UTF-8: continuation bytes begin none. -/
def charCount (text : Bytes) : Nat :=
  text.countP fun byte => ¬ (0x80 ≤ byte ∧ byte < 0xc0)

/-- Check the arguments common to opening a log for reading and for writing. -/
def checkLogLocation (isDir : Bool) (namePrefix nameSuffix : Bytes) : Except LogError Unit :=
  if hasPathDelimiter namePrefix ∨ hasPathDelimiter nameSuffix then
    .error .pathDelimiterNotAllowed
  else if prefixSuffixMaxChars < charCount namePrefix ∨
      prefixSuffixMaxChars < charCount nameSuffix then
    .error .nameTooLong
  else if isDir then .ok ()
  else .error .invalidPathname

/-- A log's segment files in a directory, oldest first. -/
def scanSegmentIds (dir : Dir) (namePrefix nameSuffix : Bytes) : List SegId :=
  (dir.keys.filterMap fun name => idFromName name namePrefix nameSuffix).insertionSort (· ≤ ·)

theorem mem_scanSegmentIds {dir : Dir} {namePrefix nameSuffix : Bytes} {id : SegId} :
    id ∈ scanSegmentIds dir namePrefix nameSuffix ↔ buildName namePrefix id nameSuffix ∈ dir := by
  simp only [scanSegmentIds, List.mem_insertionSort, List.mem_filterMap, idFromName_eq_some_iff,
    AList.mem_keys]
  constructor
  · rintro ⟨name, mem, rfl⟩
    exact mem
  · exact fun mem => ⟨_, mem, rfl⟩

/-- Every file of a log is listed once, in the order of the identifiers. -/
theorem scanSegmentIds_sorted (dir : Dir) (namePrefix nameSuffix : Bytes) :
    (scanSegmentIds dir namePrefix nameSuffix).Pairwise (· < ·) := by
  have nodup : (scanSegmentIds dir namePrefix nameSuffix).Nodup := by
    rw [scanSegmentIds, (List.perm_insertionSort _ _).nodup_iff]
    refine dir.keys_nodup.filterMap fun name name' id found found' => ?_
    rw [Option.mem_def, idFromName_eq_some_iff] at found found'
    rw [found, found']
  have ordered : (scanSegmentIds dir namePrefix nameSuffix).Pairwise (· ≤ ·) :=
    List.pairwise_insertionSort (fun a b : SegId => a ≤ b) _
  exact (ordered.and nodup).imp fun ⟨le, ne⟩ => UInt64.lt_of_le_of_ne le ne

end Tcslog
