import Tcslog.Write.Pen
import Mathlib.Data.List.Chain

/-!
# What becomes of a log while a record is written

A write goes on from the last strand or begins a session, and adds its record
there.  A write that fails leaves at most the front of its record behind, at the
end of a strand; every record stored before stays as it was.
-/

namespace Tcslog

open Lib.Spanned

namespace Strand

/-- Every record is stored to its end. -/
def Full (σ : Strand) : Prop :=
  σ.stored = σ.blocks.flatten.length

instance (σ : Strand) : Decidable σ.Full :=
  inferInstanceAs (Decidable (σ.stored = σ.blocks.flatten.length))

/-- The records that are stored to their end. -/
def kept (σ : Strand) : List Record :=
  if σ.Full then σ.records else σ.records.dropLast

/-- The record that is stored in part. -/
def torn (σ : Strand) : List Record :=
  if σ.Full then [] else σ.records.getLast?.toList

/-- At most the last record is not stored to its end. -/
def Held (σ : Strand) : Prop :=
  σ.start (σ.records.length - 1) ≤ σ.stored

/-- The strand `τ` is `σ`, perhaps with more files, records and bytes. -/
structure Continues (σ τ : Strand) : Prop where
  sessionId : τ.sessionId = σ.sessionId
  segSizeMax : τ.segSizeMax = σ.segSizeMax
  format : τ.format = σ.format
  firstSequence : τ.firstSequence = σ.firstSequence
  ids : σ.ids <+: τ.ids
  stored : σ.stored ≤ τ.stored

theorem Continues.refl (σ : Strand) : Continues σ σ :=
  ⟨rfl, rfl, rfl, rfl, List.prefix_rfl, Nat.le_refl _⟩

theorem Continues.trans {σ τ ρ : Strand} (first : Continues σ τ) (second : Continues τ ρ) :
    Continues σ ρ :=
  ⟨second.sessionId.trans first.sessionId, second.segSizeMax.trans first.segSizeMax,
    second.format.trans first.format, second.firstSequence.trans first.firstSequence,
    first.ids.trans second.ids, first.stored.trans second.stored⟩

/-- Strand `σ` carries on the numbering of strand `τ`, or begins a session. -/
def Follows (τ σ : Strand) : Prop :=
  σ.firstSequence = 0 ∧ τ.sessionId ≠ σ.sessionId ∨
    σ.sessionId = τ.sessionId ∧ σ.firstSequence = τ.firstSequence + τ.ids.length

end Strand

namespace Log

/-- The records of a log that are stored to their end. -/
def kept (L : Log) : List Record :=
  L.strands.flatMap Strand.kept

/-- The records of a log that are stored in part. -/
def torn (L : Log) : List Record :=
  L.strands.flatMap Strand.torn

/-- The files of each session are numbered from zero on. -/
structure Numbered (L : Log) : Prop where
  first : ∀ σ, L.strands.head? = some σ → σ.firstSequence = 0
  follows : L.strands.IsChain Strand.Follows

/-- The files of each strand are as large as `size` allows, or as those of a
strand of the first log are. -/
def Sized (size : UInt32) (L L' : Log) : Prop :=
  ∀ σ ∈ L'.strands, σ.segSizeMax = size ∨ ∃ τ ∈ L.strands, τ.segSizeMax = σ.segSizeMax

/-- No record was lost and none was stored, but for a front of `msg`. -/
structure Lossless (msg : Bytes) (size : UInt32) (L L' : Log) : Prop where
  kept : L'.kept = L.kept
  torn : ∀ record ∈ L'.torn, record ∈ L.torn ∨ record.payload = msg
  numbered : L.Numbered → L'.Numbered
  held : (∀ σ ∈ L.strands, σ.Held) → ∀ σ ∈ L'.strands, σ.Held
  sized : Sized size L L'

theorem Lossless.refl (msg : Bytes) (size : UInt32) (L : Log) : Lossless msg size L L :=
  ⟨rfl, fun _ mem => .inl mem, fun numbered => numbered, fun held => held,
    fun σ mem => .inr ⟨σ, mem, rfl⟩⟩

theorem Lossless.trans {msg : Bytes} {size : UInt32} {L L' L'' : Log}
    (first : Lossless msg size L L') (second : Lossless msg size L' L'') :
    Lossless msg size L L'' := by
  refine ⟨second.kept.trans first.kept, fun record mem => ?_,
    fun numbered => second.numbered (first.numbered numbered),
    fun held => second.held (first.held held), fun σ mem => ?_⟩
  · rcases second.torn record mem with before | isMsg
    · exact first.torn record before
    · exact .inr isMsg
  · rcases second.sized σ mem with isSize | ⟨τ, memOld, same⟩
    · exact .inl isSize
    · exact same ▸ first.sized τ memOld

/-- The log `L'` is `L` with the records `more` added to a strand: the last, or
one that begins a session. -/
structure Grew (L : Log) (began : Bool) (more : List Record) (L' : Log) (front : List Strand)
    (σ₁ σ : Strand) : Prop where
  ends : L'.EndsWith front σ
  base : if began then front = L.strands ∧ σ₁.records = [] ∧ σ₁.firstSequence = 0 ∧
      σ₁.ids = [σ₁.sessionId] ∧ ∀ τ ∈ L.strands, τ.sessionId < σ₁.sessionId
    else L.EndsWith front σ₁
  full : σ₁.Full
  continues : Strand.Continues σ₁ σ
  records : σ.records = σ₁.records ++ more

variable {L L' : Log} {began : Bool} {more : List Record} {front : List Strand} {σ₁ σ : Strand}

theorem strand_kept_of_full (full : σ.Full) : σ.kept = σ.records :=
  if_pos full

theorem strand_torn_of_full (full : σ.Full) : σ.torn = [] :=
  if_pos full

theorem Grew.kept_base (grew : Grew L began more L' front σ₁ σ) :
    L.kept = front.flatMap Strand.kept ++ σ₁.records := by
  have base := grew.base
  cases began with
  | true =>
      obtain ⟨rfl, none, _⟩ := base
      rw [none, List.append_nil]
      rfl
  | false =>
      rw [kept, show L.strands = front ++ [σ₁] from base, List.flatMap_append,
        List.flatMap_singleton, strand_kept_of_full grew.full]

theorem Grew.torn_base (grew : Grew L began more L' front σ₁ σ) :
    L.torn = front.flatMap Strand.torn := by
  have base := grew.base
  cases began with
  | true =>
      obtain ⟨rfl, _⟩ := base
      rfl
  | false =>
      rw [torn, show L.strands = front ++ [σ₁] from base, List.flatMap_append,
        List.flatMap_singleton, strand_torn_of_full grew.full, List.append_nil]

/-- What the strand at the end keeps is all that a growing log's records can
change. -/
theorem Grew.kept (grew : Grew L began more L' front σ₁ σ) :
    L'.kept = front.flatMap Strand.kept ++ σ.kept := by
  rw [Log.kept, grew.ends, List.flatMap_append, List.flatMap_singleton]

theorem Grew.torn (grew : Grew L began more L' front σ₁ σ) :
    L'.torn = front.flatMap Strand.torn ++ σ.torn := by
  rw [Log.torn, grew.ends, List.flatMap_append, List.flatMap_singleton]

theorem Grew.numbered (grew : Grew L began more L' front σ₁ σ) (numbered : L.Numbered) :
    L'.Numbered := by
  have same := grew.continues
  have base := grew.base
  have follows {τ : Strand} (before : Strand.Follows τ σ₁) : Strand.Follows τ σ := by
    rw [Strand.Follows, same.firstSequence, same.sessionId]
    exact before
  cases began with
  | true =>
      obtain ⟨rfl, _, zero, _, later⟩ := base
      refine ⟨fun τ first => ?_, ?_⟩
      · rw [grew.ends, List.head?_append] at first
        cases head : L.strands.head? with
        | none =>
            simp only [head, List.head?_cons, Option.none_or, Option.some.injEq] at first
            rw [← first, same.firstSequence, zero]
        | some ρ =>
            simp only [head, Option.some_or, Option.some.injEq] at first
            exact numbered.first τ (head.trans (congrArg some first))
      · rw [grew.ends]
        refine List.isChain_append.mpr ⟨numbered.follows, .singleton _, fun τ last ρ first => ?_⟩
        obtain rfl : σ = ρ := by simpa using first
        refine follows (.inl ⟨zero, fun equal => ?_⟩)
        exact UInt64.lt_irrefl _ (equal ▸ later τ (List.mem_of_getLast? last))
  | false =>
      have split : L.strands = front ++ [σ₁] := base
      obtain ⟨first, chain⟩ := numbered
      rw [split] at first chain
      refine ⟨fun τ isFirst => ?_, ?_⟩
      · rw [grew.ends, List.head?_append] at isFirst
        rw [List.head?_append] at first
        cases head : front.head? with
        | none =>
            simp only [head, List.head?_cons, Option.none_or, Option.some.injEq] at isFirst first
            rw [← isFirst, same.firstSequence]
            exact first σ₁ rfl
        | some ρ =>
            simp only [head, Option.some_or] at isFirst first
            exact first τ isFirst
      · rw [grew.ends]
        obtain ⟨chainFront, _, joins⟩ := List.isChain_append.mp chain
        refine List.isChain_append.mpr ⟨chainFront, .singleton _, fun τ last ρ first => ?_⟩
        obtain rfl : σ = ρ := by simpa using first
        exact follows (joins τ last σ₁ (by simp))

/-- What was stored of the strand before its new records is still stored. -/
theorem Grew.base_stored (grew : Grew L began more L' front σ₁ σ) :
    σ.start σ₁.records.length ≤ σ.stored := by
  have full : σ₁.stored = σ₁.blocks.flatten.length := grew.full
  have same : σ.start σ₁.records.length = σ₁.blocks.flatten.length := by
    rw [Strand.start, Strand.blocks, grew.records, List.map_append, ← σ₁.length_blocks,
      offset_append_of_le _ _ (by simp)]
    exact offset_length _
  rw [same, ← full]
  exact grew.continues.stored

theorem Grew.held (grew : Grew L began more L' front σ₁ σ) (one : more.length ≤ 1)
    (held : ∀ τ ∈ L.strands, τ.Held) : ∀ τ ∈ L'.strands, τ.Held := by
  intro τ mem
  rw [grew.ends] at mem
  rcases List.mem_append.mp mem with before | last
  · have base := grew.base
    cases began with
    | true =>
        obtain ⟨rfl, _⟩ := base
        exact held τ before
    | false =>
        refine held τ ?_
        rw [show L.strands = front ++ [σ₁] from base]
        exact List.mem_append_left _ before
  · rw [List.mem_singleton.mp last, Strand.Held]
    refine le_trans (Strand.start_mono ?_) grew.base_stored
    rw [grew.records, List.length_append]
    omega

/-- A strand that has grown without new records is as full as it was. -/
theorem Grew.full_of_nil (grew : Grew L began [] L' front σ₁ σ) : σ.Full := by
  have stored := grew.base_stored
  have records := grew.records
  rw [List.append_nil] at records
  rw [← records, Strand.start_length] at stored
  exact le_antisymm σ.storedLe stored

theorem Grew.sized {size : UInt32} (grew : Grew L began more L' front σ₁ σ)
    (size_ : σ.segSizeMax = size) : Sized size L L' := by
  intro τ mem
  rw [grew.ends] at mem
  rcases List.mem_append.mp mem with before | last
  · refine .inr ⟨τ, ?_, rfl⟩
    have base := grew.base
    cases began with
    | true => exact base.1 ▸ before
    | false =>
        rw [show L.strands = front ++ [σ₁] from base]
        exact List.mem_append_left _ before
  · rw [List.mem_singleton.mp last]
    exact .inl size_

/-- A strand that begins or has grown without new records changes nothing. -/
theorem Grew.unchanged (grew : Grew L began [] L' front σ₁ σ) :
    L'.kept = L.kept ∧ L'.torn = L.torn := by
  have full := grew.full_of_nil
  rw [grew.kept, grew.kept_base, grew.torn, grew.torn_base, strand_kept_of_full full,
    strand_torn_of_full full, grew.records, List.append_nil, List.append_nil]
  exact ⟨rfl, rfl⟩

/-- While its last record is not stored to the end, nothing else has changed. -/
theorem Grew.lossless (msg : Bytes) {size : UInt32} (grew : Grew L began more L' front σ₁ σ)
    (part : more = [] ∨ ¬ σ.Full ∧ ∃ record : Record, more = [record] ∧ record.payload = msg)
    (size_ : σ.segSizeMax = size) : Lossless msg size L L' := by
  have keeps : σ.kept = σ₁.records ∧ ∀ record ∈ σ.torn, record.payload = msg := by
    rcases part with rfl | ⟨notFull, record, rfl, isMsg⟩
    · have full := grew.full_of_nil
      rw [strand_kept_of_full full, strand_torn_of_full full, grew.records, List.append_nil]
      exact ⟨rfl, by simp⟩
    · rw [Strand.kept, if_neg notFull, Strand.torn, if_neg notFull, grew.records]
      simp [isMsg]
  refine ⟨?_, fun record mem => ?_, grew.numbered, grew.held ?_, grew.sized size_⟩
  · rw [grew.kept, grew.kept_base, keeps.1]
  · rw [grew.torn] at mem
    rw [grew.torn_base]
    exact (List.mem_append.mp mem).imp_right (keeps.2 record)
  · rcases part with rfl | ⟨_, record, rfl, _⟩ <;> simp

/-- A record stored to its end is kept, after those kept before. -/
theorem Grew.kept_of_full {record : Record} (grew : Grew L began [record] L' front σ₁ σ)
    (full : σ.Full) : L'.kept = L.kept ++ [record] ∧ L'.torn = L.torn := by
  rw [grew.kept, grew.kept_base, grew.torn, grew.torn_base, strand_kept_of_full full,
    strand_torn_of_full full, grew.records, List.append_assoc, List.append_nil]
  exact ⟨rfl, rfl⟩

/-- A strand without records after one left short loses nothing. -/
theorem lossless_push {msg : Bytes} {size : UInt32} {before : ∀ τ ∈ L.strands, τ.Before σ}
    (ends : L.EndsWith front σ₁) (none : σ.records = []) (sessionId : σ.sessionId = σ₁.sessionId)
    (firstSequence : σ.firstSequence = σ₁.firstSequence + σ₁.ids.length)
    (size_ : σ.segSizeMax = size) : Lossless msg size L (L.push σ before) := by
  have full : σ.Full := by
    have stored : σ.stored ≤ σ.blocks.flatten.length := σ.storedLe
    have empty : σ.blocks = [] := by rw [Strand.blocks, none, List.map_nil]
    rw [empty] at stored
    rw [Strand.Full, empty]
    simpa using stored
  refine ⟨?_, fun record mem => .inl ?_, fun numbered => ⟨fun τ first => ?_, ?_⟩,
    fun held τ mem => ?_, fun τ mem => ?_⟩
  · rw [kept, push, List.flatMap_append, List.flatMap_singleton, strand_kept_of_full full, none,
      List.append_nil]
    rfl
  · rw [torn, push, List.flatMap_append, List.flatMap_singleton, strand_torn_of_full full,
      List.append_nil] at mem
    exact mem
  · refine numbered.first τ ?_
    have nonempty : L.strands ≠ [] := by rw [ends]; simp
    rwa [push, List.head?_append_of_ne_nil _ nonempty] at first
  · refine List.isChain_append.mpr ⟨numbered.follows, .singleton _, fun τ last ρ first => ?_⟩
    obtain rfl : σ = ρ := by simpa using first
    obtain rfl : σ₁ = τ := by simpa [show L.strands = front ++ [σ₁] from ends] using last
    exact .inr ⟨sessionId, firstSequence⟩
  · rcases List.mem_append.mp mem with old | new
    · exact held τ old
    · rw [List.mem_singleton.mp new, Strand.Held, none]
      simp
  · rcases List.mem_append.mp mem with old | new
    · exact .inr ⟨τ, old, rfl⟩
    · rw [List.mem_singleton.mp new]
      exact .inl size_

end Log

end Tcslog
