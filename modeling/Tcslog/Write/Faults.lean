import Tcslog.Write.Faithful

/-!
# Writers that meet faults

Whatever requests of its writers fail, a log holds every record that was stored
to its end, and of the others at most a front.
-/

namespace Tcslog

open Lib.Program Lib.Spanned WriteState

/-- A log holds what a journal says was stored, and of what it says was not at
most fronts. -/
structure Mended (L : Log) (journal : Journal) (sizes : UInt32 → Prop) : Prop where
  kept : L.kept = journal.records
  torn : ∀ record ∈ L.torn, record.payload ∈ journal.failed
  numbered : L.Numbered
  held : ∀ σ ∈ L.strands, σ.Held
  sized : ∀ σ ∈ L.strands, sizes σ.segSizeMax

variable {env : WriteEnv} {namePrefix nameSuffix : Bytes} {s t : WriteState} {L L' : Log}
  {journal : Journal} {front : List Strand} {σ σ₁ : Strand} {began : Bool} {record : Record}
  {sizes : UInt32 → Prop}

theorem mended_empty : Mended Log.empty ⟨[], []⟩ sizes :=
  ⟨rfl, by simp [Log.empty, Log.torn], ⟨by simp [Log.empty], by simp [Log.empty]⟩,
    by simp [Log.empty], by simp [Log.empty]⟩

theorem Mended.sizes_of (mended : Mended L journal sizes) {size : UInt32} (isSize : sizes size)
    (sized : Log.Sized size L L') : ∀ σ ∈ L'.strands, sizes σ.segSizeMax := by
  intro σ mem
  rcases sized σ mem with same | ⟨τ, memOld, same⟩
  · exact same ▸ isSize
  · exact same ▸ mended.sized τ memOld

/-- A session that begins holds no record yet. -/
theorem Mended.begin (mended : Mended L journal sizes) (grew : L.Grew true [] L' L.strands σ σ)
    (isSize : sizes σ.segSizeMax) : Mended L' (journal.begin s) sizes := by
  obtain ⟨kept, torn⟩ := grew.unchanged
  refine ⟨?_, ?_, grew.numbered mended.numbered, grew.held (by simp) mended.held,
    mended.sizes_of isSize (grew.sized rfl)⟩
  · rw [kept, mended.kept, Journal.records_begin]
  · rw [torn]
    exact mended.torn

/-- A record that is stored is kept. -/
theorem Mended.noted {returned : Nat} (mended : Mended L journal sizes)
    (grew : L.Grew began [record] L' front σ₁ σ) (full : σ.Full) (isSize : sizes σ.segSizeMax) :
    Mended L' (journal.record s record returned) sizes := by
  obtain ⟨kept, torn⟩ := grew.kept_of_full full
  refine ⟨?_, ?_, grew.numbered mended.numbered, grew.held (by simp) mended.held,
    mended.sizes_of isSize (grew.sized rfl)⟩
  · rw [kept, mended.kept, Journal.records_record]
  · rw [torn, Journal.failed_record]
    exact mended.torn

/-- A record that is not stored to its end leaves at most a front. -/
theorem Mended.failed {msg : Bytes} {size : UInt32} (mended : Mended L journal sizes)
    (lossless : Log.Lossless msg size L L') (isSize : sizes size) :
    Mended L' { journal with failed := journal.failed ++ [msg] } sizes := by
  refine ⟨lossless.kept.trans mended.kept, fun record mem => List.mem_append.mpr ?_,
    lossless.numbered mended.numbered, lossless.held mended.held,
    mended.sizes_of isSize lossless.sized⟩
  rcases lossless.torn record mem with before | isMsg
  · exact .inl (mended.torn record before)
  · exact .inr (by simp [isMsg])

namespace Trail

variable {trail : Trail}

/-- Every `clear` succeeded. -/
def Cleared (trail : Trail) : Prop :=
  ∀ stop, Deed.called .clear stop ∈ trail.deeds → stop = none

theorem Cleared.of_prefix {trail' : Trail} (cleared : trail'.Cleared)
    (grew : trail.deeds <+: trail'.deeds) : trail.Cleared :=
  fun stop mem => cleared stop (grew.mem mem)

/-- Whether a deed is a call of `clear` that failed. -/
def failedClear : Deed → Bool
  | .called .clear stop => stop.isSome
  | _ => false

theorem cleared_iff : trail.Cleared ↔ ∀ deed ∈ trail.deeds, failedClear deed = false := by
  constructor
  · intro cleared deed mem
    cases deed with
    | opened => rfl
    | called call stop =>
        cases call with
        | clear => rw [cleared stop mem]; rfl
        | _ => rfl
  · intro each stop mem
    have ok := each _ mem
    cases stop with
    | none => rfl
    | some stop => contradiction

/-- No call ran into an arithmetic check. -/
def Unchecked (trail : Trail) : Prop :=
  ∀ deed ∈ trail.deeds, deed.stop ≠ some .panic

theorem Unchecked.snoc {trail' : Trail} {deed : Deed} (unchecked : trail.Unchecked)
    (deeds : trail'.deeds = trail.deeds ++ [deed]) (noPanic : deed.stop ≠ some .panic) :
    trail'.Unchecked := by
  intro deed' mem
  rw [deeds] at mem
  rcases List.mem_append.mp mem with before | last
  · exact unchecked deed' before
  · rwa [List.mem_singleton.mp last]

/-- The open writer's log holds what the journal says it stored. -/
structure Robust (env : WriteEnv) (namePrefix nameSuffix : Bytes) (sizes : UInt32 → Prop)
    (trail : Trail) : Prop where
  unchecked : trail.Unchecked
  size : sizes trail.state.segSizeMax
  mended : ∃ L, Alive env namePrefix nameSuffix trail.state L ∧ Mended L trail.journal sizes

/-- What was left in the directory holds what the journal says was stored. -/
structure LeftRobust (namePrefix nameSuffix : Bytes) (sizes : UInt32 → Prop) (trail : Trail) :
    Prop where
  unchecked : trail.Unchecked
  mended : ∃ L, OnDisk (trail.state.dir.files namePrefix nameSuffix) L ∧
    Mended L trail.journal sizes

theorem call_robust (leaves : env.Leaves) (robust : trail.Robust env namePrefix nameSuffix sizes)
    (c : Call) (cleared : (trail.call env c).Cleared) :
    (trail.call env c).Robust env namePrefix nameSuffix sizes := by
  obtain ⟨unchecked, size, L, alive, mended⟩ := robust
  cases c with
  | write msg =>
      have spec := storeRecord_spec msg leaves alive.writing alive.rested
      cases ran : (storeRecord env msg).run trail.state with
      | error stop t =>
          obtain ⟨noPanic, L', writing, args, lossless, rested⟩ := spec.of_error ran
          rw [call_write_of_failed ran]
          refine ⟨unchecked.snoc rfl (by simpa [Deed.stop] using noPanic), args.segSizeMax ▸ size, L',
            ⟨writing, args.namePrefix.trans alive.namePrefix,
              args.nameSuffix.trans alive.nameSuffix, rested⟩, mended.failed lossless size⟩
      | ok total t =>
          obtain ⟨_, began, record, L', front, σ₁, σ, isMsg, stored⟩ := spec.of_ok ran
          obtain ⟨u, stop, did, noPanic, isCall⟩ := call_write_of_stored ran
          obtain ⟨cur, _, pen⟩ := stored.pen
          have sizeU : u.segSizeMax = trail.state.segSizeMax := by
            rw [did.same]
            exact stored.onward.args.segSizeMax
          rw [isCall]
          refine ⟨unchecked.snoc rfl ?_, sizeU ▸ size, L', (alive.stored stored).did did, ?_⟩
          · rcases noPanic with rfl | rfl <;> simp [Deed.stop]
          · rw [stored.record_eq did isMsg]
            refine mended.noted stored.grew stored.full ?_
            rw [pen.segSizeMax, stored.onward.args.segSizeMax]
            exact size
  | flush =>
      have spec := flush_spec env trail.state
      rw [call_flush]
      cases ran : (Tcslog.flush env).run trail.state with
      | ok a t =>
          have did := spec.of_ok ran
          rw [ending_of_ok ran]
          refine ⟨unchecked.snoc rfl (by simp [Deed.stop, stopOf]), ?_, L, alive.did did, mended⟩
          rw [did.same]
          exact size
      | error stop t =>
          obtain ⟨noPanic, did⟩ := spec.of_error ran
          rw [ending_of_error ran]
          refine ⟨unchecked.snoc rfl (by simpa [Deed.stop, stopOf] using noPanic), ?_, L,
            alive.did did, mended⟩
          rw [did.same]
          exact size
  | clear =>
      cases ran : (Tcslog.clear env).run trail.state with
      | error stop t =>
          rw [call_clear_of_error ran] at cleared
          have := cleared (some stop) (by simp)
          contradiction
      | ok a t =>
          obtain ⟨args, closed, none⟩ := (clear_spec _ _).of_ok ran
          rw [call_clear_of_ok ran]
          exact ⟨unchecked.snoc rfl (by simp [Deed.stop]), args.segSizeMax ▸ size, Log.empty,
            alive.cleared args closed none, mended_empty⟩

theorem calls_robust (leaves : env.Leaves) (robust : trail.Robust env namePrefix nameSuffix sizes)
    (calls : List Call) (cleared : (calls.foldl (call env) trail).Cleared) :
    (calls.foldl (call env) trail).Robust env namePrefix nameSuffix sizes := by
  induction calls generalizing trail with
  | nil => exact robust
  | cons c calls ih =>
      have here := cleared.of_prefix (deeds_calls env (trail.call env c) calls)
      exact ih (call_robust leaves robust c here) cleared

theorem live_robust (leaves : env.Leaves) {life : Life}
    (names : life.args.namePrefix = namePrefix ∧ life.args.nameSuffix = nameSuffix)
    (size : sizes life.args.segSizeMax) (left : trail.LeftRobust namePrefix nameSuffix sizes)
    (cleared : (trail.live env life).Cleared) :
    (trail.live env life).LeftRobust namePrefix nameSuffix sizes := by
  obtain ⟨unchecked, L, disk, mended⟩ := left
  obtain ⟨rfl, rfl⟩ := names
  cases ran : (LogWrite.new env life.args).run trail.state with
  | error stop t =>
      obtain ⟨noPanic, disk'⟩ := (new_spec leaves disk).of_error ran
      rw [live_of_error ran]
      exact ⟨unchecked.snoc rfl (by simpa [Deed.stop] using noPanic), L, disk', mended⟩
  | ok a t =>
      obtain ⟨L', σ, opened⟩ := (new_spec leaves disk).of_ok ran
      obtain ⟨cur, _, pen⟩ := opened.pen
      have sizeT : sizes t.segSizeMax := opened.segSizeMax ▸ size
      rw [live_of_ok ran] at cleared ⊢
      have robust : Robust env life.args.namePrefix life.args.nameSuffix sizes
          ⟨t, trail.deeds ++ [.opened life.args none], trail.journal.begin t⟩ :=
        ⟨unchecked.snoc rfl (by simp [Deed.stop]), sizeT, L',
          ⟨opened.writing, opened.namePrefix, opened.nameSuffix, fun _ => opened.rested⟩,
          mended.begin opened.grew (pen.segSizeMax ▸ sizeT)⟩
      obtain ⟨unchecked', _, L'', alive, mended'⟩ := calls_robust leaves robust life.calls cleared
      refine ⟨unchecked', L'', ?_, mended'⟩
      have files := alive.files
      rw [dir_drop leaves, openedOn, ← files]
      exact alive.writing.disk

/-- Writers leave what they stored, as long as each `clear` succeeded. -/
theorem run_robust (sizes : UInt32 → Prop) (leaves : env.Leaves) {dir : Dir} {lives : List Life}
    (empty : ∀ id, dir.files namePrefix nameSuffix id = none)
    (names : ∀ life ∈ lives, life.args.namePrefix = namePrefix ∧ life.args.nameSuffix = nameSuffix)
    (size : ∀ life ∈ lives, sizes life.args.segSizeMax) (cleared : (run env dir lives).Cleared) :
    (run env dir lives).LeftRobust namePrefix nameSuffix sizes := by
  have started : (start dir).LeftRobust namePrefix nameSuffix sizes :=
    ⟨by simp [Unchecked, start], Log.empty, (onDisk_empty empty).1, mended_empty⟩
  unfold run at cleared ⊢
  generalize start dir = trail at started cleared
  induction lives generalizing trail with
  | nil => exact started
  | cons life lives ih =>
      have here := cleared.of_prefix (deeds_lives (trail.live env life) lives)
      exact ih (fun life' mem => names life' (List.mem_cons_of_mem _ mem))
        (fun life' mem => size life' (List.mem_cons_of_mem _ mem)) _
        (live_robust leaves (names life List.mem_cons_self) (size life List.mem_cons_self) started
          here) cleared

end Trail

end Tcslog
