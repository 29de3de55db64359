import Tcslog.Write.Records

/-!
# The calls of a writer

What each call makes of the log.  A record that is stored stands at the end of
the last strand, which a write that begins a session begins.
-/

namespace Tcslog

open Lib.Program Lib.Spanned Lib.LittleEndian WriteState

variable {env : WriteEnv} {s t u : WriteState} {L L₀ L' : Log} {cur : Current} {front : List Strand}
  {σ σ₁ : Strand} {began : Bool} {msg : Bytes}

/-- Two states that differ in nothing a log depends on. -/
structure Kept (s s' : WriteState) : Prop where
  same : s' = { s with
    ops := s'.ops, events := s'.events, timerResolution := s'.timerResolution
    recordCount := s'.recordCount, lastMeta := s'.lastMeta }
  later : s.ops ≤ s'.ops

theorem Kept.of_did (did : s.Did s.dir t) : Kept s t :=
  ⟨by rw [did.same], did.later⟩

theorem Kept.files (kept : Kept s t) : t.files = s.files := by
  rw [kept.same]
  rfl

theorem Writing.kept (writing : Writing env s L) (kept : Kept s t) : Onward env s L t L := by
  have same := kept.same
  have files := kept.files
  have later := kept.later
  have clock : t.clock = s.clock := by rw [same]
  refine ⟨⟨?_, files ▸ writing.disk, fun id present => ?_, fun cur current => ?_⟩,
    ⟨?_, ?_, ?_, ?_, clock, later⟩, fun noStray => files ▸ noStray⟩
  · have able := writing.able
    rw [same]
    exact ⟨able.roomy, able.formatValid, able.clock⟩
  · rw [clock]
    exact (writing.past id (files ▸ present)).trans (env.reading_mono _ later)
  · obtain ⟨front, σ, pen⟩ := writing.pen cur (by rw [same] at current; exact current)
    refine ⟨front, σ, pen.of_same ?_ ?_ ?_ ?_ ?_⟩ <;> rw [same]
  all_goals rw [same]

/-! ## The data header -/

/-- The payloads a writer's format takes. -/
def Format.Takes (format : Format) (len : Nat) : Prop :=
  format.refusesLen len = false ∧ len ≤ u32Max ∧ format.dataHeaderLen + len ≤ u32Max

theorem buildDataHeader_spec (able : s.toLogWrite.Able) (takes : s.format.Takes msg.length)
    (count : s.format = .variableTsRc → s.recordCount < recordCountMax) :
    Meets (buildDataHeader env msg.length) s
      (fun built s' => Kept s s' ∧
        built.1 = built.2.dataHeader msg.length ∧ (⟨msg, built.2⟩ : Record).Fits s.format)
      (fun stop s' => stop ≠ .panic ∧ s.Did s.dir s') := by
  obtain ⟨takesLen, small, totalSmall⟩ := takes
  simp only [buildDataHeader, meets_ite, meets_fail]
  refine ⟨fun tooLong => absurd small (Nat.not_le_of_lt tooLong), fun _ => ?_⟩
  simp only [meets_bind, meets_get]
  cases format : s.format with
  | fixed n =>
      simp only [meets_pure]
      refine ⟨.of_did (.refl s), rfl, ?_, ?_⟩
      · rw [format] at takesLen
        simpa [Format.refusesLen] using takesLen
      · have valid := able.formatValid
        rw [format] at valid
        exact UInt32.pos_iff_ne_zero.mpr fun zero => valid (by rw [zero])
  | variableSimple =>
      simp only [meets_pure]
      rw [format] at totalSmall
      exact ⟨.of_did (.refl s), rfl, totalSmall⟩
  | variableTsRc =>
      simp only [meets_bind]
      refine now_spec.imp ?_ (by rintro stop _ ⟨⟨e, error⟩, did⟩; exact ⟨by simp [error], did⟩)
      rintro ts t ⟨did, _, _, tsSmall⟩
      have counted : t.recordCount = s.recordCount := by rw [did.same]
      have room := count format
      rw [format] at totalSmall
      simp only [meets_modify, meets_get, meets_pure, counted]
      have rc : (UInt64.ofNat (s.recordCount + 1)).toNat = s.recordCount + 1 := by
        unfold recordCountMax at room
        rw [UInt64.toNat_ofNat']
        omega
      have tsNat : (UInt64.ofNat ts).toNat = ts := by
        unfold u64Max at tsSmall
        rw [UInt64.toNat_ofNat']
        omega
      refine ⟨?_, ?_, totalSmall, ?_⟩
      · refine ⟨?_, did.later⟩
        rw [did.same]
      · simp only [Meta.dataHeader, rc, tsNat]
        rfl
      · rw [rc]
        omega

/-! ## Storing a record -/

/-- The writer is ready to append a record to the open file. -/
structure Poised (env : WriteEnv) (s : WriteState) (L₀ : Log) (began : Bool) (s' : WriteState)
    (L : Log) (cur : Current) (front : List Strand) (σ₁ σ : Strand) : Prop where
  onward : Onward env s L₀ s' L
  current : s'.current = some cur
  pen : Pen s' L cur front σ
  grew : L₀.Grew began [] L front σ₁ σ
  rested : s'.recordBytesLeft = 0
  count : s'.format = .variableTsRc → s'.recordCount < recordCountMax

/-- The writer stored a record. -/
structure Stored (env : WriteEnv) (s : WriteState) (L₀ : Log) (began : Bool) (record : Record)
    (s' : WriteState) (L : Log) (front : List Strand) (σ₁ σ : Strand) : Prop where
  onward : Onward env s L₀ s' L
  pen : ∃ cur, s'.current = some cur ∧ Pen s' L cur front σ
  grew : L₀.Grew began [record] L front σ₁ σ
  full : σ.Full
  rested : s'.recordBytesLeft = 0
  lastMeta : s'.lastMeta = record.metadata

theorem ensureSession_spec (leaves : env.Leaves) (writing : Writing env s L) (rested : s.Rested) :
    Meets (ensureSession env) s
      (fun _ t => ∃ began L' cur front σ₁ σ, Poised env s L began t L' cur front σ₁ σ)
      (fun stop t => stop ≠ .panic ∧ WriteFailed env s L msg t) := by
  have started {t : WriteState} (writing : Writing env t L) (idle : t.current = none)
      (first : Onward env s L t L) : Meets (startSession env) t
        (fun _ u => ∃ began L' cur front σ₁ σ, Poised env s L began u L' cur front σ₁ σ)
        (fun stop u => stop ≠ .panic ∧ WriteFailed env s L msg u) := by
    refine (startSession_spec writing idle).imp ?_ ?_
    · rintro _ u ⟨L', σ, cur, onward, current, pen, grew, rested, count⟩
      refine ⟨true, L', cur, L.strands, σ, σ, first.trans onward, current, pen, grew, rested,
        fun _ => ?_⟩
      rw [count]
      decide
    · rintro stop u ⟨noPanic, stopped⟩
      exact ⟨noPanic, (stopped.after first.args).failed (.refl ..)⟩
  simp only [ensureSession, meets_bind, meets_get, meets_ite, meets_pure]
  refine ⟨fun idle => started writing idle (.refl writing), fun isOpen => ⟨fun _ => ?_,
    fun notFull => ?_⟩⟩
  · refine (closeAndSend_spec leaves).imp ?_ ?_
    · rintro _ t did
      refine started (writing.close did) (by rw [did.current])
        ⟨writing.close did, sameArgs_close did, ?_⟩
      rw [did.files_same]
      exact fun noStray => noStray
    · rintro stop t ⟨rfl, did⟩
      refine ⟨by simp, Stopped.failed ⟨writing.close did, sameArgs_close did, ?_⟩ (.refl ..)⟩
      rw [did.current]
  · obtain ⟨cur, current⟩ := Option.ne_none_iff_exists'.mp isOpen
    obtain ⟨front, σ, pen⟩ := writing.pen cur current
    have atRest := rested (by simp [current])
    refine ⟨false, L, cur, front, σ, σ, .refl writing, current, pen, ?_, atRest, fun format => ?_⟩
    · exact ⟨pen.ends, pen.ends, pen.full atRest, .refl σ, (List.append_nil _).symm⟩
    · rw [not_and, not_le] at notFull
      exact notFull format

/-- The record that is about to be written begins at the end of the last
strand. -/
theorem Rolled.midway {τ : Strand} {v : WriteState} {metadata : Meta}
    (poised : Poised env s L₀ began t L cur front σ₁ σ) {L₂ : Log} {cur₂ : Current}
    (rolled : Rolled env t L front σ u L₂ cur₂ τ) (room : cur₂.dataWritten < τ.dataSection)
    (counted : Kept u v)
    (fits : (⟨msg, metadata⟩ : Record).Fits u.format) :
    ∃ L₃ τ', Midway env L₀ began ⟨msg, metadata⟩
        { v with recordBytesLeft := t.format.dataHeaderLen + msg.length } L₃ cur₂ front σ₁ τ' ∧
      Onward env s L₀ { v with recordBytesLeft := t.format.dataHeaderLen + msg.length } L₃ ∧
      τ'.stored = τ.blocks.flatten.length ∧
      τ'.blocks = τ.blocks ++ [(⟨msg, metadata⟩ : Record).encode] := by
  have pen := rolled.pen
  have atRest : u.recordBytesLeft = 0 := rolled.left.trans poised.rested
  have same := counted.same
  have kept := rolled.onward.writing.kept counted
  have fits' : (⟨msg, metadata⟩ : Record).Fits τ.format := by
    rw [pen.format]
    exact fits
  have before : ∀ ρ ∈ front, ρ.Before (τ.addRecord ⟨msg, metadata⟩ fits') := by
    intro ρ mem
    have old := pen.ends.before ρ mem
    exact ⟨old.ids, old.session⟩
  have full : τ.stored = τ.blocks.flatten.length := pen.full atRest
  have format : u.format = t.format := rolled.onward.args.format
  have writing := kept.writing
  have penEnds : (L₂.revise front τ _ pen.ends before).EndsWith front
    (τ.addRecord ⟨msg, metadata⟩ fits') := rfl
  have pen' : Pen { v with recordBytesLeft := t.format.dataHeaderLen + msg.length }
      (L₂.revise front τ _ pen.ends before) cur₂ front (τ.addRecord ⟨msg, metadata⟩ fits') := by
    refine ⟨penEnds, pen.last, ?_, ?_, ?_, ?_, ?_, pen.written, ?_⟩
    · rw [same]
      exact pen.sessionId
    · rw [same]
      exact pen.segSizeMax
    · rw [same]
      exact pen.format
    · rw [same]
      exact pen.sequence
    · rw [same]
      exact pen.low
    · have len := fits'.length_encode
      rw [pen.format, format] at len
      rw [Strand.blocks_addRecord, List.flatten_append, List.length_append, List.flatten_singleton,
        len, ← full]
      rfl
  have current : v.current = some cur₂ := by
    rw [same]
    exact rolled.current
  have writing' : Writing env { v with recordBytesLeft := t.format.dataHeaderLen + msg.length }
      (L₂.revise front τ _ pen.ends before) := by
    refine ⟨⟨writing.able.roomy, writing.able.formatValid, writing.able.clock⟩,
      writing.disk.addRecord pen.ends, writing.past, fun cur isCurrent => ?_⟩
    obtain rfl := Option.some.inj (current.symm.trans isCurrent)
    exact ⟨front, _, pen'⟩
  have grew : L₀.Grew began [⟨msg, metadata⟩] (L₂.revise front τ _ pen.ends before) front σ₁
      (τ.addRecord ⟨msg, metadata⟩ fits') := by
    have base := poised.grew.onto pen.ends rolled.continues rolled.records
    refine ⟨penEnds, base.base, base.full, ?_, ?_⟩
    · exact base.continues.trans ⟨rfl, rfl, rfl, rfl, List.prefix_rfl, Nat.le_refl _⟩
    · change τ.records ++ [_] = _
      rw [base.records, List.append_nil]
  have onward := (poised.onward.trans rolled.onward).trans kept
  refine ⟨_, _, ⟨writing', current, pen', grew, .inl room⟩, ⟨writing', ?_, fun noStray id there => ?_⟩,
    full, Strand.blocks_addRecord _ _⟩
  · exact ⟨onward.args.namePrefix, onward.args.nameSuffix, onward.args.segSizeMax,
      onward.args.format, onward.args.clock, onward.args.later⟩
  · exact fileAt_revise pen.ends before List.prefix_rfl id
      (onward.noStray noStray id there)

/-- Appending a record stores it whole, or fails and loses nothing else. -/
theorem appendRecord_spec (leaves : env.Leaves)
    (poised : Poised env s L₀ began t L cur front σ₁ σ) (takes : t.format.Takes msg.length) :
    Meets (appendRecord env msg (t.format.dataHeaderLen + msg.length)) t
      (fun _ u => ∃ record L' σ', record.payload = msg ∧
        Stored env s L₀ began record u L' front σ₁ σ')
      (fun stop u => stop ≠ .panic ∧ WriteFailed env s L₀ msg u) := by
  have args := poised.onward.args
  have lossless := poised.grew.lossless msg (.inl rfl)
    (poised.pen.segSizeMax.trans args.segSizeMax)
  simp only [appendRecord, meets_bind]
  refine (rollIfFull_spec leaves poised.onward.writing poised.current poised.pen
    fun _ => poised.pen.owed_rested poised.rested).imp ?_ ?_
  · rintro _ u ⟨L₂, cur₂, τ, rolled, room⟩
    have grew₂ := poised.grew.onto rolled.pen.ends rolled.continues rolled.records
    have onward₂ := poised.onward.trans rolled.onward
    have format : u.format = t.format := rolled.onward.args.format
    rw [← format] at takes
    refine (buildDataHeader_spec onward₂.writing.able takes fun isCounted => ?_).imp ?_ ?_
    · rw [rolled.count]
      exact poised.count (format ▸ isCounted)
    · rintro ⟨built, metadata⟩ v ⟨counted, isBuilt, fits⟩
      dsimp only at isBuilt fits
      simp only [meets_modify]
      obtain ⟨L₃, τ', mid, onward₃, atEnd, blocks⟩ := rolled.midway poised room counted fits
      have rest : τ'.blocks.flatten.drop τ'.stored = built ++ msg := by
        rw [atEnd, blocks, List.flatten_append, List.drop_left, List.flatten_singleton, Record.encode,
          ← isBuilt]
      have next : (τ'.blocks.flatten.drop τ'.stored).take built.length = built := by
        rw [rest, List.take_left]
      refine (writeBytes_spec leaves mid next).imp ?_ ?_
      · rintro _ w ⟨L₄, cur₄, ρ, mid₄, onward₄, records₄, stored₄⟩
        have blocks₄ : ρ.blocks = τ'.blocks := by rw [Strand.blocks, records₄, Strand.blocks]
        have next₄ : (ρ.blocks.flatten.drop ρ.stored).take msg.length = msg := by
          rw [blocks₄, stored₄, ← List.drop_drop, rest, List.drop_left, List.take_length]
        refine (writeBytes_spec leaves mid₄ next₄).imp ?_ ?_
        · rintro _ x ⟨L₅, cur₅, ρ', mid₅, onward₅, records₅, stored₅⟩
          have counted₅ : Kept x { x with lastMeta := metadata } := ⟨rfl, Nat.le_refl _⟩
          have kept := mid₅.writing.kept counted₅
          have full : ρ'.Full := by
            have len := congrArg List.length rest
            rw [List.length_drop, List.length_append] at len
            have within : τ'.stored ≤ τ'.blocks.flatten.length := τ'.storedLe
            rw [Strand.Full, stored₅, stored₄, Strand.blocks, records₅, ← Strand.blocks, blocks₄]
            omega
          have left := mid₅.pen.left
          refine ⟨⟨msg, metadata⟩, L₅, ρ', rfl, ((onward₃.trans onward₄).trans onward₅).trans kept,
            ⟨cur₅, mid₅.current, mid₅.pen.of_same rfl rfl rfl rfl rfl⟩, mid₅.grew, full, ?_, rfl⟩
          unfold Strand.Full at full
          change x.recordBytesLeft = 0
          omega
        · rintro stop x ⟨noPanic, failed⟩
          exact ⟨noPanic, failed.after (onward₃.trans onward₄).args (.refl ..)⟩
      · rintro stop w ⟨noPanic, failed⟩
        exact ⟨noPanic, failed.after onward₃.args (.refl ..)⟩
    · rintro stop v ⟨noPanic, did⟩
      refine ⟨noPanic, L₂, onward₂.writing.did did, onward₂.args.trans (.of_did did),
        grew₂.lossless _ (.inl rfl) (rolled.pen.segSizeMax.trans onward₂.args.segSizeMax), fun _ => ?_⟩
      rw [did.same]
      exact rolled.left.trans poised.rested
  · rintro stop u ⟨noPanic, stopped⟩
    exact ⟨noPanic, (stopped.after args).failed lossless⟩

/-- A payload the format takes is stored whole, or the call fails and loses
nothing else; another payload changes nothing. -/
theorem storeRecord_spec (msg : Bytes) (leaves : env.Leaves) (writing : Writing env s L) (rested : s.Rested) :
    Meets (storeRecord env msg) s
      (fun total s' => total = s.format.dataHeaderLen + msg.length ∧
        ∃ began record L' front σ₁ σ, record.payload = msg ∧
          Stored env s L began record s' L' front σ₁ σ)
      (fun stop s' => stop ≠ .panic ∧ WriteFailed env s L msg s') := by
  have unchanged : WriteFailed env s L msg s :=
    ⟨L, writing, .refl s, .refl .., rested⟩
  simp only [storeRecord, meets_bind, meets_get, meets_ite, meets_fail, meets_pure]
  refine ⟨fun _ => ⟨by simp, unchanged⟩, fun takesLen => ⟨fun _ => ⟨by simp, unchanged⟩,
    fun small => ⟨fun _ => ⟨by simp, unchanged⟩, fun totalSmall => ?_⟩⟩⟩
  refine (ensureSession_spec leaves writing rested).imp ?_ fun _ _ failed => failed
  rintro _ t ⟨began, L', cur, front, σ₁, σ, poised⟩
  have format : t.format = s.format := poised.onward.args.format
  have takes : t.format.Takes msg.length := by
    rw [format]
    exact ⟨by simpa using takesLen, by omega, by omega⟩
  have appended := appendRecord_spec leaves poised takes
  rw [format] at appended
  refine appended.imp ?_ fun _ _ failed => failed
  rintro _ u ⟨record, L'', σ', isMsg, stored⟩
  exact ⟨trivial, began, record, L'', front, σ₁, σ', isMsg, stored⟩

end Tcslog
