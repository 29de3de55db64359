import Tcslog.Write.Faithful
import Tcslog.Write.Tenures

/-!
# Handing files over

Between two calls that returned, a writer's last file is current, and holds data
once a record of its session is stored, or was removed.
-/

namespace Tcslog

open Lib.Program WriteState Tenure

section Stores

variable {env : WriteEnv} {first : List WriteEvent} {size : UInt32} {begun : Nat}
  {s u v : WriteState} {older : List Tenure} {t : Tenure}

/-- The writer went on with the record it was at, and a file is current. -/
def GoesOn (first : List WriteEvent) (size : UInt32) (begun : Nat) (s u : WriteState)
    (here : Tenure → Prop) : Prop :=
  ∃ older t, Holds first size begun u older t ∧ u.recordCount = s.recordCount ∧
    u.format = s.format ∧ here t

theorem GoesOn.trans {here there : Tenure → Prop} (goes : GoesOn first size begun u v there)
    (recordCount : u.recordCount = s.recordCount) (format : u.format = s.format)
    (imp : ∀ t, there t → here t) : GoesOn first size begun s v here := by
  obtain ⟨older, t, holds, count, same, holdsThere⟩ := goes
  exact ⟨older, t, holds, count.trans recordCount, same.trans format, imp t holdsThere⟩

/-- A full file is handed over and another takes its place. -/
theorem roll_goesOn (holds : Holds first size begun s older t)
    (full : segmentFileHeaderLen + t.dataLen = size.toNat) :
    Meets (roll env) s (fun _ u => GoesOn first size begun s u fun t' => t'.dataLen = 0)
      (fun _ _ => True) := by
  have roomy := holds.roomy
  rw [roll, meets_bind]
  refine (closeAndSend_recounts .rolled holds rfl (by omega) (fun _ => full) (by simp)).imp ?_
    fun _ _ _ => trivial
  rintro _ u ⟨recounts, same⟩
  have recordCount : u.recordCount = s.recordCount := by rw [same]
  have format : u.format = s.format := by rw [same]
  rw [meets_bind, meets_modify]
  have next := SeqId.next_ne_zero u.sequence
  refine (createSegment_holds (s := { u with sequence := SeqId.next u.sequence }) false begun
    (recounts.of_same rfl rfl) ?_ ?_).imp ?_ fun _ _ _ => trivial
  · intro prev isPrev
    obtain rfl : { t with fate := Fate.rolled } = prev := by simpa using isPrev
    exact ⟨by simp [next], by simp, by simp⟩
  · intro isTsRc
    rw [if_neg next]
    exact (holds.counted (format ▸ isTsRc)).trans recordCount.symm
  · rintro _ v ⟨t', holds', empty, count, same'⟩
    exact ⟨_, t', holds', count.trans recordCount, same'.trans format, empty⟩

/-- Afterwards the current file has room. -/
theorem rollIfFull_goesOn (holds : Holds first size begun s older t) : Meets (rollIfFull env) s
    (fun _ u => GoesOn first size begun s u fun t' =>
      segmentFileHeaderLen + t'.dataLen < size.toNat)
    (fun _ _ => True) := by
  have fits := holds.annals.1.fits
  rw [rollIfFull, meets_bind]
  refine (room_left env s).imp ?_ fun _ _ _ => trivial
  rintro n s ⟨rfl, left⟩
  rw [holds.current, holds.sized] at left
  have sum : segmentFileHeaderLen + t.dataLen + n = size.toNat := left fits
  rw [meets_ite]
  refine ⟨fun none => ?_, fun more => ⟨older, t, holds, rfl, rfl, by omega⟩⟩
  refine (roll_goesOn holds (by omega)).imp (fun _ u goes => ?_) fun _ _ _ => trivial
  refine goes.trans rfl rfl fun t' empty => ?_
  have roomy := holds.roomy
  omega

theorem writeChunk_goesOn {data : Bytes} (some : data ≠ [])
    (holds : Holds first size begun s older t) : Meets (writeChunk env data) s
      (fun _ u => GoesOn first size begun s u fun t' => 0 < t'.dataLen) (fun _ _ => True) := by
  rw [writeChunk, meets_bind]
  refine (rollIfFull_goesOn holds).imp ?_ fun _ _ _ => trivial
  rintro _ u ⟨older', t', holds', recordCount, format, space⟩
  rw [meets_bind]
  refine (room_left env u).imp ?_ fun _ _ _ => trivial
  rintro n u ⟨rfl, left⟩
  rw [holds'.current, holds'.sized] at left
  have sum : segmentFileHeaderLen + t'.dataLen + n = size.toNat := left space.le
  rw [meets_bind, meets_get, holds'.current, meets_bind]
  refine (((writeAll_adds env t'.id _ u).and (writeAll_asked env t'.id _ u)).and
    (writeAll_present _ holds'.present)).imp ?_ (by simp)
  rintro done v ⟨⟨⟨chunk, -, isWhole, adds⟩, asked⟩, present⟩
  cases done with
  | false =>
      rw [if_neg (by simp), meets_bind]
      exact meets_true.imp (fun _ _ _ => trivial) fun _ _ _ => trivial
  | true =>
      obtain rfl := isWhole rfl
      have len : (data.take (min n data.length)).length = min n data.length := by
        rw [List.length_take]
        omega
      have positive := List.length_pos_of_ne_nil some
      rw [if_pos rfl, meets_bind, meets_modify, meets_pure]
      have same := asked.same
      have used := Holds.use (.appended t'.id (data.take (min n data.length))) begun holds'
        (u := { v with
          current := .some ⟨t'.id, t'.dataLen + min n data.length⟩
          recordBytesLeft := v.recordBytesLeft - min n data.length })
        adds (by simp [WriteEvent.uses]) (by simp only [WriteEvent.len, len]; omega)
        (by simp only [WriteEvent.len, len]) (by rw [same]) present (by simp)
      refine ⟨older', _, used, ?_, ?_, ?_⟩
      · change v.recordCount = _
        rw [same, recordCount]
      · change v.format = _
        rw [same, format]
      · simp only [Tenure.dataLen, List.map_append, List.sum_append, List.map_singleton,
          List.sum_singleton, WriteEvent.len, len]
        omega

/-- Storing any bytes at all leaves a current file that holds data. -/
theorem writeBytes_goesOn (data : Bytes) (holds : Holds first size begun s older t) :
    Meets (writeBytes env data) s (fun _ u => GoesOn first size begun s u fun t' =>
      data ≠ [] ∨ 0 < t.dataLen → 0 < t'.dataLen) (fun _ _ => True) := by
  induction len : data.length using Nat.strong_induction_on generalizing data s older t with
  | _ len ih =>
      subst len
      by_cases none : data = []
      · subst none
        rw [writeBytes]
        exact ⟨older, t, holds, rfl, rfl, by simp⟩
      · rw [writeBytes, dif_neg none, meets_bind]
        refine (writeChunk_goesOn none holds).imp ?_ fun _ _ _ => trivial
        rintro n u ⟨older', t', holds', recordCount, format, filled⟩
        split
        next stuck => exact trivial
        next more =>
          have shorter : (data.drop n).length < data.length := by
            have := List.length_pos_of_ne_nil none
            rw [List.length_drop]
            omega
          refine (ih _ shorter (data.drop n) holds' rfl).imp (fun _ v goes => ?_) fun _ _ _ => trivial
          exact goes.trans recordCount format fun t'' fills _ => fills (.inr filled)

end Stores

/-! ## Calls that return -/

/-- A writer between two calls. -/
inductive Rests (first : List WriteEvent) (size : UInt32) (s : WriteState) : Prop
  | current {older : List Tenure} {t : Tenure} (holds : Holds first size 0 s older t)
      (filled : 0 < s.recordCount → 0 < t.dataLen)
      (bounded : s.format = .variableTsRc → s.recordCount ≤ recordCountMax)
  | cleared {older : List Tenure} {t : Tenure} {ids : List SegId}
      (recounts : Recounts first size s (t :: older)) (closed : s.current = none)
      (fate : t.fate = .cleared ids)

section Calls

variable {env : WriteEnv} {first : List WriteEvent} {size : UInt32} {s u v : WriteState}
  {older : List Tenure} {t : Tenure} {msg : Bytes}

/-- A session begins with a file after one that was not rolled. -/
theorem startSession_holds (recounts : Recounts first size s older)
    (succeeds : ∀ prev ∈ older.head?, prev.fate ≠ .rolled ∧ prev.fate ≠ .left ∧
      prev.fate ≠ .dropped) :
    Meets (startSession env) s
      (fun _ u => ∃ t, Holds first size 0 u older t ∧ u.recordCount = 0 ∧ u.format = s.format)
      (fun _ _ => True) := by
  have begun : Recounts first size { s with
      recordCount := 0, sequence := 0, recordBytesLeft := 0 } older := recounts.of_same rfl rfl
  rw [startSession, meets_bind, meets_modify]
  refine (createSegment_holds true 0 begun ?_ ?_).imp ?_ fun _ _ _ => trivial
  · intro prev isPrev
    obtain ⟨notRolled, done⟩ := succeeds prev isPrev
    exact ⟨by simp [notRolled], done⟩
  · intro _
    rfl
  · rintro _ u ⟨t, holds, -, recordCount, format⟩
    exact ⟨t, holds, recordCount, format⟩

theorem ensureSession_holds (rests : Rests first size s) : Meets (ensureSession env) s
    (fun _ u => ∃ older t, Holds first size 0 u older t ∧ u.format = s.format ∧
      (u.format = .variableTsRc → u.recordCount < recordCountMax))
    (fun _ _ => True) := by
  have opens {s : WriteState} {older : List Tenure} (recounts : Recounts first size s older)
      (succeeds : ∀ prev ∈ older.head?, prev.fate ≠ .rolled ∧ prev.fate ≠ .left ∧
        prev.fate ≠ .dropped) : Meets (startSession env) s
      (fun _ u => ∃ older t, Holds first size 0 u older t ∧ u.format = s.format ∧
        (u.format = .variableTsRc → u.recordCount < recordCountMax)) (fun _ _ => True) := by
    refine (startSession_holds recounts succeeds).imp ?_ fun _ _ _ => trivial
    rintro _ u ⟨t, holds, zero, format⟩
    exact ⟨older, t, holds, format, fun _ => by rw [zero]; decide⟩
  rw [ensureSession, meets_bind, meets_get, meets_ite]
  cases rests with
  | @cleared older t ids recounts closed fate =>
      refine ⟨fun _ => opens recounts fun prev isPrev => ?_, fun isOpen => absurd closed isOpen⟩
      obtain rfl : t = prev := by simpa using isPrev
      simp [fate]
  | @current older t holds filled bounded =>
      refine ⟨fun closed => by simp [holds.current] at closed, fun _ => ?_⟩
      rw [meets_ite]
      refine ⟨fun full => ?_, fun room => ?_⟩
      · have counted := holds.counted full.1
        have most := bounded full.1
        have some : 0 < t.dataLen := filled (by
          have := full.2
          unfold recordCountMax at this
          omega)
        rw [meets_bind]
        refine (closeAndSend_recounts .ended holds rfl some (by simp) fun _ => ?_).imp ?_
          fun _ _ _ => trivial
        · exact ⟨holds.format.trans full.1, by omega⟩
        · rintro _ u ⟨recounts, same⟩
          refine (opens recounts fun prev isPrev => ?_).imp ?_ fun _ _ _ => trivial
          · obtain rfl : { t with fate := Fate.ended } = prev := by simpa using isPrev
            simp
          · rintro _ v ⟨older', t', holds', format, room⟩
            exact ⟨older', t', holds', format.trans (by rw [same]), room⟩
      · exact ⟨older, t, holds, rfl, fun isTsRc => Nat.lt_of_not_le fun full => room ⟨isTsRc, full⟩⟩

/-- A record is begun once its data header is built. -/
theorem buildDataHeader_holds (len : Nat) (holds : Holds first size 0 s older t) :
    Meets (buildDataHeader env len) s
      (fun built u => Holds first size 1 u older t ∧ u.format = s.format ∧
        (u.format = .variableTsRc → u.recordCount = s.recordCount + 1) ∧
        ((∀ n, s.format ≠ .fixed n) → built.1 ≠ []))
      (fun _ _ => True) := by
  have simple {f : Format} (built : Bytes × Meta) (format : s.format = f) (other : f ≠ .variableTsRc)
      (some : (∀ n, f ≠ .fixed n) → built.1 ≠ []) :
      Holds first size 1 s older t ∧ s.format = f ∧
        (s.format = .variableTsRc → s.recordCount = s.recordCount + 1) ∧
        ((∀ n, f ≠ .fixed n) → built.1 ≠ []) := by
    have notTsRc (isTsRc : s.format = .variableTsRc) : False := other (format.symm.trans isTsRc)
    exact ⟨{ holds with counted := fun isTsRc => (notTsRc isTsRc).elim }, format,
      fun isTsRc => (notTsRc isTsRc).elim, some⟩
  rw [buildDataHeader, meets_ite]
  refine ⟨fun _ => trivial, fun _ => ?_⟩
  rw [meets_bind, meets_get]
  cases format : s.format with
  | fixed n => exact simple ([], .fixed) format (by simp) fun notFixed => (notFixed n rfl).elim
  | variableSimple =>
      refine simple (_, .variableSimple) format (by simp) fun _ => ?_
      exact List.ne_nil_of_length_pos (by simp)
  | variableTsRc =>
      rw [meets_bind]
      refine (now_exact env s).imp ?_ fun _ _ _ => trivial
      rintro reading _ ⟨rfl, -, -⟩
      simp only [meets_bind, meets_modify, meets_get, meets_pure]
      refine ⟨{ holds with counted := fun _ => ?_ }, format, fun _ => trivial, fun _ => ?_⟩
      · exact congrArg (· + 1) (holds.counted format)
      · exact List.ne_nil_of_length_pos (by simp)

theorem storeRecord_holds (sound : s.format ≠ .fixed 0) (rests : Rests first size s) :
    Meets (storeRecord env msg) s
      (fun _ u => ∃ older t, Holds first size 1 u older t ∧ u.format = s.format ∧
        (u.format = .variableTsRc → u.recordCount ≤ recordCountMax) ∧ 0 < t.dataLen)
      (fun _ _ => True) := by
  rw [storeRecord, meets_bind, meets_get]
  simp only [meets_ite, meets_fail, meets_bind]
  refine ⟨fun _ => trivial, fun takes => ⟨fun _ => trivial, fun _ => ⟨fun _ => trivial, fun _ => ?_⟩⟩⟩
  refine (ensureSession_holds rests).imp ?_ fun _ _ _ => trivial
  rintro _ u ⟨older, t, holds, format, room⟩
  rw [appendRecord, meets_bind]
  refine (rollIfFull_goesOn holds).imp ?_ fun _ _ _ => trivial
  rintro _ u₁ ⟨older₁, t₁, holds₁, recordCount₁, format₁, -⟩
  rw [meets_bind]
  refine (buildDataHeader_holds msg.length holds₁).imp ?_ fun _ _ _ => trivial
  rintro built u₂ ⟨holds₂, format₂, recordCount₂, headed⟩
  rw [meets_bind, meets_modify, meets_bind]
  have begun : Holds first size 1 { u₂ with
      recordBytesLeft := s.format.dataHeaderLen + msg.length } older₁ t₁ :=
    { holds₂ with }
  refine (writeBytes_goesOn built.1 begun).imp ?_ fun _ _ _ => trivial
  rintro _ u₃ ⟨older₃, t₃, holds₃, recordCount₃, format₃, filled₃⟩
  rw [meets_bind]
  refine (writeBytes_goesOn msg holds₃).imp ?_ fun _ _ _ => trivial
  rintro _ u₄ ⟨older₄, t₄, holds₄, recordCount₄, format₄, filled₄⟩
  rw [meets_modify]
  have sameFormat : u₁.format = s.format := format₁.trans format
  refine ⟨older₄, t₄, { holds₄ with }, format₄.trans (format₃.trans (format₂.trans sameFormat)), ?_, ?_⟩
  · intro isTsRc
    have isTsRc₂ : u₂.format = .variableTsRc := (format₄.trans format₃).symm.trans isTsRc
    have isTsRc₀ : u.format = .variableTsRc := format₁.symm.trans (format₂.symm.trans isTsRc₂)
    change u₄.recordCount ≤ _
    rw [recordCount₄, recordCount₃]
    change u₂.recordCount ≤ _
    rw [recordCount₂ isTsRc₂, recordCount₁]
    exact room isTsRc₀
  · -- A record has a data header, or a payload of the length all of its log have.
    apply filled₄
    by_cases isFixed : ∃ n, s.format = .fixed n
    · obtain ⟨n, isFixed⟩ := isFixed
      left
      rw [isFixed] at takes
      have len : msg.length = n.toNat := by simpa [Format.refusesLen] using takes
      rintro rfl
      apply sound
      have zero : n = 0 := UInt32.toNat_inj.mp len.symm
      rw [isFixed, zero]
    · right
      apply filled₃
      left
      apply headed
      rw [sameFormat]
      exact not_exists.mp isFixed

theorem write_rests (sound : s.format ≠ .fixed 0) (rests : Rests first size s) :
    Meets (write env msg) s (fun _ u => Rests first size u ∧ u.format = s.format)
      (fun _ _ => True) := by
  rw [write, meets_bind]
  refine (storeRecord_holds sound rests).imp ?_ fun _ _ _ => trivial
  rintro total u ⟨older, t, holds, format, bounded, filled⟩
  rw [meets_bind, noticeComplete, meets_bind, meets_get, holds.current]
  refine (((recordComplete_adds env t.id u).and (recordComplete_asked env t.id u)).and
    (recordComplete_spec t.id)).imp ?_ fun _ _ _ => trivial
  rintro _ v ⟨⟨adds, asked⟩, did⟩
  have same := asked.same
  have used := Holds.use (.completed t.id) 0 holds adds (by simp [WriteEvent.uses])
    holds.annals.1.fits (asked.current.trans holds.current) (by rw [same])
    (did.files_same ▸ holds.present) (by simp)
  have sameFormat : v.format = u.format := by rw [same]
  have sameCount : v.recordCount = u.recordCount := by rw [same]
  refine ⟨.current used (fun _ => ?_) ?_, sameFormat.trans format⟩
  · simpa [Tenure.dataLen, WriteEvent.len] using filled
  · rw [sameFormat, sameCount]
    exact bounded

theorem flush_rests (rests : Rests first size s) :
    Meets (flush env) s (fun _ u => Rests first size u ∧ u.format = s.format)
      (fun _ _ => True) := by
  rw [flush, meets_bind, meets_get]
  cases rests with
  | cleared recounts closed fate =>
      rw [closed]
      exact ⟨.cleared recounts closed fate, rfl⟩
  | @current older t holds filled bounded =>
      rw [holds.current]
      refine (((flushFile_adds env t.id s).and (flushFile_asked env t.id s)).and
        (flushFile_spec t.id)).imp ?_ fun _ _ _ => trivial
      rintro _ u ⟨⟨adds, asked⟩, did⟩
      have same := asked.same
      have used := Holds.use (.flushed t.id) 0 holds adds (by simp [WriteEvent.uses])
        holds.annals.1.fits (asked.current.trans holds.current) (by rw [same])
        (did.files_same ▸ holds.present) (by simp)
      have sameFormat : u.format = s.format := by rw [same]
      have sameCount : u.recordCount = s.recordCount := by rw [same]
      refine ⟨.current used ?_ ?_, sameFormat⟩
      · rw [sameCount]
        simpa [Tenure.dataLen, WriteEvent.len] using filled
      · rw [sameFormat, sameCount]
        exact bounded

/-- Every file of the log is removed, the last created among them. -/
theorem clear_rests (rests : Rests first size s) :
    Meets (clear env) s (fun _ u => Rests first size u ∧ u.format = s.format)
      (fun _ _ => True) := by
  rw [clear, meets_bind, meets_modify, meets_bind, forEachSegmentFile, meets_bind]
  refine ((scan_adds env _).and (scan_asked env _)).imp ?_ fun _ _ _ => trivial
  rintro ids u ⟨⟨isScan, quiet⟩, asked⟩
  rw [meets_bind]
  have removes (id : SegId) (s : WriteState) :
      Meets (removeFile env id) s (fun _ u => Adds [.removed id] s u) (fun _ _ => True) :=
    (removeFile_adds env id s).imp (fun _ _ adds => adds) fun _ _ _ => trivial
  refine ((forM_adds .removed removes ids u).and
    (preserves_forM .refl .trans (removeFile_asked env) ids u)).imp ?_ fun _ _ _ => trivial
  rintro _ v ⟨removed, asked'⟩
  have both := asked.trans asked'
  have adds : Adds (ids.map .removed) s v := by
    have start : Adds [] s { s with current := none, recordBytesLeft := 0 } := .of_eq rfl
    exact (start.trans quiet).trans removed
  have sized : v.segSizeMax = s.segSizeMax := by rw [both.same]
  have format : v.format = s.format := by rw [both.same]
  rw [meets_pure]
  refine ⟨?_, format⟩
  cases rests with
  | @current older t holds filled bounded =>
      have left := holds.left
      have proper := holds.annals.1
      have listed : t.id ∈ ids := by
        rw [isScan, mem_scanSegmentIds]
        exact AList.lookup_isSome.mp holds.present
      refine .cleared (t := { t with fate := .cleared ids })
        (holds.toRecounts.newest _ adds sized ?_ rfl ?_ (by simp)) both.current rfl
      · simp [Tenure.events, left, Fate.events]
      · refine ⟨proper.waits, proper.uses, proper.segmentId, proper.fits, by simp,
          by simp [Fate.handsOver], fun ids' same => ?_⟩
        obtain rfl : ids = ids' := by simpa using same
        exact listed
  | @cleared older t ids' recounts closed fate =>
      have proper := recounts.annals.1
      refine .cleared (t := { t with fate := .cleared (ids' ++ ids) })
        (recounts.newest _ adds sized ?_ rfl ?_ (by simp)) both.current rfl
      · simp [Tenure.events, fate, Fate.events]
      · refine ⟨proper.waits, proper.uses, proper.segmentId, proper.fits, by simp,
          by simp [Fate.handsOver], fun ids'' same => ?_⟩
        obtain rfl : ids' ++ ids = ids'' := by simpa using same
        exact List.mem_append_left _ (proper.removed ids' fate)

theorem call_rests {trail : Trail} (sound : trail.state.format ≠ .fixed 0)
    (rests : Rests first size trail.state) (c : Call) (clean : (trail.call env c).Clean) :
    Rests first size (trail.call env c).state ∧
      (trail.call env c).state.format = trail.state.format := by
  cases c with
  | write msg =>
      cases ran : (write env msg).run trail.state with
      | ok total u =>
          have same : (trail.call env (.write msg)).state = u := by
            change (Trail.ending (write env msg) trail.state).2 = u
            rw [Trail.ending_of_ok ran]
          rw [same]
          exact (write_rests sound rests).of_ok ran
      | error stop u =>
          have stopped := clean (.called (.write msg) (some stop)) (by
            simp [Trail.call, Trail.ending_of_error ran, Trail.stopOf])
          simp [Deed.stop] at stopped
  | flush =>
      cases ran : (flush env).run trail.state with
      | ok a u =>
          have same : (trail.call env .flush).state = u := by
            change (Trail.ending (flush env) trail.state).2 = u
            rw [Trail.ending_of_ok ran]
          rw [same]
          exact (flush_rests rests).of_ok ran
      | error stop u =>
          have stopped := clean (.called .flush (some stop)) (by
            simp [Trail.call, Trail.ending_of_error ran, Trail.stopOf])
          simp [Deed.stop] at stopped
  | clear =>
      cases ran : (clear env).run trail.state with
      | ok a u =>
          rw [Trail.call_clear_of_ok ran]
          exact (clear_rests rests).of_ok ran
      | error stop u =>
          have stopped := clean (.called .clear (some stop)) (by
            rw [Trail.call_clear_of_error ran]
            simp)
          simp [Deed.stop] at stopped

theorem calls_rest (trail : Trail) (sound : trail.state.format ≠ .fixed 0)
    (rests : Rests first size trail.state) (calls : List Call)
    (clean : (calls.foldl (Trail.call env) trail).Clean) :
    Rests first size (calls.foldl (Trail.call env) trail).state := by
  induction calls generalizing trail with
  | nil => exact rests
  | cons c calls ih =>
      obtain ⟨rests', format⟩ :=
        call_rests sound rests c (clean.of_prefix (Trail.deeds_calls env _ calls))
      exact ih _ (format ▸ sound) rests' clean

end Calls

/-! ## Opening and dropping a writer -/

section Lives

variable {env : WriteEnv} {first : List WriteEvent} {size : UInt32} {s u : WriteState}

/-- Every file there is handed over before any is created. -/
theorem prepare_sends (args : NewArgs) : Meets (LogWrite.prepare env args) s
    (fun _ t => args.format ≠ .fixed 0 ∧
      Adds ((scanSegmentIds s.dir args.namePrefix args.nameSuffix).map .sent) s t)
    (fun _ _ => True) := by
  have lift {α : Type} (x : Except LogError α) (s : WriteState) :
      Meets (liftExcept x) s (fun _ t => t = s) (fun _ _ => True) :=
    meets_liftExcept (fun _ _ => rfl) fun _ _ => trivial
  have clockNew : Meets (Clock.new env args.sinceEpoch) s
      (fun _ t => t.dir = s.dir ∧ Adds [] s t) (fun _ _ => True) := by
    cases args.sinceEpoch with
    | none => exact trivial
    | some ns =>
        rw [Clock.new, meets_bind]
        refine tick_spec.imp ?_ (by simp)
        rintro t _ ⟨rfl, rfl⟩
        refine (lift _ _).imp ?_ fun _ _ _ => trivial
        rintro _ _ rfl
        exact ⟨rfl, .of_eq rfl⟩
  have past (id : SegId) (s : WriteState) : Meets (advancePast env id) s
      (fun _ t => Adds [] s t) (fun _ _ => True) := by
    rw [advancePast, meets_bind]
    refine (lift _ _).imp ?_ fun _ _ _ => trivial
    rintro _ s rfl
    rw [meets_bind]
    refine (now_adds env s).imp (fun reading t quiet => ?_) fun _ _ _ => trivial
    rw [meets_ite]
    refine ⟨fun _ => ?_, fun _ => quiet⟩
    rw [meets_bind, meets_get, meets_bind]
    refine (lift _ _).imp ?_ fun _ _ _ => trivial
    rintro _ t rfl
    exact quiet.trans (.of_eq rfl)
  have sends (id : SegId) (s : WriteState) :
      Meets (send env id) s (fun _ t => Adds [.sent id] s t) (fun _ _ => True) :=
    (send_adds env id s).imp (fun _ _ adds => adds) fun _ _ _ => trivial
  simp only [LogWrite.prepare, meets_ite, meets_fail]
  refine ⟨fun _ => trivial, fun _ => ⟨fun _ => trivial, fun _ => ⟨fun _ => trivial, fun sound => ?_⟩⟩⟩
  rw [meets_bind]
  refine clockNew.imp ?_ fun _ _ _ => trivial
  rintro clock t ⟨sameDir, quiet⟩
  rw [meets_bind]
  refine (lift _ _).imp ?_ fun _ _ _ => trivial
  rintro _ t rfl
  rw [meets_bind, meets_modify, meets_bind, forEachSegmentFile, meets_bind]
  refine (scan_adds env _).imp ?_ fun _ _ _ => trivial
  rintro ids u ⟨isScan, quiet'⟩
  rw [meets_bind]
  refine (forM_adds .sent sends ids u).imp (fun _ v sent => ?_) fun _ _ _ => trivial
  have listed : ids = scanSegmentIds s.dir args.namePrefix args.nameSuffix := by
    rw [isScan, ← sameDir]
    rfl
  have set : Adds [] t { t with toLogWrite := LogWrite.fresh env args clock } := .of_eq rfl
  have adds : Adds (ids.map .sent) s v := ((quiet.trans set).trans quiet').trans sent
  rw [meets_pure, ← listed]
  cases ids.getLast? with
  | none => exact ⟨sound, adds⟩
  | some highest =>
      refine (past highest v).imp (fun _ w quiet'' => ⟨sound, ?_⟩) fun _ _ _ => trivial
      simpa using adds.trans quiet''

theorem new_rests (env : WriteEnv) (args : NewArgs) (none : s.events = []) : Meets (LogWrite.new env args) s
    (fun _ t => t.format ≠ .fixed 0 ∧
      Rests ((scanSegmentIds s.dir args.namePrefix args.nameSuffix).map .sent) args.segSizeMax t)
    (fun _ _ => True) := by
  rw [LogWrite.new_eq, meets_bind]
  refine ((prepare_sends args).and (prepare_passes args)).imp ?_ fun _ _ _ => trivial
  rintro _ t ⟨⟨sound, sends⟩, -, roomy, ⟨clock, fresh⟩, -⟩
  have sized : t.segSizeMax = args.segSizeMax := by
    rw [fresh]
    rfl
  have format : t.format = args.format := by
    rw [fresh]
    rfl
  have recounts : Recounts ((scanSegmentIds s.dir args.namePrefix args.nameSuffix).map .sent)
      args.segSizeMax t [] := by
    refine ⟨?_, trivial, sized, by omega⟩
    rw [sends, none]
    simp
  refine (startSession_holds recounts (by simp)).imp ?_ fun _ _ _ => trivial
  rintro _ u ⟨t', holds, zero, sameFormat⟩
  refine ⟨by rwa [sameFormat, format], .current holds ?_ ?_⟩
  · rw [zero]
    exact fun impossible => absurd impossible (by simp)
  · rw [zero]
    exact fun _ => Nat.zero_le _

/-- What a writer's trace tells when the writer is gone. -/
structure HandedOver (first : List WriteEvent) (size : UInt32) (events : List WriteEvent)
    (tenures : List Tenure) : Prop where
  told : events = first ++ tenures.reverse.flatMap Tenure.events
  annals : Annals size tenures
  rest : ∀ t ∈ tenures, t.fate = .left → t.dataLen = 0

theorem Annals.of_left {tenures : List Tenure} (annals : Annals size tenures) :
    ∀ t ∈ tenures.tail, t.fate ≠ .left := by
  induction tenures with
  | nil => simp
  | cons newest older ih =>
      intro t mem
      obtain ⟨-, succeeds, -, annals'⟩ := annals
      cases older with
      | nil => simp at mem
      | cons prev older =>
          rcases List.mem_cons.mp mem with rfl | earlier
          · exact (succeeds t rfl).done.1
          · exact ih annals' t earlier

/-- What a request leaves whose failure is not reported. -/
theorem flushFile_calm (id : SegId) (s : WriteState) : Meets (attempt (flushFile env id)) s
    (fun _ u => u.ops = s.ops + 1 ∧ u.segSizeMax = s.segSizeMax ∧
      (env.fault s.ops = false → Adds [.flushed id] s u)) (fun _ _ => False) := by
  rw [meets_attempt]
  simp only [flushFile, meets_bind]
  refine tick_spec.imp ?_ (by simp)
  rintro n _ ⟨rfl, rfl⟩
  simp only [meets_ite, meets_fail, emit, meets_modify]
  exact ⟨fun fault => ⟨trivial, trivial, by simp [fault]⟩, fun _ => ⟨trivial, trivial, fun _ => rfl⟩⟩

theorem send_calm (id : SegId) (s : WriteState) : Meets (attempt (send env id)) s
    (fun _ u => u.ops = s.ops + 1 ∧ u.segSizeMax = s.segSizeMax ∧
      (env.fault s.ops = false → Adds [.sent id] s u)) (fun _ _ => False) := by
  rw [meets_attempt]
  simp only [send, meets_bind, fileName]
  refine tick_spec.imp ?_ (by simp)
  rintro n _ ⟨rfl, rfl⟩
  simp only [meets_get, meets_pure, meets_ite, meets_fail, emit, meets_modify]
  exact ⟨fun fault => ⟨trivial, trivial, by simp [fault]⟩, fun _ => ⟨trivial, trivial, fun _ => rfl⟩⟩

/-- A file is handed over when its writer is dropped, if it holds any data. -/
theorem drop_hands_over (rests : Rests first size s) : Meets (LogWrite.drop env) s
    (fun _ u => (∀ n, s.ops ≤ n → n < u.ops → env.fault n = false) →
      ∃ tenures, HandedOver first size u.events tenures)
    (fun _ _ => False) := by
  have handedOver {u : WriteState} {t : Tenure} {older : List Tenure}
      (recounts : Recounts first size u (t :: older)) (rest : t.fate = .left → t.dataLen = 0) :
      ∃ tenures, HandedOver first size u.events tenures := by
    refine ⟨t :: older, recounts.events, recounts.annals, fun t' mem left => ?_⟩
    rcases List.mem_cons.mp mem with rfl | earlier
    · exact rest left
    · exact absurd left (Annals.of_left recounts.annals t' earlier)
  rw [LogWrite.drop, meets_bind, meets_get]
  cases rests with
  | cleared recounts closed fate =>
      rw [closed]
      exact fun _ => handedOver recounts (by simp [fate])
  | @current older t holds filled bounded =>
      rw [holds.current]
      simp only [meets_bind, meets_modify, meets_ite, meets_pure]
      refine ⟨fun empty _ => ?_, fun some => ?_⟩
      · exact handedOver (holds.toRecounts.of_same rfl rfl) fun _ => empty
      · refine (flushFile_calm t.id _).imp ?_ fun _ _ failed => failed
        rintro _ u ⟨ops, sized, flushed⟩
        refine (send_calm t.id u).imp ?_ fun _ _ failed => failed
        rintro _ v ⟨ops', sized', sent⟩ calm
        have ops : u.ops = s.ops + 1 := ops
        have proper := holds.annals.1
        have left := holds.left
        have close : Adds [] s { s with current := none } := .of_eq rfl
        have adds : Adds [.flushed t.id, .sent t.id] s v :=
          (close.trans (flushed (calm s.ops (Nat.le_refl _) (by omega)))).trans
            (sent (calm u.ops (by omega) (by omega)))
        refine handedOver (holds.toRecounts.newest { t with fate := .dropped } adds
          (sized'.trans sized) ?_ rfl ?_ (by simp)) (by simp)
        · simp [Tenure.events, left, Fate.events]
        · exact ⟨proper.waits, proper.uses, proper.segmentId, proper.fits, by simp,
            fun _ => Nat.pos_of_ne_zero some, by simp⟩

end Lives

/-! ## A whole run -/

section Runs

variable {size : UInt32} {t : Tenure} {tenures : List Tenure}

theorem filterMap_events {β : Type} {f : WriteEvent → Option β} (proper : t.Proper size)
    (waits : ∀ event : WriteEvent, event.waits → f event = none)
    (uses : ∀ event : WriteEvent, event.uses t.id → f event = none) :
    t.events.filterMap f = (f (.created t.id)).toList ++ (t.fate.events t.id).filterMap f := by
  have quiet (events : List WriteEvent) (none : ∀ event ∈ events, f event = .none) :
      events.filterMap f = [] := List.filterMap_eq_nil_iff.mpr none
  have header := uses (.appended t.id t.header.toBytes) (by simp [WriteEvent.uses])
  rw [Tenure.events, List.filterMap_append, List.filterMap_append, List.filterMap_append,
    quiet t.waited fun event mem => waits event (proper.waits event mem),
    quiet t.uses fun event mem => uses event (proper.uses event mem)]
  cases created : f (.created t.id) <;> simp [created, header]

theorem Tenure.Proper.createdIds (proper : t.Proper size) : createdIds t.events = [t.id] := by
  refine (filterMap_events proper ?_ ?_).trans ?_
  · intro event waits
    cases event <;> simp [WriteEvent.waits] at waits ⊢
  · intro event uses
    cases event <;> simp [WriteEvent.uses] at uses ⊢
  · cases t.fate <;> simp [Fate.events]

theorem Tenure.Proper.sentIds (proper : t.Proper size) :
    sentIds t.events = if t.fate.handsOver then [t.id] else [] := by
  refine (filterMap_events proper ?_ ?_).trans ?_
  · intro event waits
    cases event <;> simp [WriteEvent.waits] at waits ⊢
  · intro event uses
    cases event <;> simp [WriteEvent.uses] at uses ⊢
  · cases t.fate <;> simp [Fate.events, Fate.handsOver]

theorem Annals.proper (annals : Annals size tenures) : ∀ t ∈ tenures, t.Proper size := by
  induction tenures with
  | nil => simp
  | cons newest older ih =>
      intro t mem
      rcases List.mem_cons.mp mem with rfl | earlier
      · exact annals.1
      · exact ih annals.2.2.2 t earlier

theorem createdIds_events (proper : ∀ t ∈ tenures, t.Proper size) :
    createdIds (tenures.flatMap Tenure.events) = tenures.map Tenure.id := by
  induction tenures with
  | nil => rfl
  | cons t tenures ih =>
      rw [List.flatMap_cons, createdIds_append, (proper t (by simp)).createdIds,
        ih fun t' mem => proper t' (by simp [mem])]
      rfl

theorem sentIds_append (events events' : List WriteEvent) :
    sentIds (events ++ events') = sentIds events ++ sentIds events' :=
  List.filterMap_append

theorem sentIds_events (proper : ∀ t ∈ tenures, t.Proper size) :
    sentIds (tenures.flatMap Tenure.events) =
      (tenures.filter (·.fate.handsOver)).map Tenure.id := by
  induction tenures with
  | nil => rfl
  | cons t tenures ih =>
      rw [List.flatMap_cons, sentIds_append, (proper t (by simp)).sentIds,
        ih fun t' mem => proper t' (by simp [mem])]
      cases handsOver : t.fate.handsOver <;> simp [handsOver]

end Runs

/-- Where nothing fails, the files already there are handed over first, and then
each file that was created once it was done with, unless it was removed or holds
no data. -/
theorem files_handed_over (env : WriteEnv) (dir : Dir) (life : Life)
    (clean : (Trail.run env dir [life]).Clean)
    (calm : ∀ n < (Trail.run env dir [life]).state.ops, env.fault n = false) :
    let events := (Trail.run env dir [life]).state.events
    let there := scanSegmentIds dir life.args.namePrefix life.args.nameSuffix
    ∃ tenures, HandedOver (there.map .sent) life.args.segSizeMax events tenures ∧
      createdIds events = tenures.reverse.map Tenure.id ∧
      sentIds events = there ++ (tenures.reverse.filter (·.fate.handsOver)).map Tenure.id := by
  have opens := new_rests env (s := (Trail.start dir).state) life.args rfl
  rw [Trail.run, List.foldl_cons, List.foldl_nil] at *
  cases ran : (LogWrite.new env life.args).run (Trail.start dir).state with
  | error stop t =>
      rw [Trail.live_of_error ran] at clean
      have stopped := clean (.opened life.args (some stop)) (by simp)
      simp [Deed.stop] at stopped
  | ok a t =>
      obtain ⟨sound, rests⟩ := opens.of_ok ran
      rw [Trail.live_of_ok ran] at clean calm ⊢
      have calls := calls_rest ⟨t, [.opened life.args none], (Trail.start dir).journal.begin t⟩
        sound rests life.calls clean
      obtain ⟨tenures, handedOver⟩ : ∃ tenures, HandedOver _ life.args.segSizeMax
          (Trail.ending (LogWrite.drop env) (Trail.openedOn env (Trail.start dir) life t).state).2.events
          tenures := by
        cases dropped : (LogWrite.drop env).run (Trail.openedOn env (Trail.start dir) life t).state with
        | error stop u => exact ((drop_hands_over calls).of_error dropped).elim
        | ok a u =>
            rw [Trail.ending_of_ok dropped] at calm ⊢
            exact (drop_hands_over calls).of_ok dropped fun n _ less => calm n less
      have proper : ∀ t ∈ tenures.reverse, t.Proper life.args.segSizeMax :=
        fun t mem => Annals.proper handedOver.annals t (List.mem_reverse.mp mem)
      have noneCreated (ids : List SegId) : createdIds (ids.map .sent) = [] := by
        induction ids with
        | nil => rfl
        | cons id ids ih => exact ih
      have allSent (ids : List SegId) : sentIds (ids.map .sent) = ids := by
        induction ids with
        | nil => rfl
        | cons id ids ih => exact congrArg (id :: ·) ih
      refine ⟨tenures, handedOver, ?_, ?_⟩
      · rw [handedOver.told, createdIds_append, noneCreated, createdIds_events proper, List.nil_append]
      · rw [handedOver.told, sentIds_append, allSent, sentIds_events proper]
        rfl

/-- Two records that fill a file each: one file is handed over by a roll, the
other when the writer is dropped. -/
theorem files_handed_over_sample :
    let run := Trail.run Sample.takingEnv ∅ [Sample.fillingLife]
    ∃ tenures, HandedOver [] 60 run.state.events tenures ∧
      createdIds run.state.events = tenures.reverse.map Tenure.id ∧
      sentIds run.state.events = (tenures.reverse.filter (·.fate.handsOver)).map Tenure.id := by
  refine files_handed_over Sample.takingEnv ∅ Sample.fillingLife ?_ fun _ _ => rfl
  unfold Trail.Clean
  decide +kernel

end Tcslog
