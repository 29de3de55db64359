import Tcslog.Read.Placing
import Tcslog.Read.Retrace

/-!
# Buffers of different lengths

What a buffer cannot hold of a record is skipped where a longer buffer would be
filled.  Filling and skipping move through the files alike: two readers of one
directory that are given buffers of different lengths, none of them empty, are
in the same state after every call, and their outcomes differ only in what the
shorter buffer leaves out.
-/

namespace Tcslog

open Lib.Program

section Moving

variable {dir : Dir} {overflowChecks : Bool}

/-! ## Filling in two parts -/

/-- The state after the next `n` bytes of the open file were read. -/
def ReadState.took (dir : Dir) (s : ReadState) (segment : Segment) (n : Nat) (ops : List ReadOp) :
    ReadState :=
  { s with
    current := some (segment.advance n), cursor := s.cursor.read n
    dst := s.dst ++ segment.bytes (s.files dir) n, ops := ops }

/-- A pass of `fill` goes on in the file the crossing led to. -/
theorem run_fillChunk_of_crossed {s t : ReadState} {segment : Segment} (standing : Standing dir t)
    (crossed : (crossIfExhausted (.still dir noFault overflowChecks)).run s = .ok () t)
    (current : t.current = some segment) (n : Nat) :
    ∃ ops, ∀ len, min (segment.dataLen - segment.pos) len = n →
      (fillChunk (.still dir noFault overflowChecks) len).run s = .ok n (t.took dir segment n ops) := by
  have isOpen := standing segment current
  have posLe := isOpen.posLe
  by_cases within : n ≤ segment.dataLen - segment.pos
  · have spec : Meets (readExact (.still dir noFault overflowChecks) segment n) t
        (fun bytes t' => OnlyAsked t t' ∧ bytes = segment.bytes (t.files dir) n) (fun _ _ => False) :=
      readExact_still isOpen (by omega)
    cases ran : (readExact (.still dir noFault overflowChecks) segment n).run t with
    | error stop u => exact (spec.of_error ran).elim
    | ok bytes u =>
        obtain ⟨asked, rfl⟩ := spec.of_ok ran
        refine ⟨u.ops, fun len takes => ?_⟩
        simp only [fillChunk, EStateM.run_bind, crossed, EStateM.run_get, current, takes, ran]
        rw [asked.same]
        rfl
  · exact ⟨[], fun len takes => absurd (takes ▸ Nat.min_le_left _ _) within⟩

/-- A pass of `fill` fails where the crossing does. -/
theorem run_fillChunk_of_error {s t : ReadState} {stop : Stop} (len : Nat)
    (crossed : (crossIfExhausted (.still dir noFault overflowChecks)).run s = .error stop t) :
    (fillChunk (.still dir noFault overflowChecks) len).run s = .error stop t := by
  simp only [fillChunk, EStateM.run_bind, crossed]

theorem run_fillChunk_of_closed {s t : ReadState} (len : Nat)
    (crossed : (crossIfExhausted (.still dir noFault overflowChecks)).run s = .ok () t)
    (closed : t.current = none) :
    (fillChunk (.still dir noFault overflowChecks) len).run s =
      .error (.error (.readTruncated 0 t.cursor.payloadInBuf)) t := by
  simp only [fillChunk, EStateM.run_bind, crossed, EStateM.run_get, closed]
  rfl

theorem crossIfExhausted_of_more {s : ReadState} {segment : Segment} (current : s.current = some segment)
    (more : segment.pos < segment.dataLen) :
    (crossIfExhausted (.still dir noFault overflowChecks)).run s = .ok () s := by
  have notExhausted : ¬ s.exhausted = true := by
    rw [LogRead.exhausted, current]
    simpa using more
  simp only [crossIfExhausted, EStateM.run_bind, EStateM.run_get, if_neg notExhausted]
  rfl

theorem Cursor.read_read {cursor : Cursor} (m n : Nat) (counted : cursor.payloadInBuf ≤ u32Max) :
    (cursor.read m).read n = cursor.read (m + n) := by
  have bound := counted
  simp only [Cursor.read, Nat.add_assoc, Cursor.mk.injEq, true_and, and_true]
  split
  · omega
  · rfl

theorem Segment.advance_advance (segment : Segment) (m n : Nat) :
    (segment.advance m).advance n = segment.advance (m + n) := by
  simp only [advance, Nat.add_assoc]

theorem Segment.bytes_append {files : SegId → Option Bytes} (segment : Segment) (m n : Nat) :
    segment.bytes files m ++ (segment.advance m).bytes files n = segment.bytes files (m + n) := by
  simp only [bytes, advance]
  rw [List.take_add, List.drop_drop]

theorem run_fill_zero (s : ReadState) :
    (fill (.still dir noFault overflowChecks) 0).run s = .ok () s := by
  rw [fill, run_repeatPass, if_neg (Nat.lt_irrefl 0)]

theorem run_fill_of_ok {len n : Nat} {s s' : ReadState} (positive : 0 < len)
    (ran : (fillChunk (.still dir noFault overflowChecks) len).run s = .ok n s') :
    (fill (.still dir noFault overflowChecks) len).run s =
      (fill (.still dir noFault overflowChecks) (len - n)).run s' := by
  rw [fill, run_repeatPass, if_pos positive, ran]
  rfl

theorem run_fill_of_error {len : Nat} {s s' : ReadState} {stop : Stop} (positive : 0 < len)
    (ran : (fillChunk (.still dir noFault overflowChecks) len).run s = .error stop s') :
    (fill (.still dir noFault overflowChecks) len).run s = .error stop s' := by
  rw [fill, run_repeatPass, if_pos positive, ran]

/-- Two readings in a row in one file are one. -/
theorem took_took {s : ReadState} {segment : Segment} (m n : Nat) (ops ops' : List ReadOp)
    (counted : Counted s) :
    (s.took dir segment m ops).took dir (segment.advance m) n ops' =
      s.took dir segment (m + n) ops' := by
  have files : (s.took dir segment m ops).files dir = s.files dir := rfl
  rw [ReadState.took, files]
  simp only [ReadState.took, Segment.advance_advance, Cursor.read_read m n counted, List.append_assoc,
    Segment.bytes_append]

theorem couples_alike_of_run {x y : ReadM Unit} {s t : ReadState} {r : EStateM.Result Stop ReadState Unit}
    (left : x.run s = r) (right : y.run t = r) :
    Couples x y s t (fun _ _ s' t' => Alike s' t') FailAlike := by
  cases r with
  | ok _ u => exact (couples_of_ok left right).mpr (.refl u)
  | error stop u => exact (couples_of_error left right).mpr ⟨rfl, .refl u⟩

/-- Filling part of a destination and then the rest is filling it, but for the
requests made. -/
theorem fill_add (a b : Nat) {s : ReadState} (standing : Standing dir s) (counted : Counted s) :
    Couples (fill (.still dir noFault overflowChecks) (a + b))
      (fill (.still dir noFault overflowChecks) a >>= fun _ =>
        fill (.still dir noFault overflowChecks) b) s s
      (fun _ _ s' t' => Alike s' t') FailAlike := by
  rcases Nat.eq_zero_or_pos b with rfl | rest
  · refine couples_alike_of_run rfl ?_
    rw [Nat.add_zero, EStateM.run_bind]
    cases (fill (.still dir noFault overflowChecks) a).run s with
    | ok _ t => exact run_fill_zero t
    | error stop t => rfl
  induction size : s.pending.length + a using Nat.strong_induction_on generalizing a s with
  | _ size ih =>
      rcases Nat.eq_zero_or_pos a with rfl | positive
      · refine couples_alike_of_run (by rw [Nat.zero_add]) ?_
        rw [EStateM.run_bind, run_fill_zero]
      have all : 0 < a + b := Nat.add_pos_left positive b
      cases crossed : (crossIfExhausted (.still dir noFault overflowChecks)).run s with
      | error stop t =>
          refine couples_alike_of_run (run_fill_of_error all (run_fillChunk_of_error _ crossed)) ?_
          rw [EStateM.run_bind, run_fill_of_error positive (run_fillChunk_of_error _ crossed)]
      | ok _ t =>
          have standing' := (crossIfExhausted_standing s standing).of_ok crossed
          have counted' : Counted t := by
            have keeps := (crossIfExhausted_keeps s).of_ok crossed
            exact (keeps.places counted).counted counted
          cases current : t.current with
          | none =>
              refine couples_alike_of_run
                (run_fill_of_error all (run_fillChunk_of_closed _ crossed current)) ?_
              rw [EStateM.run_bind,
                run_fill_of_error positive (run_fillChunk_of_closed _ crossed current)]
          | some segment =>
              by_cases within : segment.dataLen - segment.pos ≤ a
              · -- Both passes read the file to its end.
                obtain ⟨ops, chunk⟩ := run_fillChunk_of_crossed standing' crossed current
                  (segment.dataLen - segment.pos)
                have whole := chunk (a + b) (Nat.min_eq_left (within.trans (Nat.le_add_right a b)))
                have part := chunk a (Nat.min_eq_left within)
                have less := (fillChunk_decreases _ positive s).of_ok part
                have placed := (fillChunk_places a standing counted).of_ok part
                refine (couples_of_run ?_ ?_).mpr (ih _ (size ▸ less) (a - (segment.dataLen - segment.pos))
                  placed.2.1 (placed.2.2.counted counted) rfl)
                · rw [run_fill_of_ok all whole, Nat.sub_add_comm within]
                · rw [EStateM.run_bind, EStateM.run_bind, run_fill_of_ok positive part]
              · -- The longer pass goes on where the shorter stops.
                have beyond := Nat.lt_of_not_le within
                obtain ⟨opsPart, chunkPart⟩ := run_fillChunk_of_crossed standing' crossed current a
                obtain ⟨opsWhole, chunkWhole⟩ := run_fillChunk_of_crossed standing' crossed current
                  (a + min (segment.dataLen - (segment.pos + a)) b)
                have part := chunkPart a (Nat.min_eq_right beyond.le)
                have whole := chunkWhole (a + b) (by omega)
                have standingPart := (fillChunk_standing a s standing).of_ok part
                have more : (segment.advance a).pos < (segment.advance a).dataLen := by
                  simp only [Segment.advance]
                  omega
                obtain ⟨opsRest, chunkRest⟩ := run_fillChunk_of_crossed standingPart
                  (crossIfExhausted_of_more rfl more) rfl (min (segment.dataLen - (segment.pos + a)) b)
                have restChunk := chunkRest b rfl
                have alike : Alike (t.took dir segment
                    (a + min (segment.dataLen - (segment.pos + a)) b) opsWhole)
                    ((t.took dir segment a opsPart).took dir (segment.advance a)
                      (min (segment.dataLen - (segment.pos + a)) b) opsRest) := by
                  rw [took_took _ _ _ _ counted']
                  exact ⟨opsRest, rfl⟩
                have retraces : Retraces (fill (.still dir noFault overflowChecks)
                    (b - min (segment.dataLen - (segment.pos + a)) b)) := retraces_fill _
                refine (couples_of_run ?_ ?_).mpr ((retraces _ _ alike).imp
                  (fun _ _ _ _ agrees => agrees.2) fun _ _ _ _ failed => failed)
                · rw [run_fill_of_ok all whole, Nat.add_sub_add_left]
                · rw [EStateM.run_bind, run_fill_of_ok positive part, Nat.sub_self, run_fill_zero]
                  exact run_fill_of_ok rest restChunk

/-! ## Filling and skipping -/

/-- At least what was placed when filling stopped. -/
def Beyond (placed p q : Bytes × Nat) : Prop :=
  q = placed ∧ placed.1 <+: p.1 ∧ placed.2 ≤ p.2

/-- `s` goes on filling a buffer where `t` has stopped, at `placed`. -/
structure FillsOn (dir : Dir) (placed : Bytes × Nat) (s t : ReadState) : Prop where
  beside : Beside (Beyond placed) s t
  standing : Standing dir s
  counted : Counted s
  begun : 0 < s.cursor.consumed

/-- How filling on and skipping fail: by panic both, or both at an early end of
the record, of which more was placed than where filling stopped. -/
inductive FailsOn (placed : Bytes × Nat) : Stop → Stop → ReadState → ReadState → Prop
  | panic {s t : ReadState} (same : t.toLogRead = s.toLogRead) : FailsOn placed .panic .panic s t
  | truncated {s t : ReadState} {lost n : Nat} {e : LogError} (beside : Beside (Beyond placed) s t)
      (more : placed.2 ≤ n) : FailsOn placed (.error (.readTruncated lost n)) (.error e) s t

theorem fillChunk_skipChunk {placed : Bytes × Nat} (len : Nat) {s t : ReadState}
    (fillsOn : FillsOn dir placed s t) :
    Couples (fillChunk (.still dir noFault overflowChecks) len)
      (skipChunk (.still dir noFault overflowChecks) len) s t
      (fun n n' s' t' => n = n' ∧ FillsOn dir placed s' t') (FailsOn placed) := by
  have keeps : Meets (crossIfExhausted (.still dir noFault overflowChecks)) s
      (fun _ s' => KeepsPlaced s s') (fun stop s' => KeepsPlaced s s' ∧ Breaks s stop) :=
    crossIfExhausted_keeps s
  have ignores : Ignores (Beyond placed) (crossIfExhausted (.still dir noFault overflowChecks)) :=
    ignores_crossIfExhausted
  have crossed := (ignores s t fillsOn.beside).and_meets
    (keeps.and (crossIfExhausted_standing s fillsOn.standing))
  refine couples_bind (crossed.imp ?_ ?_)
  · rintro _ _ s' t' ⟨⟨_, beside⟩, keeps', standing⟩
    have counted := (keeps'.places fillsOn.counted).counted fillsOn.counted
    have begun : 0 < s'.cursor.consumed := keeps'.consumed.symm ▸ fillsOn.begun
    obtain ⟨ops, _, rfl, rfl, front, more⟩ := beside
    refine couples_bind (couples_get.mpr ?_)
    dsimp only [ReadState.placing]
    cases current : s'.current with
    | none =>
        exact couples_bind (couples_get.mpr (couples_throw.mpr
          (.truncated ⟨ops, _, rfl, rfl, front, more⟩ more)))
    | some segment =>
        have isOpen := standing segment current
        have posLe := isOpen.posLe
        refine couples_bind (couples_of_meets (readExact_still isOpen (by omega))
          (seekForward_still isOpen (by omega)) ?_)
        rintro bytes moved u u' ⟨asked, rfl⟩ ⟨asked', rfl⟩
        refine couples_bind (couples_modify.mpr (couples_pure.mpr ⟨rfl, ?_⟩))
        have within : segment.pos + min (segment.dataLen - segment.pos) len ≤ segment.dataLen := by
          omega
        have payload := cursor_read_payloadInBuf (n := min (segment.dataLen - segment.pos) len) counted
        unfold Counted at counted
        refine ⟨⟨u'.ops, _, ?_, rfl, ?_, ?_⟩, ?_, ?_, ?_⟩
        · rw [asked.same, asked'.same]
          rfl
        · rw [asked.same]
          exact front.trans (List.prefix_append _ _)
        · rw [asked.same]
          dsimp only [ReadState.placed] at more ⊢
          rw [payload]
          split <;> omega
        · exact standing.advance current within (by rw [asked.same])
        · rw [asked.same]
          dsimp only [Counted]
          rw [payload]
          split <;> omega
        · rw [asked.same]
          exact Nat.lt_of_lt_of_le begun (Nat.le_add_right _ _)
  · rintro stop stop' s' t' ⟨⟨beside, same⟩, ⟨keeps', breaks⟩, _⟩
    have more : placed.2 ≤ s'.cursor.payloadInBuf := by
      obtain ⟨_, _, _, _, _, more⟩ := beside
      exact more
    rw [keeps'.payloadInBuf] at more
    cases breaks with
    | panic =>
        rcases same with rfl | ⟨lost, impossible, _⟩
        · exact .panic beside.toLogRead_eq
        · contradiction
    | truncated lost =>
        rcases same with rfl | ⟨_, _, rfl⟩
        · exact .truncated beside more
        · exact .truncated beside more
    | boundary fresh => exact absurd fresh fillsOn.begun.ne'

/-- Skipping what is left of a record moves through the files as filling does. -/
theorem fill_skip {placed : Bytes × Nat} (len : Nat) {s t : ReadState}
    (fillsOn : FillsOn dir placed s t) :
    Couples (fill (.still dir noFault overflowChecks) len)
      (skip (.still dir noFault overflowChecks) len) s t
      (fun _ _ s' t' => FillsOn dir placed s' t') (FailsOn placed) :=
  couples_repeatPass (fun _ => FillsOn dir placed) (fun _ fillsOn => fillChunk_skipChunk _ fillsOn) fillsOn

end Moving

/-! ## What the caller is told -/

/-- What one run of `read` gave its caller. -/
def told : EStateM.Result Stop ReadState ReadResult → Outcome × ReadState
  | .ok result s' => (.record (s'.dst.take result.n) result.metadata, s')
  | .error (.error e) s' => (.failed e (s'.dst.take e.placed), s')
  | .error _ s' => (.panicked, s')

theorem readCall_eq_told (env : ReadEnv) (cap : Nat) (s : ReadState) :
    readCall env cap s = told ((read env cap).run s) :=
  rfl

/-- What a caller with a buffer of `cap` bytes is told where a caller with room
for any record is told `outcome`. -/
def Outcome.clip (cap : Nat) : Outcome → Outcome
  | .record payload metadata =>
      if cap < payload.length then .failed (.readOverflow cap) (payload.take cap)
      else .record payload metadata
  | .failed (.readTruncated lost n) bytes =>
      if cap ≤ n then .failed (.readOverflow cap) (bytes.take cap)
      else .failed (.readTruncated lost n) bytes
  | outcome => outcome

/-- The second run, with a buffer of `cap` bytes, tells what the first tells as
far as the buffer goes, and leaves the reader in the same state. -/
structure Clips (cap : Nat) (r r' : EStateM.Result Stop ReadState ReadResult) : Prop where
  outcome : (told r').1 = (told r).1.clip cap
  same : (told r').2.toLogRead = (told r).2.toLogRead

/-- A failure that leaves at most fewer bytes than the buffer holds is told
alike. -/
theorem Clips.of_failed {cap : Nat} {stop : Stop} {s t : ReadState} (alike : Alike s t)
    (short : ∀ lost n, stop = .error (.readTruncated lost n) → n < cap) :
    Clips cap (.error stop s) (.error stop t) := by
  obtain ⟨ops, rfl⟩ := alike
  cases stop with
  | panic => exact ⟨rfl, rfl⟩
  | stuck => exact ⟨rfl, rfl⟩
  | error e =>
      refine ⟨?_, rfl⟩
      cases e with
      | readTruncated lost n =>
          have less := short lost n rfl
          simp only [told, Outcome.clip, if_neg (Nat.not_le.mpr less)]
      | _ => rfl

/-- The state in which the transfer of a payload begins. -/
def ReadState.begins (s : ReadState) (metadata : Meta) : ReadState :=
  { s with lastMeta := metadata, cursor := { s.cursor with inPayload := true }, dst := [] }

section Payload

variable {dir : Dir} {overflowChecks : Bool}

/-- A record that ends early in a transfer is told with less than the transfer
was to place. -/
theorem truncated_lt {s s' : ReadState} {metadata : Meta} {len lost n : Nat}
    (fresh : s.cursor.payloadInBuf = 0)
    (failed : ∃ m t, m < len ∧ Places m (s.begins metadata) t ∧ KeepsPlaced t s' ∧
      Breaks t (.error (.readTruncated lost n))) : n < len := by
  obtain ⟨m, t, less, places, _, breaks⟩ := failed
  have payload := places.payloadInBuf
  have start : (s.begins metadata).cursor.payloadInBuf = 0 := fresh
  cases breaks with
  | truncated => 
      split at payload <;> omega

theorem run_orLosePosition_of_ok {α : Type} {x : ReadM α} {a : α} {s s' : ReadState}
    (ran : x.run s = .ok a s') : (orLosePosition x).run s = .ok a s' := by
  simp only [orLosePosition, EStateM.run_bind, attempt_of_ok ran]
  rfl

/-- The reader after a failure: an error gives up the read position. -/
def ReadState.after (s : ReadState) : Stop → ReadState
  | .error _ => s.losePosition
  | _ => s

theorem Alike.after {s t : ReadState} (alike : Alike s t) (stop : Stop) :
    Alike (s.after stop) (t.after stop) := by
  obtain ⟨ops, rfl⟩ := alike
  cases stop <;> exact ⟨ops, rfl⟩

theorem run_orLosePosition_of_failed {α : Type} {x : ReadM α} {stop : Stop} {s s' : ReadState}
    (ran : x.run s = .error stop s') : (orLosePosition x).run s = .error stop (s'.after stop) := by
  cases stop with
  | error e =>
      simp only [orLosePosition, EStateM.run_bind, attempt_of_error ran]
      rfl
  | panic =>
      simp only [orLosePosition, EStateM.run_bind, attempt_of_stop (by simp) ran]
      rfl
  | stuck =>
      simp only [orLosePosition, EStateM.run_bind, attempt_of_stop (by simp) ran]
      rfl

/-- The transfer of what fits the buffer fails. -/
theorem run_payload_of_failed {cap want : Nat} {metadata : Meta} {stop : Stop} {s s' : ReadState}
    (ran : (fill (.still dir noFault overflowChecks) (min want cap)).run (s.begins metadata) =
      .error stop s') :
    (payload (.still dir noFault overflowChecks) cap want metadata).run s =
      .error stop (s'.after stop) := by
  have filled : (fillBuf (.still dir noFault overflowChecks) (min want cap)).run { s with
      lastMeta := metadata, cursor := { s.cursor with inPayload := true } } = .error stop s' := by
    simp only [ReadState.begins] at ran
    simp only [fillBuf, EStateM.run_bind, EStateM.run_modify, ran]
  simp only [payload, EStateM.run_bind, EStateM.run_modify, run_orLosePosition_of_failed filled]

/-- What follows the transfer of what fits the buffer. -/
theorem run_payload_of_ok {cap want : Nat} {metadata : Meta} {s s' : ReadState}
    (ran : (fill (.still dir noFault overflowChecks) (min want cap)).run (s.begins metadata) =
      .ok () s') :
    (payload (.still dir noFault overflowChecks) cap want metadata).run s =
      if cap < want then
        match (skip (.still dir noFault overflowChecks) (want - cap)).run s' with
        | .ok _ t => .error (.error (.readOverflow (min want cap))) t
        | .error (.error _) t => .error (.error (.readOverflow (min want cap))) t.losePosition
        | .error stop t => .error stop t
      else .ok { n := min want cap, metadata } s' := by
  have filled : (fillBuf (.still dir noFault overflowChecks) (min want cap)).run { s with
      lastMeta := metadata, cursor := { s.cursor with inPayload := true } } = .ok s'.dst s' := by
    simp only [ReadState.begins] at ran
    simp only [fillBuf, EStateM.run_bind, EStateM.run_modify, ran]
    rfl
  simp only [payload, EStateM.run_bind, EStateM.run_modify, run_orLosePosition_of_ok filled]
  by_cases long : cap < want
  · rw [if_pos long, if_pos long, EStateM.run_bind]
    cases skipped : (skip (.still dir noFault overflowChecks) (want - cap)).run s' with
    | ok _ t => rw [attempt_of_ok skipped]; rfl
    | error stop t =>
        cases stop with
        | error e => rw [attempt_of_error skipped]; rfl
        | panic => rw [attempt_of_stop (by simp) skipped]
        | stuck => rw [attempt_of_stop (by simp) skipped]
  · rw [if_neg long, if_neg long]
    rfl

/-- What filling places of a payload that is begun. -/
theorem begins_places {metadata : Meta} {s : ReadState} (n : Nat) (standing : Standing dir s)
    (counted : Counted (s.begins metadata)) :
    Meets (fill (.still dir noFault overflowChecks) n) (s.begins metadata)
      (fun _ s' => Standing dir s' ∧ Places n (s.begins metadata) s')
      (fun stop s' => ∃ m t, m < n ∧ Places m (s.begins metadata) t ∧ KeepsPlaced t s' ∧
        Breaks t stop) :=
  fill_places n standing counted

/-- A payload that is begun is filled in two steps as in one. -/
theorem begins_fill {metadata : Meta} {s : ReadState} {cap want : Nat} (long : cap < want)
    (standing : Standing dir s) (counted : Counted (s.begins metadata)) :
    Couples (fill (.still dir noFault overflowChecks) want)
      (fill (.still dir noFault overflowChecks) cap >>= fun _ =>
        fill (.still dir noFault overflowChecks) (want - cap)) (s.begins metadata) (s.begins metadata)
      (fun _ _ s' t' => Alike s' t') FailAlike := by
  have split : Couples (fill (.still dir noFault overflowChecks) (cap + (want - cap))) _ _ _ _ _ :=
    fill_add (s := s.begins metadata) cap (want - cap) standing counted
  rwa [Nat.add_sub_cancel' long.le] at split

/-- A payload that fits the buffer is transferred as to any longer buffer. -/
theorem payload_clips_of_le {cap ample want : Nat} {metadata : Meta} {s t : ReadState}
    (alike : Alike s t) (standing : Standing dir s) (fresh : s.cursor.payloadInBuf = 0)
    (fits : want ≤ cap) (fits' : want ≤ ample) :
    Clips cap ((payload (.still dir noFault overflowChecks) ample want metadata).run s)
      ((payload (.still dir noFault overflowChecks) cap want metadata).run t) := by
  have counted : Counted (s.begins metadata) := by
    change s.cursor.payloadInBuf ≤ u32Max
    omega
  have alike' : Alike (s.begins metadata) (t.begins metadata) := by
    obtain ⟨ops, rfl⟩ := alike
    exact ⟨ops, rfl⟩
  have retraces : Retraces (fill (.still dir noFault overflowChecks) want) := retraces_fill want
  rcases (retraces _ _ alike').cases with
    ⟨_, u, _, u', left, right, _, ops, rfl⟩ | ⟨stop, u, _, u', left, right, rfl, alike''⟩
  · rw [run_payload_of_ok (by rw [Nat.min_eq_left fits']; exact left),
      run_payload_of_ok (by rw [Nat.min_eq_left fits]; exact right),
      if_neg (Nat.not_lt.mpr fits), if_neg (Nat.not_lt.mpr fits'), Nat.min_eq_left fits,
      Nat.min_eq_left fits']
    refine ⟨?_, rfl⟩
    have short : ¬ cap < (u.dst.take want).length := by
      rw [List.length_take]
      omega
    simp only [told, Outcome.clip, if_neg short]
  · rw [run_payload_of_failed (by rw [Nat.min_eq_left fits']; exact left),
      run_payload_of_failed (by rw [Nat.min_eq_left fits]; exact right)]
    refine .of_failed (alike''.after stop) fun lost n is => ?_
    subst is
    exact truncated_lt fresh ((begins_places want standing counted).of_error left) |>.trans_le fits

/-- Once the shorter buffer is full the longer one is filled on, where the shorter
one skips. -/
theorem payload_clips_of_full {cap ample want : Nat} {metadata : Meta} {s t m : ReadState}
    {moreOps : List ReadOp} {a b : Unit} (standing : Standing dir s) (fresh : s.cursor.payloadInBuf = 0)
    (begun : 0 < cap ∨ 0 < s.cursor.consumed) (long : cap < want) (bounded : want ≤ u32Max)
    (fits : want ≤ ample)
    (left : (fill (.still dir noFault overflowChecks) cap).run (s.begins metadata) = .ok a m)
    (right : (fill (.still dir noFault overflowChecks) cap).run (t.begins metadata) =
      .ok b { m with ops := moreOps }) (counted : Counted (s.begins metadata)) :
    Clips cap ((payload (.still dir noFault overflowChecks) ample want metadata).run s)
      ((payload (.still dir noFault overflowChecks) cap want metadata).run t) := by
  have start : (s.begins metadata).cursor.payloadInBuf = 0 := fresh
  obtain ⟨standing', places⟩ := (begins_places cap standing counted).of_ok left
  have begun' : 0 < m.cursor.consumed := by
    have from_ : (s.begins metadata).cursor.consumed = s.cursor.consumed := rfl
    rw [places.consumed, from_]
    omega
  have payload := places.payloadInBuf
  rw [start, Nat.zero_add, Nat.min_eq_left (by omega)] at payload
  have full : m.cursor.payloadInBuf = cap := by
    split at payload
    · exact payload
    next notPayload => exact absurd rfl notPayload
  have fillsOn : FillsOn dir m.placed m { m with ops := moreOps } :=
    ⟨⟨moreOps, m.placed, rfl, rfl, List.prefix_rfl, Nat.le_refl _⟩, standing',
      places.counted counted, begun'⟩
  have rest : Couples (fill (.still dir noFault overflowChecks) (want - cap))
      (skip (.still dir noFault overflowChecks) (want - cap)) m { m with ops := moreOps }
      (fun _ _ s' t' => FillsOn dir m.placed s' t') (FailsOn m.placed) := fill_skip _ fillsOn
  rw [← Nat.min_eq_right long.le] at right
  have short : _ = ite (cap < want) _ _ := run_payload_of_ok right
  rw [if_pos long, Nat.min_eq_right long.le] at short
  have onward := (couples_of_run rfl (show _ = (fill (.still dir noFault overflowChecks)
    (want - cap)).run m by rw [EStateM.run_bind, left])).mp (begins_fill long standing counted)
  have length : m.dst.length = cap := by
    obtain ⟨bytes, dst, length⟩ := places.dst
    rw [dst, show (s.begins metadata).dst = [] from rfl, List.nil_append, length]
  have kept {bytes : Bytes} (front : m.dst <+: bytes) : m.dst.take cap = bytes.take cap := by
    rw [← length, List.take_length]
    exact List.prefix_iff_eq_take.mp front
  rcases (onward.trans rest).cases with
    ⟨_, u, _, w, filled, skipped, _, v, ⟨ops, rfl⟩, fillsOn'⟩ |
    ⟨stop, u, stop', w, filled, skipped, _, v, ⟨rfl, ops, rfl⟩, failsOn⟩
  · have length' : u.dst.length = want := by
      obtain ⟨bytes, dst, length⟩ := ((begins_places want standing counted).of_ok filled).2.dst
      rw [dst, show (s.begins metadata).dst = [] from rfl, List.nil_append, length]
    obtain ⟨ops', _, rfl, rfl, prefix_, _⟩ := fillsOn'.beside
    rw [short, skipped, run_payload_of_ok (by rw [Nat.min_eq_left fits]; exact filled),
      if_neg (Nat.not_lt.mpr fits), Nat.min_eq_left fits]
    have longer : cap < (u.dst.take want).length := by
      rw [List.length_take, length']
      exact Nat.lt_min.mpr ⟨long, long⟩
    refine ⟨?_, rfl⟩
    simp only [told, Outcome.clip, if_pos longer, LogError.placed, ReadState.placing, ReadState.placed,
      List.take_take, Nat.min_eq_left long.le, kept prefix_]
  · rw [short, skipped, run_payload_of_failed (by rw [Nat.min_eq_left fits]; exact filled)]
    cases failsOn with
    | panic same => exact ⟨rfl, same⟩
    | @truncated _ _ lost n e beside more =>
        have reached : cap ≤ n := full ▸ more
        obtain ⟨ops', _, rfl, rfl, prefix_, _⟩ := beside
        refine ⟨?_, rfl⟩
        simp only [told, Outcome.clip, if_pos reached, LogError.placed, ReadState.after,
          ReadState.losePosition, ReadState.placing, ReadState.placed, List.take_take,
          Nat.min_eq_left reached, kept prefix_]

/-- A payload that does not fit the buffer is skipped where a longer buffer
would be filled. -/
theorem payload_clips_of_lt {cap ample want : Nat} {metadata : Meta} {s t : ReadState}
    (alike : Alike s t) (standing : Standing dir s) (fresh : s.cursor.payloadInBuf = 0)
    (begun : 0 < cap ∨ 0 < s.cursor.consumed) (long : cap < want) (bounded : want ≤ u32Max)
    (fits : want ≤ ample) :
    Clips cap ((payload (.still dir noFault overflowChecks) ample want metadata).run s)
      ((payload (.still dir noFault overflowChecks) cap want metadata).run t) := by
  have start : (s.begins metadata).cursor.payloadInBuf = 0 := fresh
  have counted : Counted (s.begins metadata) := by
    unfold Counted
    omega
  have alike' : Alike (s.begins metadata) (t.begins metadata) := by
    obtain ⟨ops, rfl⟩ := alike
    exact ⟨ops, rfl⟩
  have retraces : Retraces (fill (.still dir noFault overflowChecks) cap) := retraces_fill cap
  rcases (retraces _ _ alike').cases with
    ⟨_, m, _, m', left, right, _, moreOps, rfl⟩ | ⟨stop, m, _, m', left, right, rfl, alike''⟩
  · exact payload_clips_of_full standing fresh begun long bounded fits left right counted
  · -- The record ends before the buffer is full.
    rcases (begins_fill long standing counted).cases with ⟨_, _, _, _, _, impossible, _⟩ | ⟨stop', u, _, v, filled, failed, rfl, alike₂⟩
    · rw [EStateM.run_bind, left] at impossible
      contradiction
    · rw [EStateM.run_bind, left] at failed
      obtain ⟨rfl, rfl⟩ := EStateM.Result.error.inj failed
      rw [run_payload_of_failed (by rw [Nat.min_eq_left fits]; exact filled),
        run_payload_of_failed (by rw [Nat.min_eq_right long.le]; exact right)]
      refine .of_failed ((alike₂.trans alike'').after _) fun lost n is => ?_
      subst is
      exact truncated_lt fresh ((begins_places cap standing counted).of_error left)

end Payload

/-! ## Whole calls -/

section Call

variable {dir : Dir} {overflowChecks : Bool}

/-- What `read` does once it knows that there is more to read. -/
def ReadState.starts (s : ReadState) : ReadState :=
  { s with resync := s.resync || s.current.isNone, cursor := {}, dst := [] }

theorem run_read (env : ReadEnv) (cap : Nat) (s : ReadState) :
    (read env cap).run s =
      if s.pending = [] ∧ s.exhausted then .error (.error .eof) { s with current := none }
      else
        match (locate env).run s.starts with
        | .ok start t =>
            match t.current with
            | none => .error (.error .eof) t.losePosition
            | some segment =>
                match (header env start segment).run t with
                | .ok (want, metadata) u => (payload env cap want metadata).run u
                | .error stop u => .error stop u
        | .error stop t => .error stop t := by
  simp only [read, EStateM.run_bind, EStateM.run_get]
  by_cases ended : s.pending = [] ∧ s.exhausted
  · rw [if_pos ended, if_pos ended]
    rfl
  · rw [if_neg ended, if_neg ended, EStateM.run_bind, EStateM.run_set]
    dsimp only
    have starts : ({ s with resync := s.resync || s.current.isNone, cursor := {}, dst := [] } :
        ReadState) = s.starts := rfl
    rw [EStateM.run_bind, starts]
    cases (locate env).run s.starts with
    | error stop t => rfl
    | ok start t =>
        simp only [EStateM.run_bind, EStateM.run_get]
        cases t.current with
        | none => exact run_orLosePosition_of_failed rfl
        | some segment =>
            simp only [EStateM.run_bind]
            cases (header env start segment).run t with
            | error stop u => rfl
            | ok decoded u => rfl

/-- A call with a buffer of any length leaves the reader where a call with room
for any record does, and tells what that call tells as far as the buffer goes. -/
theorem read_clips {cap ample : Nat} {s t : ReadState} (same : t.toLogRead = s.toLogRead)
    (standing : Standing dir s) (positive : 0 < cap) (enough : u32Max ≤ ample) :
    Clips cap ((read (.still dir noFault overflowChecks) ample).run s)
      ((read (.still dir noFault overflowChecks) cap).run t) := by
  rw [run_read, run_read]
  have ends : (t.pending = [] ∧ t.exhausted) ↔ (s.pending = [] ∧ s.exhausted) := by rw [same]
  simp only [ends]
  by_cases ended : s.pending = [] ∧ s.exhausted
  · rw [if_pos ended, if_pos ended]
    refine ⟨rfl, ?_⟩
    simp only [told, same]
  · rw [if_neg ended, if_neg ended]
    have alike : Alike s.starts t.starts := ⟨t.ops, by simp only [ReadState.starts, same]⟩
    have unplaced : Unplaced s.starts := ⟨rfl, rfl⟩
    have standing' : Standing dir s.starts := standing
    have retraces : Retraces (locate (.still dir noFault overflowChecks)) := retraces_locate
    have spec : Meets (locate (.still dir noFault overflowChecks)) s.starts
        (fun start s' => (Unplaced s' ∧ ∀ n, start = .recovered n → n ≤ u32Max) ∧ Standing dir s')
        (fun stop s' => (Unplaced s' ∧ Bare stop) ∧ Standing dir s') :=
      (locate_unplaced unplaced).and (locate_standing _ standing')
    rcases (retraces _ _ alike).cases with
      ⟨start, u, _, _, left, right, rfl, alike'⟩ | ⟨stop, u, _, _, left, right, rfl, alike'⟩
    · obtain ⟨⟨unplaced', small⟩, standing''⟩ := spec.of_ok left
      rw [left, right]
      obtain ⟨ops, rfl⟩ := alike'
      dsimp only
      cases current : u.current with
      | none => exact .of_failed ⟨ops, rfl⟩ (by simp)
      | some segment =>
          have retraces' : Retraces (header (.still dir noFault overflowChecks) start segment) :=
            retraces_header start segment
          have spec' : Meets (header (.still dir noFault overflowChecks) start segment) u
              (fun decoded s' => (decoded.1 ≤ u32Max ∧ Unplaced s') ∧ Standing dir s')
              (fun stop s' => (Unplaced s' ∧ Bare stop) ∧ Standing dir s') :=
            (header_unplaced segment small standing'' unplaced').and (header_standing _ _ _ standing'')
          dsimp only
          rcases (retraces' u _ ⟨ops, rfl⟩).cases with
            ⟨decoded, v, _, _, left', right', rfl, alike''⟩ | ⟨stop, v, _, _, left', right', rfl, alike''⟩
          · obtain ⟨⟨bounded, unplaced''⟩, standing₃⟩ := spec'.of_ok left'
            rw [left', right']
            rcases Nat.lt_or_ge cap decoded.1 with long | fits
            · exact payload_clips_of_lt alike'' standing₃ unplaced''.payloadInBuf (.inl positive) long
                bounded (bounded.trans enough)
            · exact payload_clips_of_le alike'' standing₃ unplaced''.payloadInBuf fits
                (bounded.trans enough)
          · rw [left', right']
            refine .of_failed alike'' fun lost n is => ?_
            rw [(spec'.of_error left').1.2 is]
            exact positive
    · rw [left, right]
      refine .of_failed alike' fun lost n is => ?_
      rw [(spec.of_error left).1.2 is]
      exact positive

theorem readCall_clips {cap ample : Nat} {s t : ReadState} (same : t.toLogRead = s.toLogRead)
    (standing : Standing dir s) (positive : 0 < cap) (enough : u32Max ≤ ample) :
    (readCall (.still dir noFault overflowChecks) cap t).1 =
        (readCall (.still dir noFault overflowChecks) ample s).1.clip cap ∧
      (readCall (.still dir noFault overflowChecks) cap t).2.toLogRead =
        (readCall (.still dir noFault overflowChecks) ample s).2.toLogRead := by
  simp only [readCall_eq_told]
  have clips : Clips cap ((read (.still dir noFault overflowChecks) ample).run s)
    ((read (.still dir noFault overflowChecks) cap).run t) := read_clips same standing positive enough
  exact ⟨clips.outcome, clips.same⟩

/-- So do any number of calls with buffers of any lengths. -/
theorem readCalls_clips {caps ample : Nat → Nat} (calls : Nat) {s t : ReadState}
    (same : t.toLogRead = s.toLogRead) (standing : Standing dir s) (positive : ∀ i, 0 < caps i)
    (enough : ∀ i, u32Max ≤ ample i) :
    (readCalls (.still dir noFault overflowChecks) caps calls t).1 =
        (readCalls (.still dir noFault overflowChecks) ample calls s).1.mapIdx
          (fun i outcome => outcome.clip (caps i)) ∧
      (readCalls (.still dir noFault overflowChecks) caps calls t).2.toLogRead =
        (readCalls (.still dir noFault overflowChecks) ample calls s).2.toLogRead := by
  induction calls generalizing caps ample s t with
  | zero => exact ⟨rfl, same⟩
  | succ calls ih =>
      have first : _ = (readCall (.still dir noFault overflowChecks) (ample 0) s).1.clip _ ∧ _ :=
        readCall_clips same standing (positive 0) (enough 0)
      obtain ⟨outcome, same'⟩ := first
      obtain ⟨outcomes, same''⟩ := ih same' (readCall_standing _ standing) (fun i => positive (i + 1))
        fun i => enough (i + 1)
      simp only [readCalls, List.mapIdx_cons]
      exact ⟨by rw [outcome, outcomes], same''⟩

/-- A reader that begins stands nowhere yet. -/
theorem LogRead.Begins.standing {log : LogRead} {listed : Dir} {front back : Bytes}
    (begins : log.Begins listed front back) : Standing dir log.begin :=
  .of_closed begins.current

end Call

/-- The length of its buffers does not change where a reader goes: after as many
calls two readers of a directory are in the same state, and each was told what a
reader with room for any record is told as far as its buffers go. -/
theorem buffers_agree {dir view : Dir} {overflowChecks isDir : Bool} {namePrefix nameSuffix : Bytes}
    {log : LogRead} (isNew : LogRead.new isDir (some dir) namePrefix nameSuffix = .ok log)
    {caps caps' ample : Nat → Nat} (positive : ∀ i, 0 < caps i) (positive' : ∀ i, 0 < caps' i)
    (enough : ∀ i, u32Max ≤ ample i) (calls : Nat) :
    let run (lengths : Nat → Nat) :=
      readCalls (.still view noFault overflowChecks) lengths calls log.begin
    (run caps).2.toLogRead = (run caps').2.toLogRead ∧
      (run caps).1 = (run ample).1.mapIdx (fun i outcome => outcome.clip (caps i)) ∧
      (run caps').1 = (run ample).1.mapIdx (fun i outcome => outcome.clip (caps' i)) := by
  obtain ⟨_, _, begins⟩ := LogRead.new_spec isNew
  have standing : Standing view log.begin := begins.standing
  have clips {lengths : Nat → Nat} (some : ∀ i, 0 < lengths i) :
      (readCalls (.still view noFault overflowChecks) lengths calls log.begin).1 =
          (readCalls (.still view noFault overflowChecks) ample calls log.begin).1.mapIdx
            (fun i outcome => outcome.clip (lengths i)) ∧
        (readCalls (.still view noFault overflowChecks) lengths calls log.begin).2.toLogRead =
          (readCalls (.still view noFault overflowChecks) ample calls log.begin).2.toLogRead :=
    readCalls_clips calls rfl standing some enough
  exact ⟨(clips positive).2.trans (clips positive').2.symm, (clips positive).1, (clips positive').1⟩

/-- A file that holds one record of two bytes. -/
def Sample.one : Dir :=
  AList.insert (buildName [] 7 []) (Sample.file 7 7 0 0 [2, 0, 0, 0, 5, 6]) ∅

theorem buffers_agree_sample :
    let run (lengths : Nat → Nat) :=
      readCalls (.still Sample.one noFault true) lengths 2 (Sample.reader [7]).begin
    (run fun _ => 1).2.toLogRead = (run fun _ => 2).2.toLogRead ∧
      (run fun _ => 1).1 = (run fun _ => u32Max).1.mapIdx (fun _ outcome => outcome.clip 1) ∧
      (run fun _ => 2).1 = (run fun _ => u32Max).1.mapIdx (fun _ outcome => outcome.clip 2) :=
  buffers_agree
    (show LogRead.new true (some Sample.one) [] [] = .ok (Sample.reader [7]) by decide +kernel)
    (fun _ => by decide) (fun _ => by decide) (fun _ => Nat.le_refl _) 2

example : (readCalls (.still Sample.one noFault true) (fun _ => 1) 2 (Sample.reader [7]).begin).1 =
    [.failed (.readOverflow 1) [5], .failed .eof []] := by decide +kernel

end Tcslog
