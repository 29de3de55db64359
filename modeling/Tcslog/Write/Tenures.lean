import Tcslog.Write.Traces
import Tcslog.Write.Counts

/-!
# The files handed over

Every file a writer creates is its current one for a while.  What becomes of it
then is told by the trace of the writer's requests, file by file.
-/

namespace Tcslog

open Lib.Program WriteState

/-- What became of a file once it was not the current one any more: it was full,
its session could count no further record, or its writer was dropped, and it was
handed over; or it was removed with these others; or neither. -/
inductive Fate
  | left
  | rolled
  | ended
  | dropped
  | cleared (ids : List SegId)
  deriving DecidableEq, Repr

def Fate.handsOver : Fate → Bool
  | .left => false
  | .cleared _ => false
  | _ => true

def Fate.events (id : SegId) : Fate → List WriteEvent
  | .left => []
  | .cleared ids => ids.map .removed
  | _ => [.flushed id, .sent id]

/-- The file `id` is put to use. -/
def WriteEvent.uses (id : SegId) : WriteEvent → Bool
  | appended id' _ => id' = id
  | completed id' => id' = id
  | flushed id' => id' = id
  | _ => false

/-- The number of bytes appended. -/
def WriteEvent.len : WriteEvent → Nat
  | appended _ bytes => bytes.length
  | _ => 0

/-- A file from its creation on: how its writer waited for its name, its header,
what it was used for while it was current, and what became of it. -/
structure Tenure where
  waited : List WriteEvent
  id : SegId
  header : SegmentHeader
  uses : List WriteEvent
  fate : Fate
  deriving DecidableEq, Repr

namespace Tenure

def events (t : Tenure) : List WriteEvent :=
  t.waited ++ [.created t.id, .appended t.id t.header.toBytes] ++ t.uses ++ t.fate.events t.id

/-- The length of the data section. -/
def dataLen (t : Tenure) : Nat :=
  (t.uses.map WriteEvent.len).sum

/-- The number of records that were completed in the file. -/
def records (t : Tenure) : Nat :=
  t.uses.countP fun event => event = .completed t.id

/-- A file of a writer whose files have at most `size` bytes. -/
structure Proper (size : UInt32) (t : Tenure) : Prop where
  waits : ∀ event ∈ t.waited, event.waits
  uses : ∀ event ∈ t.uses, event.uses t.id
  segmentId : t.header.segmentId = t.id
  fits : segmentFileHeaderLen + t.dataLen ≤ size.toNat
  full : t.fate = .rolled → segmentFileHeaderLen + t.dataLen = size.toNat
  holds : t.fate.handsOver → 0 < t.dataLen
  removed : ∀ ids, t.fate = .cleared ids → t.id ∈ ids

/-- The file created after `older` was: a session goes on just where a full file
was rolled. -/
structure Succeeds (older t : Tenure) : Prop where
  rolled : t.header.sequence ≠ 0 ↔ older.fate = .rolled
  done : older.fate ≠ .left ∧ older.fate ≠ .dropped

/-- The number of records completed in the session of the newest of these files,
the newest one first. -/
def sessionRecords : List Tenure → Nat
  | [] => 0
  | t :: older => t.records + if t.header.sequence = 0 then 0 else sessionRecords older

/-- The files a writer created, the newest one first. -/
def Annals (size : UInt32) : List Tenure → Prop
  | [] => True
  | t :: older => t.Proper size ∧ (∀ prev ∈ older.head?, prev.Succeeds t) ∧
      (t.fate = .ended →
        t.header.format = .variableTsRc ∧ sessionRecords (t :: older) = recordCountMax) ∧
      Annals size older

end Tenure

/-- The files handed over, in that order. -/
def sentIds (events : List WriteEvent) : List SegId :=
  events.filterMap fun
    | .sent id => some id
    | _ => none

/-- What the trace of a writer tells after `first`: the files it created. -/
structure Recounts (first : List WriteEvent) (size : UInt32) (s : WriteState) (tenures : List Tenure) :
    Prop where
  events : s.events = first ++ tenures.reverse.flatMap Tenure.events
  annals : Tenure.Annals size tenures
  sized : s.segSizeMax = size
  roomy : segmentFileHeaderLen < size.toNat

/-- The file `t` is current, and so many records of its session are begun but
not completed. -/
structure Holds (first : List WriteEvent) (size : UInt32) (begun : Nat) (s : WriteState)
    (older : List Tenure) (t : Tenure) : Prop extends Recounts first size s (t :: older) where
  current : s.current = some ⟨t.id, t.dataLen⟩
  left : t.fate = .left
  present : (s.files t.id).isSome
  sequence : t.header.sequence = s.sequence
  format : t.header.format = s.format
  counted : s.format = .variableTsRc →
    Tenure.sessionRecords (t :: older) + begun = s.recordCount

section Holds

open Tenure

variable {env : WriteEnv} {first : List WriteEvent} {size : UInt32} {begun : Nat}
  {s u v : WriteState} {older : List Tenure} {t : Tenure}

theorem Recounts.of_same (recounts : Recounts first size s older) (events : u.events = s.events)
    (sized : u.segSizeMax = s.segSizeMax) : Recounts first size u older :=
  { recounts with events := events.trans recounts.events, sized := sized.trans recounts.sized }

theorem flatMap_newest (t : Tenure) (older : List Tenure) :
    (t :: older).reverse.flatMap Tenure.events = older.reverse.flatMap Tenure.events ++ t.events := by
  rw [List.reverse_cons, List.flatMap_append, List.flatMap_singleton]

/-- Telling more of the newest file. -/
theorem Recounts.newest (t' : Tenure) {more : List WriteEvent} (recounts : Recounts first size s (t :: older))
    (adds : Adds more s u) (sized : u.segSizeMax = s.segSizeMax) (events : t'.events = t.events ++ more)
    (header : t'.header = t.header) (proper : t'.Proper size)
    (ended : t'.fate = .ended → t'.header.format = .variableTsRc ∧
      sessionRecords (t' :: older) = recordCountMax) : Recounts first size u (t' :: older) := by
  refine { recounts with events := ?_, annals := ?_, sized := sized.trans recounts.sized }
  · rw [adds, recounts.events, flatMap_newest, flatMap_newest, events]
    simp only [List.append_assoc]
  · obtain ⟨-, succeeds, -, annals⟩ := recounts.annals
    exact ⟨proper, fun prev isPrev => ⟨header ▸ (succeeds prev isPrev).rolled,
      (succeeds prev isPrev).done⟩, ended, annals⟩

/-- The current file is put to use. -/
theorem Holds.use (event : WriteEvent) (done : Nat) (holds : Holds first size begun s older t)
    (adds : Adds [event] s u) (uses : event.uses t.id)
    (fits : segmentFileHeaderLen + (t.dataLen + event.len) ≤ size.toNat)
    (current : u.current = some ⟨t.id, t.dataLen + event.len⟩)
    (same : u.toLogWrite = { s.toLogWrite with
      current := u.current, recordBytesLeft := u.recordBytesLeft, timerResolution := u.timerResolution })
    (present : (u.files t.id).isSome)
    (counts : (if event = .completed t.id then 1 else 0) + done = begun) :
    Holds first size done u older { t with uses := t.uses ++ [event] } := by
  have proper := holds.annals.1
  have left := holds.left
  have dataLen : Tenure.dataLen { t with uses := t.uses ++ [event] } = t.dataLen + event.len := by
    simp [Tenure.dataLen]
  have told : Recounts first size u ({ t with uses := t.uses ++ [event] } :: older) := by
    refine holds.toRecounts.newest _ adds ?_ ?_ rfl ?_ ?_
    · rw [same]
    · simp [Tenure.events, left, Fate.events]
    · refine ⟨proper.waits, fun event' mem => ?_, proper.segmentId, ?_, ?_, ?_, proper.removed⟩
      · rcases List.mem_append.mp mem with earlier | last
        · exact proper.uses event' earlier
        · rwa [List.mem_singleton.mp last]
      · rwa [dataLen]
      · intro rolled
        exact absurd (left.symm.trans rolled) (by simp)
      · intro handsOver
        change t.fate.handsOver = true at handsOver
        rw [left] at handsOver
        contradiction
    · intro ended
      exact absurd (left.symm.trans ended) (by simp)
  refine { told with
    current := ?_, left := left, present := present, sequence := ?_, format := ?_, counted := ?_ }
  · rw [current, dataLen]
  · rw [same]
    exact holds.sequence
  · rw [same]
    exact holds.format
  · intro format
    rw [same] at format ⊢
    have counted := holds.counted format
    have records : Tenure.records { t with uses := t.uses ++ [event] } =
        t.records + if event = .completed t.id then 1 else 0 := by
      rw [Tenure.records, Tenure.records, List.countP_append, List.countP_singleton]
      simp
    simp only [sessionRecords] at counted ⊢
    rw [records]
    omega

theorem createUniqueFile_present (attempts : Nat) (collided : Bool) (s : WriteState) :
    Meets (createUniqueFile env attempts collided) s (fun id t => (t.files id).isSome)
      (fun _ _ => True) := by
  induction attempts generalizing s collided with
  | zero => exact trivial
  | succ attempts ih =>
      rw [createUniqueFile, meets_bind]
      refine meets_true.imp (fun id t _ => ?_) fun _ _ _ => trivial
      rw [meets_bind]
      refine (createNew_spec id).imp ?_ (by simp)
      rintro creation u outcome
      cases creation with
      | refused => exact trivial
      | made =>
          change (u.files id).isSome
          rw [outcome.2.files_eq, Dir.files_insert, Function.update_self]
          rfl
      | alreadyExists =>
          rw [meets_bind]
          exact (noteCollision_spec collided).imp (fun _ v _ => ih true v) (by simp)

theorem writeAll_present {id : SegId} (bytes : Bytes) (present : (s.files id).isSome) :
    Meets (writeAll env id bytes) s (fun _ t => (t.files id).isSome) (fun _ _ => False) := by
  obtain ⟨content, isContent⟩ := Option.isSome_iff_exists.mp present
  refine (writeAll_spec isContent bytes).imp ?_ fun _ _ failed => failed
  rintro _ t ⟨front, -, files, -⟩
  rw [files, Function.update_self]
  rfl

/-- A file created is current and empty. -/
theorem createSegment_holds (opensSession : Bool) (begun : Nat) (recounts : Recounts first size s older)
    (succeeds : ∀ prev ∈ older.head?, (s.sequence ≠ 0 ↔ prev.fate = .rolled) ∧
      prev.fate ≠ .left ∧ prev.fate ≠ .dropped)
    (counted : s.format = .variableTsRc →
      (if s.sequence = 0 then 0 else sessionRecords older) + begun = s.recordCount) :
    Meets (createSegment env opensSession) s
      (fun _ u => ∃ t, Holds first size begun u older t ∧ t.dataLen = 0 ∧
        u.recordCount = s.recordCount ∧ u.format = s.format)
      (fun _ _ => True) := by
  rw [createSegment, meets_bind]
  refine (((createUniqueFile_names env _ _ s).and (createUniqueFile_adds env _ _ s)).and
    (createUniqueFile_present _ _ s)).imp ?_ fun _ _ _ => trivial
  rintro id u ⟨⟨names, more, waits, adds⟩, present⟩
  have same := names.same
  have presentHere : (WriteState.files { u with
    sessionId := if opensSession then id else u.sessionId } id).isSome := present
  let header : SegmentHeader := {
    segmentId := id
    sessionId := if opensSession then id else u.sessionId
    maxSize := u.segSizeMax
    remaining := UInt64.ofNat u.recordBytesLeft
    format := u.format
    sequence := u.sequence
    versionMinor := versionMinor }
  simp only [meets_bind, meets_modify, meets_get]
  refine (((writeAll_adds env id header.toBytes _).and (writeAll_asked env id _ _)).and
    (writeAll_present _ presentHere)).imp ?_ (by simp)
  rintro done v ⟨⟨⟨chunk, -, isWhole, written⟩, asked⟩, presentThen⟩
  cases done with
  | false => exact trivial
  | true =>
      obtain rfl := isWhole rfl
      have kept := asked.same
      have sequenceHere : header.sequence = s.sequence := by
        change u.sequence = s.sequence
        rw [same]
      have format : v.format = s.format := by rw [kept, same]
      have sequence : v.sequence = s.sequence := by rw [kept, same]
      have recordCount : v.recordCount = s.recordCount := by rw [kept, same]
      have sized : v.segSizeMax = s.segSizeMax := by rw [kept, same]
      rw [if_pos rfl, meets_modify]
      have told : Recounts first size { v with current := some ⟨id, 0⟩ }
          (⟨more, id, header, [], .left⟩ :: older) := by
        refine { recounts with
          events := ?_, annals := ⟨?_, ?_, by simp, recounts.annals⟩, sized := sized.trans recounts.sized }
        · change v.events = _
          have both := (adds.trans (Adds.of_eq rfl)).trans written
          rw [both, recounts.events, flatMap_newest]
          simp [Tenure.events, Fate.events]
        · refine ⟨waits, by simp, rfl, ?_, by simp, by simp [Fate.handsOver], by simp⟩
          simpa [Tenure.dataLen] using recounts.roomy.le
        · intro prev isPrev
          obtain ⟨rolled, done⟩ := succeeds prev isPrev
          refine ⟨?_, done⟩
          rw [← rolled, sequenceHere]
      refine ⟨_, { told with
        current := rfl, left := rfl, present := presentThen, sequence := ?_, format := ?_
        counted := ?_ }, rfl, recordCount, format⟩
      · change u.sequence = v.sequence
        rw [sequence, same]
      · change u.format = v.format
        rw [format, same]
      · intro isTsRc
        change _ = v.recordCount
        rw [recordCount, ← counted (format ▸ isTsRc)]
        simp [sessionRecords, Tenure.records, sequenceHere]

/-- The current file is closed and handed over. -/
theorem closeAndSend_recounts (fate : Fate) (holds : Holds first size begun s older t)
    (handsOver : fate.handsOver = true) (some : 0 < t.dataLen)
    (full : fate = .rolled → segmentFileHeaderLen + t.dataLen = size.toNat)
    (ended : fate = .ended → t.header.format = .variableTsRc ∧
      sessionRecords (t :: older) = recordCountMax) :
    Meets (closeAndSend env) s
      (fun _ u => Recounts first size u ({ t with fate := fate } :: older) ∧
        u.toLogWrite = { s.toLogWrite with current := none, timerResolution := u.timerResolution })
      (fun _ _ => True) := by
  rw [closeAndSend, meets_bind, meets_get, holds.current]
  simp only [meets_bind, meets_modify]
  refine ((flushFile_adds env t.id _).and (flushFile_asked env t.id _)).imp ?_ fun _ _ _ => trivial
  rintro _ u ⟨flushed, asked⟩
  refine ((send_adds env t.id u).and (send_asked env t.id u)).imp ?_ fun _ _ _ => trivial
  rintro _ v ⟨sent, asked'⟩
  have adds : Adds [.flushed t.id, .sent t.id] s v :=
    (Adds.trans (Adds.of_eq (s := s) (t := { s with current := none }) rfl) flushed).trans sent
  have same := (asked.trans asked').same
  have proper := holds.annals.1
  have left := holds.left
  refine ⟨holds.toRecounts.newest _ adds ?_ ?_ rfl ?_ ended, same⟩
  · rw [same]
  · cases fate with
    | left => simp [Fate.handsOver] at handsOver
    | cleared ids => simp [Fate.handsOver] at handsOver
    | _ => simp [Tenure.events, left, Fate.events]
  · refine ⟨proper.waits, proper.uses, proper.segmentId, proper.fits, full, fun _ => some, ?_⟩
    intro ids cleared
    change fate = _ at cleared
    rw [cleared] at handsOver
    contradiction

end Holds

end Tcslog
