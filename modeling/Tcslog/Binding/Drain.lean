import Tcslog.Binding.Iterators
import Tcslog.Lib.Slots
import Tcslog.Read.Headers

/-!
# Taking the retained headers from C and from Python

The C library takes the headers a reader retained through an array of its own, a
chunk at a time, and the Python binding calls it with an array of the same
length until a call comes back short.  Either takes what one call of the reader
would.
-/

namespace Tcslog

open Lib.Slots

/-- What taking headers into a slice came to. -/
structure Taken (α ρ : Type) where
  n : Nat
  out : List α
  rest : ρ
  deriving Repr

/-- Move the oldest of the headers retained into a slice, as far as it goes. -/
def LogRead.takeOpenedHeadersIntoSlice (log : LogRead) (out : List SegmentHeader) :
    Taken SegmentHeader LogRead :=
  let n := min out.length log.openedHeaders.length
  ⟨n, storeAt out 0 (log.openedHeaders.take n),
    { log with openedHeaders := log.openedHeaders.drop n }⟩

/-- The headers moved are those at the front of the slice. -/
theorem LogRead.takeOpenedHeadersIntoSlice_eq (log : LogRead) (out : List SegmentHeader) :
    (log.takeOpenedHeadersIntoSlice out).n = min out.length log.openedHeaders.length ∧
      (log.takeOpenedHeadersIntoSlice out).out =
        log.openedHeaders.take out.length ++ out.drop log.openedHeaders.length ∧
      (log.takeOpenedHeadersIntoSlice out).rest =
        (log.takeOpenedHeadersInto out.length).2 := by
  refine ⟨rfl, ?_, ?_⟩
  · rw [takeOpenedHeadersIntoSlice, storeAt_zero (by rw [List.length_take]; omega)]
    rcases Nat.le_total out.length log.openedHeaders.length with short | long
    · rw [Nat.min_eq_left short, List.length_take, Nat.min_eq_left short,
        List.drop_eq_nil_of_le (Nat.le_refl _), List.drop_eq_nil_of_le short]
    · rw [Nat.min_eq_right long, List.take_length, List.take_of_length_le long]
  · rw [takeOpenedHeadersIntoSlice, takeOpenedHeadersInto]
    rcases Nat.le_total out.length log.openedHeaders.length with short | long
    · rw [Nat.min_eq_left short]
    · rw [Nat.min_eq_right long, List.drop_length, List.drop_eq_nil_of_le long]

/-- Taking headers twice is taking them once. -/
theorem LogRead.takeOpenedHeadersInto_add (log : LogRead) (m n : Nat) :
    ((log.takeOpenedHeadersInto m).2.takeOpenedHeadersInto n).2 =
      (log.takeOpenedHeadersInto (m + n)).2 := by
  simp only [takeOpenedHeadersInto, List.drop_drop]

theorem LogRead.takeOpenedHeadersInto_all (log : LogRead) {n : Nat}
    (all : log.openedHeaders.length ≤ n) :
    (log.takeOpenedHeadersInto n).2 = log.takeOpenedHeaders.2 := by
  simp only [takeOpenedHeadersInto, takeOpenedHeaders, List.drop_eq_nil_of_le all]

namespace Binding

/-! ## The C library -/

/-- A segment file header as C sees it. -/
structure TcslogSegmentHeader where
  segmentId : UInt64
  sessionId : UInt64
  remaining : UInt64
  sequence : UInt64
  maxSize : UInt32
  formatTag : UInt32
  fixedLen : UInt32
  deriving DecidableEq, Repr

def TcslogSegmentHeader.ofHeader (h : SegmentHeader) : TcslogSegmentHeader where
  segmentId := h.segmentId
  sessionId := h.sessionId
  remaining := h.remaining
  sequence := h.sequence
  maxSize := h.maxSize
  formatTag := h.format.tag.toUInt32
  fixedLen := h.format.fixedLen

/-- The headers that the array on the stack holds. -/
def chunkLen : Nat := 16

/-- The array on the stack. -/
abbrev Chunk := { headers : List SegmentHeader // headers.length = chunkLen }

/-- What the array holds before the first headers are taken into it. -/
def Chunk.zero : Chunk :=
  ⟨List.replicate chunkLen ⟨0, 0, 0, 0, .variableSimple, 0, 0⟩, by
    rw [List.length_replicate]⟩

/-- Take headers into the first `want` entries of the array. -/
def Chunk.take (chunk : Chunk) (want : Nat) (log : LogRead) : Taken SegmentHeader LogRead :=
  log.takeOpenedHeadersIntoSlice (chunk.val.take want)

/-- The array after headers were taken into its first `want` entries. -/
def Chunk.refill (chunk : Chunk) (want : Nat) (log : LogRead) : Chunk :=
  ⟨(chunk.take want log).out ++ chunk.val.drop want, by
    rw [Chunk.take, LogRead.takeOpenedHeadersIntoSlice, List.length_append, length_storeAt,
      ← List.length_append, List.take_append_drop, chunk.property]⟩

/-- The loop of `tcslogReadTakeOpenedHeaders`, `done` headers having been taken. -/
def drainChunks (cap : Nat) (chunk : Chunk) (log : LogRead) (out : List TcslogSegmentHeader)
    (done : Nat) : Taken TcslogSegmentHeader LogRead :=
  if _more : done < cap then
    let want := min (cap - done) chunk.val.length
    let taken := chunk.take want log
    let chunk' := chunk.refill want log
    let out' := storeAt out done ((chunk'.val.take taken.n).map .ofHeader)
    if _short : taken.n < want then ⟨done + taken.n, out', taken.rest⟩
    else drainChunks cap chunk' taken.rest out' (done + taken.n)
  else ⟨done, out, log⟩
termination_by cap - done
decreasing_by
  have := chunk.property
  unfold chunkLen at this
  change cap - (done + taken.n) < cap - done
  omega

/-- The arguments a call is made with and what it leaves in their place; a null
pointer is none. -/
structure TakeCall where
  h : Option LogRead
  out : Option (List TcslogSegmentHeader)
  n : Option Nat

/-- Take the oldest of the headers retained into the `cap` entries of `out`. -/
def tcslogReadTakeOpenedHeaders (cap : Nat) (call : TakeCall) : TcslogStatus × TakeCall :=
  match call.h, call.n with
  | some log, some _ =>
      if call.out.isNone ∧ cap ≠ 0 then (.nullArgument, call)
      else
        let taken := drainChunks cap .zero log (call.out.getD []) 0
        (.ok, ⟨some taken.rest, call.out.map fun _ => taken.out, some taken.n⟩)
  | _, _ => (.nullArgument, call)

section Drain

variable {cap done : Nat} {chunk : Chunk} {log : LogRead} {out : List TcslogSegmentHeader}

/-- What one pass takes is what a slice of `want` entries would. -/
theorem Chunk.take_spec {want : Nat} (fits : want ≤ chunkLen) :
    (chunk.take want log).n = min want log.openedHeaders.length ∧
      (chunk.take want log).rest = (log.takeOpenedHeadersInto want).2 ∧
      (chunk.refill want log).val.take (chunk.take want log).n = log.openedHeaders.take want := by
  have slice : (chunk.val.take want).length = want := by
    rw [List.length_take, chunk.property, Nat.min_eq_left fits]
  obtain ⟨n, front, rest⟩ := log.takeOpenedHeadersIntoSlice_eq (chunk.val.take want)
  rw [slice] at n front rest
  refine ⟨n, rest, ?_⟩
  change List.take (log.takeOpenedHeadersIntoSlice (chunk.val.take want)).n
    ((log.takeOpenedHeadersIntoSlice (chunk.val.take want)).out ++ chunk.val.drop want) = _
  rw [n, front, List.append_assoc]
  exact List.take_left' List.length_take

theorem Chunk.want_le (chunk : Chunk) (left : Nat) : min left chunk.val.length ≤ chunkLen := by
  rw [chunk.property]
  exact Nat.min_le_right _ _

/-- The loop takes what one call with the entries left would take. -/
theorem drainChunks_eq (le : done ≤ cap) : drainChunks cap chunk log out done =
    ⟨done + min (cap - done) log.openedHeaders.length,
      storeAt out done ((log.openedHeaders.take (cap - done)).map .ofHeader),
      (log.takeOpenedHeadersInto (cap - done)).2⟩ := by
  induction chunk, log, out, done using drainChunks.induct cap with
  | case1 chunk log out done more want taken short =>
      obtain ⟨n, rest, front⟩ :
          taken.n = min want log.openedHeaders.length ∧
            taken.rest = (log.takeOpenedHeadersInto want).2 ∧
            (chunk.refill want log).val.take taken.n = log.openedHeaders.take want :=
        chunk.take_spec (chunk.want_le _)
      rw [drainChunks, dif_pos more]
      change (if _short : taken.n < want then _ else _) = _
      rw [dif_pos short]
      -- A short chunk holds every header there was.
      have all : log.openedHeaders.length < want := by omega
      have wanted : want ≤ cap - done := Nat.min_le_left _ _
      rw [front, n, rest, Nat.min_eq_right all.le, Nat.min_eq_right (all.le.trans wanted),
        List.take_of_length_le all.le, List.take_of_length_le (all.le.trans wanted),
        log.takeOpenedHeadersInto_all all.le, log.takeOpenedHeadersInto_all (all.le.trans wanted)]
  | case2 chunk log out done more want taken chunk' out' enough inductionHypothesis =>
      obtain ⟨n, rest, front⟩ :
          taken.n = min want log.openedHeaders.length ∧
            taken.rest = (log.takeOpenedHeadersInto want).2 ∧
            chunk'.val.take taken.n = log.openedHeaders.take want :=
        chunk.take_spec (chunk.want_le _)
      rw [drainChunks, dif_pos more]
      change (if _short : taken.n < want then _ else drainChunks cap chunk' taken.rest out'
        (done + taken.n)) = _
      have wanted : want ≤ cap - done := Nat.min_le_left _ _
      have whole : taken.n = want := by omega
      have left : cap - done = want + (cap - (done + want)) := by omega
      rw [dif_neg enough, inductionHypothesis (by omega), whole, rest,
        LogRead.takeOpenedHeadersInto_add, ← left]
      change (⟨_, storeAt (storeAt out done ((chunk'.val.take taken.n).map .ofHeader)) _ _, _⟩ :
        Taken TcslogSegmentHeader LogRead) = _
      have filled : (log.openedHeaders.take want).length = want := by
        rw [List.length_take]
        omega
      have stored : storeAt (storeAt out done ((log.openedHeaders.take want).map .ofHeader))
          (done + want) (((log.openedHeaders.drop want).take (cap - (done + want))).map .ofHeader) =
          storeAt out done
            ((log.openedHeaders.take (cap - done)).map TcslogSegmentHeader.ofHeader) := by
        rw [left, List.take_add, List.map_append, storeAt_append, List.length_map, filled]
      have count : done + want + min (cap - (done + want)) (log.openedHeaders.drop want).length =
          done + min (cap - done) log.openedHeaders.length := by
        rw [List.length_drop]
        omega
      rw [front]
      change (⟨done + want + min (cap - (done + want)) (log.openedHeaders.drop want).length,
        storeAt _ _ (((log.openedHeaders.drop want).take (cap - (done + want))).map .ofHeader), _⟩ :
        Taken TcslogSegmentHeader LogRead) = _
      rw [count, stored]
  | case3 chunk log out done full =>
      have last : cap - done = 0 := by omega
      rw [drainChunks, dif_neg full, last]
      simp [LogRead.takeOpenedHeadersInto]

/-- The call takes what one call of the reader with `cap` entries would. -/
theorem tcslogReadTakeOpenedHeaders_eq (n : Nat) (fits : cap ≤ out.length) :
    tcslogReadTakeOpenedHeaders cap ⟨some log, some out, some n⟩ = (TcslogStatus.ok,
      ⟨some (log.takeOpenedHeadersInto cap).2,
        some ((log.openedHeaders.take cap).map .ofHeader ++
          out.drop (min cap log.openedHeaders.length)),
        some (min cap log.openedHeaders.length)⟩) := by
  have room : ((log.openedHeaders.take cap).map TcslogSegmentHeader.ofHeader).length ≤ out.length := by
    rw [List.length_map, List.length_take]
    omega
  have drained : drainChunks cap .zero log out 0 =
      ⟨min cap log.openedHeaders.length,
        (log.openedHeaders.take cap).map .ofHeader ++ out.drop (min cap log.openedHeaders.length),
        (log.takeOpenedHeadersInto cap).2⟩ := by
    rw [drainChunks_eq (Nat.zero_le _), Nat.sub_zero, Nat.zero_add, storeAt_zero room,
      List.length_map, List.length_take]
  change (TcslogStatus.ok, (⟨some (drainChunks cap .zero log out 0).rest,
    some (drainChunks cap .zero log out 0).out, some (drainChunks cap .zero log out 0).n⟩ :
      TakeCall)) = _
  rw [drained]

/-- A call leaves the array as long as it was. -/
theorem length_drainChunks : (drainChunks cap chunk log out done).out.length = out.length := by
  induction chunk, log, out, done using drainChunks.induct cap with
  | case1 chunk log out done more want taken short =>
      rw [drainChunks, dif_pos more]
      change (if _short : taken.n < want then _ else _ : Taken _ _).out.length = _
      rw [dif_pos short]
      exact length_storeAt _ _ _
  | case2 chunk log out done more want taken chunk' out' enough inductionHypothesis =>
      rw [drainChunks, dif_pos more]
      change (if _short : taken.n < want then _ else drainChunks cap chunk' taken.rest out'
        (done + taken.n) : Taken _ _).out.length = _
      rw [dif_neg enough, inductionHypothesis]
      exact length_storeAt _ _ _
  | case3 chunk log out done full => rw [drainChunks, dif_neg full]

end Drain

/-! ## The Python binding -/

/-- The record layouts a log may use. -/
inductive FormatTag
  | fixed
  | variableSimple
  | variableTsRc
  deriving DecidableEq, Repr

/-- The layout of a value C uses for one; Python refuses any other value. -/
def FormatTag.ofCode (code : UInt32) : Option FormatTag :=
  if code = 0 then some .fixed
  else if code = 1 then some .variableSimple
  else if code = 2 then some .variableTsRc
  else none

structure PyFormat where
  tag : FormatTag
  fixedLen : UInt32
  deriving DecidableEq, Repr

/-- The header that opens a segment file. -/
structure PySegmentHeader where
  segmentId : SegId
  sessionId : SegId
  maxSize : UInt32
  remaining : UInt64
  format : PyFormat
  sequence : UInt64
  deriving DecidableEq, Repr

/-- Convert the structure C filled in to its Python form. -/
def TcslogSegmentHeader.value (h : TcslogSegmentHeader) : Option PySegmentHeader :=
  (FormatTag.ofCode h.formatTag).map fun tag =>
    ⟨h.segmentId, h.sessionId, h.maxSize, h.remaining, ⟨tag, h.fixedLen⟩, h.sequence⟩

/-- A format as Python has it. -/
def PyFormat.ofFormat : Format → PyFormat
  | .fixed n => ⟨.fixed, n⟩
  | .variableSimple => ⟨.variableSimple, 0⟩
  | .variableTsRc => ⟨.variableTsRc, 0⟩

/-- A header as Python has it. -/
def PySegmentHeader.ofHeader (h : SegmentHeader) : PySegmentHeader :=
  ⟨h.segmentId, h.sessionId, h.maxSize, h.remaining, .ofFormat h.format, h.sequence⟩

/-- A header the library wrote is one Python takes. -/
theorem value_ofHeader (h : SegmentHeader) :
    (TcslogSegmentHeader.ofHeader h).value = some (.ofHeader h) := by
  rw [TcslogSegmentHeader.value, PySegmentHeader.ofHeader, TcslogSegmentHeader.ofHeader]
  cases h.format <;> rfl

theorem mapM_value (headers : List SegmentHeader) :
    (headers.map .ofHeader).mapM TcslogSegmentHeader.value =
      some (headers.map PySegmentHeader.ofHeader) := by
  induction headers with
  | nil => rfl
  | cons h headers inductionHypothesis =>
      rw [List.map_cons, List.mapM_cons, value_ofHeader, inductionHypothesis]
      rfl

/-- How many headers `takeOpenedHeaders` drains per call into C. -/
def headerChunk : Nat := 16

/-- A reader of the Python binding, closed when it has no handle, with the array
and the count it hands to C for its whole life. -/
structure PyLogRead where
  h : Option LogRead
  headers : List TcslogSegmentHeader
  n : Nat
  sized : headers.length = headerChunk

/-- The exception a drain raises: for a status, or for a value that is refused. -/
inductive DrainRaised
  | library (raised : Raised)
  | valueError
  deriving DecidableEq, Repr

namespace PyLogRead

/-- The call into C. -/
def called (reader : PyLogRead) : TcslogStatus × TakeCall :=
  tcslogReadTakeOpenedHeaders headerChunk ⟨reader.h, some reader.headers, some reader.n⟩

/-- The reader after the call. -/
def afterCall (reader : PyLogRead) : PyLogRead where
  h := reader.called.2.h
  headers := reader.called.2.out.getD []
  n := reader.called.2.n.getD 0
  sized := by
    rw [called, tcslogReadTakeOpenedHeaders]
    cases reader.h with
    | none => exact reader.sized
    | some log => exact length_drainChunks.trans reader.sized

@[simp]
theorem afterCall_h (reader : PyLogRead) : reader.afterCall.h = reader.called.2.h :=
  rfl

@[simp]
theorem afterCall_headers (reader : PyLogRead) :
    reader.afterCall.headers = reader.called.2.out.getD [] :=
  rfl

@[simp]
theorem afterCall_n (reader : PyLogRead) : reader.afterCall.n = reader.called.2.n.getD 0 :=
  rfl

/-- The loop of `takeOpenedHeaders`, for as many passes as it is given. -/
def takeChunks : Nat → PyLogRead → List PySegmentHeader →
    Option (Except DrainRaised (List PySegmentHeader) × PyLogRead)
  | 0, _, _ => none
  | passes + 1, reader, out =>
      let after := reader.afterCall
      if reader.called.1.code ≠ TcslogStatus.ok.code then
        some (.error (.library (raisedBy reader.called.1.code)), after)
      else
        match (after.headers.take after.n).mapM TcslogSegmentHeader.value with
        | none => some (.error .valueError, after)
        | some more =>
            if after.n < headerChunk then some (.ok (out ++ more), after)
            else takeChunks passes after (out ++ more)

/-- Remove and return the headers retained since the last call. -/
def takeOpenedHeaders (passes : Nat) (reader : PyLogRead) :
    Option (Except DrainRaised (List PySegmentHeader) × PyLogRead) :=
  match reader.h with
  | none => some (.error .valueError, reader)
  | some _ => reader.takeChunks passes []

variable {reader : PyLogRead} {log : LogRead}

/-- A call of an open reader moves a chunk of headers. -/
theorem called_eq (isOpen : reader.h = some log) :
    reader.called.1 = .ok ∧
      reader.afterCall.h = some (log.takeOpenedHeadersInto headerChunk).2 ∧
      reader.afterCall.n = min headerChunk log.openedHeaders.length ∧
      reader.afterCall.headers.take reader.afterCall.n =
        (log.openedHeaders.take headerChunk).map .ofHeader := by
  have call := @tcslogReadTakeOpenedHeaders_eq headerChunk log reader.headers reader.n
    reader.sized.ge
  rw [← isOpen] at call
  change reader.called = _ at call
  rw [afterCall_h, afterCall_n, afterCall_headers, call]
  refine ⟨rfl, rfl, rfl, ?_⟩
  exact List.take_left' (by rw [List.length_map, List.length_take]; rfl)

/-- One pass of the loop. -/
theorem takeChunks_succ (isOpen : reader.h = some log) (passes : Nat) (out : List PySegmentHeader) :
    reader.takeChunks (passes + 1) out =
      if log.openedHeaders.length < headerChunk then
        some (.ok (out ++ log.openedHeaders.map .ofHeader), reader.afterCall)
      else reader.afterCall.takeChunks passes
        (out ++ (log.openedHeaders.take headerChunk).map .ofHeader) := by
  obtain ⟨status, -, n, front⟩ := called_eq isOpen
  have fetched : (reader.afterCall.headers.take reader.afterCall.n).mapM TcslogSegmentHeader.value =
      some ((log.openedHeaders.take headerChunk).map .ofHeader) := by
    rw [front, mapM_value]
  simp only [takeChunks, status, fetched, ne_eq, not_true, if_false]
  rw [n]
  by_cases short : log.openedHeaders.length < headerChunk
  · rw [if_pos short, Nat.min_eq_right short.le, if_pos short, List.take_of_length_le short.le]
  · rw [if_neg short, Nat.min_eq_left (Nat.le_of_not_lt short), if_neg (Nat.lt_irrefl _)]

/-- The loop ends with the headers retained and leaves none, once it is given more
passes than there are whole chunks. -/
theorem takeChunks_eq (isOpen : reader.h = some log) (passes : Nat) (out : List PySegmentHeader) :
    (passes ≤ log.openedHeaders.length / headerChunk → reader.takeChunks passes out = none) ∧
      (log.openedHeaders.length / headerChunk < passes → ∃ last,
        reader.takeChunks passes out = some (.ok (out ++ log.openedHeaders.map .ofHeader), last) ∧
          last.h = some log.takeOpenedHeaders.2) := by
  induction passes generalizing reader log out with
  | zero => exact ⟨fun _ => rfl, fun none => absurd none (Nat.not_lt_zero _)⟩
  | succ passes inductionHypothesis =>
      obtain ⟨-, left, -, -⟩ := called_eq isOpen
      rw [takeChunks_succ isOpen]
      by_cases short : log.openedHeaders.length < headerChunk
      · rw [if_pos short, Nat.div_eq_of_lt short]
        refine ⟨fun none => absurd none (Nat.not_succ_le_zero _), fun _ => ⟨_, rfl, ?_⟩⟩
        rw [left, log.takeOpenedHeadersInto_all short.le]
      · have whole : headerChunk ≤ log.openedHeaders.length := Nat.le_of_not_lt short
        have fewer : (log.takeOpenedHeadersInto headerChunk).2.openedHeaders.length / headerChunk + 1 =
            log.openedHeaders.length / headerChunk := by
          change (log.openedHeaders.drop headerChunk).length / headerChunk + 1 = _
          rw [List.length_drop, ← Nat.div_eq_sub_div (by decide) whole]
        obtain ⟨goesOn, ends⟩ := inductionHypothesis left
          (out ++ (log.openedHeaders.take headerChunk).map .ofHeader)
        rw [if_neg short, ← fewer]
        refine ⟨fun few => goesOn (Nat.le_of_succ_le_succ few), fun enough => ?_⟩
        obtain ⟨last, ran, none⟩ := ends (Nat.lt_of_succ_lt_succ enough)
        refine ⟨last, ran.trans ?_, none⟩
        change some (Except.ok (_ ++ _ ++ (log.openedHeaders.drop headerChunk).map _), last) = _
        rw [List.append_assoc, ← List.map_append, List.take_append_drop]

end PyLogRead

/-- However the headers are taken, they are those one call of the reader would
take: C fills `cap` entries as a slice of `cap` headers would be filled, and
Python takes them all. -/
theorem opened_headers_taken (log : LogRead) :
    (∀ (cap n : Nat) (slice : List SegmentHeader) (out : List TcslogSegmentHeader),
      slice.length = cap → cap ≤ out.length →
        (log.takeOpenedHeadersIntoSlice slice).n = min cap log.openedHeaders.length ∧
        tcslogReadTakeOpenedHeaders cap ⟨some log, some out, some n⟩ = (TcslogStatus.ok,
          ⟨some (log.takeOpenedHeadersIntoSlice slice).rest,
            some ((log.openedHeaders.take cap).map .ofHeader ++
              out.drop (min cap log.openedHeaders.length)),
            some (log.takeOpenedHeadersIntoSlice slice).n⟩) ∧
        (log.takeOpenedHeadersIntoSlice slice).rest =
          { log with openedHeaders := log.openedHeaders.drop cap } ∧
        (log.takeOpenedHeadersIntoSlice slice).out =
          log.openedHeaders.take cap ++ slice.drop log.openedHeaders.length) ∧
    ∀ (reader : PyLogRead) (passes : Nat), reader.h = some log →
      log.openedHeaders.length / headerChunk < passes → ∃ last,
        reader.takeOpenedHeaders passes =
          some (.ok (log.openedHeaders.map .ofHeader), last) ∧
        last.h = some { log with openedHeaders := [] } := by
  constructor
  · rintro cap n slice out rfl fits
    obtain ⟨count, front, rest⟩ := log.takeOpenedHeadersIntoSlice_eq slice
    refine ⟨count, ?_, rest, front⟩
    rw [tcslogReadTakeOpenedHeaders_eq n fits, count, rest]
  · intro reader passes isOpen enough
    obtain ⟨last, ran, none⟩ := (PyLogRead.takeChunks_eq isOpen passes []).2 enough
    refine ⟨last, ?_, none⟩
    rw [PyLogRead.takeOpenedHeaders, isOpen]
    exact ran

/-- A reader that retained two whole chunks of headers and one header more. -/
def Sample.drained : LogRead :=
  { Sample.reader [] with
    openedHeaders := List.replicate 33 ⟨7, 7, 64, 0, .variableSimple, 0, 1⟩ }

theorem opened_headers_taken_sample :
    (tcslogReadTakeOpenedHeaders 20
      ⟨some Sample.drained, some (List.replicate 20 (.ofHeader ⟨0, 0, 0, 0, .fixed 1, 0, 0⟩)),
        some 0⟩).2.n = some 20 ∧
    ∃ last, (⟨some Sample.drained, List.replicate headerChunk (.ofHeader ⟨0, 0, 0, 0, .fixed 1, 0, 0⟩),
        0, rfl⟩ : PyLogRead).takeOpenedHeaders 3 =
          some (.ok (Sample.drained.openedHeaders.map .ofHeader), last) ∧
        last.h = some { Sample.drained with openedHeaders := [] } := by
  constructor
  · obtain ⟨count, call, -, -⟩ := (opened_headers_taken Sample.drained).1 20 0
      (List.replicate 20 ⟨0, 0, 0, 0, .fixed 1, 0, 0⟩)
      (List.replicate 20 (.ofHeader ⟨0, 0, 0, 0, .fixed 1, 0, 0⟩)) (by decide) (by decide)
    rw [call, count]
    rfl
  · exact (opened_headers_taken Sample.drained).2 _ 3 rfl (by decide)

end Binding

end Tcslog
