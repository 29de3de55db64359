import Tcslog.Read.Crossing

/-!
# Reading and skipping the bytes of a record

The loops that read or skip a number of bytes of a record move the reader along
one strand, through files it finds full, and deliver exactly the bytes of the
tape.  When they fail, they do so at a byte of the record the reader was
denied.
-/

namespace Tcslog

open Lib.Program Lib.Spanned

namespace Scene

variable {S : Scene}

/-- The reader passed through files `j` to `j'` of a strand, each but the last
showing all of its data section. -/
inductive Passes (S : Scene) (ops : List ReadOp) (k : Nat) (σ : Strand) :
    List SegId → Nat → Nat → List SegId → Nat → Nat → Prop
  | refl {pending : List SegId} {j c : Nat} : Passes S ops k σ pending j c pending j c
  | next {pending rest pending' : List SegId} {id : SegId} {j c j' c' c'' : Nat}
      (full : c = σ.dataSection) (found : S.Found ops pending id rest k (j + 1) σ c')
      (more : Passes S ops k σ rest (j + 1) c' pending' j' c'') :
      Passes S ops k σ pending j c pending' j' c''

theorem Passes.mono {ops ops' : List ReadOp} {k j c j' c' : Nat} {σ : Strand}
    {pending pending' : List SegId} (passes : S.Passes ops k σ pending j c pending' j' c')
    (grew : ops <+: ops') : S.Passes ops' k σ pending j c pending' j' c' := by
  induction passes with
  | refl => exact .refl
  | next full found _ ih => exact .next full (found.mono grew) ih

theorem Passes.trans {ops : List ReadOp} {k j c j' c' j'' c'' : Nat} {σ : Strand}
    {pending pending' pending'' : List SegId}
    (first : S.Passes ops k σ pending j c pending' j' c')
    (second : S.Passes ops k σ pending' j' c' pending'' j'' c'') :
    S.Passes ops k σ pending j c pending'' j'' c'' := by
  induction first with
  | refl => exact second
  | next full found _ ih => exact .next full found (ih second)

theorem Passes.suffix {ops : List ReadOp} {k j c j' c' : Nat} {σ : Strand}
    {pending pending' : List SegId} (passes : S.Passes ops k σ pending j c pending' j' c') :
    pending' <:+ pending := by
  induction passes with
  | refl => exact List.suffix_rfl
  | next _ found _ ih => exact ih.trans ((List.suffix_cons _ _).trans found.suffix)

/-- A cursor's count of payload bytes is that of the bytes in the buffer. -/
def Placed (s : ReadState) : Prop :=
  s.cursor.payloadInBuf = if s.cursor.inPayload then s.dst.length else 0

/-- The reader came to byte `y` of a record. -/
structure Reached (S : Scene) (s : ReadState) (k j : Nat) (σ : Strand) (c i : Nat) (s' : ReadState)
    (j' : Nat) (id' : SegId) (c' pos' y : Nat) : Prop where
  passes : S.Passes s'.ops k σ s.pending j c s'.pending j' c'
  mid : S.Mid s' k j' σ id' c' pos' i y
  carried : Carried s s'
  placed : Placed s'

theorem Reached.trans {s t u : ReadState} {k j c i j' c' pos' y j'' c'' pos'' z : Nat} {σ : Strand}
    {id' id'' : SegId} (first : S.Reached s k j σ c i t j' id' c' pos' y)
    (second : S.Reached t k j' σ c' i u j'' id'' c'' pos'' z) :
    S.Reached s k j σ c i u j'' id'' c'' pos'' z :=
  ⟨(first.passes.mono second.carried.asked).trans second.passes, second.mid,
    first.carried.trans second.carried, second.placed⟩

/-- Where the reader came to does not depend on what it did within its file. -/
theorem Reached.startFrom {s₀ s s' : ReadState} {k j c i j' c' pos' y : Nat} {σ : Strand}
    {id' : SegId} (reached : S.Reached s k j σ c i s' j' id' c' pos' y)
    (pending : s.pending = s₀.pending) (carried : Carried s₀ s) :
    S.Reached s₀ k j σ c i s' j' id' c' pos' y :=
  ⟨pending ▸ reached.passes, reached.mid, carried.trans reached.carried, reached.placed⟩

/-- The reader came to byte `y` of a record within one part of it. -/
structure Moved (S : Scene) (s : ReadState) (k j : Nat) (σ : Strand) (c i : Nat) (s' : ReadState)
    (j' : Nat) (id' : SegId) (c' pos' y : Nat) : Prop extends
    S.Reached s k j σ c i s' j' id' c' pos' y where
  inPayload : s'.cursor.inPayload = s.cursor.inPayload
  total : s'.cursor.total = s.cursor.total

theorem Moved.trans {s t u : ReadState} {k j c i j' c' pos' y j'' c'' pos'' z : Nat} {σ : Strand}
    {id' id'' : SegId} (first : S.Moved s k j σ c i t j' id' c' pos' y)
    (second : S.Moved t k j' σ c' i u j'' id'' c'' pos'' z) :
    S.Moved s k j σ c i u j'' id'' c'' pos'' z :=
  ⟨first.toReached.trans second.toReached, second.inPayload.trans first.inPayload,
    second.total.trans first.total⟩

/-- A request about the open file failed at byte `y` of a record. -/
structure Denied (S : Scene) (m : ReadState) (k j : Nat) (σ : Strand) (id : SegId) (c pos i y : Nat)
    (s' : ReadState) : Prop where
  mid : S.Mid m k j σ id c pos i y
  before : pos < σ.dataSection
  more : σ.start i + y < σ.start (i + 1) ∨ i = σ.records.length
  refused : S.Refused m s' id

/-- The record in progress failed at its byte `y`. -/
inductive Failed (S : Scene) (s : ReadState) (k j : Nat) (σ : Strand) (c i : Nat) (y : Nat) :
    LogError → ReadState → Prop
  | broke {m s' : ReadState} {e : LogError} {j' : Nat} {id' : SegId} {c' : Nat}
      (reached : S.Reached s k j σ c i m j' id' c' c' y)
      (more : σ.start i + y < σ.start (i + 1) ∨ i = σ.records.length)
      (broke : S.Broke m k j' σ c' i y e s') : Failed S s k j σ c i y e s'
  | denied {m s' : ReadState} {j' : Nat} {id' : SegId} {c' pos' : Nat}
      (reached : S.Reached s k j σ c i m j' id' c' pos' y)
      (denied : S.Denied m k j' σ id' c' pos' i y s') : Failed S s k j σ c i y .ioError s'

theorem Failed.of_reached {s t s' : ReadState} {k j c i j' c' pos' x y : Nat} {σ : Strand}
    {id' : SegId} {e : LogError} (reached : S.Reached s k j σ c i t j' id' c' pos' x)
    (failed : S.Failed t k j' σ c' i y e s') : S.Failed s k j σ c i y e s' := by
  cases failed with
  | broke reached' more broke => exact .broke (reached.trans reached') more broke
  | denied reached' denied => exact .denied (reached.trans reached') denied

theorem Failed.startFrom {s₀ s s' : ReadState} {k j c i y : Nat} {σ : Strand} {e : LogError}
    (failed : S.Failed s k j σ c i y e s') (pending : s.pending = s₀.pending)
    (carried : Carried s₀ s) : S.Failed s₀ k j σ c i y e s' := by
  cases failed with
  | broke reached more broke => exact .broke (reached.startFrom pending carried) more broke
  | denied reached denied => exact .denied (reached.startFrom pending carried) denied

theorem Mid.moved {s : ReadState} {k j c pos i x : Nat} {σ : Strand} {id : SegId}
    (mid : S.Mid s k j σ id c pos i x) (placed : Placed s) : S.Moved s k j σ c i s j id c pos x :=
  ⟨⟨.refl, mid, .refl s, placed⟩, rfl, rfl⟩

theorem Crossed.moved {s s' : ReadState} {k j c i x c' : Nat} {σ : Strand} {id' : SegId}
    (crossed : S.Crossed s k j σ c i x s' id' c') (placed : Placed s) :
    S.Moved s k j σ c i s' (j + 1) id' c' 0 x := by
  refine ⟨⟨.next crossed.full crossed.found .refl, crossed.mid, crossed.carried, ?_⟩,
    crossed.inPayload, crossed.total⟩
  rw [Placed, crossed.payloadInBuf, crossed.inPayload, crossed.dst]
  exact placed

/-! ## Reading from the open file -/

theorem lookup_of_measured {s : ReadState} {id : SegId} {k j c : Nat} {σ : Strand}
    (measured : S.Measured s.ops id k j σ c) : ∃ content,
      (S.env.dir s.ops.length).lookup (S.name id) = some content ∧
        (σ.file j id).take (segmentFileHeaderLen + c) <+: content := by
  obtain ⟨t, op, opAt, _, sight⟩ := measured
  have earlier := (List.getElem?_eq_some_iff.mp opAt).1
  exact S.env.grows earlier.le sight.content

/-- Reading within what was measured gives the bytes of the tape, or the
request fails. -/
theorem readExact_spec {s : ReadState} {k j c pos n : Nat} {σ : Strand} {id : SegId}
    (isOpen : S.Open s k j σ id c pos) (within : pos + n ≤ c) (segment : Segment)
    (current : s.current = some segment) :
    Meets (readExact S.env segment n) s
      (fun bytes s' => OnlyAsked s s' ∧ bytes.length = n ∧
        bytes = (σ.blocks.flatten.drop (j * σ.dataSection + pos)).take n)
      (fun stop s' => stop = .error .ioError ∧ S.Refused s s' id) := by
  obtain rfl := Option.some.inj (current.symm.trans isOpen.current)
  simp only [readExact, meets_ite, meets_pure, meets_bind]
  refine ⟨fun none => ⟨.refl s, by simp [none], by simp [none]⟩, fun _ => ?_⟩
  refine (perform_spec .readData id isOpen.named).imp ?_ (by simp)
  rintro found t ⟨asked, ops, foundEq⟩
  cases found with
  | none => exact ⟨rfl, asked, ⟨_, ops⟩, foundEq⟩
  | some content =>
      obtain ⟨content', present, rest, rfl⟩ := lookup_of_measured isOpen.measured
      obtain rfl := Option.some.inj ((lookup_of_some foundEq).symm.trans present)
      have shown := isOpen.measured.within
      have len := Strand.length_take_file id shown
      have bytes := Strand.take_drop_file id within shown
      have fromFront : (((σ.file j id).take (segmentFileHeaderLen + c) ++ rest).drop
          (segmentFileHeaderLen + pos)).take n =
            (σ.blocks.flatten.drop (j * σ.dataSection + pos)).take n := by
        rw [List.drop_append_of_le_length (by omega),
          List.take_append_of_le_length (by rw [List.length_drop]; omega), bytes]
      have enough : ((σ.blocks.flatten.drop (j * σ.dataSection + pos)).take n).length = n := by
        rw [← bytes, List.length_take, List.length_drop, len]
        omega
      simp only [fromFront, enough, meets_ite, meets_fail, meets_pure]
      exact ⟨fun short => absurd short (Nat.lt_irrefl _), fun _ => ⟨asked, trivial, trivial⟩⟩

/-- Moving forward within what was measured, or the request fails. -/
theorem seekForward_spec {s : ReadState} {k j c pos n : Nat} {σ : Strand} {id : SegId}
    (isOpen : S.Open s k j σ id c pos) (within : n ≤ c) (segment : Segment)
    (current : s.current = some segment) :
    Meets (seekForward S.env segment n) s
      (fun moved s' => OnlyAsked s s' ∧ moved = { segment with offset := segment.offset + n })
      (fun stop s' => stop = .error .ioError ∧ S.Refused s s' id) := by
  obtain rfl := Option.some.inj (current.symm.trans isOpen.current)
  have small : asI64 n = n := by
    have := isOpen.measured.within
    have := σ.length_data_le j
    have := σ.dataSection_lt
    rw [asI64]
    omega
  simp only [seekForward, meets_bind]
  refine (perform_spec .seek id isOpen.named).imp ?_ (by simp)
  rintro found t ⟨asked, ops, foundEq⟩
  cases found with
  | none => exact ⟨rfl, asked, ⟨_, ops⟩, foundEq⟩
  | some content => exact ⟨asked, by rw [small]⟩

/-! ## One pass -/

/-- Bytes `x` to `y` of the tape from record `i` on. -/
def between (σ : Strand) (i x y : Nat) : Bytes :=
  (σ.blocks.flatten.drop (σ.start i + x)).take (y - x)

theorem between_append {σ : Strand} {i x y z : Nat} (xy : x ≤ y) (yz : y ≤ z) :
    between σ i x y ++ between σ i y z = between σ i x z := by
  have split : z - x = (y - x) + (z - y) := by omega
  rw [between, between, between, split, List.take_add, List.drop_drop]
  congr 3
  omega

/-- What is wanted of record `i` beyond its byte `x`: it lies within the record,
and within its header while its length is unknown. -/
structure Bound (s : ReadState) (σ : Strand) (i x len : Nat) : Prop where
  within : σ.start i + x + len ≤ σ.start (i + 1) ∨ i = σ.records.length
  header : s.cursor.total = none → x + len ≤ σ.format.dataHeaderLen

theorem Bound.wants {s : ReadState} {σ : Strand} {i x len : Nat} (bound : Bound s σ i x len)
    (more : 0 < len) : Wants s σ i x :=
  ⟨bound.within.imp_left (by omega), fun unknown => by have := bound.header unknown; omega⟩

/-- A truncation reports `n` bytes of the payload, and no other error any. -/
def Reports (n : Nat) (e : LogError) : Prop :=
  e.placed = 0 ∧ (∀ lost m, e ≠ .readTruncated lost m) ∨ ∃ lost, e = .readTruncated lost n

theorem Reports.of_truncated {n m lost : Nat} (reports : Reports n (.readTruncated lost m)) : m = n := by
  rcases reports with ⟨_, not⟩ | ⟨_, same⟩
  · exact absurd rfl (not lost m)
  · injection same

theorem Reports.placed_le {n : Nat} {e : LogError} (reports : Reports n e) : e.placed = 0 ∨ e.placed = n := by
  rcases reports with ⟨none, _⟩ | ⟨_, rfl⟩
  · exact .inl none
  · exact .inr rfl

/-- A broken crossing reports the payload bytes counted so far, or none. -/
theorem Broke.reports {s s' : ReadState} {k j c i x : Nat} {σ : Strand} {e : LogError}
    (broke : S.Broke s k j σ c i x e s') : Reports s.cursor.payloadInBuf e := by
  cases broke.cause with
  | ended => exact .inr ⟨_, rfl⟩
  | rejected => exact .inr ⟨_, rfl⟩
  | boundary _ _ _ _ _ error =>
      rw [error]
      split
      · exact .inl ⟨rfl, by simp⟩
      · exact .inr ⟨_, rfl⟩

theorem crossIfExhausted_spec {s : ReadState} {k j c pos i x : Nat} {σ : Strand} {id : SegId}
    (mid : S.Mid s k j σ id c pos i x) (placed : Placed s) (wants : Wants s σ i x) :
    Meets (crossIfExhausted S.env) s
      (fun _ s' => s'.dst = s.dst ∧ ∃ j' id' c' pos', pos' < σ.dataSection ∧
        S.Moved s k j σ c i s' j' id' c' pos' x)
      (fun stop s' => s'.dst = s.dst ∧ ∃ e, stop = .error e ∧ S.Failed s k j σ c i x e s' ∧
        Reports s.cursor.payloadInBuf e) := by
  simp only [crossIfExhausted, meets_bind, meets_get, meets_ite]
  refine ⟨fun exhausted => ?_, fun unread => ⟨rfl, _, _, _, _, ?_, mid.moved placed⟩⟩
  rotate_left
  · have := mid.measured.within
    have := σ.length_data_le j
    simp [LogRead.exhausted, mid.current] at unread
    omega
  have atEnd : pos = c := by
    have := mid.posLe
    simp [LogRead.exhausted, mid.current] at exhausted
    omega
  subst atEnd
  refine (cross_spec mid wants).imp ?_ ?_
  · rintro _ t ⟨id', c', crossed⟩
    exact ⟨crossed.dst, _, _, _, _, σ.dataSection_pos, crossed.moved placed⟩
  · rintro stop t ⟨e, rfl, broke⟩
    exact ⟨broke.dst, e, rfl, .broke (mid.moved placed).toReached wants.more broke, broke.reports⟩

/-- Where a strand has no more records its files show nothing more. -/
theorem Mid.atEnd {s : ReadState} {k j c pos i x : Nat} {σ : Strand} {id : SegId}
    (mid : S.Mid s k j σ id c pos i x) (noMore : i = σ.records.length) : pos = c ∧ x = 0 := by
  have here := mid.tracks.within
  rw [σ.start_of_length_le (i := i) (by omega), σ.start_of_length_le (i := i + 1) (by omega)] at here
  have place := mid.place
  rw [σ.start_of_length_le (i := i) (by omega)] at place
  have within := mid.measured.within
  rw [σ.length_data] at within
  have stored : σ.stored ≤ σ.blocks.flatten.length := σ.storedLe
  have := mid.posLe
  omega

/-- Moving `take` bytes on in the open file. -/
theorem Mid.advance {t u s' : ReadState} {k j c pos i x take len : Nat} {σ : Strand} {id : SegId}
    (mid : S.Mid t k j σ id c pos i x) (bound : Bound t σ i x len) (asked : OnlyAsked t u)
    (shown : pos + take ≤ c) (le : take ≤ len)
    (result : s' = { u with
      current := some { opened σ j id c with
        pos := pos + take, offset := segmentFileHeaderLen + pos + take }
      cursor := s'.cursor, dst := s'.dst })
    (consumed : s'.cursor.consumed = t.cursor.consumed + take)
    (total : s'.cursor.total = t.cursor.total)
    (implied : s'.cursor.impliedPayload = t.cursor.impliedPayload) :
    S.Mid s' k j σ id c (pos + take) i (x + take) := by
  have ops : s'.ops = u.ops := by rw [result]
  have log : s'.toLogRead = { t.toLogRead with current := s'.current } := by
    rw [result, asked.toLogRead_eq]
  have within : σ.start i + (x + take) ≤ σ.start (i + 1) := by
    rcases bound.within with inside | noMore
    · omega
    · have := mid.atEnd noMore
      have := mid.tracks.within
      omega
  refine ⟨⟨?_, ?_, ?_, ?_, shown, ?_, ?_, ?_⟩, ?_, mid.index, ⟨⟨?_, within, ?_⟩, ?_⟩⟩
  · rw [result]
    exact ⟨asked.toLogRead_eq ▸ mid.named.namePrefix, asked.toLogRead_eq ▸ mid.named.nameSuffix⟩
  · rw [log]
    exact mid.suffix
  · rw [ops]
    exact mid.measured.mono asked.asked
  · rw [result, Nat.add_assoc]
  · rw [log]
    exact mid.session
  · rw [log]
    exact mid.prevSeq
  · rw [log]
    exact mid.noHint
  · rw [← Nat.add_assoc, mid.place, Nat.add_assoc]
  · rw [consumed, mid.tracks.consumed]
  · intro known isKnown
    rw [total] at isKnown
    have past := (mid.tracks.total known isKnown).2
    exact ⟨(mid.tracks.total known isKnown).1, past.trans (Nat.le_add_right x take)⟩
  · rw [total, implied]
    exact mid.tracks.implied

theorem fillChunk_spec {s : ReadState} {k j c pos i x len : Nat} {σ : Strand} {id : SegId}
    (mid : S.Mid s k j σ id c pos i x) (placed : Placed s) (bound : Bound s σ i x len)
    (more : 0 < len) (fits : s.dst.length + len ≤ u32Max) :
    Meets (fillChunk S.env len) s
      (fun take s' => take ≤ len ∧ s'.dst = s.dst ++ between σ i x (x + take) ∧
        ∃ j' id' c' pos', S.Moved s k j σ c i s' j' id' c' pos' (x + take))
      (fun stop s' => s'.dst = s.dst ∧ ∃ e, stop = .error e ∧ S.Failed s k j σ c i x e s' ∧
        Reports s.cursor.payloadInBuf e) := by
  simp only [fillChunk, meets_bind]
  refine (crossIfExhausted_spec mid placed (bound.wants more)).imp ?_ fun _ _ failed => failed
  rintro _ t ⟨dst, j', id', c', pos', before, moved⟩
  have isOpen := moved.mid
  have shown : pos' + min (c' - pos') len ≤ c' := by
    have := isOpen.posLe
    omega
  simp only [meets_get, isOpen.current, meets_bind, meets_modify, meets_pure, opened_dataLen]
  refine (readExact_spec isOpen.toOpen shown _ isOpen.current).imp ?_ ?_
  · rintro bytes u ⟨asked, bytesLen, bytesEq⟩
    have boundThere : Bound t σ i x len := ⟨bound.within, by rw [moved.total]; exact bound.header⟩
    have isBetween : bytes = between σ i x (x + min (c' - pos') len) := by
      rw [bytesEq, isOpen.place, between, Nat.add_sub_cancel_left]
    have cursor : u.cursor = t.cursor := by rw [asked.same]
    have dstThere : u.dst = s.dst := by rw [asked.same, ← dst]
    refine ⟨Nat.min_le_right _ _, by rw [dstThere, isBetween], j', id', c',
      pos' + min (c' - pos') len, ⟨?_, ?_, ?_, ?_⟩, ?_, ?_⟩
    · refine moved.passes.mono asked.asked |> fun passes => ?_
      rw [asked.toLogRead_eq]
      exact passes
    · exact isOpen.advance boundThere asked shown (Nat.min_le_right _ _) rfl
        (by rw [cursor]; rfl) (by rw [cursor]; rfl) (by rw [cursor]; rfl)
    · refine moved.carried.trans ⟨asked.asked, ?_, ?_⟩ <;> rw [asked.toLogRead_eq]
    · have placedThere := moved.placed
      rw [Placed, dst] at placedThere
      simp only [Placed, Cursor.read, cursor, dstThere, List.length_append, bytesLen]
      split
      next inPayload =>
        rw [if_pos inPayload] at placedThere
        rw [placedThere]
        omega
      next inHeader => rw [placedThere, if_neg inHeader]
    · rw [cursor]
      exact moved.inPayload
    · rw [cursor]
      exact moved.total
  · rintro stop u ⟨rfl, refused⟩
    exact ⟨by rw [refused.asked.same, ← dst], .ioError, rfl,
      .denied moved.toReached ⟨isOpen, before, (bound.wants more).more, refused⟩, .inl ⟨rfl, by simp⟩⟩

theorem skipChunk_spec {s : ReadState} {k j c pos i x count : Nat} {σ : Strand} {id : SegId}
    (mid : S.Mid s k j σ id c pos i x) (placed : Placed s) (bound : Bound s σ i x count)
    (more : 0 < count) :
    Meets (skipChunk S.env count) s
      (fun step s' => step ≤ count ∧ s'.dst = s.dst ∧
        ∃ j' id' c' pos', S.Moved s k j σ c i s' j' id' c' pos' (x + step))
      (fun stop s' => s'.dst = s.dst ∧ ∃ e, stop = .error e ∧ S.Failed s k j σ c i x e s') := by
  simp only [skipChunk, meets_bind]
  refine (crossIfExhausted_spec mid placed (bound.wants more)).imp ?_
    fun _ _ ⟨dst, e, stop, failed, _⟩ => ⟨dst, e, stop, failed⟩
  rintro _ t ⟨dst, j', id', c', pos', before, moved⟩
  have isOpen := moved.mid
  have shown : pos' + min (c' - pos') count ≤ c' := by
    have := isOpen.posLe
    omega
  simp only [meets_get, isOpen.current, meets_bind, meets_modify, meets_pure, opened_dataLen]
  refine (seekForward_spec isOpen.toOpen (by omega) _ isOpen.current).imp ?_ ?_
  · rintro segment u ⟨asked, rfl⟩
    have boundThere : Bound t σ i x count :=
      ⟨bound.within, by rw [moved.total]; exact bound.header⟩
    have cursor : u.cursor = t.cursor := by rw [asked.same]
    have dstThere : u.dst = s.dst := by rw [asked.same, ← dst]
    refine ⟨Nat.min_le_right _ _, dstThere, j', id', c', pos' + min (c' - pos') count,
      ⟨?_, ?_, ?_, ?_⟩, ?_, ?_⟩
    · refine moved.passes.mono asked.asked |> fun passes => ?_
      rw [asked.toLogRead_eq]
      exact passes
    · exact isOpen.advance boundThere asked shown (Nat.min_le_right _ _) rfl
        (by rw [cursor]) (by rw [cursor]) (by rw [cursor])
    · refine moved.carried.trans ⟨asked.asked, ?_, ?_⟩ <;> rw [asked.toLogRead_eq]
    · have placedThere := moved.placed
      rw [Placed, dst] at placedThere
      rw [Placed, cursor, dstThere]
      exact placedThere
    · rw [cursor]
      exact moved.inPayload
    · rw [cursor]
      exact moved.total
  · rintro stop u ⟨rfl, refused⟩
    exact ⟨by rw [refused.asked.same, ← dst], .ioError, rfl,
      .denied moved.toReached ⟨isOpen, before, (bound.wants more).more, refused⟩⟩

/-! ## The loops -/

/-- Part of the way through what is wanted, the rest is wanted. -/
theorem Bound.of_moved {s t : ReadState} {k j c i j' c' pos' x y len rest : Nat} {σ : Strand}
    {id' : SegId} (bound : Bound s σ i x len) (sum : y + rest = x + len)
    (moved : S.Moved s k j σ c i t j' id' c' pos' y) : Bound t σ i y rest := by
  refine ⟨bound.within.imp_left (by omega), ?_⟩
  rw [moved.total, sum]
  exact bound.header

theorem length_between_le (σ : Strand) (i x y : Nat) : (between σ i x y).length ≤ y - x := by
  simp [between]

theorem fill_spec {s : ReadState} {k j c pos i x len : Nat} {σ : Strand} {id : SegId}
    (mid : S.Mid s k j σ id c pos i x) (placed : Placed s) (bound : Bound s σ i x len)
    (fits : s.dst.length + len ≤ u32Max) :
    Meets (fill S.env len) s
      (fun _ s' => s'.dst = s.dst ++ between σ i x (x + len) ∧
        ∃ j' id' c' pos', S.Moved s k j σ c i s' j' id' c' pos' (x + len))
      (fun stop s' => ∃ e y, stop = .error e ∧ x ≤ y ∧ y < x + len ∧
        S.Failed s k j σ c i y e s' ∧ s'.dst = s.dst ++ between σ i x y ∧
        Reports (if s.cursor.inPayload then s'.dst.length else 0) e) := by
  refine (meets_repeatPass (fun rest t => ∃ y j' id' c' pos', x ≤ y ∧ y + rest = x + len ∧
    t.dst = s.dst ++ between σ i x y ∧ S.Moved s k j σ c i t j' id' c' pos' y) ?_ ?_).imp ?_
      fun _ _ failed => failed
  · rintro rest t more ⟨y, j', id', c', pos', le, sum, dst, moved⟩
    have fitsThere : t.dst.length + rest ≤ u32Max := by
      have := length_between_le σ i x y
      rw [dst, List.length_append]
      omega
    refine (fillChunk_spec moved.mid moved.placed (bound.of_moved sum moved) more fitsThere).imp ?_ ?_
    · rintro take u ⟨takeLe, dst', j'', id'', c'', pos'', moved'⟩
      refine ⟨y + take, j'', id'', c'', pos'', by omega, by omega, ?_, moved.trans moved'⟩
      rw [dst', dst, List.append_assoc, between_append le (by omega)]
    · rintro stop u ⟨dst', e, rfl, failed, reported⟩
      refine ⟨e, y, rfl, le, by omega, failed.of_reached moved.toReached, by rw [dst', dst], ?_⟩
      have count := moved.placed
      rw [Placed, moved.inPayload] at count
      rw [dst', ← count]
      exact reported
  · exact ⟨x, j, id, c, pos, Nat.le_refl _, rfl, by simp [between], mid.moved placed⟩
  · rintro _ t ⟨y, j', id', c', pos', _, sum, dst, moved⟩
    obtain rfl : y = x + len := by omega
    exact ⟨dst, j', id', c', pos', moved⟩

theorem skip_spec {s : ReadState} {k j c pos i x count : Nat} {σ : Strand} {id : SegId}
    (mid : S.Mid s k j σ id c pos i x) (placed : Placed s) (bound : Bound s σ i x count) :
    Meets (skip S.env count) s
      (fun _ s' => s'.dst = s.dst ∧
        ∃ j' id' c' pos', S.Moved s k j σ c i s' j' id' c' pos' (x + count))
      (fun stop s' => ∃ e y, stop = .error e ∧ x ≤ y ∧ y < x + count ∧
        S.Failed s k j σ c i y e s' ∧ s'.dst = s.dst) := by
  refine (meets_repeatPass (fun rest t => ∃ y j' id' c' pos', x ≤ y ∧ y + rest = x + count ∧
    t.dst = s.dst ∧ S.Moved s k j σ c i t j' id' c' pos' y) ?_ ?_).imp ?_ fun _ _ failed => failed
  · rintro rest t more ⟨y, j', id', c', pos', le, sum, dst, moved⟩
    refine (skipChunk_spec moved.mid moved.placed (bound.of_moved sum moved) more).imp ?_ ?_
    · rintro step u ⟨stepLe, dst', j'', id'', c'', pos'', moved'⟩
      exact ⟨y + step, j'', id'', c'', pos'', by omega, by omega, dst'.trans dst,
        moved.trans moved'⟩
    · rintro stop u ⟨dst', e, rfl, failed⟩
      exact ⟨e, y, rfl, le, by omega, failed.of_reached moved.toReached, dst'.trans dst⟩
  · exact ⟨x, j, id, c, pos, Nat.le_refl _, rfl, rfl, mid.moved placed⟩
  · rintro _ t ⟨y, j', id', c', pos', _, sum, dst, moved⟩
    obtain rfl : y = x + count := by omega
    exact ⟨dst, j', id', c', pos', moved⟩

end Scene

end Tcslog
