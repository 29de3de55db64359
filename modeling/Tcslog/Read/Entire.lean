import Tcslog.Read.Intact
import Tcslog.Read.Transfer

/-!
# Reading a record that is found as it was written

Wherever a record lies on its tape, and however many files it runs over, a
reader at its first byte hands it back whole, unless some of its bytes are not
seen yet.
-/

namespace Tcslog

open Lib.Program Lib.Spanned Lib.LittleEndian

namespace Shelf

variable {S : Shelf} {s s' t : ReadState} {T : Tape} {rest : List Tape} {j c pos i x : Nat} {id : SegId}

/-! ## Bytes -/

/-- Bytes `x` to `y` of the tape from record `i` on. -/
def between (T : Tape) (i x y : Nat) : Bytes :=
  (T.blocks.flatten.drop (T.start i + x)).take (y - x)

theorem between_append {y z : Nat} (xy : x ≤ y) (yz : y ≤ z) :
    between T i x y ++ between T i y z = between T i x z := by
  have split : z - x = (y - x) + (z - y) := by omega
  rw [between, between, between, split, List.take_add, List.drop_drop]
  congr 3
  omega

theorem length_between_le (T : Tape) (i x y : Nat) : (between T i x y).length ≤ y - x := by
  simp [between]

section Records

variable {record : Record} {n : Nat}

theorem length_encodeIn (recordAt : T.records[i]? = some record) :
    (record.encodeIn T.minor).length = T.headerLen + record.payload.length :=
  (Tape.fits_of_getElem? recordAt).length_encodeIn

theorem between_header (recordAt : T.records[i]? = some record) :
    between T i 0 T.headerLen = record.metadata.dataHeaderIn T.minor record.payload.length := by
  have length := length_encodeIn recordAt
  have header : (record.metadata.dataHeaderIn T.minor record.payload.length).length = T.headerLen :=
    (Tape.fits_of_getElem? recordAt).length_dataHeaderIn
  rw [between, Nat.sub_zero, Tape.take_drop_start recordAt (by omega), List.drop_zero, Record.encodeIn,
    ← header, List.take_left]

theorem between_payload (recordAt : T.records[i]? = some record) (le : n ≤ record.payload.length) :
    between T i T.headerLen (T.headerLen + n) = record.payload.take n := by
  have length := length_encodeIn recordAt
  have header : (record.metadata.dataHeaderIn T.minor record.payload.length).length = T.headerLen :=
    (Tape.fits_of_getElem? recordAt).length_dataHeaderIn
  rw [between, Nat.add_sub_cancel_left, Tape.take_drop_start recordAt (by omega), Record.encodeIn,
    ← header, List.drop_left]

end Records

/-- Reading below what is seen of the open file gives the bytes of the tape. -/
theorem readExact_spec {n : Nat} {segment : Segment} (on : S.On s T rest j id c pos) (within : pos + n ≤ c)
    (current : s.current = some segment) :
    Meets (readExact S.env segment n) s
      (fun bytes s' => OnlyAsked s s' ∧ bytes.length = n ∧
        bytes = (T.blocks.flatten.drop (j * T.dataSection + pos)).take n)
      (fun _ _ => False) := by
  obtain rfl := Option.some.inj (current.symm.trans on.current)
  simp only [readExact, meets_ite, meets_pure, meets_bind]
  refine ⟨fun none => ⟨.refl s, by simp [none], by simp [none]⟩, fun _ => ?_⟩
  refine (perform_spec .readData id on.named).imp ?_ fun _ _ impossible => impossible
  rintro found t ⟨asked, rfl, _⟩
  obtain ⟨content, present, more, rfl⟩ := on.seen.present _ (Nat.le_refl _)
  have shown := on.seen.within
  have length : ((T.file j id).take (segmentFileHeaderLen + c)).length = segmentFileHeaderLen + c := by
    rw [List.length_take, T.length_file]
    omega
  have bytes := T.take_drop_file id within shown
  have front : (((T.file j id).take (segmentFileHeaderLen + c) ++ more).drop
      (segmentFileHeaderLen + pos)).take n = (T.blocks.flatten.drop (j * T.dataSection + pos)).take n := by
    rw [List.drop_append_of_le_length (by omega),
      List.take_append_of_le_length (by rw [List.length_drop]; omega), bytes]
  have enough : ((T.blocks.flatten.drop (j * T.dataSection + pos)).take n).length = n := by
    rw [← bytes, List.length_take, List.length_drop, length]
    omega
  simp only [present, front, enough, meets_ite, meets_fail, meets_pure]
  exact ⟨fun short => absurd short (Nat.lt_irrefl _), fun _ => ⟨asked, trivial, trivial⟩⟩

/-! ## The loop over files -/

/-- What is wanted of record `i` beyond its byte `x`. -/
structure Bound (s : ReadState) (T : Tape) (rest : List Tape) (i x len : Nat) : Prop where
  within : T.start i + x + len ≤ T.start (i + 1) ∨ i = T.records.length ∧ rest ≠ []
  header : s.cursor.total = none → x + len ≤ T.headerLen

theorem Bound.wants {len : Nat} (bound : Bound s T rest i x len) (more : 0 < len) : Wants s T rest i x :=
  ⟨bound.within.imp_left (by omega), fun unknown => by have := bound.header unknown; omega⟩

/-- The reader came to byte `y` of a record within one part of it. -/
structure Moved (S : Shelf) (s : ReadState) (T : Tape) (rest : List Tape) (i : Nat) (s' : ReadState)
    (y : Nat) : Prop where
  mid : ∃ j id c pos, S.Mid s' T rest j id c pos i y
  placed : Scene.Placed s'
  inPayload : s'.cursor.inPayload = s.cursor.inPayload
  total : s'.cursor.total = s.cursor.total

theorem Moved.trans {y z : Nat} (first : S.Moved s T rest i t y) (second : S.Moved t T rest i s' z) :
    S.Moved s T rest i s' z :=
  ⟨second.mid, second.placed, second.inPayload.trans first.inPayload, second.total.trans first.total⟩

theorem crossIfExhausted_spec (mid : S.Mid s T rest j id c pos i x) (wants : Wants s T rest i x) :
    Meets (crossIfExhausted S.env) s
      (fun _ s' => Kept s s' ∧ ∃ j' id' c' pos', S.Mid s' T rest j' id' c' pos' i x)
      (fun stop s' => ∃ e, stop = .error e ∧ s'.dst = s.dst ∧
        S.Stopped T rest i x s.cursor.payloadInBuf e s') := by
  simp only [crossIfExhausted, meets_bind, meets_get, meets_ite]
  refine ⟨fun exhausted => ?_, fun _ => ⟨.refl s, j, id, c, pos, mid⟩⟩
  have atEnd : pos = c := by
    have := mid.posLe
    simp [LogRead.exhausted, mid.current, opened] at exhausted
    omega
  subst atEnd
  refine (cross_spec mid wants).imp ?_ fun _ _ stopped => stopped
  rintro _ t ⟨kept, id', c', mid'⟩
  exact ⟨kept, _, _, _, _, mid'⟩

/-- Moving `take` bytes on in the open file. -/
theorem Mid.advance {take len : Nat} (mid : S.Mid t T rest j id c pos i x) (bound : Bound t T rest i x len)
    (asked : OnlyAsked t s) (shown : pos + take ≤ c) (le : take ≤ len)
    (result : s' = { s with
      current := some { opened T j id c with
        pos := pos + take, offset := segmentFileHeaderLen + pos + take }
      cursor := s'.cursor, dst := s'.dst })
    (consumed : s'.cursor.consumed = t.cursor.consumed + take) (total : s'.cursor.total = t.cursor.total)
    (implied : s'.cursor.impliedPayload = t.cursor.impliedPayload) :
    S.Mid s' T rest j id c (pos + take) i (x + take) := by
  have ops : s'.ops = s.ops := by rw [result]
  have log : s'.toLogRead = { t.toLogRead with current := s'.current } := by
    rw [result, asked.toLogRead_eq]
  have place := mid.place
  have within : T.start i + (x + take) ≤ T.start (i + 1) := by
    rcases bound.within with inside | noMore
    · omega
    · have := mid.atEnd noMore.1
      have := mid.tracks.within
      omega
  refine ⟨⟨mid.fileAt, ?_, ?_, ?_, ?_, shown, ?_, ?_, ?_⟩, by omega, mid.index, ?_, within, ?_, ?_⟩
  · exact ⟨(congrArg LogRead.namePrefix log).trans mid.named.namePrefix,
      (congrArg LogRead.nameSuffix log).trans mid.named.nameSuffix⟩
  · rw [log]
    exact mid.pending
  · rw [ops]
    exact mid.seen.mono asked.asked.length_le
  · rw [result, Nat.add_assoc]
  · rw [log]
    exact mid.session
  · rw [log]
    exact mid.prevSeq
  · rw [log]
    exact mid.synced
  · rw [consumed, mid.tracks.consumed]
  · rw [total]
    exact mid.tracks.total
  · rw [total, implied]
    exact mid.tracks.implied

theorem fillChunk_spec {len : Nat} (mid : S.Mid s T rest j id c pos i x) (placed : Scene.Placed s)
    (bound : Bound s T rest i x len) (more : 0 < len) (fits : s.dst.length + len ≤ u32Max) :
    Meets (fillChunk S.env len) s
      (fun take s' => take ≤ len ∧ s'.dst = s.dst ++ between T i x (x + take) ∧
        S.Moved s T rest i s' (x + take))
      (fun stop s' => ∃ e, stop = .error e ∧ s'.dst = s.dst ∧
        S.Stopped T rest i x s.cursor.payloadInBuf e s') := by
  simp only [fillChunk, meets_bind]
  refine (crossIfExhausted_spec mid (bound.wants more)).imp ?_ fun _ _ stopped => stopped
  rintro _ t ⟨kept, j', id', c', pos', there⟩
  have shown : pos' + min (c' - pos') len ≤ c' := by
    have := there.posLe
    omega
  have dataLen : (opened T j' id' c').dataLen = c' := rfl
  simp only [meets_get, there.current, meets_bind, meets_modify, meets_pure, dataLen]
  refine (readExact_spec there.toOn shown there.current).imp ?_ fun _ _ impossible => impossible.elim
  rintro bytes u ⟨asked, length, bytesEq⟩
  have cursor : u.cursor = t.cursor := by rw [asked.same]
  have dst : u.dst = s.dst := by rw [asked.same, ← kept.dst]
  have bound' : Bound t T rest i x len := ⟨bound.within, by rw [kept.total]; exact bound.header⟩
  refine ⟨Nat.min_le_right _ _, ?_, ⟨j', id', c', pos' + min (c' - pos') len, ?_⟩, ?_, ?_, ?_⟩
  · rw [dst, bytesEq, there.place, between, Nat.add_sub_cancel_left]
  · exact there.advance bound' asked shown (Nat.min_le_right _ _) rfl (by rw [cursor]; rfl)
      (by rw [cursor]; rfl) (by rw [cursor]; rfl)
  · rw [Scene.Placed] at placed
    simp only [Scene.Placed, Cursor.read, cursor, dst, List.length_append, length, kept.payloadInBuf,
      kept.inPayload, placed]
    split <;> omega
  · exact (congrArg Cursor.inPayload cursor).trans kept.inPayload
  · exact (congrArg Cursor.total cursor).trans kept.total

theorem fill_spec {len : Nat} (mid : S.Mid s T rest j id c pos i x) (placed : Scene.Placed s)
    (bound : Bound s T rest i x len) (fits : s.dst.length + len ≤ u32Max) :
    Meets (fill S.env len) s
      (fun _ s' => s'.dst = s.dst ++ between T i x (x + len) ∧ S.Moved s T rest i s' (x + len))
      (fun stop s' => ∃ e y, stop = .error e ∧ x ≤ y ∧ y < x + len ∧
        s'.dst = s.dst ++ between T i x y ∧
        S.Stopped T rest i y (if s.cursor.inPayload then s'.dst.length else 0) e s') := by
  refine (meets_repeatPass (fun left t => ∃ y, x ≤ y ∧ y + left = x + len ∧
    t.dst = s.dst ++ between T i x y ∧ S.Moved s T rest i t y) ?_ ?_).imp ?_ fun _ _ stopped => stopped
  · rintro left t more ⟨y, le, sum, dst, moved⟩
    obtain ⟨j', id', c', pos', mid'⟩ := moved.mid
    have fits' : t.dst.length + left ≤ u32Max := by
      have := length_between_le T i x y
      rw [dst, List.length_append]
      omega
    have bound' : Bound t T rest i y left :=
      ⟨bound.within.imp_left (by omega), by rw [moved.total, sum]; exact bound.header⟩
    refine (fillChunk_spec mid' moved.placed bound' more fits').imp ?_ ?_
    · rintro take u ⟨takeLe, dst', moved'⟩
      refine ⟨y + take, by omega, by omega, ?_, moved.trans moved'⟩
      rw [dst', dst, List.append_assoc, between_append le (by omega)]
    · rintro stop u ⟨e, rfl, dst', stopped⟩
      refine ⟨e, y, rfl, le, by omega, dst'.trans dst, ?_⟩
      have count := moved.placed
      rw [Scene.Placed, moved.inPayload] at count
      rw [dst', ← count]
      exact stopped
  · exact ⟨x, Nat.le_refl _, rfl, by simp [between], ⟨⟨j, id, c, pos, mid⟩, placed, rfl, rfl⟩⟩
  · rintro _ t ⟨y, _, sum, dst, moved⟩
    obtain rfl : y = x + len := by omega
    exact ⟨dst, moved⟩

/-! ## The data header -/

/-- How reading record `i` ends without it. -/
inductive Ended (S : Shelf) (T : Tape) (rest : List Tape) (i : Nat) : LogError → ReadState → Prop
  /-- The next session begins. -/
  | boundary {s' : ReadState} (atEnd : i = T.records.length) (more : rest ≠ [])
      (headerRead : ∀ U ∈ rest.head?, S.HeaderRead U.ids s'.ops) (between : S.Between s' rest) :
      Ended S T rest i .sessionEnd s'
  /-- Not all of the record is seen, and a front of its payload is in the
  buffer. -/
  | cut {s' : ReadState} {n : Nat} (unseen : S.Unseen T rest i s'.ops.length)
      (finished : s'.pending = [] ∧ s'.current = none)
      (front : n = 0 ∨ ∃ record, T.records[i]? = some record ∧ n < record.payload.length ∧
        s'.dst.take n = record.payload.take n) : Ended S T rest i (.readTruncated 0 n) s'

theorem Between.losePosition {tapes : List Tape} (between : S.Between s tapes) :
    S.Between s.losePosition tapes :=
  ⟨between.place, ⟨between.named.namePrefix, between.named.nameSuffix⟩, between.pending, rfl,
    between.session⟩

/-- A record that stops before its payload leaves nothing in the buffer. -/
theorem Stopped.ended {n : Nat} {e : LogError} (stopped : S.Stopped T rest i x n e s)
    (front : n = 0 ∨ ∃ record, T.records[i]? = some record ∧ n < record.payload.length ∧
      s.dst.take n = record.payload.take n) : S.Ended T rest i e s.losePosition := by
  cases stopped with
  | boundary atEnd more headerRead between => exact .boundary atEnd more headerRead between.losePosition
  | drained unseen finished => exact .cut unseen ⟨finished.1, rfl⟩ front

/-- The reader stands behind the data header of record `i` and knows its payload
length and metadata. -/
structure Headed (S : Shelf) (T : Tape) (rest : List Tape) (i want : Nat) (metadata : Meta)
    (s : ReadState) : Prop where
  mid : ∃ j id c pos, S.Mid s T rest j id c pos i T.headerLen
  placed : Scene.Placed s
  known : s.cursor.total ≠ none
  inHeader : s.cursor.inPayload = false
  small : want ≤ u32Max
  whole : ∀ record, T.records[i]? = some record → want = record.payload.length ∧ metadata = record.metadata
  noMore : i = T.records.length → 0 < want

/-- Filling a buffer with the whole data header gives the record's. -/
theorem fillBuf_header_spec (mid : S.Mid s T rest j id c pos i 0) (fresh : s.cursor = {})
    (more : i < T.records.length ∨ rest ≠ []) (positive : 0 < T.headerLen) :
    Meets (fillBuf S.env T.headerLen) s
      (fun head s' => ∃ record, T.records[i]? = some record ∧
        head = record.metadata.dataHeaderIn T.minor record.payload.length ∧
        S.Moved s T rest i s' T.headerLen)
      (fun stop s' => ∃ e y, stop = .error e ∧ S.Stopped T rest i y 0 e s') := by
  have index := mid.index
  have small : T.headerLen ≤ 18 := Format.dataHeaderLenIn_le _ _
  have mid' : S.Mid { s with dst := [] } T rest j id c pos i 0 :=
    ⟨⟨mid.fileAt, ⟨mid.named.namePrefix, mid.named.nameSuffix⟩, mid.pending, mid.seen, mid.current,
      mid.posLe, mid.session, mid.prevSeq, mid.synced⟩, mid.place, mid.index, mid.tracks⟩
  have bound : Bound { s with dst := [] } T rest i 0 T.headerLen := by
    refine ⟨?_, fun _ => by omega⟩
    by_cases within : i < T.records.length
    · exact .inl (by simpa using start_add_headerLen_le within)
    · exact .inr ⟨by omega, more.resolve_left within⟩
  simp only [fillBuf, meets_bind, meets_modify, meets_get, meets_pure]
  refine (fill_spec mid' (by simp [Scene.Placed, fresh]) bound (by simp [u32Max]; omega)).imp ?_ ?_
  · rintro _ t ⟨dst, moved⟩
    rw [Nat.zero_add] at dst moved
    obtain ⟨_, _, _, _, there⟩ := moved.mid
    obtain ⟨record, recordAt⟩ := there.exists_record positive
    refine ⟨record, recordAt, ?_, moved.mid, moved.placed, moved.inPayload, moved.total⟩
    rw [dst, List.nil_append, between_header recordAt]
  · rintro stop t ⟨e, y, rfl, _, _, _, stopped⟩
    refine ⟨e, y, rfl, ?_⟩
    simpa [fresh] using stopped

/-- What a crossing implied of the payload is what the data header says. -/
theorem settlePayloadLen_spec {record : Record} (mid : S.Mid s T rest j id c pos i x)
    (unknown : s.cursor.total = none) (recordAt : T.records[i]? = some record) :
    Meets (settlePayloadLen record.payload.length) s
      (fun n s' => n = record.payload.length ∧ s' = s) (fun _ _ => False) := by
  have agrees : ¬ (s.cursor.impliedPayload.any (· ≠ record.payload.length)) = true := by
    cases told : s.cursor.impliedPayload with
    | none => simp
    | some n =>
        have implied := mid.tracks.implied unknown n told
        rw [Tape.start_succ recordAt] at implied
        simp
        omega
  simp only [settlePayloadLen, meets_bind, meets_get, meets_ite]
  exact ⟨fun differs => absurd differs agrees, fun _ => ⟨rfl, rfl⟩⟩

/-- Learning the record's length. -/
theorem Mid.withTotal {total : Nat} (mid : S.Mid s T rest j id c pos i x)
    (isTotal : i < T.records.length → T.start i + total = T.start (i + 1)) :
    S.Mid { s with cursor := { s.cursor with total := some total } } T rest j id c pos i x := by
  refine ⟨⟨mid.fileAt, ⟨mid.named.namePrefix, mid.named.nameSuffix⟩, mid.pending, mid.seen, mid.current,
    mid.posLe, mid.session, mid.prevSeq, mid.synced⟩, mid.place, mid.index, mid.tracks.consumed,
    mid.tracks.within, ?_, by simp⟩
  intro known isKnown
  obtain rfl := Option.some.inj isKnown
  exact isTotal

/-- Once the data header is decoded the record's length is known. -/
theorem Moved.headed {record : Record} {want : Nat} {metadata : Meta}
    (moved : S.Moved s T rest i t T.headerLen) (fresh : s.cursor = {})
    (recordAt : T.records[i]? = some record) (wantEq : want = record.payload.length)
    (metadataEq : metadata = record.metadata) :
    S.Headed T rest i want metadata
      { t with cursor := { t.cursor with total := some (T.headerLen + want) } } := by
  have inHeader : t.cursor.inPayload = false := by rw [moved.inPayload, fresh]
  have index := (List.getElem?_eq_some_iff.mp recordAt).1
  obtain ⟨j, id, c, pos, mid⟩ := moved.mid
  refine ⟨⟨j, id, c, pos, mid.withTotal fun _ => ?_⟩, ?_, by simp, inHeader, ?_, fun record' recordAt' => ?_,
    fun noMore => by omega⟩
  · rw [Tape.start_succ recordAt, wantEq]
  · have placed := moved.placed
    simpa [Scene.Placed, inHeader] using placed
  · exact wantEq ▸ (Tape.fits_of_getElem? recordAt).payload_le
  · obtain rfl := Option.some.inj (recordAt.symm.trans recordAt')
    exact ⟨wantEq, metadataEq⟩

/-- A data header is decoded as it was encoded. -/
theorem readDataHeader_spec (mid : S.Mid s T rest j id c pos i 0) (fresh : s.cursor = {})
    (more : i < T.records.length ∨ rest ≠ []) :
    Meets (readDataHeader S.env T.format T.minor) s
      (fun decoded s' => S.Headed T rest i decoded.1 decoded.2 s')
      (fun stop s' => ∃ e y, stop = .error e ∧ S.Stopped T rest i y 0 e s') := by
  have header (positive : 0 < T.headerLen) := fillBuf_header_spec mid fresh more positive
  have fits {record : Record} (recordAt : T.records[i]? = some record) := Tape.fits_of_getElem? recordAt
  cases format : T.format with
  | fixed n =>
      have none : T.headerLen = 0 := by rw [Tape.headerLen, format]; rfl
      have whole {record : Record} (recordAt : T.records[i]? = some record) :
          n.toNat = record.payload.length ∧ Meta.fixed = record.metadata := by
        have fits := fits recordAt
        rw [format] at fits
        obtain ⟨isFixed, length⟩ := Record.fitsIn_fixed.mp fits
        exact ⟨length.symm, isFixed.symm⟩
      simp only [readDataHeader, setTotal, meets_bind, meets_modify, meets_pure]
      refine ⟨⟨j, id, c, pos, ?_⟩, by simp [Scene.Placed, fresh], by simp, by simp [fresh],
        Nat.le_pred_of_lt n.toNat_lt, fun record recordAt => whole recordAt, fun _ => ?_⟩
      · rw [none]
        refine mid.withTotal fun within => ?_
        have recordAt := List.getElem?_eq_getElem within
        rw [Tape.start_succ recordAt, none, (whole recordAt).1, Nat.zero_add]
      · have valid := T.formatValid
        rw [format] at valid
        refine Nat.pos_of_ne_zero fun zero => valid ?_
        rw [UInt32.toNat_inj.mp (show n.toNat = (0 : UInt32).toNat from zero)]
  | variableSimple =>
      have length : T.headerLen = 4 := by rw [Tape.headerLen, format]; rfl
      simp only [readDataHeader, meets_bind]
      rw [← length]
      refine (header (by omega)).imp ?_ fun _ _ stopped => stopped
      rintro head t ⟨record, recordAt, rfl, moved⟩
      have fits := fits recordAt
      rw [format] at fits
      obtain ⟨metadata, decoded⟩ := fits.decode_variableSimple
      obtain ⟨_, _, _, _, there⟩ := moved.mid
      rw [decoded]
      refine (settlePayloadLen_spec there (by rw [moved.total, fresh]) recordAt).imp ?_
        fun _ _ impossible => impossible.elim
      rintro n u ⟨rfl, rfl⟩
      simp only [setTotal, meets_modify, meets_pure]
      have same : Format.variableSimple.dataHeaderLen = T.headerLen := length.symm
      rw [same]
      exact moved.headed fresh recordAt rfl metadata.symm
  | variableTsRc =>
      have length : Format.variableTsRc.dataHeaderLenIn T.minor = T.headerLen := by
        rw [Tape.headerLen, format]
      simp only [readDataHeader, meets_bind, length]
      refine (header (length ▸ Format.dataHeaderLenIn_variableTsRc_pos _)).imp ?_ fun _ _ stopped => stopped
      rintro head t ⟨record, recordAt, rfl, moved⟩
      have fits := fits recordAt
      rw [format] at fits
      obtain ⟨decoded, metadata⟩ := fits.decode_variableTsRc
      obtain ⟨_, _, _, _, there⟩ := moved.mid
      rw [decoded]
      refine (settlePayloadLen_spec there (by rw [moved.total, fresh]) recordAt).imp ?_
        fun _ _ impossible => impossible.elim
      rintro n u ⟨rfl, rfl⟩
      simp only [setTotal, meets_modify, meets_pure, ← metadata]
      exact moved.headed fresh recordAt rfl rfl

/-! ## The payload -/

/-- The payload of a record fits the buffer it is read into. -/
structure Takes (T : Tape) (i cap : Nat) : Prop where
  ample : ∀ record, T.records[i]? = some record → record.payload.length ≤ cap
  room : i = T.records.length → T.headerLen = 0 → 0 < cap

theorem payload_spec {want cap : Nat} {metadata : Meta} (headed : S.Headed T rest i want metadata s)
    (takes : Takes T i cap) (more : i < T.records.length ∨ rest ≠ []) :
    Meets (payload S.env cap want metadata) s
      (fun result s' => ∃ record, T.records[i]? = some record ∧
        result = ⟨record.payload.length, record.metadata⟩ ∧ s'.dst = record.payload ∧
        ∃ j id c pos, S.Mid s' T rest j id c pos i (T.headerLen + record.payload.length))
      (fun stop s' => ∃ e, stop = .error e ∧ S.Ended T rest i e s') := by
  obtain ⟨⟨j, id, c, pos, mid⟩, placed, known, inHeader, small, whole, noMore⟩ := headed
  have index := mid.index
  have placedNone : s.cursor.payloadInBuf = 0 := by simpa [Scene.Placed, inHeader] using placed
  have mid' : S.Mid { s with
      lastMeta := metadata, cursor := { s.cursor with inPayload := true }, dst := [] }
      T rest j id c pos i T.headerLen :=
    ⟨⟨mid.fileAt, ⟨mid.named.namePrefix, mid.named.nameSuffix⟩, mid.pending, mid.seen, mid.current,
      mid.posLe, mid.session, mid.prevSeq, mid.synced⟩, mid.place, mid.index, mid.tracks.consumed,
      mid.tracks.within, mid.tracks.total, mid.tracks.implied⟩
  have bound : Bound { s with
      lastMeta := metadata, cursor := { s.cursor with inPayload := true }, dst := [] }
      T rest i T.headerLen (min want cap) := by
    refine ⟨?_, fun unknown => absurd unknown known⟩
    by_cases within : i < T.records.length
    · have recordAt := List.getElem?_eq_getElem within
      rw [Tape.start_succ recordAt, ← (whole _ recordAt).1]
      exact .inl (by omega)
    · exact .inr ⟨by omega, more.resolve_left within⟩
  simp only [payload, fillBuf, meets_bind, meets_modify, meets_orLosePosition, meets_get, meets_pure]
  refine (fill_spec mid' (by simp [Scene.Placed, placedNone]) bound (by simp; omega)).imp ?_ ?_
  · rintro _ t ⟨dst, moved⟩
    have within : i < T.records.length := by
      by_contra past
      have atEnd : i = T.records.length := by omega
      have wanted := noMore atEnd
      obtain ⟨_, _, _, _, there⟩ := moved.mid
      have nothing := (there.atEnd atEnd).1
      have room := takes.room atEnd (by omega)
      omega
    have recordAt := List.getElem?_eq_getElem within
    obtain ⟨rfl, rfl⟩ := whole _ recordAt
    have fits := takes.ample _ recordAt
    rw [Nat.min_eq_left fits] at dst moved ⊢
    simp only [meets_ite, Nat.not_lt.mpr fits, meets_pure]
    refine ⟨fun impossible => impossible.elim, fun _ => ⟨_, recordAt, rfl, ?_, moved.mid⟩⟩
    rw [dst, List.nil_append, between_payload recordAt (Nat.le_refl _), List.take_length]
  · rintro stop t ⟨e, y, rfl, le, less, dst, stopped⟩
    refine ⟨e, rfl, stopped.ended ?_⟩
    obtain ⟨n, rfl⟩ := Nat.exists_eq_add_of_le le
    rw [List.nil_append] at dst
    by_cases within : i < T.records.length
    · have recordAt := List.getElem?_eq_getElem within
      obtain ⟨rfl, rfl⟩ := whole _ recordAt
      rw [between_payload recordAt (by omega)] at dst
      have length : t.dst.length = n := by
        rw [dst, List.length_take]
        omega
      refine .inr ⟨_, recordAt, ?_, ?_⟩
      · simp only [if_true, length]
        omega
      · simp only [if_true, length]
        rw [dst, List.take_take, Nat.min_self]
    · refine .inl ?_
      have past : T.blocks.flatten.length ≤ T.start i + T.headerLen := by
        rw [Tape.start_of_length_le (i := i) (by omega)]
        exact Nat.le_add_right _ _
      rw [dst, between, List.drop_eq_nil_of_le past]
      simp

/-- From its first byte a record is read whole, unless it is not all seen. -/
theorem record_spec {cap : Nat} {segment : Segment} (mid : S.Mid s T rest j id c pos i 0)
    (fresh : s.cursor = {}) (takes : Takes T i cap) (more : i < T.records.length ∨ rest ≠ [])
    (current : s.current = some segment) :
    Meets (do
        let (want, metadata) ← header S.env .fresh segment
        payload S.env cap want metadata) s
      (fun result s' => ∃ record, T.records[i]? = some record ∧
        result = ⟨record.payload.length, record.metadata⟩ ∧ s'.dst = record.payload ∧
        ∃ j id c pos, S.Mid s' T rest j id c pos i (T.headerLen + record.payload.length))
      (fun stop s' => ∃ e, stop = .error e ∧ S.Ended T rest i e s') := by
  obtain rfl := Option.some.inj (current.symm.trans mid.current)
  rw [meets_bind]
  simp only [header, meets_orLosePosition]
  refine Meets.imp (readDataHeader_spec mid fresh more) (fun decoded t headed => ?_) ?_
  · exact payload_spec headed takes more
  · rintro stop t ⟨e, y, rfl, stopped⟩
    exact ⟨e, rfl, stopped.ended (.inl rfl)⟩

end Shelf

end Tcslog
