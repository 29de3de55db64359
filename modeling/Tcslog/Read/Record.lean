import Tcslog.Read.Transfer

/-!
# Reading one record

From a record boundary a call of `read` hands back the record that begins
there, whole, or cut to the caller's buffer, or fails at a byte of it the
reader was denied; and then what is in the buffer is a proper front of its
payload.
-/

namespace Tcslog

open Lib.Program Lib.Spanned Lib.LittleEndian

namespace Scene

variable {S : Scene}

/-- What does not touch the reader's own fields, its trace or its cursor leaves
it where it is in the record. -/
theorem Mid.withDst {s : ReadState} {k j c pos i x : Nat} {σ : Strand} {id : SegId}
    (mid : S.Mid s k j σ id c pos i x) (dst : Bytes) :
    S.Mid { s with dst := dst } k j σ id c pos i x :=
  ⟨⟨⟨mid.named.namePrefix, mid.named.nameSuffix⟩, mid.suffix, mid.measured, mid.current,
    mid.posLe, mid.session, mid.prevSeq, mid.noHint⟩, mid.place, mid.index, mid.tracks⟩

/-- Learning the record's length. -/
theorem Mid.withTotal {s : ReadState} {k j c pos i x total : Nat} {σ : Strand} {id : SegId}
    (mid : S.Mid s k j σ id c pos i x)
    (isTotal : i < σ.records.length → σ.start i + total = σ.start (i + 1))
    (past : σ.format.dataHeaderLen ≤ x) :
    S.Mid { s with cursor := { s.cursor with total := some total } } k j σ id c pos i x := by
  refine ⟨⟨⟨mid.named.namePrefix, mid.named.nameSuffix⟩, mid.suffix, mid.measured, mid.current,
    mid.posLe, mid.session, mid.prevSeq, mid.noHint⟩, mid.place, mid.index,
    ⟨⟨mid.tracks.consumed, mid.tracks.within, ?_⟩, by simp⟩⟩
  intro known isKnown
  obtain rfl := Option.some.inj isKnown
  exact ⟨isTotal, past⟩

/-- Inside a record there is one. -/
theorem Mid.exists_record {s : ReadState} {k j c pos i x : Nat} {σ : Strand} {id : SegId}
    (mid : S.Mid s k j σ id c pos i x) (begun : 0 < x) :
    ∃ record, σ.records[i]? = some record := by
  refine ⟨_, List.getElem?_eq_getElem (lt_of_le_of_ne mid.index fun noMore => ?_)⟩
  have := (mid.atEnd noMore).2
  omega

/-- The bytes of a record's tape are the record's. -/
theorem between_eq {σ : Strand} {i x y : Nat} {record : Record}
    (recordAt : σ.records[i]? = some record) (le : y ≤ record.encode.length) :
    between σ i x y = (record.encode.drop x).take (y - x) := by
  rcases Nat.le_total x y with within | past
  · exact Strand.take_drop_start recordAt (by omega)
  · rw [between, Nat.sub_eq_zero_of_le past, List.take_zero, List.take_zero]

/-- After the data header come the bytes of the payload. -/
theorem between_payload {σ : Strand} {i n : Nat} {record : Record}
    (recordAt : σ.records[i]? = some record) (le : n ≤ record.payload.length) :
    between σ i σ.format.dataHeaderLen (σ.format.dataHeaderLen + n) = record.payload.take n := by
  have fits := Strand.fits_of_getElem? recordAt
  have header := fits.length_dataHeader
  rw [between_eq recordAt (by rw [fits.length_encode]; omega), Record.encode,
    Nat.add_sub_cancel_left, ← header, List.drop_left]

theorem between_header {σ : Strand} {i : Nat} {record : Record}
    (recordAt : σ.records[i]? = some record) :
    between σ i 0 σ.format.dataHeaderLen = record.metadata.dataHeader record.payload.length := by
  have fits := Strand.fits_of_getElem? recordAt
  have header := fits.length_dataHeader
  rw [between_eq recordAt (by rw [fits.length_encode]; omega), Record.encode, Nat.sub_zero,
    List.drop_zero, ← header, List.take_left]

/-! ## The data header -/

/-- The reader stands behind the data header of record `i` and knows its payload
length and metadata. -/
structure Headed (S : Scene) (s : ReadState) (k j : Nat) (σ : Strand) (c i want : Nat)
    (metadata : Meta) (s' : ReadState) : Prop where
  reached : ∃ j' id' c' pos',
    S.Reached s k j σ c i s' j' id' c' pos' σ.format.dataHeaderLen
  known : s'.cursor.total ≠ none
  inHeader : s'.cursor.inPayload = false
  small : want ≤ u32Max
  whole : ∀ record, σ.records[i]? = some record →
    want = record.payload.length ∧ metadata = record.metadata
  noMore : i = σ.records.length → σ.format.dataHeaderLen = 0 ∧ 0 < want

theorem Fits.start_succ {σ : Strand} {i : Nat} {record : Record}
    (recordAt : σ.records[i]? = some record) :
    σ.start (i + 1) = σ.start i + (σ.format.dataHeaderLen + record.payload.length) := by
  rw [Strand.start_succ recordAt, (Strand.fits_of_getElem? recordAt).length_encode]

/-- Filling a buffer with the whole data header gives the record's. -/
theorem fillBuf_header_spec {s : ReadState} {k j c pos i : Nat} {σ : Strand} {id : SegId}
    (mid : S.Mid s k j σ id c pos i 0) (fresh : s.cursor = {})
    (some : 0 < σ.format.dataHeaderLen) :
    Meets (fillBuf S.env σ.format.dataHeaderLen) s
      (fun head s' => ∃ record, σ.records[i]? = .some record ∧
        head = record.metadata.dataHeader record.payload.length ∧
        ∃ j' id' c' pos', S.Reached s k j σ c i s' j' id' c' pos' σ.format.dataHeaderLen ∧
          s'.cursor.inPayload = false ∧ s'.cursor.total = none)
      (fun stop s' => ∃ e y, stop = .error e ∧ y < σ.format.dataHeaderLen ∧
        S.Failed s k j σ c i y e s' ∧ Reports 0 e) := by
  simp only [fillBuf, meets_bind, meets_modify, meets_get, meets_pure]
  have placed : Placed { s with dst := [] } := by simp [Placed, fresh]
  have bound : Bound { s with dst := [] } σ i 0 σ.format.dataHeaderLen := by
    refine ⟨?_, fun _ => by omega⟩
    rcases Nat.lt_or_ge i σ.records.length with within | past
    · exact .inl (by simpa using Strand.start_add_dataHeaderLen_le within)
    · exact .inr (le_antisymm mid.index past)
  have small := σ.format.dataHeaderLen_le
  have same : Carried s { s with dst := [] } := ⟨List.prefix_rfl, rfl, rfl⟩
  refine (fill_spec (mid.withDst []) placed bound (by simp [u32Max]; omega)).imp ?_ ?_
  · rintro _ t ⟨dst, j', id', c', pos', moved⟩
    rw [Nat.zero_add] at moved dst
    obtain ⟨record, recordAt⟩ := moved.mid.exists_record some
    refine ⟨record, recordAt, ?_, j', id', c', pos', moved.toReached.startFrom rfl same, ?_, ?_⟩
    · rw [dst, List.nil_append, between_header recordAt]
    · rw [moved.inPayload, fresh]
    · rw [moved.total, fresh]
  · rintro stop t ⟨e, y, rfl, _, less, failed, _, reported⟩
    rw [fresh] at reported
    exact ⟨e, y, rfl, by omega, failed.startFrom rfl same, reported⟩

/-- What a crossing implied of the payload is what the data header says. -/
theorem settlePayloadLen_spec {s : ReadState} {k j c pos i x : Nat} {σ : Strand} {id : SegId}
    {record : Record} (mid : S.Mid s k j σ id c pos i x) (unknown : s.cursor.total = none)
    (recordAt : σ.records[i]? = some record) :
    Meets (settlePayloadLen record.payload.length) s
      (fun n s' => n = record.payload.length ∧ s' = s) (fun _ _ => False) := by
  have agrees : ¬ (s.cursor.impliedPayload.any (· ≠ record.payload.length)) = true := by
    cases implied : s.cursor.impliedPayload with
    | none => simp
    | some payloadLen =>
        have told := mid.tracks.implied unknown payloadLen implied
        rw [Fits.start_succ recordAt] at told
        simp
        omega
  simp only [settlePayloadLen, meets_bind, meets_get, meets_ite]
  exact ⟨fun differs => absurd differs agrees, fun _ => ⟨rfl, rfl⟩⟩

/-- A `VariableSimple` data header is its payload length. -/
theorem decode_variableSimple {record : Record} (fits : record.Fits .variableSimple) :
    record.metadata = .variableSimple ∧
      ofLE (record.metadata.dataHeader record.payload.length) = record.payload.length := by
  rcases record with ⟨payload, metadata⟩
  obtain ⟨rfl, le⟩ := Record.fits_variableSimple.mp fits
  rw [u32Max] at le
  exact ⟨rfl, ofLE_toLE (show payload.length < 256 ^ 4 by omega)⟩

/-- A `VariableTsRc` data header is its payload length, timestamp and count. -/
theorem decode_variableTsRc {record : Record} (fits : record.Fits .variableTsRc) :
    let head := record.metadata.dataHeader record.payload.length
    ofLE (takeAt head 0 4) = record.payload.length ∧
      record.metadata = .variableTsRc (UInt64.ofNat (ofLE (takeAt head 4 8)))
        (UInt64.ofNat (ofLE (head.drop 12))) := by
  rcases record with ⟨payload, metadata⟩
  obtain ⟨ts, rc, rfl, le, countLe⟩ := Record.fits_variableTsRc.mp fits
  simp only [u32Max, recordCountMax] at le countLe
  obtain ⟨length, stamp, count⟩ :=
    decode_stamped ts (show payload.length < 256 ^ 4 by omega) (show rc.toNat < 256 ^ 6 by omega)
  simp only [Meta.dataHeader, length, stamp, count, and_self]

/-- Once the data header is decoded the record's length is known. -/
theorem Reached.headed {s t : ReadState} {k j c i j' c' pos' want : Nat} {σ : Strand} {id' : SegId}
    {record : Record} {metadata : Meta}
    (reached : S.Reached s k j σ c i t j' id' c' pos' σ.format.dataHeaderLen)
    (recordAt : σ.records[i]? = some record) (inHeader : t.cursor.inPayload = false)
    (some : 0 < σ.format.dataHeaderLen) (wantEq : want = record.payload.length)
    (metadataEq : metadata = record.metadata) :
    S.Headed s k j σ c i want metadata
      { t with cursor := { t.cursor with total := .some (σ.format.dataHeaderLen + want) } } := by
  have isTotal : σ.start i + (σ.format.dataHeaderLen + want) = σ.start (i + 1) := by
    rw [Fits.start_succ recordAt, wantEq]
  refine ⟨⟨j', id', c', pos', reached.passes, reached.mid.withTotal (fun _ => isTotal) (by omega),
    ⟨reached.carried.asked, reached.carried.sessionStartLost, reached.carried.resync⟩, ?_⟩,
    by simp, inHeader, ?_, fun record' recordAt' => ?_, fun noMore => ?_⟩
  · have placed := reached.placed
    simpa [Placed, inHeader] using placed
  · have := (Strand.fits_of_getElem? recordAt).length_encode_lt
    rw [(Strand.fits_of_getElem? recordAt).length_encode] at this
    unfold u32Max
    omega
  · obtain rfl := Option.some.inj (recordAt.symm.trans recordAt')
    exact ⟨wantEq, metadataEq⟩
  · have within := (List.getElem?_eq_some_iff.mp recordAt).1
    omega

theorem readDataHeader_spec {s : ReadState} {k j c pos i : Nat} {σ : Strand} {id : SegId}
    (mid : S.Mid s k j σ id c pos i 0) (fresh : s.cursor = {}) :
    Meets (readDataHeader S.env σ.format versionMinor) s
      (fun decoded s' => S.Headed s k j σ c i decoded.1 decoded.2 s')
      (fun stop s' => ∃ e y, stop = .error e ∧ y < σ.format.dataHeaderLen ∧
        S.Failed s k j σ c i y e s' ∧ Reports 0 e) := by
  have header (some : 0 < σ.format.dataHeaderLen) := fillBuf_header_spec mid fresh some
  cases format : σ.format with
  | fixed n =>
      simp only [readDataHeader, setTotal, meets_bind, meets_modify, meets_pure]
      have none : σ.format.dataHeaderLen = 0 := by rw [format]; rfl
      have whole {record : Record} (recordAt : σ.records[i]? = some record) :
          n.toNat = record.payload.length ∧ Meta.fixed = record.metadata := by
        have fits := Strand.fits_of_getElem? recordAt
        rw [format] at fits
        obtain ⟨isFixed, length, _⟩ := Record.fits_fixed.mp fits
        exact ⟨length.symm, isFixed.symm⟩
      refine ⟨⟨j, id, c, pos, .refl, ?_, ⟨List.prefix_rfl, rfl, rfl⟩, ?_⟩, by simp, ?_, ?_,
        fun record recordAt => whole recordAt, fun _ => ⟨none, ?_⟩⟩
      · rw [none]
        refine mid.withTotal (fun within => ?_) (by simp [format, Format.dataHeaderLen])
        have recordAt := List.getElem?_eq_getElem within
        rw [Fits.start_succ recordAt, none, (whole recordAt).1, Nat.zero_add]
      · simp [Placed, fresh]
      · simp [fresh]
      · have := n.toNat_lt
        unfold u32Max
        omega
      · have valid := σ.formatValid
        rw [format] at valid
        refine Nat.pos_of_ne_zero fun zero => valid ?_
        rw [UInt32.toNat_inj.mp (show n.toNat = (0 : UInt32).toNat from zero)]
  | variableSimple =>
      have some : 0 < σ.format.dataHeaderLen := by rw [format]; decide
      simp only [readDataHeader, meets_bind]
      rw [format] at header
      refine Meets.imp (header (by decide)) ?_ fun _ _ failed => failed
      rintro head t ⟨record, recordAt, rfl, j', id', c', pos', reached, inHeader, unknown⟩
      have fits := Strand.fits_of_getElem? recordAt
      rw [format] at fits
      obtain ⟨metadata, decoded⟩ := decode_variableSimple fits
      rw [decoded]
      refine (settlePayloadLen_spec reached.mid unknown recordAt).imp ?_ (by simp)
      rintro n u ⟨rfl, rfl⟩
      simp only [setTotal, meets_modify, meets_pure]
      rw [← format] at reached ⊢
      exact reached.headed recordAt inHeader some rfl metadata.symm
  | variableTsRc =>
      have some : 0 < σ.format.dataHeaderLen := by rw [format]; decide
      simp only [readDataHeader, meets_bind]
      rw [format] at header
      refine Meets.imp (header (by decide)) ?_ fun _ _ failed => failed
      rintro head t ⟨record, recordAt, rfl, j', id', c', pos', reached, inHeader, unknown⟩
      have fits := Strand.fits_of_getElem? recordAt
      rw [format] at fits
      obtain ⟨decoded, metadata⟩ := decode_variableTsRc fits
      rw [decoded]
      refine (settlePayloadLen_spec reached.mid unknown recordAt).imp ?_ (by simp)
      rintro n u ⟨rfl, rfl⟩
      have len : Format.variableTsRc.dataHeaderLenIn versionMinor =
          Format.variableTsRc.dataHeaderLen := rfl
      simp only [setTotal, meets_modify, meets_pure, len, ← metadata]
      rw [← format] at reached ⊢
      exact reached.headed recordAt inHeader some rfl rfl

/-! ## The payload -/

/-- What reading record `i` into a buffer of `cap` bytes comes to. -/
inductive Reading (S : Scene) (s : ReadState) (k j : Nat) (σ : Strand) (c i cap : Nat) :
    Except LogError ReadResult → ReadState → Prop
  /-- The record is in the buffer and the reader stands behind it. -/
  | whole {s' : ReadState} {record : Record} {j' : Nat} {id' : SegId} {c' pos' y : Nat}
      (recordAt : σ.records[i]? = some record) (fits : record.payload.length ≤ cap)
      (dst : s'.dst = record.payload) (reached : S.Reached s k j σ c i s' j' id' c' pos' y)
      (done : σ.start i + y = σ.start (i + 1)) :
      Reading S s k j σ c i cap (.ok ⟨record.payload.length, record.metadata⟩) s'
  /-- The front of the record is in the buffer and the reader stands behind the
  record. -/
  | overflow {s' : ReadState} {record : Record} {j' : Nat} {id' : SegId} {c' pos' y : Nat}
      (recordAt : σ.records[i]? = some record) (long : cap < record.payload.length)
      (dst : s'.dst = record.payload.take cap)
      (reached : S.Reached s k j σ c i s' j' id' c' pos' y)
      (done : σ.start i + y = σ.start (i + 1)) :
      Reading S s k j σ c i cap (.error (.readOverflow cap)) s'
  /-- The front of the record is in the buffer, and the rest of it failed. -/
  | cut {s' t : ReadState} {record : Record} {y : Nat} {e : LogError}
      (recordAt : σ.records[i]? = some record) (long : cap < record.payload.length)
      (dst : s'.dst = record.payload.take cap) (failed : S.Failed s k j σ c i y e t)
      (result : s' = t.losePosition) (beyond : σ.format.dataHeaderLen + cap ≤ y) :
      Reading S s k j σ c i cap (.error (.readOverflow cap)) s'
  /-- The record failed, and what is in the buffer is a proper front of it. -/
  | failed {s' t : ReadState} {y : Nat} {e : LogError} (failed : S.Failed s k j σ c i y e t)
      (result : s' = t.losePosition)
      (front : 0 < e.placed → ∃ record, σ.records[i]? = some record ∧
        s'.dst.take e.placed = record.payload.take e.placed ∧ e.placed < record.payload.length)
      (counted : ∀ lost n, e = .readTruncated lost n → n = y - σ.format.dataHeaderLen) :
      Reading S s k j σ c i cap (.error e) s'

theorem Mid.withPayload {s : ReadState} {k j c pos i x : Nat} {σ : Strand} {id : SegId}
    (mid : S.Mid s k j σ id c pos i x) (metadata : Meta) (dst : Bytes) :
    S.Mid { s with lastMeta := metadata, cursor := { s.cursor with inPayload := true }, dst := dst }
      k j σ id c pos i x :=
  ⟨⟨⟨mid.named.namePrefix, mid.named.nameSuffix⟩, mid.suffix, mid.measured, mid.current,
    mid.posLe, mid.session, mid.prevSeq, mid.noHint⟩, mid.place, mid.index,
    ⟨⟨mid.tracks.consumed, mid.tracks.within, mid.tracks.total⟩, mid.tracks.implied⟩⟩

/-- Where a strand has no more records none of a record is read. -/
theorem Failed.atEnd {s s' : ReadState} {k j c i y : Nat} {σ : Strand} {e : LogError}
    (failed : S.Failed s k j σ c i y e s') (noMore : i = σ.records.length) : y = 0 := by
  cases failed with
  | broke reached more broke => exact (reached.mid.atEnd noMore).2
  | denied reached denied => exact (denied.mid.atEnd noMore).2

/-- The rest of a record that fills the buffer is passed over, or fails. -/
theorem skipRest_spec {s u : ReadState} {k j c i j' c' pos' cap : Nat} {σ : Strand} {id' : SegId}
    {record : Record} (recordAt : σ.records[i]? = some record) (long : cap < record.payload.length)
    (dst : u.dst = record.payload.take cap) (known : u.cursor.total ≠ none) (placed : Placed u)
    (reached : S.Reached s k j σ c i u j' id' c' pos' (σ.format.dataHeaderLen + cap)) :
    Meets (skip S.env (record.payload.length - cap)) u
      (fun _ v => S.Reading s k j σ c i cap (.error (.readOverflow cap)) v)
      (fun stop v => ∃ e, stop = .error e ∧
        S.Reading s k j σ c i cap (.error (.readOverflow cap)) v.losePosition) := by
  have bound : Bound u σ i (σ.format.dataHeaderLen + cap) (record.payload.length - cap) := by
    refine ⟨.inl ?_, fun unknown => absurd unknown known⟩
    rw [Fits.start_succ recordAt]
    omega
  refine (skip_spec reached.mid placed bound).imp ?_ ?_
  · rintro _ v ⟨dst', j₃, id₃, c₃, pos₃, moved⟩
    refine .overflow recordAt long (dst'.trans dst) (reached.trans moved.toReached) ?_
    rw [Fits.start_succ recordAt]
    omega
  · rintro stop v ⟨e, y, rfl, beyond, _, failed, dst'⟩
    exact ⟨_, rfl, .cut recordAt long (dst'.trans dst) (failed.of_reached reached) rfl beyond⟩

/-- A payload that breaks off is told by what of it is in the buffer. -/
theorem Headed.brokeOff {s t u : ReadState} {k j c i cap want n : Nat} {σ : Strand} {metadata : Meta}
    {e : LogError} (headed : S.Headed s k j σ c i want metadata t) (less : n < min want cap)
    (failed : S.Failed s k j σ c i (σ.format.dataHeaderLen + n) e u)
    (dst : u.dst = between σ i σ.format.dataHeaderLen (σ.format.dataHeaderLen + n))
    (reported : Reports u.dst.length e) : S.Reading s k j σ c i cap (.error e) u.losePosition := by
  obtain ⟨_, _, _, _, reached⟩ := headed.reached
  have atRecord : i < σ.records.length ∨ i = σ.records.length :=
    Nat.lt_or_eq_of_le reached.mid.index
  have front {record : Record} (recordAt : σ.records[i]? = some record) :
      u.dst = record.payload.take n ∧ u.dst.length = n ∧ n < record.payload.length := by
    obtain ⟨rfl, rfl⟩ := headed.whole _ recordAt
    rw [between_payload recordAt (by omega)] at dst
    refine ⟨dst, ?_, by omega⟩
    rw [dst, List.length_take]
    omega
  have length : u.dst.length = n := by
    rcases atRecord with within | atEnd
    · exact (front (List.getElem?_eq_getElem within)).2.1
    · have past : σ.blocks.flatten.length ≤ σ.start i + σ.format.dataHeaderLen := by
        rw [σ.start_of_length_le (i := i) (by omega)]
        omega
      have nothing := failed.atEnd atEnd
      rw [dst, between, List.drop_eq_nil_of_le past, List.take_nil, List.length_nil]
      omega
  rw [length] at reported
  refine .failed failed rfl (fun some => ?_) fun lost m is => ?_
  · have counted := reported.placed_le.resolve_left (Nat.ne_of_gt some)
    have within : i < σ.records.length := by
      refine atRecord.resolve_right fun atEnd => ?_
      have nothing := failed.atEnd atEnd
      omega
    obtain ⟨dst, _, less⟩ := front (List.getElem?_eq_getElem within)
    rw [counted]
    refine ⟨_, List.getElem?_eq_getElem within, ?_, less⟩
    change u.dst.take n = _
    rw [dst, List.take_take, Nat.min_self]
  · subst is
    rw [reported.of_truncated, Nat.add_sub_cancel_left]

theorem payload_spec {s t : ReadState} {k j c i cap want : Nat} {σ : Strand} {metadata : Meta}
    (headed : S.Headed s k j σ c i want metadata t) (room : 0 < cap ∨ 0 < σ.format.dataHeaderLen) :
    Meets (payload S.env cap want metadata) t
      (fun result s' => S.Reading s k j σ c i cap (.ok result) s')
      (fun stop s' => ∃ e, stop = .error e ∧ S.Reading s k j σ c i cap (.error e) s') := by
  obtain ⟨j₁, id₁, c₁, pos₁, reached⟩ := headed.reached
  have small := headed.small
  have placedNone : t.cursor.payloadInBuf = 0 := by
    simpa [Placed, headed.inHeader] using reached.placed
  have atRecord : i < σ.records.length ∨ i = σ.records.length :=
    Nat.lt_or_eq_of_le reached.mid.index
  simp only [payload, fillBuf, meets_bind, meets_modify, meets_orLosePosition, meets_get,
    meets_pure]
  have carried : Carried t { t with
      lastMeta := metadata, cursor := { t.cursor with inPayload := true }, dst := [] } :=
    ⟨List.prefix_rfl, rfl, rfl⟩
  have bound : Bound { t with
      lastMeta := metadata, cursor := { t.cursor with inPayload := true }, dst := [] } σ i
      σ.format.dataHeaderLen (min want cap) := by
    refine ⟨atRecord.imp_left fun within => ?_, fun unknown => absurd unknown headed.known⟩
    have recordAt := List.getElem?_eq_getElem within
    rw [Fits.start_succ recordAt, (headed.whole _ recordAt).1]
    omega
  refine (fill_spec (reached.mid.withPayload metadata []) (by simp [Placed, placedNone]) bound
    (by simp; omega)).imp ?_ ?_
  · rintro _ u ⟨dst, j₂, id₂, c₂, pos₂, moved⟩
    have within : i < σ.records.length := by
      refine atRecord.resolve_right fun atEnd => ?_
      have some : 0 < σ.format.dataHeaderLen + min want cap := by
        have := headed.noMore atEnd
        omega
      obtain ⟨record, recordAt⟩ := moved.mid.exists_record some
      have := (List.getElem?_eq_some_iff.mp recordAt).1
      omega
    have recordAt := List.getElem?_eq_getElem within
    obtain ⟨rfl, rfl⟩ := headed.whole _ recordAt
    have reached₂ := reached.trans (moved.toReached.startFrom rfl carried)
    have dstEq : u.dst = (σ.records[i]).payload.take (min (σ.records[i]).payload.length cap) := by
      rw [dst, List.nil_append, between_payload recordAt (Nat.min_le_left _ _)]
    simp only [meets_ite, meets_bind, meets_attempt, meets_pure, meets_fail]
    refine ⟨fun long => ?_, fun fits => ?_⟩
    · have takeAll : min (σ.records[i]).payload.length cap = cap := by omega
      have known : u.cursor.total ≠ none := by
        rw [moved.total]
        exact headed.known
      rw [takeAll] at reached₂ dstEq
      rw [takeAll]
      refine (skipRest_spec recordAt long dstEq known moved.placed reached₂).imp ?_ ?_
      · exact fun _ v reading => ⟨_, rfl, reading⟩
      · rintro stop v ⟨e, rfl, reading⟩
        simp only [meets_modify]
        exact ⟨_, rfl, reading⟩
    · have takeAll : min (σ.records[i]).payload.length cap = (σ.records[i]).payload.length := by
        omega
      rw [takeAll, List.take_length] at dstEq
      rw [takeAll] at reached₂
      rw [takeAll]
      refine .whole recordAt (by omega) dstEq reached₂ ?_
      rw [Fits.start_succ recordAt]
  · rintro stop u ⟨e, y, rfl, le, less, failed, dst, reported⟩
    obtain ⟨n, rfl⟩ := Nat.exists_eq_add_of_le le
    rw [List.nil_append] at dst
    exact ⟨e, rfl, headed.brokeOff (by omega) (.of_reached reached (failed.startFrom rfl carried)) dst
      reported⟩

/-! ## Record by record -/

/-- A recovered record: the reader stands at its payload, its data header having
been in the missing file. -/
structure Recovers (σ : Strand) (i n : Nat) : Prop where
  format : σ.format = .variableSimple
  recordAt : ∃ record, σ.records[i]? = some record ∧ n = record.payload.length

/-- From the beginning of record `i`, or from its payload when its data header
was lost, the record is read. -/
theorem record_spec {s : ReadState} {k j c pos i cap : Nat} {σ : Strand} {id : SegId} (start : Start)
    (isOpen : S.Open s k j σ id c pos) (index : i ≤ σ.records.length) (fresh : s.cursor = {})
    (place : match start with
      | .fresh => j * σ.dataSection + pos = σ.start i
      | .recovered n => Recovers σ i n ∧
          j * σ.dataSection + pos = σ.start i + σ.format.dataHeaderLen)
    (room : 0 < cap ∨ 0 < σ.format.dataHeaderLen) (segment : Segment)
    (current : s.current = some segment) :
    Meets (do
        let (want, metadata) ← header S.env start segment
        payload S.env cap want metadata) s
      (fun result s' => S.Reading s k j σ c i cap (.ok result) s')
      (fun stop s' => ∃ e, stop = .error e ∧ S.Reading s k j σ c i cap (.error e) s') := by
  obtain rfl := Option.some.inj (current.symm.trans isOpen.current)
  rw [meets_bind]
  cases start with
  | fresh =>
      have mid : S.Mid s k j σ id c pos i 0 := by
        refine ⟨isOpen, place, index, ⟨⟨by rw [fresh], ?_, by simp [fresh]⟩, by simp [fresh]⟩⟩
        exact Strand.start_mono (Nat.le_succ i)
      simp only [header, meets_orLosePosition]
      refine Meets.imp (readDataHeader_spec mid fresh) (fun decoded t headed => ?_) ?_
      · exact payload_spec headed room
      · rintro stop t ⟨e, y, rfl, less, failed, none⟩
        refine ⟨e, rfl, .failed failed rfl (fun some => ?_) fun lost n is => ?_⟩
        · rcases none.placed_le with none | none <;> omega
        · subst is
          rw [none.of_truncated, Nat.sub_eq_zero_of_le less.le]
  | recovered n =>
      obtain ⟨⟨format, record, recordAt, rfl⟩, place⟩ := place
      have fits := Strand.fits_of_getElem? recordAt
      have isTotal : σ.start i + (σ.format.dataHeaderLen + record.payload.length) =
          σ.start (i + 1) := (Fits.start_succ recordAt).symm
      have some : σ.format.dataHeaderLen = 4 := by rw [format]; rfl
      simp only [header, meets_bind, meets_modify, meets_pure]
      have mid : S.Mid { s with cursor := { s.cursor with
          consumed := σ.format.dataHeaderLen
          total := .some (σ.format.dataHeaderLen + record.payload.length) } } k j σ id c pos i
          σ.format.dataHeaderLen := by
        refine ⟨⟨⟨isOpen.named.namePrefix, isOpen.named.nameSuffix⟩, isOpen.suffix, isOpen.measured,
          isOpen.current, isOpen.posLe, isOpen.session, isOpen.prevSeq, isOpen.noHint⟩, place, index,
          ⟨⟨rfl, by omega, fun total isTotal' => ?_⟩, by simp⟩⟩
        obtain rfl := Option.some.inj isTotal'
        exact ⟨fun _ => isTotal, by omega⟩
      refine payload_spec ⟨⟨j, id, c, pos, .refl, mid, ⟨List.prefix_rfl, rfl, rfl⟩, ?_⟩, by simp, ?_,
        ?_, fun record' recordAt' => ?_, fun atEnd => ?_⟩ room
      · simp [Placed, fresh]
      · simp [fresh]
      · have := fits.length_encode_lt
        rw [fits.length_encode] at this
        unfold u32Max
        omega
      · obtain rfl := Option.some.inj (recordAt.symm.trans recordAt')
        rw [format] at fits
        exact ⟨rfl, (decode_variableSimple fits).1.symm⟩
      · have := (List.getElem?_eq_some_iff.mp recordAt).1
        omega

end Scene

end Tcslog
