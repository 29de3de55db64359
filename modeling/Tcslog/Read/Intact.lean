import Tcslog.Read.Shelf
import Mathlib.Data.List.Chain

/-!
# Reading through the files of one tape

A reader of a shelf is let from every file of a tape into the next, wherever in
a record the one ends and the other begins, so what it reads is the tape.  It
stops only where the tape ends, or what is seen of it.
-/

namespace Tcslog

open Lib.Program Lib.Spanned

namespace Shelf

variable {S : Shelf}

/-- File `j` of a tape is open and was read up to `pos`. -/
structure On (S : Shelf) (s : ReadState) (T : Tape) (rest : List Tape) (j : Nat) (id : SegId)
    (c pos : Nat) : Prop where
  fileAt : S.FileAt T rest j id
  named : S.Named s
  pending : s.pending = after T rest j
  seen : S.Seen s.ops.length T j id c
  current : s.current =
    some { opened T j id c with pos := pos, offset := segmentFileHeaderLen + pos }
  posLe : pos ≤ c
  session : s.session = some T.sessionId
  prevSeq : s.prevSeq = some (T.header j id).sequence
  synced : s.resync = false

/-- The reader is about to begin the first of these tapes. -/
structure Between (S : Shelf) (s : ReadState) (tapes : List Tape) : Prop where
  place : tapes <:+ S.tapes
  named : S.Named s
  pending : s.pending = tapes.flatMap Tape.ids
  closed : s.current = none
  session : s.session = none

/-- What a cursor knows of record `i` after `x` of its bytes. -/
structure Tracks (cursor : Cursor) (T : Tape) (i x : Nat) : Prop where
  consumed : cursor.consumed = x
  within : T.start i + x ≤ T.start (i + 1)
  total : ∀ total, cursor.total = some total → i < T.records.length →
    T.start i + total = T.start (i + 1)
  implied : cursor.total = none → ∀ n, cursor.impliedPayload = some n →
    T.start i + (T.headerLen + n) = T.start (i + 1)

/-- The reader has read `x` bytes of record `i`, or stands where the records of
the tape end. -/
structure Mid (S : Shelf) (s : ReadState) (T : Tape) (rest : List Tape) (j : Nat) (id : SegId)
    (c pos i x : Nat) : Prop extends S.On s T rest j id c pos where
  place : j * T.dataSection + pos = T.start i + x
  index : i ≤ T.records.length
  tracks : Tracks s.cursor T i x

/-- More of record `i` is wanted after its first `x` bytes, and of its header
while its length is unknown. -/
structure Wants (s : ReadState) (T : Tape) (rest : List Tape) (i x : Nat) : Prop where
  more : T.start i + x < T.start (i + 1) ∨ i = T.records.length ∧ rest ≠ []
  header : s.cursor.total = none → x < T.headerLen

/-- So many bytes of the last tape of the shelf are there from the beginning. -/
def reach (S : Shelf) (T : Tape) : Nat :=
  (T.ids.length - 1) * T.dataSection + (S.floor - segmentFileHeaderLen)

/-- Record `i` of a tape need not be found: some of its bytes may come late, or
it would be in a file that had no whole header before request `n`. -/
structure Unseen (S : Shelf) (T : Tape) (rest : List Tape) (i n : Nat) : Prop where
  last : rest = [] → i < T.records.length → S.reach T < T.start (i + 1)
  next : rest ≠ [] → i = T.records.length ∧ S.floor < segmentFileHeaderLen ∧
    (∃ id, rest.flatMap Tape.ids = [id]) ∧ S.Headless (rest.flatMap Tape.ids) n

/-- How a record in progress stopped: the next session begins, or no more is
seen. -/
inductive Stopped (S : Shelf) (T : Tape) (rest : List Tape) (i x n : Nat) : LogError → ReadState → Prop
  | boundary {s' : ReadState} (atEnd : i = T.records.length) (more : rest ≠ [])
      (headerRead : ∀ U ∈ rest.head?, S.HeaderRead U.ids s'.ops) (between : S.Between s' rest) :
      Stopped S T rest i x n .sessionEnd s'
  | drained {s' : ReadState} (unseen : S.Unseen T rest i s'.ops.length)
      (finished : s'.pending = [] ∧ s'.current = none) :
      Stopped S T rest i x n (.readTruncated 0 n) s'

/-- What moving from one file to the next leaves alone. -/
structure Kept (s s' : ReadState) : Prop where
  dst : s'.dst = s.dst
  payloadInBuf : s'.cursor.payloadInBuf = s.cursor.payloadInBuf
  inPayload : s'.cursor.inPayload = s.cursor.inPayload
  total : s'.cursor.total = s.cursor.total

variable {s s' : ReadState} {T : Tape} {rest : List Tape} {j c pos i x : Nat} {id : SegId}

theorem Kept.refl (s : ReadState) : Kept s s :=
  ⟨rfl, rfl, rfl, rfl⟩

/-- A tape that others follow is all on disk. -/
theorem full_of_next (place : T :: rest <:+ S.tapes) (more : rest ≠ []) : T.Full := by
  apply S.full
  obtain ⟨earlier, split⟩ := place
  rw [← split, List.dropLast_append_of_ne_nil (List.cons_ne_nil _ _), List.dropLast_cons_of_ne_nil more]
  simp

/-- The next tape is of another session. -/
theorem apart_of_next {U : Tape} (place : T :: U :: rest <:+ S.tapes) : T.sessionId ≠ U.sessionId :=
  (List.isChain_cons_cons.mp (S.apart.suffix place)).1

/-- A file with another after it shows all of its data. -/
theorem On.whole (on : S.On s T rest j id c pos) (more : after T rest j ≠ []) : c = (T.data j).length :=
  on.seen.whole (on.fileAt.mem_dropLast_iff.mpr more)

/-- The last file of the shelf shows what was there from the beginning. -/
theorem On.floor (on : S.On s T rest j id c pos) (noMore : after T rest j = []) :
    S.floor ≤ segmentFileHeaderLen + c :=
  on.seen.floor fun mem => on.fileAt.mem_dropLast_iff.mp mem noMore

theorem Mid.le_end (mid : S.Mid s T rest j id c pos i x) : T.start i + x ≤ T.stored := by
  have shown := mid.seen.within
  have length := T.length_data j
  have begins := T.page_start_le mid.fileAt.lt
  have := mid.posLe
  have := mid.place
  omega

/-- Where no record is left, the last file of the tape is open at its end. -/
theorem Mid.atEnd (mid : S.Mid s T rest j id c pos i x) (noMore : i = T.records.length) :
    x = 0 ∧ pos = c ∧ j + 1 = T.ids.length := by
  have le : T.stored ≤ T.blocks.flatten.length := T.storedLe
  have here := mid.le_end
  have place := mid.place
  have shown := mid.seen.within
  have length := T.length_data j
  have := mid.posLe
  have within := mid.fileAt.lt
  have last : T.start i = T.blocks.flatten.length := Tape.start_of_length_le (by omega)
  refine ⟨by omega, by omega, ?_⟩
  by_contra notLast
  have tight : (T.ids.length - 1) * T.dataSection < T.blocks.flatten.length := T.tight (by omega)
  have next : (j + 1) * T.dataSection ≤ (T.ids.length - 1) * T.dataSection :=
    Nat.mul_le_mul_right _ (by omega)
  rw [Nat.succ_mul] at next
  have := T.length_data_le j
  omega

/-- Inside a record there is one. -/
theorem Mid.exists_record (mid : S.Mid s T rest j id c pos i x) (begun : 0 < x) :
    ∃ record, T.records[i]? = some record := by
  refine ⟨_, List.getElem?_eq_getElem (lt_of_le_of_ne mid.index fun noMore => ?_)⟩
  have := (mid.atEnd noMore).1
  omega

/-- A record is at least its data header. -/
theorem start_add_headerLen_le (within : i < T.records.length) : T.start i + T.headerLen ≤ T.start (i + 1) := by
  rw [Tape.start_succ (List.getElem?_eq_getElem within)]
  omega

/-! ## The checks of a crossing -/

/-- The `remaining` field of the file that continues a record agrees with all
that is known of it. -/
theorem checkRemaining_spec (tracks : Tracks s.cursor T i x) (wants : Wants s T rest i x)
    (index : i ≤ T.records.length) (within : j < T.ids.length)
    (place : j * T.dataSection = T.start i + x) :
    Meets (checkRemaining S.env (T.header j id)) s
      (fun denied s' => denied = false ∧ Scene.ToldOnly s s' ∧ Tracks s'.cursor T i x)
      (fun _ _ => False) := by
  obtain rfl := tracks.consumed
  have here := tracks.within
  have same : Scene.ToldOnly s s := rfl
  have notPast (begun : s.cursor.consumed ≠ 0) : i < T.records.length := by
    refine lt_of_le_of_ne index fun atEnd => ?_
    have := Tape.start_succ_of_length_le (T := T) (i := i) (by omega)
    omega
  have inside (begun : s.cursor.consumed ≠ 0) : T.start i + s.cursor.consumed < T.start (i + 1) :=
    wants.more.resolve_right fun atEnd => absurd (notPast begun) (by omega)
  have remaining (begun : s.cursor.consumed ≠ 0) :
      (T.header j id).remaining.toNat = T.start (i + 1) - (T.start i + s.cursor.consumed) := by
    rw [T.header_remaining within place (.inl (inside begun)), if_neg begun]
  simp only [checkRemaining, meets_bind, meets_get, meets_ite, meets_pure]
  refine ⟨fun fresh => ⟨?_, same, tracks⟩, fun begun => ?_⟩
  · rw [T.header_remaining within place (.inr fresh), if_pos fresh]
    rfl
  cases known : s.cursor.total with
  | some total =>
      have length := tracks.total total known (notPast begun)
      rw [meets_bind, subU64_of_le (by omega), meets_pure, meets_pure]
      refine ⟨?_, same, tracks⟩
      rw [remaining begun]
      simp
      omega
  | none =>
      have whole := start_add_headerLen_le (notPast begun)
      have unread := wants.header known
      have length : (T.header j id).format.dataHeaderLenIn (T.header j id).versionMinor = T.headerLen := rfl
      simp only [length, remaining begun, meets_ite, meets_pure]
      refine ⟨fun bad => ?_, fun _ => ⟨rfl, by simp [Scene.ToldOnly, known], ⟨rfl, here, by simp, ?_⟩⟩⟩
      · rcases bad with short | differs
        · omega
        · cases told : s.cursor.impliedPayload with
          | none => simp [told] at differs
          | some n =>
              have implied := tracks.implied known n told
              simp [told] at differs
              omega
      · intro _ n told
        obtain rfl := Option.some.inj told
        omega

/-- Files of a tape are numbered one after the other. -/
theorem checkSequence_spec {id' : SegId} (within : j + 1 < T.ids.length) :
    Meets (checkSequence S.env (some (T.header j id).sequence) (T.header (j + 1) id').sequence) s
      (fun verdict s' => s' = s ∧ verdict = (false, 0)) (fun _ _ => False) := by
  have fits := T.ids_length_le
  have room : j + 1 < 2 ^ 64 := by omega
  simp only [checkSequence, T.header_sequence within, T.header_sequence (Nat.lt_of_succ_lt within),
    addU64_of_lt room, meets_bind, meets_pure, if_true]
  trivial

/-- A crossing into the next file of a tape is allowed. -/
theorem checkCrossing_spec {id' : SegId} {c' : Nat} (tracks : Tracks s.cursor T i x)
    (wants : Wants s T rest i x) (index : i ≤ T.records.length) (within : j + 1 < T.ids.length)
    (place : (j + 1) * T.dataSection = T.start i + x) :
    Meets (checkCrossing S.env false (some (T.header j id).sequence) (opened T (j + 1) id' c')) s
      (fun _ s' => Scene.ToldOnly s s' ∧ Tracks s'.cursor T i x) (fun _ _ => False) := by
  simp only [checkCrossing, meets_bind]
  refine (checkRemaining_spec tracks wants index within place).imp ?_ fun _ _ impossible => impossible
  rintro _ t ⟨rfl, told, tracks'⟩
  refine (checkSequence_spec within).imp ?_ fun _ _ impossible => impossible
  rintro _ _ ⟨rfl, rfl⟩
  simp only [Bool.or_self, Bool.false_eq_true, if_false, meets_pure]
  exact ⟨told, tracks'⟩

/-! ## Crossing -/

/-- At the end of the shelf there is nothing to cross into. -/
theorem unseen_of_after {n : Nat} (mid : S.Mid s T rest j id c c i x) (wants : Wants s T rest i x)
    (unseen : after T rest j = [] ∨ S.floor < segmentFileHeaderLen ∧ S.Headless (after T rest j) n)
    (noMore : ∀ id' rest', after T rest j = id' :: rest' → rest' = []) : S.Unseen T rest i n := by
  have place := mid.place
  have within := mid.fileAt.lt
  refine ⟨fun isLast index => ?_, fun more => ?_⟩
  · subst isLast
    have inside : T.start i + x < T.start (i + 1) := wants.more.resolve_right fun atEnd => by omega
    refine Nat.lt_of_le_of_lt ?_ inside
    rw [← place, reach]
    by_cases last : j + 1 = T.ids.length
    · have noneAfter : after T [] j = [] := by rw [after_of_last last]; rfl
      have := mid.floor noneAfter
      rw [← last, Nat.add_sub_cancel]
      omega
    · -- Of the files after this one only the last was not opened.
      have short : (after T [] j).length = T.ids.length - (j + 1) := by simp [after]
      have next : (after T [] j).length ≤ 1 := by
        cases split : after T [] j with
        | nil => simp
        | cons id' rest' => simp [noMore id' rest' split]
      have low := (unseen.resolve_left fun none => by
        rw [none, List.length_nil] at short
        omega).1
      have whole := mid.whole fun none => by
        rw [none, List.length_nil] at short
        omega
      rw [T.length_data_of_lt (by omega)] at whole
      have count : T.ids.length - 1 = j + 1 := by omega
      rw [count, Nat.succ_mul, whole]
      omega
  · have ids : rest.flatMap Tape.ids ≠ [] := by
      obtain ⟨U, rest', rfl⟩ := List.exists_cons_of_ne_nil more
      simp [U.nonempty]
    have listed : after T rest j ≠ [] := by simp [after, ids]
    obtain ⟨low, headless⟩ := unseen.resolve_left listed
    have single : ∃ id, rest.flatMap Tape.ids = [id] := by
      obtain ⟨id', ids', isIds⟩ := List.exists_cons_of_ne_nil listed
      have alone := noMore _ _ isIds
      subst alone
      have short := congrArg List.length isIds
      rw [after, List.length_append, List.length_singleton] at short
      have some := List.length_pos_of_ne_nil ids
      exact List.length_eq_one_iff.mp (by omega)
    refine ⟨?_, low, single, fun id mem => headless id (List.mem_append_right _ mem)⟩
    have last : j + 1 = T.ids.length := by
      by_contra notLast
      obtain ⟨id', idAt⟩ : ∃ id', T.ids[j + 1]? = some id' := ⟨_, List.getElem?_eq_getElem (by omega)⟩
      have split := FileAt.after_eq (S := S) ⟨mid.fileAt.place, idAt⟩
      have none := noMore _ _ split
      simp [after, ids] at none
    have full : T.stored = T.blocks.flatten.length := full_of_next mid.fileAt.place more
    have ends := T.length_data_last last
    have whole := mid.whole listed
    by_contra notEnd
    have index := mid.index
    have record := Tape.start_lt (T := T) (i := i) (by omega)
    have lastRecord : T.start (i + 1) ≤ T.start T.records.length := Tape.start_mono (by omega)
    rw [Tape.start_of_length_le (Nat.le_refl _)] at lastRecord
    have inside : T.start i + x < T.start (i + 1) := wants.more.resolve_right fun atEnd => notEnd atEnd.1
    omega

/-- A reader that is leaving its file. -/
theorem Mid.leaving (mid : S.Mid s T rest j id c pos i x) : S.Named { s with current := none } :=
  ⟨mid.named.namePrefix, mid.named.nameSuffix⟩

theorem Mid.prevShort (mid : S.Mid s T rest j id c pos i x) :
    (s.current.any fun segment => segment.dataLen < segment.header.dataLen) =
      decide (c < T.dataSection) := by
  rw [mid.current]
  rfl

/-- Where no file is left the record stops. -/
theorem cross_end (mid : S.Mid s T rest j id c c i x) (wants : Wants s T rest i x)
    (noMore : after T rest j = []) :
    Meets (cross S.env) s (fun _ _ => False)
      (fun stop s' => ∃ e, stop = .error e ∧ s'.dst = s.dst ∧
        S.Stopped T rest i x s.cursor.payloadInBuf e s') := by
  have pending : s.pending = [] := mid.pending.trans noMore
  simp only [cross, meets_bind, meets_get, meets_set, meets_attempt]
  refine (openNext_nil (s := { s with current := none }) S.env pending).imp ?_
    fun _ _ impossible => impossible.elim
  rintro _ _ ⟨rfl, rfl⟩
  refine ⟨_, rfl, rfl, .drained (unseen_of_after mid wants (.inl noMore) ?_) ⟨pending, rfl⟩⟩
  intro id' rest' split
  rw [noMore] at split
  contradiction

/-- A crossing from the last file of a tape meets the next session. -/
theorem cross_boundary {U : Tape} (mid : S.Mid s T (U :: rest) j id c c i x)
    (wants : Wants s T (U :: rest) i x) (last : j + 1 = T.ids.length) :
    Meets (cross S.env) s (fun _ _ => False)
      (fun stop s' => ∃ e, stop = .error e ∧ s'.dst = s.dst ∧
        S.Stopped T (U :: rest) i x s.cursor.payloadInBuf e s') := by
  obtain ⟨id', ids, isIds⟩ := List.exists_cons_of_ne_nil U.nonempty
  have next : U :: rest <:+ S.tapes := (List.suffix_cons _ _).trans mid.fileAt.place
  have fileAt : S.FileAt U rest 0 id' := ⟨next, by rw [isIds]; rfl⟩
  have split : after T (U :: rest) j = id' :: after U rest 0 := by
    rw [after_of_last last, List.flatMap_cons, after, isIds]
    rfl
  have whole := mid.whole (by rw [split]; simp)
  simp only [cross, meets_bind, meets_get, meets_set, meets_attempt]
  refine (openNext_spec fileAt mid.leaving (mid.pending.trans split)).imp ?_ ?_
  · rintro isOpen t ⟨_, opening⟩
    cases opening with
    | accepted seen session result =>
        have same : some T.sessionId = some U.sessionId := by
          rw [← mid.session]
          exact session.resolve_left (by simp [mid.session])
        exact absurd (Option.some.inj same) (apart_of_next mid.fileAt.place)
    | refused noMore unseen headless result =>
        have low : S.floor < segmentFileHeaderLen ∧ S.Headless (after T (U :: rest) j) t.ops.length := by
          rw [split, noMore]
          exact ⟨unseen, headless⟩
        refine ⟨_, rfl, by rw [result], .drained (unseen_of_after mid wants (.inr low) ?_) ?_⟩
        · intro id'' rest' split'
          rw [split] at split'
          rw [← (List.cons.inj split').2, noMore]
        · rw [result]
          exact ⟨rfl, rfl⟩
  · rintro stop t ⟨_, rfl, opening⟩
    have full : T.stored = T.blocks.flatten.length := full_of_next mid.fileAt.place (by simp)
    have ends := T.length_data_last last
    have place := mid.place
    have atEnd : i = T.records.length := by
      by_contra notEnd
      have index := mid.index
      have inside : T.start i + x < T.start (i + 1) := wants.more.resolve_right fun both => notEnd both.1
      have lastRecord : T.start (i + 1) ≤ T.start T.records.length := Tape.start_mono (by omega)
      rw [Tape.start_of_length_le (Nat.le_refl _)] at lastRecord
      omega
    have fresh : s.cursor.consumed = 0 := mid.tracks.consumed.trans (mid.atEnd atEnd).1
    simp only [meets_ite, fresh, Nat.lt_irrefl, and_false, meets_fail]
    refine ⟨fun impossible => impossible.elim, fun _ => ⟨_, rfl, ?_, .boundary atEnd (by simp) ?_ ?_⟩⟩
    · cases opening with
      | boundary session differs headerRead result => rw [result]
    · cases opening with
      | boundary session differs headerRead result => exact fileAt.headerRead headerRead
    · cases opening with
      | boundary session differs headerRead result =>
          refine ⟨next, ?_, ?_, ?_, ?_⟩
          · rw [result]
            exact ⟨mid.named.namePrefix, mid.named.nameSuffix⟩
          · rw [result]
            exact mid.pending.trans (after_of_last last)
          · rw [result]
          · rw [result]

/-- A crossing into the next file of the tape is allowed, if the file is seen at
all. -/
theorem cross_next (mid : S.Mid s T rest j id c c i x) (wants : Wants s T rest i x)
    (next : j + 1 < T.ids.length) :
    Meets (cross S.env) s
      (fun _ s' => Kept s s' ∧ ∃ id' c', S.Mid s' T rest (j + 1) id' c' 0 i x)
      (fun stop s' => ∃ e, stop = .error e ∧ s'.dst = s.dst ∧
        S.Stopped T rest i x s.cursor.payloadInBuf e s') := by
  obtain ⟨id', idAt⟩ : ∃ id', T.ids[j + 1]? = some id' := ⟨_, List.getElem?_eq_getElem next⟩
  have fileAt : S.FileAt T rest (j + 1) id' := ⟨mid.fileAt.place, idAt⟩
  have split := fileAt.after_eq
  have whole := mid.whole (by rw [split]; simp)
  rw [T.length_data_of_lt next] at whole
  have notShort : decide (c < T.dataSection) = false := by simp [whole]
  have there : (j + 1) * T.dataSection = T.start i + x := by
    have := mid.place
    rw [Nat.succ_mul]
    omega
  simp only [cross, meets_bind, meets_get, meets_set, meets_attempt, mid.prevShort, notShort]
  refine (openNext_spec fileAt mid.leaving (mid.pending.trans split)).imp ?_ ?_
  · rintro isOpen t ⟨_, opening⟩
    cases opening with
    | @accepted _ c' seen session result =>
        have current : t.current = some (opened T (j + 1) id' c') := by
          rw [result]
          exact LogRead.adopt_current _ _
        have cursor : t.cursor = s.cursor := by rw [result]
        have wants' : Wants t T rest i x := ⟨wants.more, by rw [cursor]; exact wants.header⟩
        simp only [meets_bind, meets_get, current, mid.prevSeq]
        refine (checkCrossing_spec (cursor ▸ mid.tracks) wants' mid.index next there).imp ?_
          fun _ _ impossible => impossible.elim
        rintro _ u ⟨told, tracks⟩
        refine ⟨⟨by rw [told, result], by rw [told, cursor], by rw [told, cursor], by rw [told, cursor]⟩,
          id', c', ⟨⟨fileAt, ?_, ?_, ?_, ?_, Nat.zero_le _, ?_, ?_, ?_⟩, there, mid.index, tracks⟩⟩
        · rw [told, result]
          exact ⟨by simpa using mid.named.namePrefix, by simpa using mid.named.nameSuffix⟩
        · rw [told, result]
          simp
        · rw [told]
          exact seen
        · rw [told, current]
          rfl
        · rw [told, result]
          simp [mid.session]
        · rw [told, result]
          simp [opened]
        · rw [told, result]
          simpa using mid.synced
    | refused noMore unseen headless result =>
        have low : S.floor < segmentFileHeaderLen ∧ S.Headless (after T rest j) t.ops.length := by
          rw [split, noMore]
          exact ⟨unseen, headless⟩
        refine ⟨_, rfl, by rw [result], .drained (unseen_of_after mid wants (.inr low) ?_) ?_⟩
        · intro id'' rest' split'
          rw [split] at split'
          rw [← (List.cons.inj split').2, noMore]
        · rw [result]
          exact ⟨rfl, rfl⟩
  · rintro stop t ⟨_, rfl, opening⟩
    cases opening with
    | boundary session differs headerRead result => exact absurd mid.session differs

/-- A crossing leads into the next file of the tape, or the record stops. -/
theorem cross_spec (mid : S.Mid s T rest j id c c i x) (wants : Wants s T rest i x) :
    Meets (cross S.env) s
      (fun _ s' => Kept s s' ∧ ∃ id' c', S.Mid s' T rest (j + 1) id' c' 0 i x)
      (fun stop s' => ∃ e, stop = .error e ∧ s'.dst = s.dst ∧
        S.Stopped T rest i x s.cursor.payloadInBuf e s') := by
  by_cases next : j + 1 < T.ids.length
  · exact cross_next mid wants next
  · have within := mid.fileAt.lt
    have last : j + 1 = T.ids.length := by omega
    cases rest with
    | nil =>
        exact (cross_end mid wants (after_of_last last)).imp (fun _ _ impossible => impossible.elim)
          fun _ _ stopped => stopped
    | cons U rest =>
        exact (cross_boundary mid wants last).imp (fun _ _ impossible => impossible.elim)
          fun _ _ stopped => stopped

end Shelf

end Tcslog
