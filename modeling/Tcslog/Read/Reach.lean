import Tcslog.Read.Script

/-!
# How far a reader of a shelf comes

A reader that is not shown all of a shelf hands back the beginning of what is
written, and the last thing it may report before the end of the log is that the
next record is cut short.
-/

namespace Tcslog

/-! ## Scripts -/

section Scripts

variable {records records' : List Record} {sessions later : List (List Record)}

theorem script_singleton (records : List Record) : script [records] = records.map Record.outcome := by
  rw [script_cons, List.map_nil, List.flatten_nil, List.append_nil]

theorem script_cons_cons (records next : List Record) (later : List (List Record)) :
    script (records :: next :: later) =
      records.map Record.outcome ++ .failed .sessionEnd [] :: script (next :: later) := by
  rw [script_cons, List.map_cons, List.flatten_cons, List.cons_append, ← script_cons]

theorem script_concat (sessions : List (List Record)) (next : List Record) (later : List (List Record)) :
    script (sessions ++ next :: later) =
      (sessions.map fun records => records.map Record.outcome ++ [.failed .sessionEnd []]).flatten ++
        script (next :: later) := by
  induction sessions with
  | nil => rfl
  | cons records sessions ih =>
      rw [List.map_cons, List.flatten_cons, List.append_assoc, ← ih]
      cases sessions with
      | nil => rw [List.nil_append, List.singleton_append, script_cons_cons, List.append_assoc]; rfl
      | cons next' sessions =>
          rw [List.cons_append, List.cons_append, script_cons_cons, List.append_assoc]
          rfl

/-- A script goes on where the last session of a shorter one has more records. -/
theorem script_prefix (front : records <+: records') :
    script (sessions ++ [records]) <+: script (sessions ++ records' :: later) := by
  obtain ⟨more, rfl⟩ := front
  rw [script_concat, script_concat, script_singleton, script_cons, List.map_append, List.append_assoc,
    ← List.append_assoc]
  exact List.prefix_append _ _

/-- The end of a session is told between it and the next. -/
theorem script_boundary {next : List Record} :
    script (sessions ++ [records]) ++ [.failed .sessionEnd []] <+:
      script (sessions ++ records :: next :: later) := by
  rw [script_concat, script_concat, script_singleton, script_cons_cons, List.append_assoc]
  refine (List.prefix_append_right_inj _).mpr ((List.prefix_append_right_inj _).mpr ?_)
  exact ⟨_, rfl⟩

theorem filter_records (records : List Record) :
    (records.map Record.outcome).filter Outcome.isRecord = records.map Record.outcome := by
  rw [List.filter_eq_self]
  intro outcome mem
  obtain ⟨record, _, rfl⟩ := List.mem_map.mp mem
  rfl

/-- A script tells each record. -/
theorem filter_script (sessions : List (List Record)) :
    (script sessions).filter Outcome.isRecord = sessions.flatten.map Record.outcome := by
  cases sessions with
  | nil => rfl
  | cons records later =>
      induction later generalizing records with
      | nil => rw [script_singleton, List.flatten_singleton, filter_records]
      | cons next later ih =>
          rw [script_cons_cons, List.filter_append, filter_records,
            List.filter_cons_of_neg (by simp [Outcome.isRecord]),
            ih, List.flatten_cons (l := records), List.map_append]

/-- A script tells the end of each session but the last. -/
theorem count_script (records : List Record) (later : List (List Record)) :
    (script (records :: later)).count (.failed .sessionEnd []) = later.length := by
  have none (records : List Record) : (records.map Record.outcome).count (.failed .sessionEnd []) = 0 := by
    rw [List.count_eq_zero]
    intro mem
    obtain ⟨record, _, same⟩ := List.mem_map.mp mem
    simp [Record.outcome] at same
  induction later generalizing records with
  | nil => rw [script_singleton, none, List.length_nil]
  | cons next later ih =>
      rw [script_cons_cons, List.count_append, none, List.count_cons_self, ih, Nat.zero_add, List.length_cons]

/-- The end of a session is told if the next session is begun. -/
theorem script_boundary_iff {k : Nat} {last : List Record} (within : k < sessions.length + later.length) :
    script ((sessions ++ records :: later).take (k + 1)) ++ [.failed .sessionEnd []] <+:
      script (sessions ++ [last]) ↔ k < sessions.length := by
  constructor
  · intro told
    have counted := told.sublist.count_le (.failed .sessionEnd [])
    obtain ⟨first, more, isFirst⟩ := List.exists_cons_of_ne_nil
      (show (sessions ++ records :: later).take (k + 1) ≠ [] by simp)
    obtain ⟨first', more', isFirst'⟩ := List.exists_cons_of_ne_nil (show sessions ++ [last] ≠ [] by simp)
    have len := congrArg List.length isFirst
    have len' := congrArg List.length isFirst'
    rw [List.length_take, List.length_append, List.length_cons, List.length_cons] at len
    rw [List.length_append, List.length_singleton, List.length_cons] at len'
    rw [isFirst, isFirst', List.count_append, count_script, count_script, List.count_singleton_self] at counted
    omega
  · intro less
    obtain ⟨next, more, isNext⟩ := List.exists_cons_of_ne_nil
      (show sessions.drop (k + 1) ++ [last] ≠ [] by simp)
    have split : sessions ++ [last] = sessions.take k ++ sessions[k] :: next :: more := by
      rw [← isNext, ← List.cons_append, List.cons_getElem_drop_succ, ← List.append_assoc,
        List.take_append_drop]
    rw [List.take_append_of_le_length less, List.take_succ_eq_append_getElem less, split]
    exact script_boundary

end Scripts

namespace Shelf

variable {S : Shelf} {T U W : Tape} {front rest later : List Tape} {i k : Nat} {id : SegId} {ops : List ReadOp}

/-- A record cut short: none of its payload was seen, or a front of it. -/
def CutShort (next : Option Record) (cut : List Outcome) : Prop :=
  cut = [] ∨ ∃ bytes, cut = [.failed (.readTruncated 0 bytes.length) bytes] ∧
    (bytes = [] ∨ ∃ record, next = some record ∧ bytes <+: record.payload ∧ bytes ≠ record.payload)

theorem CutShort.mono {next next' : Option Record} {cut : List Outcome} (short : CutShort next cut)
    (same : ∀ record, next = some record → next' = some record) : CutShort next' cut := by
  rcases short with none | ⟨bytes, isCut, empty | ⟨record, isNext, front⟩⟩
  · exact .inl none
  · exact .inr ⟨bytes, isCut, .inl empty⟩
  · exact .inr ⟨bytes, isCut, .inr ⟨record, same record isNext, front⟩⟩

/-- The outcomes tell these tapes up to record `i` of the tape `U`, and then
perhaps that this record is cut short. -/
structure Reached (S : Shelf) (ops : List ReadOp) (outcomes : List Outcome) (front : List Tape) (U : Tape)
    (rest : List Tape) (i : Nat) (cut : List Outcome) : Prop where
  within : i ≤ U.records.length
  told : outcomes = script (front.map Tape.records ++ [U.records.take i]) ++ cut
  cut : CutShort U.records[i]? cut
  unseen : S.Unseen U rest i ops.length
  headers : ∀ V ∈ (front ++ [U]).tail, S.HeaderRead V.ids ops

/-- What is told of a shelf reaches so far and no further. -/
theorem Told.reached {outcomes : List Outcome} (told : S.Told ops T rest i outcomes)
    (within : i ≤ T.records.length) : ∃ front U rest' i' cut, T :: rest = front ++ U :: rest' ∧
      S.Reached ops ((T.records.take i).map Record.outcome ++ outcomes) front U rest' i' cut := by
  induction told with
  | @record T rest i record outcomes recordAt more ih =>
      obtain ⟨index, isRecord⟩ := List.getElem?_eq_some_iff.mp recordAt
      obtain ⟨front, U, rest', i', cut, split, reached⟩ := ih index
      refine ⟨front, U, rest', i', cut, split, { reached with told := ?_ }⟩
      rw [← reached.told, List.take_succ_eq_append_getElem index, isRecord, List.map_append,
        List.append_assoc]
      rfl
  | @boundary T U rest i outcomes atEnd headerRead more ih =>
      obtain ⟨front, V, rest', i', cut, split, reached⟩ := ih (Nat.zero_le _)
      refine ⟨T :: front, V, rest', i', cut, by rw [split]; rfl, { reached with told := ?_, headers := ?_ }⟩
      · have toldRest := reached.told
        rw [List.take_zero, List.map_nil, List.nil_append] at toldRest
        rw [toldRest, atEnd, List.take_length, List.map_cons]
        obtain ⟨next, later, isNext⟩ := List.exists_cons_of_ne_nil
          (show front.map Tape.records ++ [V.records.take i'] ≠ [] by simp)
        rw [List.cons_append, isNext, script_cons_cons, List.append_assoc]
        rfl
      · rw [List.cons_append, List.tail_cons]
        intro W mem
        cases front with
        | nil =>
            obtain ⟨rfl, -⟩ := List.cons.inj split
            rw [List.mem_singleton.mp mem]
            exact headerRead
        | cons V' front =>
            obtain ⟨rfl, -⟩ := List.cons.inj split
            rcases List.mem_cons.mp mem with rfl | later
            · exact headerRead
            · exact reached.headers W later
  | @cut T rest i n bytes unseen wanted isFront =>
      refine ⟨[], T, rest, i, _, rfl, within, by rw [List.map_nil, List.nil_append, script_singleton], ?_,
        unseen, by simp⟩
      rcases isFront with ⟨rfl, rfl⟩ | ⟨record, recordAt, less, rfl⟩
      · exact .inr ⟨[], rfl, .inl rfl⟩
      · have length : (record.payload.take n).length = n := by
          rw [List.length_take, Nat.min_eq_left less.le]
        refine .inr ⟨record.payload.take n, by rw [length], .inr ⟨record, recordAt, List.take_prefix _ _, ?_⟩⟩
        intro same
        rw [same] at length
        omega
  | @ended T rest i unseen =>
      refine ⟨[], T, rest, i, [], rfl, within, ?_, .inl rfl, unseen, by simp⟩
      rw [List.map_nil, List.nil_append, script_singleton]

/-- All bytes of record `i` of a tape are there from the beginning. -/
def Stored (S : Shelf) (T : Tape) (rest : List Tape) (i : Nat) : Prop :=
  ∃ j id c, S.FileAt T rest j id ∧ T.start (i + 1) ≤ j * T.dataSection + c ∧ c ≤ T.dataSection ∧
    (after T rest j = [] → segmentFileHeaderLen + c ≤ S.floor)

/-- A record that is there from the beginning is told. -/
theorem Unseen.not_stored {n : Nat} (unseen : S.Unseen U rest i n) (place : W :: later <:+ U :: rest)
    (index : k < W.records.length) (notTold : W :: later = U :: rest → i ≤ k) : ¬ S.Stored W later k := by
  rintro ⟨j, id, c, fileAt, stored, small, last⟩
  have more (isRest : rest ≠ []) : W :: later ≠ U :: rest := by
    intro same
    obtain ⟨rfl, rfl⟩ := List.cons.inj same
    have := (unseen.next isRest).1
    have := notTold rfl
    omega
  rcases List.suffix_cons_iff.mp place with same | inRest
  · obtain ⟨rfl, rfl⟩ := List.cons.inj same
    have isLast : later = [] := by
      by_contra isRest
      exact more isRest rfl
    subst isLast
    have le := notTold rfl
    have beyond := unseen.last rfl (by omega)
    have mono : W.start (i + 1) ≤ W.start (k + 1) := Tape.start_mono (by omega)
    rw [reach] at beyond
    by_cases isEnd : j + 1 = W.ids.length
    · have shown := last (by rw [after_of_last isEnd]; rfl)
      rw [← isEnd, Nat.add_sub_cancel] at beyond
      omega
    · have within := fileAt.lt
      have next : (j + 1) * W.dataSection ≤ (W.ids.length - 1) * W.dataSection :=
        Nat.mul_le_mul_right _ (by omega)
      rw [Nat.succ_mul] at next
      omega
  · have isRest : rest ≠ [] := by
      rintro rfl
      exact absurd (List.suffix_nil.mp inRest) (List.cons_ne_nil _ _)
    obtain ⟨_, low, ⟨only, alone⟩, _⟩ := unseen.next isRest
    obtain ⟨earlier, split⟩ := inRest
    have len := congrArg List.length alone
    rw [← split, List.flatMap_append, List.flatMap_cons, List.length_append, List.length_append,
      List.length_singleton] at len
    have within := fileAt.lt
    have none : after W later j = [] := by
      apply List.eq_nil_of_length_eq_zero
      rw [after, List.length_append, List.length_drop]
      omega
    have := last none
    omega

end Shelf

end Tcslog
