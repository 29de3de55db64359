import Tcslog.Read.Run
import Mathlib.Data.List.ReduceOption

/-!
# The outcomes of a run

From any state between two calls, every further number of calls gives outcomes
that tell of records in order, and some call reports the end of the log.
-/

namespace Tcslog

open Lib.Program Lib.Spanned

/-- The outcome is the record at a place of the log. -/
def Whole (L : Log) (p : ℕ ×ₗ ℕ) (outcome : Outcome) : Prop :=
  ∃ record, L.recordAt p = some record ∧ outcome = .record record.payload record.metadata

namespace Scene

variable {S : Scene}

/-- The outcomes of calls in a row, and the records from `p` up to `p'` they
deal with. -/
inductive Account (S : Scene) (ops : List ReadOp) (long : Record → Prop) :
    ℕ ×ₗ ℕ → List Outcome → List (Option (ℕ ×ₗ ℕ)) → ℕ ×ₗ ℕ → Prop
  | nil {p : ℕ ×ₗ ℕ} : Account S ops long p [] [] p
  | cons {p p' p'' : ℕ ×ₗ ℕ} {outcome : Outcome} {outcomes : List Outcome}
      {told : Option (ℕ ×ₗ ℕ)} {tolds : List (Option (ℕ ×ₗ ℕ))}
      (dealt : S.Dealt ops long p outcome told p') (more : Account S ops long p' outcomes tolds p'') :
      Account S ops long p (outcome :: outcomes) (told :: tolds) p''

theorem Dealt.mono {ops ops' : List ReadOp} {long : Record → Prop} (long' : Record → Prop) {p p' : ℕ ×ₗ ℕ}
    {outcome : Outcome} {told : Option (ℕ ×ₗ ℕ)} (dealt : S.Dealt ops long p outcome told p')
    (grew : ops <+: ops') (longer : ∀ record, long record → long' record) :
    S.Dealt ops' long' p outcome told p' := by
  refine ⟨dealt.tells, dealt.forward, dealt.within, fun k i isTold => ?_,
    fun q record later before recordAt => ?_, fun n bytes past => ?_⟩
  · obtain ⟨id, j, σ, c, measured, stored⟩ := dealt.seen k i isTold
    exact ⟨id, j, σ, c, measured.mono grew, stored⟩
  · exact (dealt.others q record later before recordAt).imp (fun lost => lost.mono grew)
      fun rest => rest.imp_left (longer record)
  · obtain ⟨q, record, recordAt, tooLong⟩ := dealt.overflow n bytes past
    exact ⟨q, record, recordAt, longer record tooLong⟩

theorem Account.mono {ops ops' : List ReadOp} {long : Record → Prop} (long' : Record → Prop) {p p' : ℕ ×ₗ ℕ}
    {outcomes : List Outcome} {tolds : List (Option (ℕ ×ₗ ℕ))}
    (account : S.Account ops long p outcomes tolds p') (grew : ops <+: ops')
    (longer : ∀ record, long record → long' record) :
    S.Account ops' long' p outcomes tolds p' := by
  induction account with
  | nil => exact .nil
  | cons dealt _ ih => exact .cons (dealt.mono _ grew longer) ih

variable {ops : List ReadOp} {long : Record → Prop} {p p' : ℕ ×ₗ ℕ} {outcomes : List Outcome}
  {tolds : List (Option (ℕ ×ₗ ℕ))}

theorem Account.tells (account : S.Account ops long p outcomes tolds p') :
    List.Forall₂ (Tells S.log.recordAt) outcomes tolds := by
  induction account with
  | nil => exact .nil
  | cons dealt _ ih => exact .cons dealt.tells ih

theorem Account.forward (account : S.Account ops long p outcomes tolds p') : p ≤ p' := by
  induction account with
  | nil => exact le_refl _
  | cons dealt _ ih => exact dealt.forward.trans ih

theorem Account.within (account : S.Account ops long p outcomes tolds p') :
    ∀ q, some q ∈ tolds → p ≤ q ∧ q < p' := by
  induction account with
  | nil => simp
  | @cons p p' p'' _ _ told tolds dealt more ih =>
      intro q mem
      rcases List.mem_cons.mp mem with isTold | later
      · obtain ⟨after, before⟩ := dealt.within q isTold.symm
        exact ⟨after, before.trans_le more.forward⟩
      · obtain ⟨after, before⟩ := ih q later
        exact ⟨dealt.forward.trans after, before⟩

/-- Records are told of in the order they were written, none twice. -/
theorem Account.increasing (account : S.Account ops long p outcomes tolds p') :
    tolds.reduceOption.Pairwise (· < ·) := by
  induction account with
  | nil => simp
  | @cons _ _ _ _ _ told tolds dealt more ih =>
      cases isTold : told with
      | none =>
          rw [List.reduceOption_cons_of_none]
          exact ih
      | some q =>
          rw [List.reduceOption_cons_of_some]
          refine List.pairwise_cons.mpr ⟨fun q' mem => ?_, ih⟩
          exact (dealt.within q isTold).2.trans_le (more.within q' (List.reduceOption_mem_iff.mp mem)).1

/-- A buffer overflows only for a record that is too long for it. -/
theorem Account.overflow (account : S.Account ops long p outcomes tolds p') {n : Nat} {bytes : Bytes}
    (mem : .failed (.readOverflow n) bytes ∈ outcomes) :
    ∃ q record, S.log.recordAt q = some record ∧ long record := by
  induction account with
  | nil => simp at mem
  | cons dealt _ ih =>
      rcases List.mem_cons.mp mem with here | later
      · exact dealt.overflow n bytes here.symm
      · exact ih later

/-- The records that were returned whole, and what became of the others. -/
theorem Account.whole (account : S.Account ops long p outcomes tolds p') :
    ∃ whole : List (ℕ ×ₗ ℕ), whole.Sublist tolds.reduceOption ∧
      List.Forall₂ (Whole S.log) whole (outcomes.filter Outcome.isRecord) ∧
      (∀ k i, place k i ∈ whole → ∃ id j σ c, S.Measured ops id k j σ c ∧
        σ.start (i + 1) ≤ σ.stored) ∧
      ∀ q record, p ≤ q → q < p' → S.log.recordAt q = some record →
        S.LostAt ops q ∨ long record ∨ q ∈ whole := by
  induction account with
  | nil => exact ⟨[], by simp, .nil, by simp, fun q _ after before =>
      absurd before (not_lt_of_ge after)⟩
  | @cons p p' p'' outcome outcomes told tolds dealt more ih =>
      obtain ⟨whole, sub, matching, stored, rest⟩ := ih
      have others {whole' : List (ℕ ×ₗ ℕ)} (sub : ∀ q ∈ whole, q ∈ whole')
          (here : ∀ q (record : Record), told = some q →
            outcome = .record record.payload record.metadata → q ∈ whole') :
          ∀ q record, p ≤ q → q < p'' → S.log.recordAt q = some record →
            S.LostAt ops q ∨ long record ∨ q ∈ whole' := by
        intro q record after before recordAt
        rcases lt_or_ge q p' with inCall | later
        · rcases dealt.others q record after inCall recordAt with lost | tooLong | ⟨isTold, isRecord⟩
          · exact .inl lost
          · exact .inr (.inl tooLong)
          · exact .inr (.inr (here q record isTold isRecord))
        · exact (rest q record later before recordAt).imp_right (.imp_right (sub q))
      have tells := dealt.tells
      cases tells with
      | @whole q record recordAt =>
          refine ⟨q :: whole, ?_, ?_, ?_, others (fun q mem => List.mem_cons_of_mem _ mem) ?_⟩
          · rw [List.reduceOption_cons_of_some]
            exact sub.cons_cons q
          · exact .cons ⟨record, recordAt, rfl⟩ matching
          · intro k i mem
            rcases List.mem_cons.mp mem with rfl | later
            · obtain ⟨id, j, σ, c, measured, stored⟩ := dealt.seen k i rfl
              exact ⟨id, j, σ, c, measured, stored _ _ rfl⟩
            · exact stored k i later
          · rintro q' _ isTold _
            rw [Option.some.inj isTold]
            exact List.mem_cons_self
      | front =>
          refine ⟨whole, ?_, matching, stored, others (fun _ mem => mem) (by simp)⟩
          rw [List.reduceOption_cons_of_some]
          exact sub.cons _
      | silent =>
          refine ⟨whole, ?_, matching, stored, others (fun _ mem => mem) (by simp)⟩
          rw [List.reduceOption_cons_of_none]
          exact sub

/-! ## Calls in a row -/

/-- A call from a state between two calls. -/
theorem readCall_step {s : ReadState} {k i cap : Nat} (ready : S.Ready s k i) (takes : S.Takes cap) :
    ∃ result, S.Step s cap k i result (readCall S.env cap s).2 ∧
      (readCall S.env cap s).1 = outcomeOf result (readCall S.env cap s).2.dst := by
  have spec := read_spec ready.between takes
  cases ran : (read S.env cap).run s with
  | ok result s' =>
      refine ⟨.ok result, ?_, ?_⟩ <;> simp only [readCall, ran]
      · exact spec.of_ok ran
      · rfl
  | error stop s' =>
      obtain ⟨e, rfl, step⟩ := spec.of_error ran
      refine ⟨.error e, ?_, ?_⟩ <;> simp only [readCall, ran]
      · exact step
      · rfl

theorem readCalls_succ (env : ReadEnv) (caps : Nat → Nat) (calls : Nat) (s : ReadState) :
    readCalls env caps (calls + 1) s =
      ((readCall env (caps 0) s).1 ::
        (readCalls env (fun n => caps (n + 1)) calls (readCall env (caps 0) s).2).1,
      (readCalls env (fun n => caps (n + 1)) calls (readCall env (caps 0) s).2).2) :=
  rfl

/-- Any number of calls accounts for records in order. -/
theorem readCalls_account {s : ReadState} {k i : Nat} {caps : Nat → Nat} (ready : S.Ready s k i)
    (takes : ∀ n, S.Takes (caps n)) (calls : Nat) :
    s.ops <+: (readCalls S.env caps calls s).2.ops ∧ ∃ k' i' tolds,
      S.Ready (readCalls S.env caps calls s).2 k' i' ∧
      S.Account (readCalls S.env caps calls s).2.ops (fun record => ∃ n, caps n < record.payload.length)
        (place k i) (readCalls S.env caps calls s).1 tolds (place k' i') := by
  induction calls generalizing s k i caps with
  | zero => exact ⟨List.prefix_rfl, k, i, [], ready, .nil⟩
  | succ calls ih =>
      obtain ⟨result, step, outcome⟩ := readCall_step ready (takes 0)
      obtain ⟨grew, k₁, i₁, told, ready₁, _, dealt⟩ := step.dealt ready
      obtain ⟨more, k', i', tolds, ready', account⟩ := ih ready₁ fun n => takes (n + 1)
      rw [readCalls_succ]
      have here := dealt.mono (fun record => ∃ n, caps n < record.payload.length) more
        fun _ tooLong => ⟨0, tooLong⟩
      have later := account.mono (fun record => ∃ n, caps n < record.payload.length)
        List.prefix_rfl fun _ ⟨n, tooLong⟩ => ⟨n + 1, tooLong⟩
      exact ⟨grew.trans more, k', i', told :: tolds, ready', .cons (outcome ▸ here) later⟩

/-- A reader with no files left has dealt with every record it was not
denied. -/
theorem Ready.lost {s : ReadState} {k i : Nat} (ready : S.Ready s k i) (pending : s.pending = [])
    (closed : s.current = none) (q : ℕ ×ₗ ℕ) (record : Record) (later : place k i ≤ q)
    (recordAt : S.log.recordAt q = some record) : S.LostAt s.ops q := by
  obtain ⟨k', i', rfl⟩ := exists_place q
  obtain ⟨σ, strandAt, recordAt⟩ := Option.bind_eq_some_iff.mp recordAt
  have index := (List.getElem?_eq_some_iff.mp recordAt).1
  have lost := ready.await k' i' σ strandAt index later
  rw [held_of_closed closed, pending] at lost
  exact ⟨σ, strandAt, lost.resolve_right (by simp)⟩

/-- Reading comes to the end of the log, and then every record was dealt with
or denied the reader. -/
theorem reads_to_eof {s : ReadState} {k i : Nat} {caps : Nat → Nat} (ready : S.Ready s k i)
    (takes : ∀ n, S.Takes (caps n)) :
    ∃ outcomes last, ReadsToEof S.env caps s outcomes last ∧ s.ops <+: last.ops ∧
      ∃ k' i' tolds, S.Account last.ops (fun record => ∃ n, caps n < record.payload.length)
        (place k i) outcomes tolds (place k' i') ∧
        ∀ q record, place k' i' ≤ q → S.log.recordAt q = some record → S.LostAt last.ops q := by
  induction left : size s using WellFoundedLT.induction generalizing s k i caps with
  | ind left' ih =>
      obtain ⟨result, step, outcome⟩ := readCall_step ready (takes 0)
      obtain ⟨grew, k₁, i₁, told, ready₁, sameMark, dealt⟩ := step.dealt ready
      have isEof (dst : Bytes) : outcomeOf (.error .eof) dst = .failed .eof [] := rfl
      rcases step.progress with ⟨rfl, pending, current⟩ | ⟨notEof, less⟩
      · obtain ⟨rfl, rfl⟩ := sameMark rfl
        refine ⟨[], (readCall S.env (caps 0) s).2, ⟨?_, by simp⟩, grew, k₁, i₁, [], .nil, ?_⟩
        · rw [List.length_nil, readCalls_succ, outcome, isEof]
          rfl
        · exact ready₁.lost pending current
      · obtain ⟨outcomes, last, reads, more, k', i', tolds, account, rest⟩ :=
          ih _ (left ▸ less) ready₁ (fun n => takes (n + 1)) rfl
        have here := dealt.mono (fun record => ∃ n, caps n < record.payload.length) more
          fun _ tooLong => ⟨0, tooLong⟩
        have later := account.mono (fun record => ∃ n, caps n < record.payload.length)
          List.prefix_rfl fun _ ⟨n, tooLong⟩ => ⟨n + 1, tooLong⟩
        refine ⟨(readCall S.env (caps 0) s).1 :: outcomes, last, ⟨?_, ?_⟩, grew.trans more, k', i',
          told :: tolds, .cons (outcome ▸ here) later, rest⟩
        · rw [List.length_cons, readCalls_succ, reads.run]
          rfl
        · intro mem
          rcases List.mem_cons.mp mem with isFirst | later
          · rw [outcome] at isFirst
            cases result with
            | ok result => simp [outcomeOf] at isFirst
            | error e =>
                simp only [outcomeOf, Outcome.failed.injEq] at isFirst
                exact notEof (by rw [isFirst.1])
          · exact reads.first later

end Scene

end Tcslog
