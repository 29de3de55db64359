import Tcslog.Write.Filled
import Mathlib.Data.List.Forall2

/-!
# Writers that meet no fault

Writers all of whose calls succeed leave one strand a session, and no other
file.
-/

namespace Tcslog

open Lib.Program Lib.Spanned WriteState

/-- The writer of a log is between two calls. -/
structure Alive (env : WriteEnv) (namePrefix nameSuffix : Bytes) (s : WriteState) (L : Log) :
    Prop where
  writing : Writing env s L
  namePrefix : s.namePrefix = namePrefix
  nameSuffix : s.nameSuffix = nameSuffix
  rested : s.Rested

/-- A strand is a session whole. -/
structure Keeps (σ : Strand) (session : Session) : Prop where
  id : σ.sessionId = session.id
  segSizeMax : σ.segSizeMax = session.segSizeMax
  format : σ.format = session.format
  records : σ.records = session.records
  full : σ.Full
  returned : σ.stored = session.returned
  first : σ.firstSequence = 0
  head : σ.ids.head? = some σ.sessionId

/-- The strands of a log are the sessions of a journal. -/
def Faithful (L : Log) (journal : Journal) : Prop :=
  List.Forall₂ Keeps L.strands journal.sessions

variable {env : WriteEnv} {namePrefix nameSuffix : Bytes} {s t : WriteState} {L L' : Log}
  {journal : Journal} {front : List Strand} {σ σ₁ : Strand} {began : Bool} {record : Record}

theorem Alive.did (alive : Alive env namePrefix nameSuffix s L) (did : s.Did s.dir t) :
    Alive env namePrefix nameSuffix t L := by
  refine ⟨alive.writing.did did, ?_, ?_, fun isOpen => ?_⟩
  · rw [did.same]
    exact alive.namePrefix
  · rw [did.same]
    exact alive.nameSuffix
  · rw [did.current] at isOpen
    rw [did.same]
    exact alive.rested isOpen

theorem Alive.files (alive : Alive env namePrefix nameSuffix s L) :
    s.files = s.dir.files namePrefix nameSuffix := by
  rw [WriteState.files, alive.namePrefix, alive.nameSuffix]

theorem Alive.stored {s' : WriteState} (alive : Alive env namePrefix nameSuffix s L)
    (stored : Stored env s L began record s' L' front σ₁ σ) :
    Alive env namePrefix nameSuffix s' L' :=
  ⟨stored.onward.writing, stored.onward.args.namePrefix.trans alive.namePrefix,
    stored.onward.args.nameSuffix.trans alive.nameSuffix, fun _ => stored.rested⟩

theorem Stored.record_eq {msg : Bytes} {s' u : WriteState}
    (stored : Stored env s L began record s' L' front σ₁ σ) (did : s'.Did s'.dir u)
    (isMsg : record.payload = msg) : (⟨msg, u.lastMeta⟩ : Record) = record := by
  have lastMeta : u.lastMeta = record.metadata := by
    rw [did.same]
    exact stored.lastMeta
  rw [lastMeta, ← isMsg]

theorem Stored.length_encode {s' : WriteState} (stored : Stored env s L began record s' L' front σ₁ σ) :
    record.encode.length = s.format.dataHeaderLen + record.payload.length := by
  obtain ⟨cur, _, pen⟩ := stored.pen
  have mem : record ∈ σ.records := by
    rw [stored.grew.records]
    simp
  rw [(σ.fits record mem).length_encode, pen.format, stored.onward.args.format]

/-- A writer whose log was cleared goes on with an empty one. -/
theorem Alive.cleared (alive : Alive env namePrefix nameSuffix s L) (args : SameArgs s t)
    (closed : t.current = none) (empty : ∀ id, t.files id = none) :
    Alive env namePrefix nameSuffix t Log.empty := by
  refine ⟨⟨?_, (onDisk_empty empty).1, fun id present => ?_, by simp [closed]⟩,
    args.namePrefix.trans alive.namePrefix, args.nameSuffix.trans alive.nameSuffix,
    by simp [Rested, closed]⟩
  · have able := alive.writing.able
    exact ⟨by rw [args.format, args.segSizeMax]; exact able.roomy, args.format ▸ able.formatValid,
      args.clock ▸ able.clock⟩
  · rw [empty id] at present
    contradiction

/-! ## Sessions and strands -/

/-- A strand that begins a session holds its journal's new session. -/
theorem faithful_begin {s' : WriteState} {cur : Current} (faithful : Faithful L journal)
    (pen : Pen s' L' cur L.strands σ) (grew : L.Grew true [] L' L.strands σ σ) :
    Faithful L' (journal.begin s') := by
  obtain ⟨_, none, zero, ids, _⟩ := grew.base
  have stored : σ.stored = 0 := by
    rw [show σ.stored = σ.blocks.flatten.length from grew.full, Strand.blocks, none]
    rfl
  rw [Faithful, grew.ends, Journal.begin]
  refine List.rel_append faithful (.cons ⟨pen.sessionId, pen.segSizeMax, pen.format, none, grew.full,
    stored, zero, ?_⟩ .nil)
  rw [ids]
  rfl

theorem Strand.Continues.head (continues : Strand.Continues σ₁ σ)
    (head : σ₁.ids.head? = some σ₁.sessionId) : σ.ids.head? = some σ.sessionId := by
  obtain ⟨more, ids⟩ := continues.ids
  rw [← ids, List.head?_append, head, continues.sessionId]
  rfl

theorem length_flatten_snoc (more : σ.records = σ₁.records ++ [record]) :
    σ.blocks.flatten.length = σ₁.blocks.flatten.length + record.encode.length := by
  simp [Strand.blocks, more]

theorem exists_snoc_of_forall₂ {α β : Type} {R : α → β → Prop} {as : List α} {a : α} {bs : List β}
    (matching : List.Forall₂ R (as ++ [a]) bs) :
    ∃ bs' b, bs = bs' ++ [b] ∧ List.Forall₂ R as bs' ∧ R a b := by
  induction as generalizing bs with
  | nil =>
      obtain ⟨b, rest, first, none, rfl⟩ := List.forall₂_cons_left_iff.mp matching
      rw [List.forall₂_nil_left_iff.mp none]
      exact ⟨[], b, rfl, .nil, first⟩
  | cons a' as ih =>
      obtain ⟨b', rest, first, more, rfl⟩ := List.forall₂_cons_left_iff.mp matching
      obtain ⟨bs', b, rfl, matching', last⟩ := ih more
      exact ⟨b' :: bs', b, rfl, .cons first matching', last⟩

/-- A record that is stored is the journal's next. -/
theorem Stored.faithful {s' u : WriteState} (stored : Stored env s L began record s' L' front σ₁ σ)
    (faithful : Faithful L journal) (did : s'.Did s'.dir u) :
    Faithful L' (journal.record u record record.encode.length) := by
  obtain ⟨cur, _, pen⟩ := stored.pen
  have grew := stored.grew
  have continues := grew.continues
  have full : σ.stored = σ.blocks.flatten.length := stored.full
  have full₁ : σ₁.stored = σ₁.blocks.flatten.length := grew.full
  have len := length_flatten_snoc grew.records
  have sessionId : σ.sessionId = u.sessionId := by
    rw [did.same]
    exact pen.sessionId
  have segSizeMax : σ.segSizeMax = u.segSizeMax := by
    rw [did.same]
    exact pen.segSizeMax
  have format : σ.format = u.format := by
    rw [did.same]
    exact pen.format
  have base := grew.base
  unfold Faithful at faithful ⊢
  rw [grew.ends]
  cases began with
  | false =>
      rw [show L.strands = front ++ [σ₁] from base] at faithful
      obtain ⟨older, last, sessions, keepsFront, keeps⟩ := exists_snoc_of_forall₂ faithful
      rw [Journal.record_same sessions (by rw [← keeps.id, ← continues.sessionId, sessionId])]
      refine List.rel_append keepsFront (.cons ⟨?_, ?_, ?_, ?_, full, ?_, ?_, ?_⟩ .nil)
      · exact continues.sessionId.trans keeps.id
      · exact continues.segSizeMax.trans keeps.segSizeMax
      · exact continues.format.trans keeps.format
      · rw [grew.records, keeps.records]
      · simp only
        rw [← keeps.returned]
        omega
      · exact continues.firstSequence.trans keeps.first
      · exact continues.head keeps.head
  | true =>
      obtain ⟨isFront, none, zero, ids, later⟩ := base
      rw [isFront]
      rw [Journal.record_new]
      · refine List.rel_append faithful (.cons ⟨sessionId, segSizeMax, format, ?_, full, ?_, ?_, ?_⟩ .nil)
        · rw [grew.records, none, List.nil_append]
        · have empty : σ₁.blocks = [] := by rw [Strand.blocks, none, List.map_nil]
          rw [empty] at len
          simp only [List.flatten_nil, List.length_nil, Nat.zero_add] at len
          exact full.trans len
        · exact continues.firstSequence.trans zero
        · exact continues.head (by rw [ids]; rfl)
      · intro session isLast same
        obtain ⟨older, split⟩ := List.getLast?_eq_some_iff.mp isLast
        rw [split] at faithful
        obtain ⟨strands, τ, splitL, _, keeps⟩ := exists_snoc_of_forall₂ faithful.flip
        have less := later τ (by rw [splitL]; simp)
        rw [← continues.sessionId, sessionId, ← same, ← keeps.id] at less
        exact UInt64.lt_irrefl _ less

namespace Trail

variable {trail : Trail} {msg : Bytes} {total : Nat} {stop : Stop} {u : WriteState}

/-! ## What calls make of a trail -/

theorem call_write_of_stored (ran : (storeRecord env msg).run trail.state = .ok total t) :
    ∃ u stop, t.Did t.dir u ∧ (stop = none ∨ stop = some (.error .ioError)) ∧
      trail.call env (.write msg) = ⟨u, trail.deeds ++ [.called (.write msg) stop],
        trail.journal.record u ⟨msg, u.lastMeta⟩ (if stop = none then total else 0)⟩ := by
  obtain ⟨u, did, returned | refused⟩ := write_of_stored ran
  · refine ⟨u, none, did, .inl rfl, ?_⟩
    simp only [call, ending_of_ok ran, ending_of_ok returned]
    rfl
  · refine ⟨u, some (.error .ioError), did, .inr rfl, ?_⟩
    simp only [call, ending_of_ok ran, ending_of_error refused]
    rfl

theorem call_write_of_failed (ran : (storeRecord env msg).run trail.state = .error stop t) :
    trail.call env (.write msg) = ⟨t, trail.deeds ++ [.called (.write msg) (some stop)],
      { trail.journal with failed := trail.journal.failed ++ [msg] }⟩ := by
  simp only [call, ending_of_error ran, ending_of_error (write_of_failed ran)]
  rfl

theorem call_flush : trail.call env .flush = { trail with
    state := (ending (Tcslog.flush env) trail.state).2
    deeds := trail.deeds ++
      [.called .flush (stopOf (ending (Tcslog.flush env) trail.state).1)] } :=
  rfl

theorem call_clear_of_ok {a : Unit} (ran : (Tcslog.clear env).run trail.state = .ok a t) :
    trail.call env .clear = ⟨t, trail.deeds ++ [.called .clear none], ⟨[], []⟩⟩ := by
  simp only [call, ending_of_ok ran]
  rfl

theorem call_clear_of_error (ran : (Tcslog.clear env).run trail.state = .error stop t) :
    trail.call env .clear =
      { trail with state := t, deeds := trail.deeds ++ [.called .clear (some stop)] } := by
  simp only [call, ending_of_error ran]
  rfl

/-! ## Deeds only grow -/

theorem call_deeds (env : WriteEnv) (trail : Trail) (c : Call) :
    ∃ deed, (trail.call env c).deeds = trail.deeds ++ [deed] := by
  cases c <;> exact ⟨_, rfl⟩

theorem deeds_calls (env : WriteEnv) (trail : Trail) (calls : List Call) :
    trail.deeds <+: (calls.foldl (call env) trail).deeds := by
  induction calls generalizing trail with
  | nil => exact List.prefix_rfl
  | cons c calls ih =>
      obtain ⟨deed, grew⟩ := call_deeds env trail c
      exact (grew ▸ List.prefix_append _ _).trans (ih (trail.call env c))

theorem deeds_live (trail : Trail) (life : Life) : trail.deeds <+: (trail.live env life).deeds := by
  cases ran : (LogWrite.new env life.args).run trail.state with
  | error stop t =>
      rw [live_of_error ran]
      exact List.prefix_append _ _
  | ok a t =>
      rw [live_of_ok ran]
      have grew := deeds_calls env
        ⟨t, trail.deeds ++ [.opened life.args none], trail.journal.begin t⟩ life.calls
      exact (List.prefix_append _ _).trans grew

theorem deeds_lives (trail : Trail) (lives : List Life) :
    trail.deeds <+: (lives.foldl (live env) trail).deeds := by
  induction lives generalizing trail with
  | nil => exact List.prefix_rfl
  | cons life lives ih => exact (deeds_live trail life).trans (ih (trail.live env life))

/-! ## Runs -/

/-- Every call succeeded. -/
def Clean (trail : Trail) : Prop :=
  ∀ deed ∈ trail.deeds, deed.stop = none

theorem Clean.of_prefix {trail' : Trail} (clean : trail'.Clean) (grew : trail.deeds <+: trail'.deeds) :
    trail.Clean :=
  fun deed mem => clean deed (grew.mem mem)

/-- The log of an open writer is what the journal says. -/
structure Sound (env : WriteEnv) (namePrefix nameSuffix : Bytes) (trail : Trail) (L : Log) : Prop where
  alive : Alive env namePrefix nameSuffix trail.state L
  noStray : NoStray trail.state.files L
  faithful : Faithful L trail.journal
  tight : L.Tight

/-- The log that was left in the directory is what the journal says. -/
structure Left (namePrefix nameSuffix : Bytes) (trail : Trail) (L : Log) : Prop where
  disk : OnDisk (trail.state.dir.files namePrefix nameSuffix) L
  noStray : NoStray (trail.state.dir.files namePrefix nameSuffix) L
  faithful : Faithful L trail.journal
  tight : L.Tight

/-- What was left in the directory is what the journal says. -/
def LeftSound (namePrefix nameSuffix : Bytes) (trail : Trail) : Prop :=
  ∃ L, OnDisk (trail.state.dir.files namePrefix nameSuffix) L ∧
    NoStray (trail.state.dir.files namePrefix nameSuffix) L ∧ Faithful L trail.journal

theorem call_sound (leaves : env.Leaves) (sound : trail.Sound env namePrefix nameSuffix L) (c : Call)
    (clean : (trail.call env c).Clean) : ∃ L', (trail.call env c).Sound env namePrefix nameSuffix L' := by
  obtain ⟨alive, noStray, faithful, tight⟩ := sound
  cases c with
  | write msg =>
      have spec := (storeRecord_spec msg leaves alive.writing alive.rested).and
        (storeRecord_filled msg alive.writing.able.formatValid)
      cases ran : (storeRecord env msg).run trail.state with
      | error stop t =>
          rw [call_write_of_failed ran] at clean
          have := clean (.called (.write msg) (some stop)) (by simp)
          contradiction
      | ok total t =>
          obtain ⟨⟨isTotal, began, record, L', front, σ₁, σ, isMsg, stored⟩, filled⟩ := spec.of_ok ran
          obtain ⟨u, stop, did, _, isCall⟩ := call_write_of_stored ran
          rw [isCall] at clean ⊢
          obtain rfl : stop = none := clean (.called (.write msg) stop) (by simp)
          have fits : total = record.encode.length := by
            rw [stored.length_encode, isMsg, isTotal]
          refine ⟨L', (alive.stored stored).did did, ?_, ?_, stored.tight filled tight⟩
          · rw [did.files_same]
            exact stored.onward.noStray noStray
          · rw [stored.record_eq did isMsg, if_pos rfl, fits]
            exact stored.faithful faithful did
  | flush =>
      have did : trail.state.Did trail.state.dir (ending (Tcslog.flush env) trail.state).2 := by
        have spec := flush_spec env trail.state
        cases ran : (Tcslog.flush env).run trail.state with
        | ok a t => exact ending_of_ok ran ▸ spec.of_ok ran
        | error stop t => exact ending_of_error ran ▸ (spec.of_error ran).2
      rw [call_flush]
      exact ⟨L, alive.did did, did.files_same ▸ noStray, faithful, tight⟩
  | clear =>
      cases ran : (Tcslog.clear env).run trail.state with
      | error stop t =>
          rw [call_clear_of_error ran] at clean
          have := clean (.called .clear (some stop)) (by simp)
          contradiction
      | ok a t =>
          obtain ⟨args, closed, none⟩ := (clear_spec _ _).of_ok ran
          rw [call_clear_of_ok ran]
          exact ⟨Log.empty, alive.cleared args closed none, (onDisk_empty none).2, .nil, Log.tight_empty⟩

theorem calls_sound (leaves : env.Leaves) (sound : trail.Sound env namePrefix nameSuffix L)
    (calls : List Call) (clean : (calls.foldl (call env) trail).Clean) :
    ∃ L', (calls.foldl (call env) trail).Sound env namePrefix nameSuffix L' := by
  induction calls generalizing trail L with
  | nil => exact ⟨L, sound⟩
  | cons c calls ih =>
      obtain ⟨L', sound'⟩ := call_sound leaves sound c (clean.of_prefix (deeds_calls env _ calls))
      exact ih sound' clean

/-- Dropping the writer leaves the directory as it is. -/
theorem dir_drop (leaves : env.Leaves) (s : WriteState) :
    (ending (LogWrite.drop env) s).2.dir = s.dir := by
  have spec := drop_spec (s := s) leaves
  cases ran : (LogWrite.drop env).run s with
  | ok a t => exact ending_of_ok ran ▸ spec.of_ok ran
  | error stop t => exact (spec.of_error ran).elim

/-- Before it is dropped a writer has left its log in the directory. -/
theorem openedOn_sound (leaves : env.Leaves) {life : Life}
    (names : life.args.namePrefix = namePrefix ∧ life.args.nameSuffix = nameSuffix)
    (left : trail.Left namePrefix nameSuffix L) {a : Unit}
    (ran : (LogWrite.new env life.args).run trail.state = .ok a t)
    (clean : (openedOn env trail life t).Clean) :
    ∃ L', (openedOn env trail life t).Left namePrefix nameSuffix L' := by
  obtain ⟨rfl, rfl⟩ := names
  obtain ⟨L', σ, opened⟩ := (new_spec leaves left.disk).of_ok ran
  obtain ⟨cur, _, pen⟩ := opened.pen
  have sound : Sound env life.args.namePrefix life.args.nameSuffix
      ⟨t, trail.deeds ++ [.opened life.args none], trail.journal.begin t⟩ L' :=
    ⟨⟨opened.writing, opened.namePrefix, opened.nameSuffix, fun _ => opened.rested⟩,
      opened.noStray left.noStray, faithful_begin left.faithful pen opened.grew,
      opened.grew.tight_begin left.tight⟩
  obtain ⟨L'', alive, noStray, faithful, tight⟩ := calls_sound leaves sound life.calls clean
  have files := alive.files
  refine ⟨L'', ?_, ?_, faithful, tight⟩
  · rw [openedOn, ← files]
    exact alive.writing.disk
  · rw [openedOn, ← files]
    exact noStray

theorem live_sound (leaves : env.Leaves) {life : Life}
    (names : life.args.namePrefix = namePrefix ∧ life.args.nameSuffix = nameSuffix)
    (left : trail.Left namePrefix nameSuffix L) (clean : (trail.live env life).Clean) :
    ∃ L', (trail.live env life).Left namePrefix nameSuffix L' := by
  cases ran : (LogWrite.new env life.args).run trail.state with
  | error stop t =>
      rw [live_of_error ran] at clean
      have := clean (.opened life.args (some stop)) (by simp)
      contradiction
  | ok a t =>
      rw [live_of_ok ran] at clean ⊢
      obtain ⟨L', left'⟩ := openedOn_sound leaves names left ran clean
      have dir := dir_drop leaves (openedOn env trail life t).state
      exact ⟨L', dir ▸ left'.disk, dir ▸ left'.noStray, left'.faithful, left'.tight⟩

/-- Writers all of whose calls succeed leave one strand a session, whose last
file is not there for nothing. -/
theorem run_left (leaves : env.Leaves) {dir : Dir} {lives : List Life}
    (empty : ∀ id, dir.files namePrefix nameSuffix id = none)
    (names : ∀ life ∈ lives, life.args.namePrefix = namePrefix ∧ life.args.nameSuffix = nameSuffix)
    (clean : (run env dir lives).Clean) : ∃ L, (run env dir lives).Left namePrefix nameSuffix L := by
  have started : (start dir).Left namePrefix nameSuffix Log.empty :=
    ⟨(onDisk_empty empty).1, (onDisk_empty empty).2, .nil, Log.tight_empty⟩
  unfold run at clean ⊢
  generalize start dir = trail at started clean
  generalize Log.empty = L at started
  induction lives generalizing trail L with
  | nil => exact ⟨L, started⟩
  | cons life lives ih =>
      have here := clean.of_prefix (deeds_lives (trail.live env life) lives)
      obtain ⟨L', left⟩ := live_sound leaves (names life List.mem_cons_self) started here
      exact ih (fun life' mem => names life' (List.mem_cons_of_mem _ mem)) _ clean _ left

/-- Writers all of whose calls succeed leave one strand a session. -/
theorem run_sound (leaves : env.Leaves) {dir : Dir} {lives : List Life}
    (empty : ∀ id, dir.files namePrefix nameSuffix id = none)
    (names : ∀ life ∈ lives, life.args.namePrefix = namePrefix ∧ life.args.nameSuffix = nameSuffix)
    (clean : (run env dir lives).Clean) : (run env dir lives).LeftSound namePrefix nameSuffix := by
  obtain ⟨L, left⟩ := run_left leaves empty names clean
  exact ⟨L, left.disk, left.noStray, left.faithful⟩

end Trail

end Tcslog
