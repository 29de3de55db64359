import Tcslog.Write.Identifiers

/-!
# The records one writer begins

A record is begun when its data header is built, after the session it belongs to
has a file with room for it.  A diary notes every record a writer begins, with
the state of the writer at that moment, whatever becomes of its bytes.
-/

namespace Tcslog

open Lib.Program WriteState

/-- Whether `write` turns a message down before it looks at the log. -/
def LogWrite.refuses (w : LogWrite) (msg : Bytes) : Bool :=
  w.format.refusesLen msg.length ∨ u32Max < msg.length ∨
    u32Max < w.format.dataHeaderLen + msg.length

section Parts

variable (env : WriteEnv)

/-- The part of `write` up to the data header of its record. -/
def beginRecord (len : Nat) : WriteM (Bytes × Meta) := do
  ensureSession env
  rollIfFull env
  buildDataHeader env len

/-- The part of `write` that stores a record whose data header is built. -/
def storeBytes (msg : Bytes) (total : Nat) (built : Bytes × Meta) : WriteM Unit := do
  modify fun s => { s with recordBytesLeft := total }
  writeBytes env built.1
  writeBytes env msg
  modify fun s => { s with lastMeta := built.2 }

theorem storeRecord_of_accepted {s : WriteState} {msg : Bytes} (accepted : s.refuses msg = false) :
    (storeRecord env msg).run s = (do
      let built ← beginRecord env msg.length
      storeBytes env msg (s.format.dataHeaderLen + msg.length) built
      return s.format.dataHeaderLen + msg.length : WriteM Nat).run s := by
  simp only [LogWrite.refuses, decide_eq_false_iff_not, not_or, Bool.not_eq_true] at accepted
  obtain ⟨lenOk, small, totalSmall⟩ := accepted
  have get_run : (get : WriteM WriteState).run s = .ok s s := rfl
  rw [storeRecord, EStateM.run_bind, get_run]
  dsimp only
  rw [if_neg (by simp [lenOk]), if_neg small, if_neg totalSmall]
  simp only [appendRecord, beginRecord, storeBytes, bind_assoc]

theorem storeRecord_of_refused {s : WriteState} {msg : Bytes} (refused : s.refuses msg = true) :
    ∃ e, (storeRecord env msg).run s = .error (.error e) s := by
  simp only [LogWrite.refuses, decide_eq_true_eq] at refused
  have get_run : (get : WriteM WriteState).run s = .ok s s := rfl
  rw [storeRecord, EStateM.run_bind, get_run]
  dsimp only
  split
  · exact ⟨_, rfl⟩
  next lenOk =>
    split
    · exact ⟨_, rfl⟩
    next small =>
      rw [if_pos (by tauto)]
      exact ⟨_, rfl⟩

end Parts

/-- A record that was begun: the writer when its data header had been built, and
the writer when its bytes had been stored, or had not. -/
structure Entry where
  state : WriteState
  msg : Bytes
  built : Bytes
  ts : Timestamp
  rc : RecordCount
  after : WriteState
  whole : Bool

/-- A writer with the records it began. -/
structure Diary where
  trail : Trail
  entries : List Entry

namespace Diary

variable (env : WriteEnv)

/-- The record that `write` begins, if it is one with a timestamp. -/
def entry (s : WriteState) (msg : Bytes) : List Entry :=
  match (beginRecord env msg.length).run s with
  | .ok (built, .variableTsRc ts rc) t =>
      let (result, after) := Trail.ending (storeRecord env msg) s
      [⟨t, msg, built, ts, rc, after, result.toBool⟩]
  | _ => []

/-- Make a call, noting the record it begins. -/
def call (diary : Diary) (c : Call) : Diary :=
  let trail := diary.trail.call env c
  match c with
  | .write msg =>
      let s := diary.trail.state
      if s.refuses msg then { diary with trail := trail }
      else ⟨trail, diary.entries ++ entry env s msg⟩
  | _ => { diary with trail := trail }

/-- The diary of one writer: it is opened in a directory, and calls are made. -/
def keep (dir : Dir) (life : Life) : Diary :=
  let (result, s) := Trail.ending (LogWrite.new env life.args) (Trail.start dir).state
  let deeds := [.opened life.args (Trail.stopOf result)]
  match result with
  | .ok _ => life.calls.foldl (call env) ⟨⟨s, deeds, (Trail.start dir).journal.begin s⟩, []⟩
  | .error _ => ⟨{ Trail.start dir with state := s, deeds := deeds }, []⟩

variable {env : WriteEnv} {dir : Dir} {life : Life} {t : WriteState}

theorem keep_of_error {stop : Stop}
    (ran : (LogWrite.new env life.args).run (Trail.start dir).state = .error stop t) :
    keep env dir life = ⟨{ Trail.start dir with
      state := t, deeds := [.opened life.args (some stop)] }, []⟩ := by
  simp only [keep, Trail.ending_of_error ran]
  rfl

theorem keep_of_ok {a : Unit}
    (ran : (LogWrite.new env life.args).run (Trail.start dir).state = .ok a t) :
    keep env dir life = life.calls.foldl (call env)
      ⟨⟨t, [.opened life.args none], (Trail.start dir).journal.begin t⟩, []⟩ := by
  simp only [keep, Trail.ending_of_ok ran]
  rfl

end Diary

/-! ## What `write` does -/

section Write

open Lib.LittleEndian

variable {env : WriteEnv} {s t u : WriteState}

theorem now_exact (env : WriteEnv) (s : WriteState) : Meets (now env) s
    (fun reading t => t = { s with ops := s.ops + 1 } ∧ reading = env.reading s.clock s.ops ∧
      reading < u64Max)
    (fun _ t => t = { s with ops := s.ops + 1 }) := by
  simp only [now, meets_bind]
  refine tick_spec.imp ?_ (by simp)
  rintro t _ ⟨rfl, rfl⟩
  simp only [meets_get, meets_ite, meets_fail]
  refine ⟨fun _ => trivial, fun _ => ?_⟩
  rw [stamp]
  split
  next small => exact ⟨rfl, rfl, small⟩
  next => exact rfl

/-- A data header is built with the reading of the clock and the next count. -/
structure Minted (env : WriteEnv) (len : Nat) (s : WriteState) (built : Bytes) (ts : Timestamp)
    (rc : RecordCount) (s' : WriteState) : Prop where
  format : s.format = .variableTsRc
  reading : ts.toNat = env.reading s.clock s.ops
  count : rc = UInt64.ofNat (s.recordCount + 1)
  header : built = toLE 4 len ++ toLE 8 ts.toNat ++ (toLE 8 (s.recordCount + 1)).take 6
  state : s' = { s with ops := s.ops + 1, recordCount := s.recordCount + 1 }

theorem buildDataHeader_minted (len : Nat) : Meets (buildDataHeader env len) s
    (fun built t => ∀ ts rc, built.2 = .variableTsRc ts rc → Minted env len s built.1 ts rc t)
    (fun _ _ => True) := by
  rw [buildDataHeader, meets_ite]
  refine ⟨fun _ => trivial, fun _ => ?_⟩
  rw [meets_bind, meets_get]
  cases format : s.format with
  | fixed n => exact fun _ _ impossible => Meta.noConfusion impossible
  | variableSimple => exact fun _ _ impossible => Meta.noConfusion impossible
  | variableTsRc =>
      rw [meets_bind]
      refine (now_exact env s).imp ?_ fun _ _ _ => trivial
      rintro reading _ ⟨rfl, rfl, small⟩ ts rc same
      obtain ⟨rfl, rfl⟩ := Meta.variableTsRc.inj same
      have read : (UInt64.ofNat (env.reading s.clock s.ops)).toNat = env.reading s.clock s.ops := by
        rw [UInt64.toNat_ofNat']
        exact Nat.mod_eq_of_lt (small.trans (by decide))
      exact ⟨format, read, rfl, by rw [read], rfl⟩

/-- A record that `write` begins in the state `s`: a session is open in `v`, its
file has room in `u`, and the data header is built in the entry's state. -/
structure Began (env : WriteEnv) (s : WriteState) (msg : Bytes) (v u : WriteState) (entry : Entry)
    (s' : WriteState) : Prop where
  accepted : s.refuses msg = false
  message : entry.msg = msg
  session : (ensureSession env).run s = .ok () v
  file : (rollIfFull env).run v = .ok () u
  minted : Minted env msg.length u entry.built entry.ts entry.rc entry.state
  stores : ∃ result, Trail.ending (storeBytes env msg (s.format.dataHeaderLen + msg.length)
    (entry.built, .variableTsRc entry.ts entry.rc)) entry.state = (result, entry.after) ∧
      entry.whole = result.toBool
  notices : s' = if entry.whole then (Trail.ending (noticeComplete env) entry.after).2 else entry.after

theorem Diary.trail_call (diary : Diary) (c : Call) :
    (diary.call env c).trail = diary.trail.call env c := by
  cases c with
  | write msg =>
      simp only [Diary.call]
      split <;> rfl
  | flush => rfl
  | clear => rfl

theorem Diary.trail_calls (diary : Diary) (calls : List Call) :
    (calls.foldl (call env) diary).trail = calls.foldl (Trail.call env) diary.trail := by
  induction calls generalizing diary with
  | nil => rfl
  | cons c calls ih => rw [List.foldl_cons, ih, trail_call, List.foldl_cons]

/-- A diary keeps the trail of its writer. -/
theorem Diary.keep_trail {dir : Dir} {life : Life} {a : Unit}
    (ran : (LogWrite.new env life.args).run (Trail.start dir).state = .ok a t) :
    (keep env dir life).trail = Trail.openedOn env (Trail.start dir) life t := by
  rw [keep_of_ok ran, trail_calls]
  rfl

theorem beginRecord_cases {len : Nat} {built : Bytes × Meta}
    (ran : (beginRecord env len).run s = .ok built t) :
    ∃ v u, (ensureSession env).run s = .ok () v ∧ (rollIfFull env).run v = .ok () u ∧
      (buildDataHeader env len).run u = .ok built t := by
  rw [beginRecord, EStateM.run_bind] at ran
  cases first : (ensureSession env).run s with
  | error stop v => simp [first] at ran
  | ok _ v =>
      simp only [first, EStateM.run_bind] at ran
      cases second : (rollIfFull env).run v with
      | error stop u => simp [second] at ran
      | ok _ u =>
          simp only [second] at ran
          exact ⟨v, u, rfl, second, ran⟩

theorem ending_write_of_stored {msg : Bytes} {total : Nat}
    (ran : (storeRecord env msg).run s = .ok total t) :
    (Trail.ending (write env msg) s).2 = (Trail.ending (noticeComplete env) t).2 := by
  have split : (write env msg).run s = (do noticeComplete env; return total : WriteM Nat).run t := by
    rw [write, EStateM.run_bind, ran]
  rw [Trail.ending, Trail.ending, split, EStateM.run_bind]
  cases (noticeComplete env).run t <;> rfl

theorem Diary.entry_cases (env : WriteEnv) {msg : Bytes} (accepted : s.refuses msg = false) :
    entry env s msg = [] ∨
      ∃ v u e, entry env s msg = [e] ∧ Began env s msg v u e (Trail.ending (write env msg) s).2 := by
  rw [entry]
  split
  next built ts rc t ran =>
    obtain ⟨v, u, ensured, rolled, header⟩ := beginRecord_cases ran
    have minted := (buildDataHeader_minted msg.length).of_ok header ts rc rfl
    have store := storeRecord_of_accepted env accepted
    rw [EStateM.run_bind, ran] at store
    simp only [EStateM.run_bind] at store
    refine .inr ⟨v, u, _, rfl, accepted, rfl, ensured, rolled, minted, ?_, ?_⟩
    · cases stored : (storeBytes env msg (s.format.dataHeaderLen + msg.length)
          (built, .variableTsRc ts rc)).run t with
      | ok _ after =>
          rw [stored] at store
          rw [Trail.ending_of_ok stored, store]
          exact ⟨_, rfl, rfl⟩
      | error stop after =>
          rw [stored] at store
          rw [Trail.ending_of_error stored, store]
          exact ⟨_, rfl, rfl⟩
    · cases stored : (storeRecord env msg).run s with
      | ok total after =>
          rw [ending_write_of_stored stored]
          rfl
      | error stop after =>
          rw [Trail.ending_of_error (Trail.write_of_failed stored)]
          rfl
  next => exact .inl rfl

/-- A call begins a record or leaves the diary's entries as they are. -/
theorem Diary.call_cases (env : WriteEnv) (diary : Diary) (c : Call) :
    (diary.call env c).entries = diary.entries ∨
      ∃ msg v u e, c = .write msg ∧ (diary.call env c).entries = diary.entries ++ [e] ∧
        Began env diary.trail.state msg v u e (diary.call env c).trail.state := by
  rw [trail_call]
  cases c with
  | flush => exact .inl rfl
  | clear => exact .inl rfl
  | write msg =>
      by_cases refused : diary.trail.state.refuses msg = true
      · left
        simp only [Diary.call, if_pos refused]
      · have accepted : diary.trail.state.refuses msg = false := by simpa using refused
        simp only [Diary.call, if_neg refused]
        rcases entry_cases env accepted with none | ⟨v, u, e, one, began⟩
        · exact .inl (by rw [none, List.append_nil])
        · exact .inr ⟨msg, v, u, e, rfl, by rw [one], began⟩

end Write

end Tcslog
