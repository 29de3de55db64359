import Tcslog.Read.Record
import Tcslog.Write.Made
import Tcslog.Write.Timestamps

/-!
# The counts of a session's records

A session's records are numbered from one as they are begun, and a session whose
numbers are used up is followed by another.
-/

namespace Tcslog

open Lib.Program Lib.LittleEndian WriteState

/-- The writer went on in its session, and began no record. -/
structure Settled (s t : WriteState) : Prop where
  format : t.format = s.format
  sessionId : t.sessionId = s.sessionId
  recordCount : t.recordCount = s.recordCount
  begun : Calm s → Calm t ∧ sessionsBegun t.events = sessionsBegun s.events

/-- The writer began a session: it made a file of sequence zero current. -/
structure Begins (s t : WriteState) : Prop where
  format : t.format = s.format
  recordCount : t.recordCount = 0
  begun : Calm s → Calm t ∧ ∃ header, sessionsBegun t.events = sessionsBegun s.events ++ [header] ∧
    header.sessionId = t.sessionId

/-- The writer failed to begin a session, and has no file. -/
structure Unbegun (s t : WriteState) : Prop where
  format : t.format = s.format
  current : t.current = none
  recordCount : t.recordCount ≤ s.recordCount
  begun : Calm s → Calm t ∧ sessionsBegun t.events = sessionsBegun s.events

section Settled

variable {env : WriteEnv} {s t u : WriteState}

theorem Settled.refl (s : WriteState) : Settled s s :=
  ⟨rfl, rfl, rfl, fun calm => ⟨calm, rfl⟩⟩

/-- No session is begun by one who begins none and then another. -/
theorem begun_trans (first : Calm s → Calm t ∧ sessionsBegun t.events = sessionsBegun s.events)
    (second : Calm t → Calm u ∧ sessionsBegun u.events = sessionsBegun t.events) (calm : Calm s) :
    Calm u ∧ sessionsBegun u.events = sessionsBegun s.events := by
  obtain ⟨calm, same⟩ := first calm
  obtain ⟨calm, same'⟩ := second calm
  exact ⟨calm, same'.trans same⟩

theorem Settled.trans (first : Settled s t) (second : Settled t u) : Settled s u :=
  ⟨second.format.trans first.format, second.sessionId.trans first.sessionId,
    second.recordCount.trans first.recordCount, begun_trans first.begun second.begun⟩

theorem Settled.begins (first : Settled s t) (second : Begins t u) : Begins s u := by
  refine ⟨second.format.trans first.format, second.recordCount, fun calm => ?_⟩
  obtain ⟨calm, same⟩ := first.begun calm
  rw [← same]
  exact second.begun calm

theorem Settled.unbegun (first : Settled s t) (second : Unbegun t u) : Unbegun s u :=
  ⟨second.format.trans first.format, second.current, second.recordCount.trans first.recordCount.le,
    begun_trans first.begun second.begun⟩

theorem Asked.settled (asked : Asked s t) : Settled s t := by
  have same := asked.same
  refine ⟨?_, ?_, ?_, fun calm => ⟨asked.calm calm, ?_⟩⟩
  · rw [same]
  · rw [same]
  · rw [same]
  · rw [sessionsBegun, asked.made calm]
    rfl

theorem Asked.current (asked : Asked s t) : t.current = s.current := by
  rw [asked.same]

/-- A file created begins a session just if its sequence is zero. -/
theorem createSegment_begins (opensSession : Bool) (s : WriteState) :
    Meets (createSegment env opensSession) s
      (fun _ t => Calm s → Calm t ∧ ∃ header, header.sessionId = t.sessionId ∧
        sessionsBegun t.events = sessionsBegun s.events ++ if s.sequence = 0 then [header] else [])
      (fun _ t => Calm s → Calm t ∧ sessionsBegun t.events = sessionsBegun s.events) := by
  by_cases calm : Calm s
  · refine (createSegment_makes opensSession calm).imp ?_ ?_
    · rintro _ t ⟨calmThen, header, headers, sequence, sessionId⟩ -
      refine ⟨calmThen, header, sessionId, ?_⟩
      rw [sessionsBegun, headers, List.filter_append, List.filter_singleton, sequence]
      simp [sessionsBegun]
    · rintro _ t ⟨calmThen, made⟩ -
      exact ⟨calmThen, by rw [sessionsBegun, made]; rfl⟩
  · exact meets_true.imp (fun _ _ _ holds => absurd holds calm) fun _ _ _ holds => absurd holds calm

theorem settled_follows (env : WriteEnv) : FollowsStores env Settled := by
  have asks {α : Type} {x : WriteM α} (asked : Preserves Asked x) : Preserves Settled x :=
    fun s => (asked s).imp (fun _ _ step => step.settled) fun _ _ step => step.settled
  have books {s t : WriteState} (format : t.format = s.format) (sessionId : t.sessionId = s.sessionId)
      (recordCount : t.recordCount = s.recordCount) (events : t.events = s.events) : Settled s t :=
    ⟨format, sessionId, recordCount, fun calm =>
      ⟨⟨events ▸ calm.naming, format ▸ calm.sound⟩, by rw [events]⟩⟩
  exact {
    refl := .refl
    trans := .trans
    createSegment := by
      intro s _ later
      refine ((createSegment_opens env false s).and (createSegment_begins false s)).imp ?_ ?_
      · rintro _ t ⟨⟨id, -, same⟩, begins⟩
        refine ⟨by rw [same], by rw [same]; rfl, by rw [same], fun calm => ?_⟩
        obtain ⟨calmThen, header, -, begun⟩ := begins calm
        rw [if_neg later, List.append_nil] at begun
        exact ⟨calmThen, begun⟩
      · rintro _ t ⟨same, begun⟩
        exact ⟨by rw [same], by rw [same]; rfl, by rw [same], begun⟩
    writeAll := fun {s cur} _ bytes => asks (writeAll_asked env cur.id bytes) s
    flushFile := fun id => asks (flushFile_asked env id)
    send := fun id => asks (send_asked env id)
    close := fun _ => books rfl rfl rfl rfl
    wrote := fun _ _ _ => books rfl rfl rfl rfl
    book := fun _ _ _ => books rfl rfl rfl rfl }

theorem startSession_begins {s : WriteState} (closed : s.current = none) :
    Meets (startSession env) s (fun _ t => Begins s t) (fun _ t => Unbegun s t) := by
  have calm_ (calm : Calm s) : Calm { s with recordCount := 0, sequence := 0, recordBytesLeft := 0 } :=
    ⟨calm.naming, calm.sound⟩
  rw [startSession, meets_bind, meets_modify]
  refine ((createSegment_opens env true _).and (createSegment_begins true _)).imp ?_ ?_
  · rintro _ t ⟨⟨id, -, same⟩, begins⟩
    refine ⟨by rw [same], by rw [same], fun calm => ?_⟩
    obtain ⟨calmThen, header, sessionId, begun⟩ := begins (calm_ calm)
    exact ⟨calmThen, header, begun, sessionId⟩
  · rintro _ t ⟨same, begun⟩
    refine ⟨by rw [same], by rw [same]; exact closed, ?_, fun calm => begun (calm_ calm)⟩
    rw [same]
    exact Nat.zero_le _

/-- A record is stored in the session there is, if its records can still be
counted, and otherwise in one that is begun. -/
theorem ensureSession_begins (env : WriteEnv) (s : WriteState) : Meets (ensureSession env) s
    (fun _ t => Begins s t ∨ t = s ∧ s.current ≠ none ∧
      (s.format = .variableTsRc → s.recordCount < recordCountMax))
    (fun _ t => Unbegun s t) := by
  rw [ensureSession, meets_bind, meets_get, meets_ite]
  refine ⟨fun closed => (startSession_begins closed).imp (fun _ _ begins => .inl begins)
    fun _ _ unbegun => unbegun, fun isOpen => ?_⟩
  rw [meets_ite]
  refine ⟨fun _ => ?_, fun room => .inr ⟨rfl, isOpen, fun format => ?_⟩⟩
  · rw [meets_bind]
    refine ((closeAndSend_closes env s).and ((settled_follows env).closeAndSend s)).imp ?_ ?_
    · rintro _ t ⟨closed, settled⟩
      exact (startSession_begins closed).imp (fun _ _ begins => .inl (settled.begins begins))
        fun _ _ unbegun => settled.unbegun unbegun
    · rintro _ t ⟨closed, settled⟩
      exact ⟨settled.format, closed, settled.recordCount.le, settled.begun⟩
  · rw [not_and, not_le] at room
    exact room format

end Settled

/-! ## One record -/

section Record

variable {env : WriteEnv} {s t u v : WriteState} {msg : Bytes} {e : Entry}

theorem storeBytes_settled (env : WriteEnv) (msg : Bytes) (total : Nat) (built : Bytes × Meta) :
    Preserves Settled (storeBytes env msg total built) := by
  have follows := settled_follows env
  apply Leads.bind (follows.modify fun _ => rfl) (fun _ => ?_) .trans .trans
  apply Leads.bind (follows.writeBytes built.1) (fun _ => ?_) .trans .trans
  apply Leads.bind (follows.writeBytes msg) (fun _ => ?_) .trans .trans
  exact .modify fun s => ⟨rfl, rfl, rfl, fun calm => ⟨⟨calm.naming, calm.sound⟩, rfl⟩⟩

/-- The bytes of a record are stored to the end, or up to where that failed. -/
theorem storeBytes_puts (env : WriteEnv) (msg : Bytes) (total : Nat) (built : Bytes × Meta) (s : WriteState) :
    Meets (storeBytes env msg total built) s
      (fun _ t => Puts (built.1 ++ msg) s t ∧ t.lastMeta = built.2)
      (fun _ t => PutsSome (built.1 ++ msg) s t) := by
  have begun : Puts [] s { s with recordBytesLeft := total } := Adds.puts_nil (.of_eq rfl)
  rw [storeBytes, meets_bind, meets_modify, meets_bind]
  refine (writeBytes_puts built.1 _).imp (fun _ t header => ?_) ?_
  · rw [meets_bind]
    refine (writeBytes_puts msg t).imp (fun _ u payload => ?_) ?_
    · rw [meets_modify]
      have both := begun.trans (header.trans payload)
      exact ⟨both.onward (Adds.puts_nil (.of_eq rfl)), rfl⟩
    · rintro _ u ⟨front, isFront, payload⟩
      exact ⟨built.1 ++ front, (List.prefix_append_right_inj _).mpr isFront,
        begun.trans (header.trans payload)⟩
  · rintro _ t ⟨front, isFront, header⟩
    exact ⟨front, isFront.trans (List.prefix_append _ _), begun.trans header⟩

/-- The six bytes of a record's count are stored with it, and read as the count
the writer reports for it. -/
structure Recorded (e : Entry) : Prop where
  header : e.built = (Meta.variableTsRc e.ts e.rc).dataHeader e.msg.length
  stored : PutsSome (e.built ++ e.msg) e.state e.after
  whole : e.whole = true →
    Puts (e.built ++ e.msg) e.state e.after ∧ e.after.lastMeta = .variableTsRc e.ts e.rc
  decodes : ∀ (env : ReadEnv) (s : ReadState),
    Meets (fillBuf env (Format.dataHeaderLen .variableTsRc)) s
      (fun head t => head = e.built ∧ t.cursor.impliedPayload.all (· = e.msg.length))
      (fun _ _ => False) →
    Meets (readDataHeader env .variableTsRc versionMinor) s
      (fun decoded _ => decoded = (e.msg.length, .variableTsRc e.ts e.rc)) (fun _ _ => False)

/-- What a reader makes of a data header. -/
theorem readDataHeader_of_fits {ts : Timestamp} {rc : RecordCount}
    (fits : (⟨msg, .variableTsRc ts rc⟩ : Record).Fits .variableTsRc) (renv : ReadEnv) {s : ReadState}
    (filled : Meets (fillBuf renv (Format.dataHeaderLen .variableTsRc)) s
      (fun head t => head = (Meta.variableTsRc ts rc).dataHeader msg.length ∧
        t.cursor.impliedPayload.all (· = msg.length)) (fun _ _ => False)) :
    Meets (readDataHeader renv .variableTsRc versionMinor) s
      (fun decoded _ => decoded = (msg.length, .variableTsRc ts rc)) (fun _ _ => False) := by
  obtain ⟨length, metadata⟩ := Scene.decode_variableTsRc fits
  simp only at length metadata
  rw [readDataHeader, meets_bind]
  refine Meets.imp filled ?_ fun _ _ failed => failed
  rintro head t ⟨rfl, agrees⟩
  have settles : ¬ t.cursor.impliedPayload.any (· ≠ msg.length) := by
    cases implied : t.cursor.impliedPayload with
    | none => simp
    | some n => simpa [implied] using agrees
  have settled : Meets (settlePayloadLen msg.length) t (fun n u => n = msg.length ∧ u = t)
      (fun _ _ => False) := by
    simp only [settlePayloadLen, meets_bind, meets_get, meets_ite]
    exact ⟨fun differs => absurd differs settles, fun _ => ⟨rfl, rfl⟩⟩
  rw [meets_bind, length]
  refine settled.imp ?_ fun _ _ failed => failed
  rintro n u ⟨rfl, rfl⟩
  simp only [setTotal, meets_bind, meets_modify, meets_pure, ← metadata]

theorem Began.recorded (began : Began env s msg v u e t) (format : s.format = .variableTsRc)
    (room : u.recordCount < recordCountMax) : Recorded e := by
  have minted := began.minted
  have rc : e.rc.toNat = u.recordCount + 1 := by
    rw [minted.count, UInt64.toNat_ofNat']
    unfold recordCountMax at room
    omega
  have header : e.built = (Meta.variableTsRc e.ts e.rc).dataHeader msg.length := by
    rw [minted.header, Meta.dataHeader, rc]
    rfl
  obtain ⟨result, ending, whole⟩ := began.stores
  have puts := storeBytes_puts env msg (s.format.dataHeaderLen + msg.length)
    (e.built, .variableTsRc e.ts e.rc) e.state
  have message := began.message
  have outcome : PutsSome (e.built ++ msg) e.state e.after ∧ (e.whole = true →
      Puts (e.built ++ msg) e.state e.after ∧ e.after.lastMeta = .variableTsRc e.ts e.rc) := by
    cases ran : (storeBytes env msg (s.format.dataHeaderLen + msg.length)
        (e.built, .variableTsRc e.ts e.rc)).run e.state with
    | ok a after =>
        rw [Trail.ending_of_ok ran] at ending
        obtain ⟨-, rfl⟩ := Prod.mk.inj ending
        have stored := puts.of_ok ran
        exact ⟨⟨_, List.prefix_rfl, stored.1⟩, fun _ => stored⟩
    | error stop after =>
        rw [Trail.ending_of_error ran] at ending
        obtain ⟨rfl, rfl⟩ := Prod.mk.inj ending
        exact ⟨puts.of_error ran, fun isWhole => by simp [whole, Except.toBool] at isWhole⟩
  have fits : (⟨msg, .variableTsRc e.ts e.rc⟩ : Record).Fits .variableTsRc := by
    have accepted := began.accepted
    simp only [LogWrite.refuses, decide_eq_false_iff_not, not_or, format] at accepted
    have small := Nat.le_of_not_lt accepted.2.2
    exact Record.fits_variableTsRc.mpr ⟨e.ts, e.rc, rfl, small, by omega⟩
  subst message
  refine ⟨header, outcome.1, outcome.2, fun renv s filled => ?_⟩
  rw [header] at filled
  exact readDataHeader_of_fits fits renv filled

theorem ensured_format (ran : (ensureSession env).run s = .ok () v) : v.format = s.format := by
  rcases (ensureSession_begins env s).of_ok ran with begins | ⟨rfl, -, -⟩
  · exact begins.format
  · rfl

theorem beginRecord_error {stop : Stop} (format : s.format = .variableTsRc)
    (ran : (beginRecord env msg.length).run s = .error stop t) :
    Unbegun s t ∨ ∃ v, (ensureSession env).run s = .ok () v ∧ Settled v t := by
  have follows := settled_follows env
  rw [beginRecord, EStateM.run_bind] at ran
  cases first : (ensureSession env).run s with
  | error stop' v =>
      rw [first] at ran
      obtain ⟨-, rfl⟩ := EStateM.Result.error.inj ran
      exact .inl ((ensureSession_begins env s).of_error first)
  | ok _ v =>
      refine .inr ⟨v, rfl, ?_⟩
      have isTsRc : v.format = .variableTsRc := (ensured_format first).trans format
      simp only [first, EStateM.run_bind] at ran
      cases second : (rollIfFull env).run v with
      | error stop' u =>
          rw [second] at ran
          obtain ⟨-, rfl⟩ := EStateM.Result.error.inj ran
          exact follows.rollIfFull.error second
      | ok _ u =>
          rw [second] at ran
          have rolled := follows.rollIfFull.ok second
          have built : Meets (buildDataHeader env msg.length) u (fun _ _ => True)
              (fun _ t => Settled u t) := by
            rw [buildDataHeader, meets_ite]
            refine ⟨fun _ => .refl u, fun _ => ?_⟩
            rw [meets_bind, meets_get, rolled.format.trans isTsRc, meets_bind]
            exact (now_asked env u).imp (fun _ _ _ => trivial) fun _ _ asked => asked.settled
          exact rolled.trans (built.of_error ran)

/-- A record that could not be begun left the writer in its session, or without
a file. -/
theorem write_unbegun (accepted : s.refuses msg = false) (format : s.format = .variableTsRc)
    (none : Diary.entry env s msg = []) :
    Unbegun s (Trail.ending (write env msg) s).2 ∨
      ∃ v, (ensureSession env).run s = .ok () v ∧ Settled v (Trail.ending (write env msg) s).2 := by
  cases ran : (beginRecord env msg.length).run s with
  | error stop t =>
      have store := storeRecord_of_accepted env accepted
      rw [EStateM.run_bind, ran] at store
      rw [Trail.ending_of_error (Trail.write_of_failed store)]
      exact beginRecord_error format ran
  | ok built t =>
      obtain ⟨v, u, first, second, header⟩ := beginRecord_cases ran
      have isTsRc : u.format = .variableTsRc :=
        ((settled_follows env).rollIfFull.ok second).format.trans ((ensured_format first).trans format)
      have dated : Meets (buildDataHeader env msg.length) u
          (fun built _ => ∃ ts rc, built.2 = .variableTsRc ts rc) (fun _ _ => True) := by
        rw [buildDataHeader, meets_ite]
        refine ⟨fun _ => trivial, fun _ => ?_⟩
        rw [meets_bind, meets_get, isTsRc, meets_bind]
        exact meets_true.imp (fun _ _ _ => ⟨_, _, rfl⟩) fun _ _ _ => trivial
      obtain ⟨ts, rc, isDated⟩ := dated.of_ok header
      obtain ⟨bytes, metadata⟩ := built
      obtain rfl : metadata = _ := isDated
      simp [Diary.entry, ran] at none

end Record

/-! ## Whole sessions -/

/-- The number of sessions begun. -/
def WriteState.sessions (s : WriteState) : Nat :=
  (sessionsBegun s.events).length

/-- The session of a record, counted from the first: the files of sequence zero
that were made current by then. -/
def Entry.session (e : Entry) : Nat :=
  e.state.sessions

/-- The counts of a session's records, in the order they were begun. -/
def Diary.counts (diary : Diary) (session : Nat) : List Nat :=
  (diary.entries.filter (·.session = session)).map (·.rc.toNat)

/-- What holds of the counts in a diary's entries, once so many sessions were
begun. -/
structure Tallied (entries : List Entry) (sessions : Nat) : Prop where
  earlier : ∀ e ∈ entries, e.session ≤ sessions
  ordered : entries.Pairwise fun e e' => e.session ≤ e'.session
  each : ∀ k, ∃ m ≤ recordCountMax,
    (entries.filter (·.session = k)).map (·.rc.toNat) = List.range' 1 m
  names : ∀ e ∈ entries, ∀ e' ∈ entries, e.session = e'.session →
    e.state.sessionId = e'.state.sessionId
  turns : entries.IsChain fun e e' => e.rc.toNat = recordCountMax →
    e.session < e'.session ∧ e'.rc = 1
  begins : ∀ e ∈ entries, (sessionsBegun e.state.events).getLast?.map SegmentHeader.sessionId =
    some e.state.sessionId
  recorded : ∀ e ∈ entries, Recorded e

/-- A writer in a state `s` has numbered its session's records up to its count. -/
structure Seated (entries : List Entry) (s : WriteState) : Prop where
  counts : (entries.filter (·.session = s.sessions)).map (·.rc.toNat) = List.range' 1 s.recordCount
  names : ∀ e ∈ entries, e.session = s.sessions → e.state.sessionId = s.sessionId
  named : (sessionsBegun s.events).getLast?.map SegmentHeader.sessionId = some s.sessionId

/-- What holds of a writer that began these records. -/
structure Enumerates (entries : List Entry) (s : WriteState) : Prop where
  format : s.format = .variableTsRc
  calm : Calm s
  tallied : Tallied entries s.sessions
  bounded : s.recordCount ≤ recordCountMax
  seated : s.current ≠ none → Seated entries s

section Enumerates

variable {env : WriteEnv} {entries : List Entry} {session : Nat} {s t u v : WriteState}
  {msg : Bytes} {e : Entry}

theorem Seated.settled (seated : Seated entries s) (settled : Settled s t) (calm : Calm s) :
    Seated entries t := by
  have begun := (settled.begun calm).2
  have sessions : t.sessions = s.sessions := congrArg List.length begun
  constructor
  · rw [sessions, settled.recordCount]
    exact seated.counts
  · rw [sessions, settled.sessionId]
    exact seated.names
  · rw [begun, settled.sessionId]
    exact seated.named

theorem Tallied.nil (sessions : Nat) : Tallied [] sessions :=
  ⟨by simp, .nil, fun _ => ⟨0, Nat.zero_le _, rfl⟩, by simp, .nil, by simp, by simp⟩

theorem Tallied.later (tallied : Tallied entries session) {later : Nat} (le : session ≤ later) :
    Tallied entries later :=
  { tallied with earlier := fun e mem => (tallied.earlier e mem).trans le }

theorem Enumerates.settled (counted : Enumerates entries s) (settled : Settled s t)
    (seated : t.current ≠ none → Seated entries s) : Enumerates entries t := by
  obtain ⟨calm, begun⟩ := settled.begun counted.calm
  have sessions : t.sessions = s.sessions := congrArg List.length begun
  exact ⟨settled.format.trans counted.format, calm, sessions ▸ counted.tallied,
    settled.recordCount ▸ counted.bounded, fun isOpen =>
      (seated isOpen).settled settled counted.calm⟩

theorem Enumerates.unbegun (counted : Enumerates entries s) (unbegun : Unbegun s t) : Enumerates entries t := by
  obtain ⟨calm, begun⟩ := unbegun.begun counted.calm
  have sessions : t.sessions = s.sessions := congrArg List.length begun
  exact ⟨unbegun.format.trans counted.format, calm, sessions ▸ counted.tallied,
    unbegun.recordCount.trans counted.bounded, fun isOpen => absurd unbegun.current isOpen⟩

/-- A session that was begun has no record yet. -/
theorem Enumerates.begins (counted : Enumerates entries s) (begins : Begins s t) :
    Enumerates entries t ∧ Seated entries t := by
  obtain ⟨calm, header, begun, sessionId⟩ := begins.begun counted.calm
  have sessions : t.sessions = s.sessions + 1 := by
    rw [WriteState.sessions, begun, List.length_append]
    rfl
  have nothing (e : Entry) (mem : e ∈ entries) : e.session ≠ t.sessions := by
    have := counted.tallied.earlier e mem
    omega
  have seated : Seated entries t := by
    refine ⟨?_, fun e mem same => absurd same (nothing e mem), ?_⟩
    · rw [List.filter_eq_nil_iff.mpr (by simpa using nothing), begins.recordCount]
      rfl
    · rw [begun, List.getLast?_append, ← sessionId]
      rfl
  refine ⟨⟨begins.format.trans counted.format, calm, counted.tallied.later ?_, ?_, fun _ => seated⟩, seated⟩
  · omega
  · rw [begins.recordCount]
    exact Nat.zero_le _

/-- The session a record goes to, once that session is there. -/
theorem Enumerates.ensured (counted : Enumerates entries s) (ran : (ensureSession env).run s = .ok () v) :
    Enumerates entries v ∧ Seated entries v ∧ v.recordCount < recordCountMax := by
  rcases (ensureSession_begins env s).of_ok ran with begins | ⟨rfl, isOpen, room⟩
  · obtain ⟨countedThen, seated⟩ := counted.begins begins
    exact ⟨countedThen, seated, by rw [begins.recordCount]; decide⟩
  · exact ⟨counted, counted.seated isOpen, room counted.format⟩

/-- A record that is begun has the next count of its session. -/
theorem Tallied.append (tallied : Tallied entries s.sessions) (seated : Seated entries s)
    (room : s.recordCount < recordCountMax) (settled : sessionsBegun e.state.events = sessionsBegun s.events)
    (count : e.rc.toNat = s.recordCount + 1) (name : e.state.sessionId = s.sessionId)
    (recorded : Recorded e) : Tallied (entries ++ [e]) s.sessions := by
  have isLast : e.session = s.sessions := congrArg List.length settled
  refine ⟨?_, ?_, fun k => ?_, ?_, ?_, ?_, ?_⟩
  · intro e' mem
    rcases List.mem_append.mp mem with earlier | last
    · exact tallied.earlier e' earlier
    · rw [List.mem_singleton.mp last, isLast]
  · rw [List.pairwise_append]
    refine ⟨tallied.ordered, List.pairwise_singleton _ _, fun e' mem e'' last => ?_⟩
    rw [List.mem_singleton.mp last, isLast]
    exact tallied.earlier e' mem
  · by_cases here : k = s.sessions
    · refine ⟨s.recordCount + 1, room, ?_⟩
      rw [here, List.filter_append, List.map_append, seated.counts, List.range'_1_concat]
      simp [isLast, count, Nat.add_comm]
    · obtain ⟨m, le, counts⟩ := tallied.each k
      refine ⟨m, le, ?_⟩
      have apart : ¬ e.session = k := fun same => here (same.symm.trans isLast)
      rw [List.filter_append, List.map_append, counts]
      simp [apart]
  · have named (e' : Entry) (mem : e' ∈ entries) (same : e'.session = e.session) :
        e'.state.sessionId = e.state.sessionId := by
      rw [name]
      exact seated.names e' mem (same.trans isLast)
    intro e₁ mem₁ e₂ mem₂ same
    rcases List.mem_append.mp mem₁ with early₁ | last₁
    · rcases List.mem_append.mp mem₂ with early₂ | last₂
      · exact tallied.names e₁ early₁ e₂ early₂ same
      · obtain rfl := List.mem_singleton.mp last₂
        exact named e₁ early₁ same
    · obtain rfl := List.mem_singleton.mp last₁
      rcases List.mem_append.mp mem₂ with early₂ | last₂
      · exact (named e₂ early₂ same.symm).symm
      · rw [List.mem_singleton.mp last₂]
  · rw [List.isChain_append]
    refine ⟨tallied.turns, List.isChain_singleton _, fun e' mem e'' last full => ?_⟩
    obtain rfl : e = e'' := by simpa using last
    have mem' := List.mem_of_getLast? mem
    have apart : e'.session ≠ s.sessions := by
      intro same
      have counted : e'.rc.toNat ∈ List.range' 1 s.recordCount := by
        rw [← seated.counts]
        exact List.mem_map.mpr ⟨e', List.mem_filter.mpr ⟨mem', by simpa using same⟩, rfl⟩
      rw [List.mem_range'_1] at counted
      omega
    have less : e'.session < s.sessions := lt_of_le_of_ne (tallied.earlier e' mem') apart
    refine ⟨isLast ▸ less, ?_⟩
    -- The last record belongs to an earlier session, so this one has none yet.
    have noneHere : entries.filter (·.session = s.sessions) = [] := by
      rw [List.filter_eq_nil_iff]
      intro e₂ mem₂ same
      have before : e₂.session ≤ e'.session := by
        obtain ⟨front, split⟩ := List.getLast?_eq_some_iff.mp mem
        have ordered := tallied.ordered
        rw [split, List.pairwise_append] at ordered
        rw [split, List.mem_append, List.mem_singleton] at mem₂
        rcases mem₂ with early | rfl
        · exact ordered.2.2 e₂ early e' (by simp)
        · exact Nat.le_refl _
      simp only [decide_eq_true_eq] at same
      omega
    have first := seated.counts
    rw [noneHere] at first
    have zero : s.recordCount = 0 := by simpa using first.symm
    rw [← UInt64.toNat_inj, count, zero]
    rfl
  · intro e' mem
    rcases List.mem_append.mp mem with earlier | last
    · exact tallied.begins e' earlier
    · rw [List.mem_singleton.mp last, settled, name]
      exact seated.named
  · intro e' mem
    rcases List.mem_append.mp mem with earlier | last
    · exact tallied.recorded e' earlier
    · rwa [List.mem_singleton.mp last]

/-- The bytes of a record leave its session as it is. -/
theorem Began.settled (began : Began env s msg v u e t) : Settled e.state t := by
  obtain ⟨result, ending, -⟩ := began.stores
  have stored : Settled e.state e.after := by
    have settled := ending_meets (storeBytes_settled env msg (s.format.dataHeaderLen + msg.length)
      (e.built, .variableTsRc e.ts e.rc) e.state)
    rwa [ending] at settled
  have notices : Preserves Settled (noticeComplete env) := by
    apply Leads.bind_get
    intro s
    cases s.current with
    | none => exact .refl s
    | some cur =>
        exact (recordComplete_asked env cur.id s).imp (fun _ _ step => step.settled)
          fun _ _ step => step.settled
  rw [began.notices]
  split
  · exact stored.trans (ending_meets (notices e.after))
  · exact stored

/-- What becomes of a writer that begins a record. -/
theorem Enumerates.began (counted : Enumerates entries s) (began : Began env s msg v u e t) :
    Enumerates (entries ++ [e]) t := by
  obtain ⟨countedThen, seated, room⟩ := counted.ensured began.session
  have rolled := (settled_follows env).rollIfFull.ok began.file
  obtain ⟨calmThen, begunThen⟩ := rolled.begun countedThen.calm
  have state : e.state = { u with ops := u.ops + 1, recordCount := u.recordCount + 1 } := began.minted.state
  have begun : sessionsBegun e.state.events = sessionsBegun v.events := by rw [state]; exact begunThen
  have name : e.state.sessionId = v.sessionId := by rw [state]; exact rolled.sessionId
  have number : e.state.recordCount = v.recordCount + 1 := by
    rw [state]
    exact congrArg (· + 1) rolled.recordCount
  have count : e.rc.toNat = v.recordCount + 1 := by
    rw [began.minted.count, rolled.recordCount, UInt64.toNat_ofNat']
    unfold recordCountMax at room
    omega
  have sessions : e.state.sessions = v.sessions := congrArg List.length begun
  have tallied := countedThen.tallied.append seated room begun count name
    (began.recorded counted.format (rolled.recordCount ▸ room))
  have calm : Calm e.state := by rw [state]; exact ⟨calmThen.naming, calmThen.sound⟩
  have format : e.state.format = .variableTsRc := by
    rw [state]
    exact rolled.format.trans countedThen.format
  have here : Seated (entries ++ [e]) e.state := by
    refine ⟨?_, fun e' mem same => tallied.names e' mem e (by simp) same, tallied.begins e (by simp)⟩
    rw [sessions, number, List.filter_append, List.map_append, seated.counts, List.range'_1_concat]
    have isLast : e.session = v.sessions := sessions
    simp [isLast, count, Nat.add_comm]
  have settled := began.settled
  obtain ⟨calmLast, begunLast⟩ := settled.begun calm
  have last : t.sessions = v.sessions := (congrArg List.length begunLast).trans sessions
  refine ⟨settled.format.trans format, calmLast, last ▸ tallied, ?_, fun _ => here.settled settled calm⟩
  rw [settled.recordCount, number]
  exact room

end Enumerates

/-! ## The calls of a writer -/

section Calls

variable {env : WriteEnv} {s t : WriteState} {diary : Diary}

theorem format_follows (env : WriteEnv) : FollowsAll env fun s t => t.format = s.format := by
  have asks {α : Type} {x : WriteM α} (asked : Preserves Asked x) :
      Preserves (fun s t => t.format = s.format) x :=
    fun s => (asked s).imp (fun _ _ step => step.settled.format) fun _ _ step => step.settled.format
  have creates (opensSession : Bool) :
      Preserves (fun s t => t.format = s.format) (createSegment env opensSession) := by
    intro s
    refine (createSegment_opens env opensSession s).imp ?_ fun _ t same => ?_
    · rintro _ t ⟨id, -, same⟩
      rw [same]
    · change t.format = s.format
      rw [same]
  exact {
    refl := fun _ => rfl
    trans := fun first second => second.trans first
    createSegment := creates false
    openSegment := creates true
    writeAll := fun id bytes => asks (writeAll_asked env id bytes)
    flushFile := fun id => asks (flushFile_asked env id)
    send := fun id => asks (send_asked env id)
    close := fun _ => rfl
    wrote := fun _ _ _ => rfl
    book := fun _ _ _ => rfl
    now := asks (now_asked env)
    recordComplete := fun id => asks (recordComplete_asked env id)
    removeFile := fun id => asks (removeFile_asked env id)
    scan := asks (scan_asked env)
    note := fun _ _ _ => rfl }

theorem flush_settled (env : WriteEnv) (s : WriteState) :
    Meets (flush env) s (fun _ t => Settled s t ∧ t.current = s.current)
      (fun _ t => Settled s t ∧ t.current = s.current) := by
  have flushes : Preserves Asked (flush env) := by
    apply Leads.bind_get
    intro s
    cases s.current with
    | none => exact Asked.refl s
    | some cur => exact flushFile_asked env cur.id s
  exact (flushes s).imp (fun _ _ asked => ⟨asked.settled, asked.current⟩)
    fun _ _ asked => ⟨asked.settled, asked.current⟩

theorem clear_settled (env : WriteEnv) (s : WriteState) :
    Meets (clear env) s (fun _ t => Settled s t ∧ t.current = none)
      (fun _ t => Settled s t ∧ t.current = none) := by
  have each : Preserves Asked (forEachSegmentFile env (removeFile env)) := by
    apply Leads.bind (scan_asked env) (fun ids => ?_) .trans .trans
    exact .bind (preserves_forM .refl .trans (removeFile_asked env) ids)
      (fun _ => .pure .refl _) .trans .trans
  have closes : Settled s { s with current := none, recordBytesLeft := 0 } :=
    ⟨rfl, rfl, rfl, fun calm => ⟨⟨calm.naming, calm.sound⟩, rfl⟩⟩
  rw [clear, meets_bind, meets_modify, meets_bind]
  exact (each _).imp (fun _ t asked => ⟨closes.trans asked.settled, asked.current⟩)
    fun _ t asked => ⟨closes.trans asked.settled, asked.current⟩

/-- A message that is turned down changes nothing. -/
theorem ending_of_refused {msg : Bytes} (refused : s.refuses msg = true) :
    (Trail.ending (write env msg) s).2 = s := by
  obtain ⟨stop, ran⟩ := storeRecord_of_refused env refused
  rw [Trail.ending_of_error (Trail.write_of_failed ran)]

theorem Diary.enumerates_call (counted : Enumerates diary.entries diary.trail.state) (c : Call) :
    Enumerates (diary.call env c).entries (diary.call env c).trail.state := by
  cases c with
  | flush =>
      obtain ⟨settled, current⟩ := ending_meets (flush_settled env diary.trail.state)
      exact counted.settled settled fun isOpen => counted.seated (current ▸ isOpen)
  | clear =>
      obtain ⟨settled, closed⟩ := ending_meets (clear_settled env diary.trail.state)
      exact counted.settled settled fun isOpen => absurd closed isOpen
  | write msg =>
      by_cases refused : diary.trail.state.refuses msg = true
      · have same : (diary.trail.call env (.write msg)).state = diary.trail.state := ending_of_refused refused
        simp only [Diary.call, if_pos refused]
        rw [same]
        exact counted
      · have accepted : diary.trail.state.refuses msg = false := by simpa using refused
        simp only [Diary.call, if_neg refused]
        rcases Diary.entry_cases env accepted with none | ⟨v, u, e, one, began⟩
        · rw [none, List.append_nil]
          rcases write_unbegun accepted counted.format none with unbegun | ⟨v, ran, settled⟩
          · exact counted.unbegun unbegun
          · obtain ⟨countedThen, seated, -⟩ := counted.ensured ran
            exact countedThen.settled settled fun _ => seated
        · rw [one]
          exact counted.began began

theorem Diary.enumerates_calls (counted : Enumerates diary.entries diary.trail.state) (calls : List Call) :
    Enumerates (calls.foldl (Diary.call env) diary).entries (calls.foldl (Diary.call env) diary).trail.state := by
  induction calls generalizing diary with
  | nil => exact counted
  | cons c calls ih => exact ih (Diary.enumerates_call counted c)

/-- A writer just opened has begun no record. -/
theorem new_enumerates {args : NewArgs} (format : args.format = .variableTsRc) (dir : Dir) :
    Meets (LogWrite.new env args) (Trail.start dir).state (fun _ t => Enumerates [] t) (fun _ _ => True) := by
  rw [LogWrite.new_eq, meets_bind]
  refine (prepare_passes args).imp ?_ fun _ _ _ => trivial
  rintro _ t ⟨created, -, ⟨clock, fresh⟩, -⟩
  have isTsRc : t.format = .variableTsRc := by
    rw [fresh]
    exact format
  have closed : t.current = none := by
    rw [fresh]
    rfl
  have calm : Calm t := by
    refine ⟨?_, by simp [isTsRc]⟩
    rw [madeBy, foldl_note_of_plain rfl created]
  have counted : Enumerates [] t := by
    refine ⟨isTsRc, calm, .nil _, ?_, fun isOpen => absurd closed isOpen⟩
    rw [fresh]
    exact Nat.zero_le _
  exact (startSession_begins closed).imp (fun _ u begins => (counted.begins begins).1) fun _ _ _ => trivial

theorem new_format (args : NewArgs) {s : WriteState} : Meets (LogWrite.new env args) s
    (fun _ t => t.format = args.format) (fun _ _ => True) := by
  rw [LogWrite.new_eq, meets_bind]
  refine (prepare_passes args).imp ?_ fun _ _ _ => trivial
  rintro _ t ⟨-, -, ⟨clock, fresh⟩, -⟩
  refine ((format_follows env).startSession t).imp (fun _ _ same => same.trans ?_) fun _ _ _ => trivial
  rw [fresh]
  rfl

/-- Only records with a timestamp are noted. -/
theorem Diary.entries_calls (format : diary.trail.state.format ≠ .variableTsRc)
    (none : diary.entries = []) (calls : List Call) : (calls.foldl (Diary.call env) diary).entries = [] := by
  induction calls generalizing diary with
  | nil => exact none
  | cons c calls ih =>
      have same : (diary.call env c).trail.state.format = diary.trail.state.format := by
        rw [Diary.trail_call]
        exact (format_follows env).call diary.trail c
      refine ih (same ▸ format) ?_
      rcases Diary.call_cases env diary c with unchanged | ⟨msg, v, u, e, -, -, began⟩
      · exact unchanged.trans none
      · have rolled := ((settled_follows env).rollIfFull.ok began.file).format
        exact absurd (began.minted.format ▸ (rolled.trans (ensured_format began.session)).symm) format

theorem Timely.goesOn (timely : Timely env s t) : s.events <+: t.events := by
  obtain ⟨more, events, -⟩ := timely.events
  exact ⟨more, events.symm⟩

/-- What was done for a record stands in the trace of the whole run. -/
theorem Diary.traced_calls (traced : ∀ e ∈ diary.entries, e.after.events <+: diary.trail.state.events)
    (calls : List Call) : ∀ e ∈ (calls.foldl (Diary.call env) diary).entries,
      e.after.events <+: (calls.foldl (Diary.call env) diary).trail.state.events := by
  have follows := timely_follows env
  induction calls generalizing diary with
  | nil => exact traced
  | cons c calls ih =>
      refine ih fun e mem => ?_
      have step : diary.trail.state.events <+: (diary.call env c).trail.state.events := by
        rw [Diary.trail_call]
        exact (follows.call diary.trail c).goesOn
      rcases Diary.call_cases env diary c with unchanged | ⟨msg, v, u, e', -, one, began⟩
      · rw [unchanged] at mem
        exact (traced e mem).trans step
      · rw [one, List.mem_append, List.mem_singleton] at mem
        rcases mem with earlier | rfl
        · exact (traced e earlier).trans step
        · rw [began.notices]
          split
          · exact Timely.goesOn (ending_meets (follows.toWrites.noticeComplete e.after))
          · exact List.prefix_rfl

end Calls

/-- The counts of each session are one, two and so on up to the largest there
is, and the record after that belongs to a later session, whose first file was
made current in between.  They are stored with the records, as the writer
reports them and a reader decodes them. -/
theorem records_counted (env : WriteEnv) (dir : Dir) (life : Life) :
    let diary := Diary.keep env dir life
    (∀ session, ∃ m ≤ recordCountMax, diary.counts session = List.range' 1 m) ∧
      (diary.entries.IsChain fun e e' => e.rc.toNat = recordCountMax →
        e.session < e'.session ∧ e'.rc = 1) ∧
      (∀ e ∈ diary.entries, ∀ e' ∈ diary.entries, e.session = e'.session →
        e.state.sessionId = e'.state.sessionId) ∧
      (∀ e ∈ diary.entries, (sessionsBegun e.state.events).getLast?.map SegmentHeader.sessionId =
        some e.state.sessionId) ∧
      (∀ e ∈ diary.entries, e.after.events <+: (Trail.run env dir [life]).state.events) ∧
      ∀ e ∈ diary.entries, Recorded e := by
  change _ ∧ _ ∧ _ ∧ _ ∧ _ ∧ _
  rw [Trail.run, List.foldl_cons, List.foldl_nil]
  cases ran : (LogWrite.new env life.args).run (Trail.start dir).state with
  | error stop t =>
      rw [Diary.keep_of_error ran]
      have none := Tallied.nil 0
      exact ⟨none.each, none.turns, none.names, none.begins, by simp, none.recorded⟩
  | ok a t =>
      let opened : Diary := ⟨⟨t, [.opened life.args .none], (Trail.start dir).journal.begin t⟩, []⟩
      have keeps : Diary.keep env dir life = life.calls.foldl (Diary.call env) opened :=
        Diary.keep_of_ok ran
      have tallied : ∃ sessions, Tallied (Diary.keep env dir life).entries sessions := by
        rw [keeps]
        by_cases format : life.args.format = .variableTsRc
        · have counted : Enumerates opened.entries opened.trail.state := (new_enumerates format dir).of_ok ran
          exact ⟨_, (Diary.enumerates_calls counted life.calls).tallied⟩
        · have other : opened.trail.state.format ≠ .variableTsRc :=
            (new_format life.args).of_ok ran ▸ format
          rw [Diary.entries_calls other rfl life.calls]
          exact ⟨0, .nil 0⟩
      obtain ⟨sessions, tallied⟩ := tallied
      refine ⟨tallied.each, tallied.turns, tallied.names, tallied.begins, fun e mem => ?_, tallied.recorded⟩
      have untraced : ∀ e ∈ opened.entries, e.after.events <+: opened.trail.state.events := by simp [opened]
      rw [keeps] at mem
      refine (Diary.traced_calls untraced life.calls e mem).trans ?_
      rw [← keeps, Diary.keep_trail ran, Trail.live_of_ok ran]
      exact Timely.goesOn (ending_meets ((timely_follows env).toWrites.drop _))

end Tcslog
