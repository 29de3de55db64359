import Tcslog.Write.Traces

/-!
# The files a writer makes current

A file is made current when its header is stored whole right after it was
created.  Which files were, and which of them began a session, can be told from
what was done to the log.
-/

namespace Tcslog

open Lib.Program

/-- What the events so far say: a file created whose header is to be stored, and
the headers of the files made current. -/
structure Made where
  naming : Option SegId
  headers : List SegmentHeader

/-- A file is made current when its header is stored whole right after it was created. -/
def Made.note (made : Made) : WriteEvent → Made
  | .created id => { made with naming := some id }
  | .appended id bytes =>
      if made.naming = some id then
        { naming := none
          headers :=
            if bytes.length = segmentFileHeaderLen then
              made.headers ++ (SegmentHeader.fromBytes bytes).toOption.toList
            else made.headers }
      else made
  | _ => made

def madeBy (events : List WriteEvent) : Made :=
  events.foldl Made.note ⟨none, []⟩

/-- The header stored in the file most recently made current. -/
def madeCurrent (events : List WriteEvent) : Option SegmentHeader :=
  (madeBy events).headers.getLast?

/-- The headers stored in the first files of the sessions begun. -/
def sessionsBegun (events : List WriteEvent) : List SegmentHeader :=
  (madeBy events).headers.filter (·.sequence = 0)

section Made

variable {made : Made} {events more : List WriteEvent} {id : SegId}

theorem madeBy_append : madeBy (events ++ more) = more.foldl Made.note (madeBy events) :=
  List.foldl_append

/-- Without a file that was just created no file is made current. -/
theorem foldl_note_of_plain (calm : made.naming = none) (plain : createdIds more = []) :
    more.foldl Made.note made = made := by
  induction more with
  | nil => rfl
  | cons event more ih =>
      have unnoted : made.note event = made := by
        cases event with
        | created id => simp [createdIds] at plain
        | appended id bytes => simp [Made.note, calm]
        | _ => rfl
      rw [List.foldl_cons, unnoted]
      refine ih ?_
      cases event with
      | created id => simp [createdIds] at plain
      | _ => simpa [createdIds] using plain

theorem foldl_note_of_waits (waits : ∀ event ∈ more, event.waits) :
    more.foldl Made.note made = made := by
  induction more with
  | nil => rfl
  | cons event more ih =>
      have here := waits event (by simp)
      have unnoted : made.note event = made := by
        cases event with
        | slept _ => rfl
        | adjusted _ => rfl
        | _ => simp [WriteEvent.waits] at here
      rw [List.foldl_cons, unnoted]
      exact ih fun event' mem => waits event' (by simp [mem])

end Made

/-- No file is being named, and headers of the writer's format can be read. -/
structure Calm (s : WriteState) : Prop where
  naming : (madeBy s.events).naming = none
  sound : s.format ≠ .fixed 0

/-- A header is stored whole, or a part of it that is shorter. -/
theorem writeAll_stores {env : WriteEnv} (id : SegId) {bytes : Bytes} (some : bytes ≠ []) (s : WriteState) :
    Meets (writeAll env id bytes) s
      (fun done t => ∃ chunk, Adds [.appended id chunk] s t ∧
        (if done then chunk = bytes else chunk.length < bytes.length))
      (fun _ _ => False) := by
  have long := List.length_pos_of_ne_nil some
  simp only [writeAll, meets_bind, fileName]
  refine tick_spec.imp ?_ (by simp)
  rintro t _ ⟨rfl, rfl⟩
  simp only [meets_get, meets_pure, meets_ite, emit, meets_bind, meets_modify]
  refine ⟨fun _ => ⟨_, rfl, ?_⟩, fun _ => ⟨_, rfl, rfl⟩⟩
  simp only [Bool.false_eq_true, if_false, List.length_take]
  omega

section Calls

variable {env : WriteEnv} {s t u : WriteState}

theorem Asked.made (asked : Asked s t) (calm : Calm s) : madeBy t.events = madeBy s.events := by
  obtain ⟨more, events, plain⟩ := asked.events
  rw [events, madeBy_append]
  exact foldl_note_of_plain calm.naming plain

theorem Asked.calm (asked : Asked s t) (calm : Calm s) : Calm t := by
  refine ⟨asked.made calm ▸ calm.naming, ?_⟩
  rw [asked.same]
  exact calm.sound

/-- A file just named, with its header stored whole or not. -/
structure Heads (env : WriteEnv) (s : WriteState) (header : SegmentHeader) (done : Bool)
    (t : WriteState) : Prop where
  names : ∃ named, Names env s header.segmentId named
  same : t.toLogWrite = { s.toLogWrite with
    timerResolution := t.timerResolution, sessionId := header.sessionId }
  made : madeBy t.events = ⟨none, if done then (madeBy s.events).headers ++ [header]
    else (madeBy s.events).headers⟩
  past : header.segmentId.toNat ≤ env.reading t.clock t.ops
  later : s.ops ≤ t.ops

theorem heads_of_wrote {id sessionId : SegId} {header : SegmentHeader} {done : Bool} (calm : Calm s)
    (named : (createUniqueFile env env.attempts false).run s = .ok id t)
    (isHeader : header = t.headerOf id sessionId)
    (wrote : (writeAll env id header.toBytes).run { t with sessionId := sessionId } = .ok done u) :
    Heads env s header done u := by
  have names := (createUniqueFile_names env _ _ s).of_ok named
  obtain ⟨more, waits, created⟩ := (createUniqueFile_adds env _ _ s).of_ok named
  have whole := SegmentHeader.length_toBytes header
  have nonempty : header.toBytes ≠ [] := List.ne_nil_of_length_pos (by rw [whole]; decide)
  obtain ⟨chunk, appended, stored⟩ := (writeAll_stores id nonempty _).of_ok wrote
  have kept : u.toLogWrite = { t.toLogWrite with sessionId := sessionId } :=
    (writeAll_same env _ _ _).of_ok wrote
  have later := ((writeAll_asked env id _ _).of_ok wrote).later
  have noted : madeBy u.events = ⟨none, if chunk.length = segmentFileHeaderLen then
      (madeBy s.events).headers ++ (SegmentHeader.fromBytes chunk).toOption.toList
      else (madeBy s.events).headers⟩ := by
    rw [appended, madeBy_append, created, madeBy_append, List.foldl_append, foldl_note_of_waits waits]
    simp [Made.note]
  obtain ⟨n, after, before, isReading⟩ := names.reading
  subst isHeader
  have past : id.toNat ≤ env.reading u.clock u.ops := by
    rw [kept, isReading]
    change _ ≤ env.reading t.clock u.ops
    rw [names.clock]
    exact env.reading_mono _ (before.le.trans later)
  refine ⟨⟨t, names⟩, ?_, ?_, past, (after.trans before.le).trans later⟩
  · rw [kept, names.same]
    rfl
  · cases done with
    | true =>
        obtain rfl : chunk = _ := stored
        have sound : t.format ≠ .fixed 0 := by
          rw [names.same]
          exact calm.sound
        rw [noted, if_pos whole, SegmentHeader.fromBytes_toBytes (Nat.le_refl _) sound]
        rfl
    | false =>
        have short : chunk.length < segmentFileHeaderLen := by simpa [whole] using stored
        rw [noted, if_neg (Nat.ne_of_lt short)]
        rfl

/-- A file created is made current, and begins a session if its sequence is
zero. -/
theorem createSegment_makes (opensSession : Bool) (calm : Calm s) :
    Meets (createSegment env opensSession) s
      (fun _ t => Calm t ∧ ∃ header, (madeBy t.events).headers = (madeBy s.events).headers ++ [header] ∧
        header.sequence = s.sequence ∧ header.sessionId = t.sessionId)
      (fun _ t => Calm t ∧ madeBy t.events = madeBy s.events) := by
  rw [createSegment, meets_bind]
  refine ((createUniqueFile_names env _ _ s).and meets_run).imp ?_ fun _ _ failed =>
    ⟨failed.1.calm calm, failed.1.made calm⟩
  rintro id t ⟨names, named⟩
  simp only [meets_bind, meets_modify, meets_get]
  refine (meets_run.and (writeAll_same ..)).imp ?_ fun _ _ failed => failed.2.elim
  rintro done u ⟨wrote, -⟩
  have heads := heads_of_wrote calm named rfl wrote
  have same := heads.same
  have calmThen : Calm u := ⟨congrArg Made.naming heads.made, by rw [same]; exact calm.sound⟩
  cases done with
  | true =>
      refine ⟨⟨calmThen.naming, calmThen.sound⟩, _, congrArg Made.headers heads.made, ?_, ?_⟩
      · change t.sequence = s.sequence
        rw [names.same]
      · change _ = u.sessionId
        rw [same]
  | false =>
      refine ⟨calmThen, ?_⟩
      rw [heads.made, ← calm.naming]
      rfl

end Calls

end Tcslog
