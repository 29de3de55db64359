import Tcslog.Write.Diary

/-!
# The trace of a request

Which events each request of a writer adds to the list of what was done, and
the data bytes that a list of events stored.
-/

namespace Tcslog

open Lib.Program WriteState

/-- Exactly the events `more` were added. -/
def Adds (more : List WriteEvent) (s t : WriteState) : Prop :=
  t.events = s.events ++ more

section Adds

variable {s t u : WriteState} {more more' : List WriteEvent}

theorem Adds.refl (s : WriteState) : Adds [] s s :=
  (List.append_nil _).symm

theorem Adds.trans (first : Adds more s t) (second : Adds more' t u) : Adds (more ++ more') s u := by
  rw [Adds, second, first, List.append_assoc]

theorem Adds.of_eq (events : t.events = s.events) : Adds [] s t :=
  events.trans (Adds.refl s)

/-- Events of a writer that waits for its clock. -/
def WriteEvent.waits : WriteEvent → Bool
  | slept _ => true
  | adjusted _ => true
  | _ => false

end Adds

section Requests

variable (env : WriteEnv)

theorem flushFile_adds (id : SegId) (s : WriteState) :
    Meets (flushFile env id) s (fun _ t => Adds [.flushed id] s t) (fun _ t => Adds [] s t) := by
  simp only [flushFile, meets_bind]
  refine tick_spec.imp ?_ (by simp)
  rintro t _ ⟨rfl, rfl⟩
  simp only [meets_ite, meets_fail, emit, meets_modify]
  exact ⟨fun _ => .of_eq rfl, fun _ => rfl⟩

theorem recordComplete_adds (id : SegId) (s : WriteState) :
    Meets (recordComplete env id) s (fun _ t => Adds [.completed id] s t)
      (fun _ t => Adds [] s t) := by
  simp only [recordComplete, meets_bind]
  refine tick_spec.imp ?_ (by simp)
  rintro t _ ⟨rfl, rfl⟩
  simp only [meets_ite, meets_fail, emit, meets_modify]
  exact ⟨fun _ => .of_eq rfl, fun _ => rfl⟩

theorem send_adds (id : SegId) (s : WriteState) :
    Meets (send env id) s (fun _ t => Adds [.sent id] s t) (fun _ t => Adds [] s t) := by
  simp only [send, meets_bind, fileName]
  refine tick_spec.imp ?_ (by simp)
  rintro t _ ⟨rfl, rfl⟩
  simp only [meets_get, meets_pure, meets_ite, meets_fail, emit, meets_modify]
  exact ⟨fun _ => .of_eq rfl, fun _ => rfl⟩

theorem writeAll_adds (id : SegId) (bytes : Bytes) (s : WriteState) :
    Meets (writeAll env id bytes) s
      (fun done t => ∃ chunk, chunk <+: bytes ∧ (done = true → chunk = bytes) ∧
        Adds [.appended id chunk] s t)
      (fun _ _ => False) := by
  simp only [writeAll, meets_bind, fileName]
  refine tick_spec.imp ?_ (by simp)
  rintro t _ ⟨rfl, rfl⟩
  simp only [meets_get, meets_pure, meets_ite, emit, meets_bind, meets_modify]
  exact ⟨fun _ => ⟨_, List.take_prefix _ _, by simp, rfl⟩,
    fun _ => ⟨_, List.prefix_rfl, fun _ => rfl, rfl⟩⟩

theorem removeFile_adds (id : SegId) (s : WriteState) :
    Meets (removeFile env id) s (fun _ t => Adds [.removed id] s t) (fun _ t => Adds [] s t) := by
  simp only [removeFile, meets_bind, fileName]
  refine tick_spec.imp ?_ (by simp)
  rintro t _ ⟨rfl, rfl⟩
  simp only [meets_get, meets_pure, meets_ite, meets_fail, emit, meets_modify]
  exact ⟨fun _ => .of_eq rfl, fun _ => rfl⟩

theorem scan_adds (s : WriteState) :
    Meets (scan env) s (fun ids t => ids = scanSegmentIds s.dir s.namePrefix s.nameSuffix ∧ Adds [] s t)
      (fun _ t => Adds [] s t) := by
  simp only [scan, meets_bind]
  refine tick_spec.imp ?_ (by simp)
  rintro t _ ⟨rfl, rfl⟩
  simp only [meets_get, meets_ite, meets_fail, meets_pure]
  exact ⟨fun _ => .of_eq rfl, fun _ => ⟨trivial, .of_eq rfl⟩⟩

theorem now_adds (s : WriteState) :
    Meets (now env) s (fun _ t => Adds [] s t) (fun _ t => Adds [] s t) :=
  (now_exact env s).imp (fun _ _ exact_ => .of_eq (by rw [exact_.1]))
    fun _ _ same => .of_eq (by rw [same])

theorem noteCollision_adds (collided : Bool) (s : WriteState) :
    Meets (noteCollision collided) s
      (fun _ t => ∃ more, (∀ event ∈ more, event.waits) ∧ Adds more s t) (fun _ _ => False) := by
  simp only [noteCollision, meets_bind, meets_get, meets_ite, meets_set, emit, meets_modify]
  refine ⟨fun _ => ⟨[_, _], ?_, List.append_assoc ..⟩, fun _ => ⟨[_], ?_, rfl⟩⟩
  · simp [WriteEvent.waits]
  · simp [WriteEvent.waits]

theorem forM_adds {action : SegId → WriteM Unit} (event : SegId → WriteEvent)
    (adds : ∀ id s, Meets (action id) s (fun _ u => Adds [event id] s u) (fun _ _ => True))
    (ids : List SegId) (s : WriteState) :
    Meets (ids.forM action) s (fun _ u => Adds (ids.map event) s u) (fun _ _ => True) := by
  induction ids generalizing s with
  | nil => exact Adds.refl s
  | cons id ids ih =>
      change Meets (action id >>= fun _ => ids.forM action) s _ _
      rw [meets_bind]
      refine (adds id s).imp (fun _ u one => ?_) fun _ _ _ => trivial
      exact (ih u).imp (fun _ v rest => one.trans rest) fun _ _ _ => trivial

/-- A writer may have to wait for its clock before it has a name for a file. -/
theorem createUniqueFile_adds (attempts : Nat) (collided : Bool) (s : WriteState) :
    Meets (createUniqueFile env attempts collided) s
      (fun id t => ∃ more, (∀ event ∈ more, event.waits) ∧ Adds (more ++ [.created id]) s t)
      (fun _ t => ∃ more, (∀ event ∈ more, event.waits) ∧ Adds more s t) := by
  induction attempts generalizing s collided with
  | zero => exact ⟨[], by simp, .refl s⟩
  | succ attempts ih =>
      rw [createUniqueFile, meets_bind, nowSegId, meets_bind]
      refine (now_adds env s).imp (fun n t read => ?_) fun _ t read => ⟨[], by simp, read⟩
      rw [meets_pure, meets_bind]
      refine (createNew_creates env _ t).imp ?_ (by simp)
      rintro creation u ⟨-, -, events⟩
      cases creation with
      | refused => exact ⟨[], by simp, read.trans (.of_eq (by simpa using events))⟩
      | made => exact ⟨[], by simp, read.trans (by simpa [Adds] using events)⟩
      | alreadyExists =>
          have stays : Adds [] s u := read.trans (.of_eq (by simpa using events))
          rw [meets_bind]
          refine (noteCollision_adds collided u).imp ?_ (by simp)
          rintro _ v ⟨first, waits, adds⟩
          have both (event : WriteEvent) (rest : List WriteEvent)
              (waits' : ∀ event ∈ rest, event.waits) (mem : event ∈ first ++ rest) : event.waits := by
            rcases List.mem_append.mp mem with early | late
            · exact waits event early
            · exact waits' event late
          refine (ih true v).imp ?_ ?_
          · rintro id' w ⟨rest, waits', adds'⟩
            refine ⟨first ++ rest, fun event => both event rest waits', ?_⟩
            simpa using (stays.trans adds).trans adds'
          · rintro _ w ⟨rest, waits', adds'⟩
            exact ⟨first ++ rest, fun event => both event rest waits', (stays.trans adds).trans adds'⟩

/-- A file's header is appended as soon as it is created. -/
theorem createSegment_adds (opensSession : Bool) (s : WriteState) :
    Meets (createSegment env opensSession) s
      (fun _ t => ∃ more id header, (∀ event ∈ more, event.waits) ∧
        t.current = some ⟨id, 0⟩ ∧ Adds (more ++ [.created id, .appended id header]) s t)
      (fun _ t => ∃ more, (∀ event ∈ more, event.waits) ∧
        (Adds more s t ∨ ∃ id header, Adds (more ++ [.created id, .appended id header]) s t)) := by
  rw [createSegment, meets_bind]
  refine (createUniqueFile_adds env _ _ s).imp ?_ fun _ t adds => ?_
  · rintro id t ⟨more, waits, adds⟩
    simp only [meets_bind, meets_modify, meets_get]
    have created {u : WriteState} (chunk : Bytes)
        (written : Adds [.appended id chunk] { t with
          sessionId := if opensSession then id else t.sessionId } u) :
        Adds (more ++ [.created id, .appended id chunk]) s u := by
      have both := Adds.trans (adds.trans (.of_eq rfl)) written
      simpa using both
    refine (writeAll_adds env id _ _).imp ?_ (by simp)
    rintro done u ⟨chunk, -, -, written⟩
    cases done with
    | true => exact ⟨more, id, chunk, waits, rfl, created chunk written⟩
    | false => exact ⟨more, waits, .inr ⟨id, chunk, created chunk written⟩⟩
  · obtain ⟨more, waits, adds⟩ := adds
    exact ⟨more, waits, .inl adds⟩

end Requests

/-! ## Data -/

/-- The data bytes that events stored: the bytes that follow the creation of a
file are its header. -/
def storedData : List WriteEvent → Bytes
  | [] => []
  | .created _ :: .appended _ _ :: rest => storedData rest
  | .appended _ chunk :: rest => chunk ++ storedData rest
  | _ :: rest => storedData rest

/-- Exactly the data bytes `data` were stored. -/
def Puts (data : Bytes) (s t : WriteState) : Prop :=
  ∃ more, Adds more s t ∧ ∀ rest, storedData (more ++ rest) = data ++ storedData rest

/-- Some first bytes of `data` were stored. -/
def PutsSome (data : Bytes) (s t : WriteState) : Prop :=
  ∃ front, front <+: data ∧ Puts front s t

section Puts

variable {env : WriteEnv} {s t u : WriteState} {data data' : Bytes}

theorem Puts.trans (first : Puts data s t) (second : Puts data' t u) :
    Puts (data ++ data') s u := by
  obtain ⟨more, adds, stores⟩ := first
  obtain ⟨more', adds', stores'⟩ := second
  refine ⟨more ++ more', adds.trans adds', fun rest => ?_⟩
  rw [List.append_assoc, stores, stores', List.append_assoc]

theorem Puts.refl (s : WriteState) : Puts [] s s :=
  ⟨[], .refl s, fun _ => rfl⟩

theorem Puts.onward (first : Puts data s t) (silent : Puts [] t u) : Puts data s u := by
  simpa using first.trans silent

theorem Puts.quiet (first : Puts [] s t) (second : Puts [] t u) : Puts [] s u :=
  first.onward second

theorem Adds.silent {more : List WriteEvent} (adds : Adds more s t)
    (waits : ∀ event ∈ more, event.waits) : Puts [] s t := by
  refine ⟨more, adds, fun rest => ?_⟩
  clear adds
  induction more with
  | nil => rfl
  | cons event more ih =>
      have here := waits event (by simp)
      have there := ih fun event' mem => waits event' (by simp [mem])
      cases event with
      | slept _ => exact there
      | adjusted _ => exact there
      | _ => simp [WriteEvent.waits] at here

theorem createSegment_silent (opensSession : Bool) :
    Preserves (Puts []) (createSegment env opensSession) := by
  intro s
  have silent {t : WriteState} {more : List WriteEvent} {id : SegId} {header : Bytes}
      (waits : ∀ event ∈ more, event.waits)
      (adds : Adds (more ++ [.created id, .appended id header]) s t) : Puts [] s t := by
    have waited : Puts [] s { s with events := s.events ++ more } := Adds.silent rfl waits
    refine waited.quiet ⟨[.created id, .appended id header], ?_, fun _ => rfl⟩
    rw [Adds, adds, List.append_assoc]
  refine (createSegment_adds env opensSession s).imp ?_ ?_
  · rintro _ t ⟨more, id, header, waits, -, adds⟩
    exact silent waits adds
  · rintro _ t ⟨more, waits, adds | ⟨id, header, adds⟩⟩
    · exact adds.silent waits
    · exact silent waits adds

theorem Adds.puts_nil (adds : Adds [] s t) : Puts [] s t :=
  ⟨[], adds, fun _ => rfl⟩

theorem closeAndSend_silent : Preserves (Puts []) (closeAndSend env) := by
  apply Leads.bind_get
  intro s
  cases s.current with
  | none => exact Puts.refl s
  | some cur =>
      have close : Preserves (Puts []) (flushFile env cur.id) := fun s =>
        (flushFile_adds env cur.id s).imp (fun _ _ adds => ⟨_, adds, fun _ => rfl⟩)
          fun _ _ adds => adds.puts_nil
      have handOver : Preserves (Puts []) (send env cur.id) := fun s =>
        (send_adds env cur.id s).imp (fun _ _ adds => ⟨_, adds, fun _ => rfl⟩)
          fun _ _ adds => adds.puts_nil
      refine Leads.bind (R := Puts []) (E := Puts []) (.modify fun s => ?_) (fun _ => ?_)
        .quiet .quiet s
      · exact Adds.puts_nil (.of_eq rfl)
      · exact Leads.bind close (fun _ => handOver) .quiet .quiet

theorem roll_silent : Preserves (Puts []) (roll env) := by
  apply Leads.bind closeAndSend_silent (fun _ => ?_) .quiet .quiet
  refine Leads.bind (.modify fun s => ?_) (fun _ => createSegment_silent false) .quiet .quiet
  exact Adds.puts_nil (.of_eq rfl)

theorem rollIfFull_silent : Preserves (Puts []) (rollIfFull env) := by
  intro s
  rw [rollIfFull, meets_bind]
  refine (room_left env s).imp ?_ ?_
  · rintro n s ⟨rfl, -⟩
    rw [meets_ite]
    exact ⟨fun _ => roll_silent s, fun _ => Puts.refl s⟩
  · rintro _ s ⟨rfl, -⟩
    exact Puts.refl s

theorem abandonAfterError_silent : Preserves (Puts []) (abandonAfterError env) := by
  refine Leads.bind (.modify fun s => ?_) (fun _ => ?_) .quiet .quiet
  · exact Adds.puts_nil (.of_eq rfl)
  apply Leads.bind (preserves_attempt closeAndSend_silent) (fun _ => ?_) .quiet .quiet
  refine Leads.bind (.modify fun s => ?_) (fun _ => createSegment_silent false) .quiet .quiet
  exact Adds.puts_nil (.of_eq rfl)

theorem writeChunk_puts (data : Bytes) (s : WriteState) :
    Meets (writeChunk env data) s (fun n t => Puts (data.take n) s t)
      (fun _ t => PutsSome data s t) := by
  have nothing {t : WriteState} (silent : Puts [] s t) : PutsSome data s t :=
    ⟨[], List.nil_prefix, silent⟩
  rw [writeChunk, meets_bind]
  refine (rollIfFull_silent s).imp (fun _ t rolled => ?_) fun _ t rolled => nothing rolled
  rw [meets_bind]
  refine (room_left env t).imp ?_ (by rintro _ t ⟨rfl, -⟩; exact nothing rolled)
  rintro n t ⟨rfl, -⟩
  rw [meets_bind, meets_get]
  cases t.current with
  | none => exact nothing rolled
  | some cur =>
      rw [meets_bind]
      refine (writeAll_adds env cur.id _ t).imp ?_ (by simp)
      rintro done u ⟨chunk, front, whole, adds⟩
      have stored : Puts chunk s u := rolled.trans ⟨_, adds, fun _ => rfl⟩
      cases done with
      | true =>
          rw [whole rfl] at stored
          simp only [if_true, meets_bind, meets_modify, meets_pure]
          exact stored.onward (Adds.puts_nil (.of_eq rfl))
      | false =>
          simp only [Bool.false_eq_true, if_false, meets_bind, meets_fail]
          have abandoned (v : WriteState) (silent : Puts [] u v) : PutsSome data s v :=
            ⟨chunk, front.trans (List.take_prefix _ _), stored.onward silent⟩
          exact (abandonAfterError_silent u).imp (fun _ v silent => abandoned v silent)
            fun _ v silent => abandoned v silent

/-- What is stored is stored to the end, or up to where it failed. -/
theorem writeBytes_puts (data : Bytes) (s : WriteState) :
    Meets (writeBytes env data) s (fun _ t => Puts data s t) (fun _ t => PutsSome data s t) := by
  induction len : data.length using Nat.strong_induction_on generalizing data s with
  | _ len ih =>
      subst len
      by_cases none : data = []
      · subst none
        rw [writeBytes]
        exact Puts.refl s
      · rw [writeBytes, dif_neg none, meets_bind]
        refine (writeChunk_puts data s).imp (fun n t stored => ?_) fun _ _ some => some
        split
        next stuck => exact ⟨_, List.take_prefix n data, stored⟩
        next more =>
          have shorter : (data.drop n).length < data.length := by
            have := List.length_pos_of_ne_nil none
            rw [List.length_drop]
            omega
          refine (ih _ shorter (data.drop n) t rfl).imp (fun _ u rest => ?_) ?_
          · simpa using stored.trans rest
          · rintro _ u ⟨front, isFront, rest⟩
            refine ⟨data.take n ++ front, ?_, stored.trans rest⟩
            calc data.take n ++ front
              _ <+: data.take n ++ data.drop n := (List.prefix_append_right_inj _).mpr isFront
              _ = data := List.take_append_drop n data

end Puts

end Tcslog
