import Tcslog.System.Damage
import Tcslog.Write.Faults

/-!
# The sessions of a log on disk

The files of a session, in the order of their identifiers, are numbered from
zero, name the session, and hold its records end to end in data sections that
are full but for the last.
-/

namespace Tcslog

open Lib.Program Lib.Spanned

/-- The data section of a file. -/
def dataOf (files : SegId → Option Bytes) (id : SegId) : Bytes :=
  ((files id).getD []).drop segmentFileHeaderLen

/-- Of the record in progress at byte `p` of the records laid end to end, `n`
bytes are still to come. -/
def Owes (records : List Record) (p n : Nat) : Prop :=
  ∃ i, i ≤ records.length ∧ ((records.take i).flatMap Record.encode).length = p + n ∧
    ∀ i', i' < i → ((records.take i').flatMap Record.encode).length < p

/-- What file `j` of a session's files says of itself, and how long it is. -/
structure FileOf (files : SegId → Option Bytes) (session : Session) (ids : List SegId) (j : Nat)
    (id : SegId) (content : Bytes) (header : SegmentHeader) : Prop where
  present : files id = some content
  decodes : SegmentHeader.fromBytes content = .ok header
  segmentId : header.segmentId = id
  sessionId : header.sessionId = session.id
  sequence : header.sequence.toNat = j
  maxSize : header.maxSize = session.segSizeMax
  format : header.format = session.format
  remaining : Owes session.records ((ids.take j).flatMap (dataOf files)).length header.remaining.toNat
  bounded : content.length ≤ session.segSizeMax.toNat
  filled : j + 1 < ids.length → content.length = session.segSizeMax.toNat ∧ dataOf files id ≠ []

/-- A session as its files hold it. -/
structure SessionOnDisk (files : SegId → Option Bytes) (session : Session) (ids : List SegId) :
    Prop where
  ascending : ids.Pairwise (· < ·)
  head : ids.head? = some session.id
  headed : ∀ {j id}, ids[j]? = some id → ∃ content header, FileOf files session ids j id content header
  all : ∀ {id content header}, files id = some content →
    SegmentHeader.fromBytes content = .ok header → header.sessionId = session.id → id ∈ ids
  data : ids.flatMap (dataOf files) = session.records.flatMap Record.encode
  returned : session.returned = (ids.flatMap (dataOf files)).length

/-! ## A strand's files -/

section Files

variable {files : SegId → Option Bytes} {L : Log} {k j : Nat} {σ : Strand} {id : SegId}
  {session : Session}

theorem dataOf_file (disk : OnDisk files L) (fileAt : L.FileAt k j σ id) : dataOf files id = σ.data j := by
  rw [dataOf, disk.shown fileAt, Option.getD_some, Strand.file]
  exact List.drop_left' (SegmentHeader.length_toBytes _)

/-- The data sections of the first files are the front of the tape. -/
theorem flatMap_dataOf (disk : OnDisk files L) (strandAt : L.strands[k]? = some σ) (n : Nat) :
    (σ.ids.take n).flatMap (dataOf files) = σ.tape.take (min n σ.ids.length * σ.dataSection) := by
  rw [← flatten_pages]
  induction n with
  | zero => simp
  | succ n ih =>
      rcases Nat.lt_or_ge n σ.ids.length with within | past
      · have fileAt : L.FileAt k n σ σ.ids[n] := ⟨strandAt, List.getElem?_eq_getElem within⟩
        rw [List.take_succ_eq_append_getElem within, List.flatMap_append, ih,
          List.flatMap_singleton, dataOf_file disk fileAt, Nat.min_eq_left within.le,
          Nat.min_eq_left (Nat.succ_le_of_lt within), List.range_succ, List.map_append,
          List.flatten_append]
        simp [Strand.data]
      · rw [List.take_of_length_le past, Nat.min_eq_right past] at ih
        rw [List.take_of_length_le (Nat.le_succ_of_le past), ih,
          Nat.min_eq_right (Nat.le_succ_of_le past)]

theorem flatMap_encode (records : List Record) (i : Nat) :
    ((records.take i).flatMap Record.encode).length = offset (records.map Record.encode) i := by
  rw [offset, ← List.map_take, List.flatMap_def]

theorem owes_owed (records : List Record) {p : Nat}
    (within : p ≤ (records.map Record.encode).flatten.length) :
    Owes records p (owed (records.map Record.encode) p) := by
  obtain ⟨i, le, here, before⟩ := exists_offset_eq_add_owed _ within
  rw [List.length_map] at le
  refine ⟨i, le, ?_, fun i' less => ?_⟩
  · rw [flatMap_encode, here]
  · rw [flatMap_encode]
    exact before i' less

theorem fromBytes_of_file (σ : Strand) (j : Nat) (id : SegId) :
    SegmentHeader.fromBytes (σ.file j id) = .ok (σ.header j id) :=
  SegmentHeader.fromBytes_toBytes_append _ (Nat.le_refl _) σ.formatValid

theorem Keeps.headed (keeps : Keeps σ session) (disk : OnDisk files L) (fileAt : L.FileAt k j σ id) :
    FileOf files session σ.ids j id (σ.file j id) (σ.header j id) := by
  have within := fileAt.lt
  have start := σ.page_start_le within
  have front : ((σ.ids.take j).flatMap (dataOf files)).length = j * σ.dataSection := by
    rw [flatMap_dataOf disk fileAt.strandAt, List.length_take, σ.length_tape,
      Nat.min_eq_left within.le, Nat.min_eq_left start]
  have room := σ.dataSection_add
  have short := σ.length_data_le j
  refine ⟨disk.shown fileAt, fromBytes_of_file σ j id, rfl, keeps.id, ?_, keeps.segSizeMax,
    keeps.format, ?_, ?_, fun more => ?_⟩
  · rw [Strand.header_sequence within, keeps.first, Nat.zero_add]
  · rw [front, Strand.header_remaining within, Strand.blocks, keeps.records]
    refine owes_owed _ ?_
    rw [← keeps.records]
    exact start.trans σ.storedLe
  · rw [σ.length_file, ← keeps.segSizeMax]
    omega
  · have full := σ.length_data_of_lt more
    have some := σ.dataSection_pos
    refine ⟨?_, fun none => ?_⟩
    · rw [σ.length_file, ← keeps.segSizeMax]
      omega
    · rw [dataOf_file disk fileAt] at none
      rw [none, List.length_nil] at full
      omega

/-- Strands that are sessions each have a session of their own. -/
theorem Faithful.strand_unique {journal : Journal} (faithful : Faithful L journal) {k' : Nat}
    {τ : Strand} (strandAt : L.strands[k]? = some σ) (strandAt' : L.strands[k']? = some τ)
    (same : τ.sessionId = σ.sessionId) : k' = k := by
  have differs {k k' : Nat} {σ τ : Strand} (strandAt : L.strands[k]? = some σ)
      (strandAt' : L.strands[k']? = some τ) (less : k < k') : τ.sessionId ≠ σ.sessionId := by
    intro same
    obtain ⟨_, _, keeps⟩ := faithful.exists_keeps strandAt'
    rcases (Log.before strandAt strandAt' less).session with lt | ⟨_, after, _⟩
    · exact UInt64.lt_irrefl _ (same ▸ lt)
    · have := List.length_pos_of_ne_nil σ.nonempty
      rw [keeps.first] at after
      omega
  rcases Nat.lt_trichotomy k k' with less | equal | more
  · exact absurd same (differs strandAt strandAt' less)
  · exact equal.symm
  · exact absurd same.symm (differs strandAt' strandAt more)

theorem Faithful.sessionOnDisk {journal : Journal} (faithful : Faithful L journal)
    (disk : OnDisk files L) (strandAt : L.strands[k]? = some σ) (keeps : Keeps σ session) :
    SessionOnDisk files session σ.ids := by
  have whole : σ.ids.flatMap (dataOf files) = σ.tape := by
    have all := flatMap_dataOf disk strandAt σ.ids.length
    rw [List.take_length, Nat.min_self] at all
    rw [all, List.take_of_length_le]
    rw [σ.length_tape]
    exact σ.storedFits
  have full : σ.stored = σ.blocks.flatten.length := keeps.full
  refine ⟨σ.ascending, ?_, fun {j id} idAt => ?_, fun {id content header} present decodes same => ?_,
    ?_, ?_⟩
  · rw [keeps.head, keeps.id]
  · exact ⟨_, _, keeps.headed disk ⟨strandAt, idAt⟩⟩
  · rcases disk.others present with ⟨k', j', τ, fileAt⟩ | short
    · obtain rfl := Option.some.inj ((disk.shown fileAt).symm.trans present)
      rw [fromBytes_of_file] at decodes
      obtain rfl := Except.ok.inj decodes
      have sameStrand := faithful.strand_unique strandAt fileAt.strandAt (same.trans keeps.id.symm)
      subst sameStrand
      obtain rfl := Option.some.inj (fileAt.strandAt.symm.trans strandAt)
      exact List.mem_of_getElem? fileAt.idAt
    · rw [SegmentHeader.fromBytes, if_pos short] at decodes
      contradiction
  · rw [whole, Strand.tape, full, List.take_length, Strand.blocks, keeps.records, List.flatMap_def]
  · rw [whole, σ.length_tape, keeps.returned]

end Files

/-! ## Writers that meet no error -/

namespace Trail

variable {env : WriteEnv} {trail : Trail} {dir : Dir} {lives : List Life}
  {namePrefix nameSuffix : Bytes}

/-- No call returned an error or came to no end. -/
def ErrorFree (trail : Trail) : Prop :=
  ∀ deed ∈ trail.deeds, deed.stop = none ∨ deed.stop = some .panic

/-- No `clear` ran into an arithmetic check. -/
def ClearsUnchecked (trail : Trail) : Prop :=
  ∀ stop, Deed.called .clear stop ∈ trail.deeds → stop ≠ some .panic

theorem call_clearsUnchecked (unchecked : trail.ClearsUnchecked) (c : Call) :
    (trail.call env c).ClearsUnchecked := by
  intro stop mem
  have new (deed : Deed) (deeds : (trail.call env c).deeds = trail.deeds ++ [deed])
      (here : Deed.called .clear stop = deed → stop ≠ some .panic) : stop ≠ some .panic := by
    rw [deeds] at mem
    rcases List.mem_append.mp mem with before | last
    · exact unchecked stop before
    · exact here (List.mem_singleton.mp last)
  cases c with
  | write msg => exact new _ rfl (by simp)
  | flush => exact new _ rfl (by simp)
  | clear =>
      have deeds : (trail.call env .clear).deeds =
        trail.deeds ++ [.called .clear (stopOf (ending (Tcslog.clear env) trail.state).1)] := rfl
      refine new _ deeds fun isDeed => ?_
      simp only [Deed.called.injEq, true_and] at isDeed
      have spec := clear_spec env trail.state
      cases ran : (Tcslog.clear env).run trail.state with
      | ok a t => simp [isDeed, ending_of_ok ran, stopOf]
      | error stop' t => simpa [isDeed, ending_of_error ran, stopOf] using spec.of_error ran

theorem calls_clearsUnchecked (unchecked : trail.ClearsUnchecked) (calls : List Call) :
    (calls.foldl (call env) trail).ClearsUnchecked := by
  induction calls generalizing trail with
  | nil => exact unchecked
  | cons c calls ih => exact ih (call_clearsUnchecked unchecked c)

theorem live_clearsUnchecked (unchecked : trail.ClearsUnchecked) (life : Life) :
    (trail.live env life).ClearsUnchecked := by
  have opened (stop' : Option Stop) (s : WriteState) (journal : Journal) :
      ClearsUnchecked ⟨s, trail.deeds ++ [.opened life.args stop'], journal⟩ := by
    intro stop mem
    exact unchecked stop (by simpa using mem)
  cases ran : (LogWrite.new env life.args).run trail.state with
  | error stop t =>
      rw [live_of_error ran]
      exact opened _ _ _
  | ok a t =>
      rw [live_of_ok ran]
      exact calls_clearsUnchecked (opened _ _ _) life.calls

/-- `clear` computes nothing that could overflow. -/
theorem run_clearsUnchecked (env : WriteEnv) (dir : Dir) (lives : List Life) :
    (run env dir lives).ClearsUnchecked := by
  have started : (start dir).ClearsUnchecked := by simp [ClearsUnchecked, start]
  unfold run
  generalize start dir = trail at started
  induction lives generalizing trail with
  | nil => exact started
  | cons life lives ih => exact ih _ (live_clearsUnchecked started life)

/-- A run without errors meets no arithmetic check: there is always room for
what is written. -/
theorem clean_of_errorFree (leaves : env.Leaves) (empty : ∀ id, dir.files namePrefix nameSuffix id = none)
    (names : ∀ life ∈ lives, life.args.namePrefix = namePrefix ∧ life.args.nameSuffix = nameSuffix)
    (errorFree : (run env dir lives).ErrorFree) : (run env dir lives).Clean := by
  have cleared : (run env dir lives).Cleared := fun stop mem =>
    (errorFree _ mem).resolve_right (run_clearsUnchecked env dir lives stop mem)
  have robust := run_robust (fun _ => True) leaves empty names (fun _ _ => trivial) cleared
  exact fun deed mem => (errorFree deed mem).resolve_right (robust.unchecked deed mem)

end Trail

/-- After every run of writers that return no error, the room left in a file
never underflowed, every file is of a session not cleared, and the files of each
session hold what its writer was told. -/
theorem sessions_on_disk {env : WriteEnv} {dir : Dir} {lives : List Life}
    {namePrefix nameSuffix : Bytes} (leaves : env.Leaves)
    (empty : ∀ id, dir.files namePrefix nameSuffix id = none)
    (names : ∀ life ∈ lives, life.args.namePrefix = namePrefix ∧ life.args.nameSuffix = nameSuffix)
    (errorFree : (Trail.run env dir lives).ErrorFree) :
    (Trail.run env dir lives).Clean ∧
    (∀ id content, (Trail.run env dir lives).files namePrefix nameSuffix id = some content →
      ∃ session ∈ (Trail.run env dir lives).journal.sessions, ∃ header,
        SegmentHeader.fromBytes content = .ok header ∧ header.sessionId = session.id) ∧
    ∀ session ∈ (Trail.run env dir lives).journal.sessions, ∃ ids,
      SessionOnDisk ((Trail.run env dir lives).files namePrefix nameSuffix) session ids := by
  have clean := Trail.clean_of_errorFree leaves empty names errorFree
  obtain ⟨L, disk, noStray, faithful⟩ := Trail.run_sound leaves empty names clean
  refine ⟨clean, fun id content present => ?_, fun session mem => ?_⟩
  · obtain ⟨k, j, σ, fileAt⟩ := noStray id (Option.isSome_of_eq_some present)
    obtain rfl := Option.some.inj ((disk.shown fileAt).symm.trans present)
    obtain ⟨session, sessionAt, keeps⟩ := faithful.exists_keeps fileAt.strandAt
    exact ⟨session, List.mem_of_getElem? sessionAt, _, fromBytes_of_file σ j id, keeps.id⟩
  · obtain ⟨m, less, rfl⟩ := List.getElem_of_mem mem
    obtain ⟨len, at_⟩ := List.forall₂_iff_get.mp faithful
    have keeps := at_ m (len ▸ less) less
    exact ⟨_, faithful.sessionOnDisk disk (List.getElem?_eq_getElem (len ▸ less)) keeps⟩

theorem sessions_on_disk_sample :
    (Trail.run Sample.env ∅ Sample.lives).Clean ∧
    (∀ id content, (Trail.run Sample.env ∅ Sample.lives).files [] [] id = some content →
      ∃ session ∈ (Trail.run Sample.env ∅ Sample.lives).journal.sessions, ∃ header,
        SegmentHeader.fromBytes content = .ok header ∧ header.sessionId = session.id) ∧
    ∀ session ∈ (Trail.run Sample.env ∅ Sample.lives).journal.sessions, ∃ ids,
      SessionOnDisk ((Trail.run Sample.env ∅ Sample.lives).files [] []) session ids :=
  sessions_on_disk Sample.wrote.leaves Sample.wrote.empty Sample.wrote.names
    fun deed mem => .inl (Sample.wrote.clean deed mem)

end Tcslog
