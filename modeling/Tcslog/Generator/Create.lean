import Tcslog.Generator.Spec
import Tcslog.Read.Reach
import Tcslog.System.Clean
import Tcslog.System.RoundTrip
import Tcslog.Write.Answers

/-!
# The log the generator creates

The generator opens a writer, writes payloads whose lengths a pseudo-random
generator picks, and drops the writer.  What it created is read back payload by
payload.
-/

namespace Tcslog.Generator

open Lib.Program Trail

/-- The generator of pseudo-random numbers that picks payload lengths. -/
structure SplitMix64 where
  state : UInt64
  deriving DecidableEq, Repr

/-- Every run with the same arguments picks the same lengths. -/
def payloadRngSeed : UInt64 := 0x0123456789abcdef

namespace SplitMix64

def new (seed : UInt64) : SplitMix64 := ⟨seed⟩

/-- The next number, and the generator advanced. -/
def nextU64 (rng : SplitMix64) : UInt64 × SplitMix64 :=
  let state := rng.state + 0x9e3779b97f4a7c15
  let z := (state ^^^ (state >>> 30)) * 0xbf58476d1ce4e5b9
  let z := (z ^^^ (z >>> 27)) * 0x94d049bb133111eb
  (z ^^^ (z >>> 31), ⟨state⟩)

end SplitMix64

/-! ## Payloads -/

/-- The octets of a text of plain characters. -/
def octets (text : List Char) : Bytes :=
  text.map fun c => UInt8.ofNat c.toNat

/-- What a payload begins with: its position, counted from one. -/
def numbered (index : Nat) : Bytes :=
  octets ("#".toList ++ Nat.toDigits 10 (index + 1) ++ " ".toList)

/-- What a payload goes on with, again and again. -/
def filler : Bytes :=
  octets "123456789 ".toList

/-- A number that a payload length has room for. -/
def tryRecSize (z : UInt64) : Option RecSize :=
  if z.toNat ≤ u32Max then some z.toUInt32 else none

/-- The length of the next payload. -/
def pickLen (spec : RecordFormatSpec) (rng : SplitMix64) : RecSize × SplitMix64 :=
  let min := spec.minSize
  let max := spec.maxSize
  if min = max then (min, rng)
  else
    let span := (max - min).toUInt64 + 1
    let (z, rng) := rng.nextU64
    (min + (tryRecSize (z % span)).getD 0, rng)

/-- Append the filler until there are so many bytes. -/
def fillTo (target : Nat) (buf : Bytes) : Bytes :=
  if _short : buf.length < target then fillTo target (buf ++ filler) else buf
termination_by target - buf.length
decreasing_by
  have grows : 0 < filler.length := by decide
  rw [List.length_append]
  omega

/-- Build the payload of one record. -/
def buildPayload (spec : RecordFormatSpec) (index : Nat) (rng : SplitMix64) : Bytes × SplitMix64 :=
  let (target, rng) := pickLen spec rng
  ((fillTo target.toNat (numbered index)).take target.toNat, rng)

/-- The payloads of so many records. -/
def payloadsFrom (spec : RecordFormatSpec) : Nat → Nat → SplitMix64 → List Bytes
  | 0, _, _ => []
  | left + 1, index, rng =>
      let (payload, rng) := buildPayload spec index rng
      payload :: payloadsFrom spec left (index + 1) rng

/-- The payloads of a log. -/
def payloads (spec : RecordFormatSpec) (count : UInt64) : List Bytes :=
  payloadsFrom spec count.toNat 0 (.new payloadRngSeed)

/-! ## Creating a log -/

/-- What there is to say of a created log. -/
structure LogInfo where
  rootFile : Bytes
  messageCount : Nat
  deriving DecidableEq, Repr

section Create

variable (env : WriteEnv)

/-- Write so many records, `messageCount` having been written. -/
def writeRecords (spec : RecordFormatSpec) : Nat → Nat → SplitMix64 → WriteM Nat
  | 0, messageCount, _ => return messageCount
  | left + 1, messageCount, rng => do
      let (payload, rng) := buildPayload spec messageCount rng
      let _ ← write env payload
      writeRecords spec left (messageCount + 1) rng

/-- The size of segment files with so many bytes of data. -/
def segSizeFor (dataSize : UInt32) : UInt32 :=
  UInt32.ofNat (min (segmentFileHeaderLen + dataSize.toNat) u32Max)

/-- Create a log of `count` records.  The writer is dropped however the writing ends. -/
def createLog (namePrefix nameSuffix : Bytes) (spec : RecordFormatSpec) (dataSize : UInt32) (count : UInt64)
    (sinceEpoch : Option Nat) : WriteM LogInfo := do
  LogWrite.new env {
    namePrefix, nameSuffix
    segSizeMax := segSizeFor dataSize
    format := spec.format
    sinceEpoch }
  let rootFile := buildName namePrefix (← get).sessionId nameSuffix
  let messageCount ← tryFinally (writeRecords env spec count.toNat 0 (.new payloadRngSeed)) (LogWrite.drop env)
  return { rootFile, messageCount }

end Create

/-! ## What payloads look like -/

section Payloads

variable {spec : RecordFormatSpec} {index left : Nat} {rng : SplitMix64}

/-- A payload of a record: its length is in the range, and it is the front of its
number with the filler behind it. -/
structure Shaped (spec : RecordFormatSpec) (index : Nat) (payload : Bytes) : Prop where
  least : spec.minSize.toNat ≤ payload.length
  greatest : payload.length ≤ spec.maxSize.toNat
  front : ∃ times, payload <+: numbered index ++ (List.replicate times filler).flatten

/-- A specification that is well formed has a range of lengths. -/
theorem RecordFormatSpec.Valid.le (valid : spec.Valid) : spec.minSize ≤ spec.maxSize := by
  cases spec with
  | fixed n => exact UInt32.le_refl n
  | variableSimple min max => exact valid
  | variableTsRc min max => exact valid

/-- The remainder that is added to the least length always fits. -/
theorem tryRecSize_of_lt {z : UInt64} {bound : RecSize} (small : z.toNat ≤ bound.toNat) :
    ∃ n, tryRecSize z = some n ∧ n.toNat = z.toNat := by
  have fits : z.toNat ≤ u32Max := small.trans (Nat.le_of_lt_succ bound.toNat_lt)
  refine ⟨z.toUInt32, if_pos fits, ?_⟩
  rw [UInt64.toNat_toUInt32]
  exact Nat.mod_eq_of_lt (Nat.lt_succ_of_le fits)

theorem pickLen_bounds (valid : spec.Valid) (rng : SplitMix64) :
    spec.minSize ≤ (pickLen spec rng).1 ∧ (pickLen spec rng).1 ≤ spec.maxSize := by
  have ordered : spec.minSize.toNat ≤ spec.maxSize.toNat := valid.le
  have wide : (spec.maxSize - spec.minSize).toNat = spec.maxSize.toNat - spec.minSize.toNat :=
    UInt32.toNat_sub_of_le _ _ valid.le
  have top : spec.maxSize.toNat < 2 ^ 32 := spec.maxSize.toNat_lt
  rw [pickLen]
  split
  next same =>
    rw [← same]
    exact ⟨UInt32.le_refl _, UInt32.le_refl _⟩
  next =>
    have span : ((spec.maxSize - spec.minSize).toUInt64 + 1).toNat =
        spec.maxSize.toNat - spec.minSize.toNat + 1 := by
      rw [UInt64.toNat_add, UInt32.toNat_toUInt64, wide, UInt64.toNat_one]
      omega
    have small : (rng.nextU64.1 % ((spec.maxSize - spec.minSize).toUInt64 + 1)).toNat ≤
        (spec.maxSize - spec.minSize).toNat := by
      rw [UInt64.toNat_mod, span, wide]
      exact Nat.le_of_lt_succ (Nat.mod_lt _ (Nat.succ_pos _))
    obtain ⟨n, isSome, same⟩ := tryRecSize_of_lt small
    rw [← same, wide] at small
    simp only [isSome, Option.getD_some]
    have sum : (spec.minSize + n).toNat = spec.minSize.toNat + n.toNat := by
      rw [UInt32.toNat_add]
      omega
    rw [UInt32.le_iff_toNat_le, UInt32.le_iff_toNat_le, sum]
    omega

theorem fillTo_spec (target : Nat) (buf : Bytes) : target ≤ (fillTo target buf).length ∧
    ∃ times, fillTo target buf = buf ++ (List.replicate times filler).flatten := by
  fun_induction fillTo target buf with
  | case1 buf short ih =>
      obtain ⟨enough, times, filled⟩ := ih
      refine ⟨enough, times + 1, ?_⟩
      rw [filled, List.replicate_succ, List.flatten_cons, List.append_assoc]
  | case2 buf long => exact ⟨Nat.le_of_not_lt long, 0, (List.append_nil buf).symm⟩

theorem buildPayload_shaped (valid : spec.Valid) (index : Nat) (rng : SplitMix64) :
    Shaped spec index (buildPayload spec index rng).1 := by
  obtain ⟨least, greatest⟩ := pickLen_bounds valid rng
  obtain ⟨enough, times, filled⟩ := fillTo_spec (pickLen spec rng).1.toNat (numbered index)
  have length : (buildPayload spec index rng).1.length = (pickLen spec rng).1.toNat := by
    rw [buildPayload, List.length_take]
    exact Nat.min_eq_left enough
  refine ⟨length ▸ least, length ▸ greatest, times, ?_⟩
  rw [← filled]
  exact List.take_prefix _ _

theorem length_payloadsFrom : (payloadsFrom spec left index rng).length = left := by
  induction left generalizing index rng with
  | zero => rfl
  | succ left ih => rw [payloadsFrom, List.length_cons, ih]

theorem payloadsFrom_shaped (valid : spec.Valid) {j : Nat} {payload : Bytes}
    (payloadAt : (payloadsFrom spec left index rng)[j]? = some payload) : Shaped spec (index + j) payload := by
  induction left generalizing index rng j with
  | zero => simp [payloadsFrom] at payloadAt
  | succ left ih =>
      rw [payloadsFrom] at payloadAt
      cases j with
      | zero =>
          obtain rfl := Option.some.inj payloadAt
          exact buildPayload_shaped valid index rng
      | succ j =>
          have shaped := ih (j := j) payloadAt
          rwa [Nat.add_assoc, Nat.add_comm 1 j] at shaped

end Payloads

/-! ## What the writer is asked -/

section Calls

variable {env : WriteEnv} {trail last : Trail} {msg : Bytes} {t : WriteState}

/-- Calls that stored these payloads and met no fault. -/
structure Adds (trail : Trail) (msgs : List Bytes) (last : Trail) : Prop where
  clean : trail.Clean → last.Clean
  payloads : last.journal.records.map Record.payload = trail.journal.records.map Record.payload ++ msgs
  root : ∀ id, trail.journal.sessions.head?.map Session.id = some id →
    last.journal.sessions.head?.map Session.id = some id

theorem Adds.refl (trail : Trail) : Adds trail [] trail :=
  ⟨id, (List.append_nil _).symm, fun _ isRoot => isRoot⟩

theorem Adds.trans {msgs more : List Bytes} {later : Trail} (first : Adds trail msgs last)
    (second : Adds last more later) : Adds trail (msgs ++ more) later :=
  ⟨second.clean ∘ first.clean, by rw [second.payloads, first.payloads, List.append_assoc],
    fun id isRoot => second.root id (first.root id isRoot)⟩

/-- A record that is noted leaves the first session first. -/
theorem head_record {journal : Journal} {record : Record} {returned : Nat} {id : SegId}
    (isRoot : journal.sessions.head?.map Session.id = some id) :
    (journal.record t record returned).sessions.head?.map Session.id = some id := by
  by_cases same : ∃ session, journal.sessions.getLast? = some session ∧ session.id = t.sessionId
  · obtain ⟨session, isLast, same⟩ := same
    obtain ⟨older, split⟩ := List.getLast?_eq_some_iff.mp isLast
    rw [Journal.record_same split same]
    rw [split] at isRoot
    cases older with
    | nil => exact isRoot
    | cons first older => exact isRoot
  · have differs : ∀ session, journal.sessions.getLast? = some session → session.id ≠ t.sessionId :=
      fun session isLast equal => same ⟨session, isLast, equal⟩
    rw [Journal.record_new record returned differs]
    cases sessions : journal.sessions with
    | nil => simp [sessions] at isRoot
    | cons first more =>
        rw [sessions] at isRoot
        exact isRoot

theorem adds_write {total : Nat} (ran : (write env msg).run trail.state = .ok total t) :
    Adds trail [msg] (trail.call env (.write msg)) := by
  rw [call_write_of_returned ran]
  refine ⟨fun clean deed mem => ?_, ?_, fun id isRoot => head_record isRoot⟩
  · rcases List.mem_append.mp mem with before | here
    · exact clean deed before
    · obtain rfl := List.mem_singleton.mp here
      rfl
  · rw [Journal.records_record, List.map_append]
    rfl

/-- Writing records is a run of calls, none of which met a fault. -/
theorem writeRecords_ran {spec : RecordFormatSpec} {left index n : Nat} {rng : SplitMix64}
    (ran : (writeRecords env spec left index rng).run trail.state = .ok n t) :
    ∃ last, ((payloadsFrom spec left index rng).map Call.write).foldl (call env) trail = last ∧
      last.state = t ∧ n = index + left ∧ Adds trail (payloadsFrom spec left index rng) last := by
  induction left generalizing trail index rng with
  | zero =>
      obtain ⟨rfl, rfl⟩ := EStateM.Result.ok.inj ran
      exact ⟨trail, rfl, rfl, rfl, .refl trail⟩
  | succ left ih =>
      rw [writeRecords, EStateM.run_bind] at ran
      cases wrote : (write env (buildPayload spec index rng).1).run trail.state with
      | error stop u => simp [wrote] at ran
      | ok total u =>
          simp only [wrote] at ran
          have state : (trail.call env (.write (buildPayload spec index rng).1)).state = u := by
            rw [call_write_of_returned wrote]
          rw [← state] at ran
          obtain ⟨last, isLast, isState, isCount, adds⟩ := ih ran
          refine ⟨last, isLast, isState, ?_, (adds_write wrote).trans adds⟩
          rw [isCount, Nat.add_assoc, Nat.add_comm 1 left]

end Calls

/-! ## What is read back -/

section Reading

variable {env : WriteEnv} {namePrefix nameSuffix : Bytes} {spec : RecordFormatSpec} {dataSize : UInt32}
  {count : UInt64} {sinceEpoch : Option Nat} {info : LogInfo} {s u : WriteState} {trail : Trail} {L : Log}

/-- The writer the generator opens, and the calls it makes. -/
def lifeOf (namePrefix nameSuffix : Bytes) (spec : RecordFormatSpec) (dataSize : UInt32) (count : UInt64)
    (sinceEpoch : Option Nat) : Life :=
  ⟨⟨namePrefix, nameSuffix, segSizeFor dataSize, spec.format, sinceEpoch⟩, (payloads spec count).map Call.write⟩

/-- A log that was created was opened and written to, and its writer was dropped. -/
theorem createLog_spec (env : WriteEnv) (namePrefix nameSuffix : Bytes) (spec : RecordFormatSpec)
    (dataSize : UInt32) (count : UInt64) (sinceEpoch : Option Nat) (s : WriteState) :
    Meets (createLog env namePrefix nameSuffix spec dataSize count sinceEpoch) s
      (fun info u => ∃ t v,
        (LogWrite.new env (lifeOf namePrefix nameSuffix spec dataSize count sinceEpoch).args).run s = .ok () t ∧
        (writeRecords env spec count.toNat 0 (.new payloadRngSeed)).run t = .ok info.messageCount v ∧
        (LogWrite.drop env).run v = .ok () u ∧ info.rootFile = buildName namePrefix t.sessionId nameSuffix)
      fun _ _ => True := by
  simp only [createLog, meets_bind, meets_get, meets_finally, meets_pure]
  refine meets_run.imp (fun _ t opened => ?_) fun _ _ _ => trivial
  refine meets_run.imp (fun n v wrote => ?_) fun _ _ _ => meets_true
  exact meets_run.imp (fun _ u dropped => ⟨t, v, opened, wrote, dropped, rfl⟩) fun _ _ _ => trivial

/-- The first file of a log that is left is named by its first session. -/
theorem head_of_left (left : trail.Left namePrefix nameSuffix L) :
    (scanSegmentIds trail.state.dir namePrefix nameSuffix).head? =
      trail.journal.sessions.head?.map Session.id := by
  have faithful : List.Forall₂ Keeps L.strands trail.journal.sessions := left.faithful
  rw [left.listed]
  generalize L.strands = strands at faithful ⊢
  generalize trail.journal.sessions = sessions at faithful ⊢
  cases faithful with
  | nil => rfl
  | @cons σ session _ _ keeps _ =>
      rw [List.flatMap_cons, List.head?_append, keeps.head, keeps.id]
      rfl

/-- A generator that met no fault created a log from which as many records are read
as it was asked for, in the order it wrote them, and its first file is the one it
names.  Each has a length in the range, and its number is what it begins with. -/
theorem generated_log_read (leaves : env.Leaves) {dir : Dir}
    (empty : ∀ id, dir.files namePrefix nameSuffix id = none) (valid : spec.Valid)
    (created : (createLog env namePrefix nameSuffix spec dataSize count sinceEpoch).run (start dir).state =
      .ok info u) {isDir : Bool} (overflowChecks : Bool) {log : LogRead}
    (isNew : LogRead.new isDir (some u.dir) namePrefix nameSuffix = .ok log) {caps : Nat → Nat}
    (ample : ∀ n, spec.maxSize.toNat ≤ caps n) :
    info.messageCount = count.toNat ∧
      (∃ id, (scanSegmentIds u.dir namePrefix nameSuffix).head? = some id ∧
        info.rootFile = buildName namePrefix id nameSuffix) ∧
      ∃ (records : List Record) (outcomes : List Outcome) (last : ReadState),
        ReadsToEof (.still u.dir noFault overflowChecks) caps log.begin outcomes last ∧ Clean outcomes ∧
        outcomes.filter Outcome.isRecord = records.map Record.outcome ∧
        records.map Record.payload = payloads spec count ∧ records.length = count.toNat ∧
        ∀ index record, records[index]? = some record → Shaped spec index record.payload := by
  obtain ⟨t, v, opened, wrote, dropped, root⟩ := (createLog_spec ..).of_ok created
  let life := lifeOf namePrefix nameSuffix spec dataSize count sinceEpoch
  let begun : Trail := ⟨t, [.opened life.args none], (start dir).journal.begin t⟩
  have wroteOn : (writeRecords env spec count.toNat 0 (.new payloadRngSeed)).run begun.state =
      .ok info.messageCount v := wrote
  obtain ⟨last, isLast, isState, isCount, adds⟩ := writeRecords_ran wroteOn
  have isLived : run env dir [life] = { last with state := u } := by
    have lived : (start dir).live env life = _ := live_of_ok opened
    have ended : openedOn env (start dir) life t = last := isLast
    rw [ended, isState, ending_of_ok dropped] at lived
    exact lived
  have clean : (run env dir [life]).Clean := by
    have begins : begun.Clean := by
      intro deed mem
      obtain rfl := List.mem_singleton.mp mem
      rfl
    rw [isLived]
    exact adds.clean begins
  have names : ∀ other ∈ [life], other.args.namePrefix = namePrefix ∧ other.args.nameSuffix = nameSuffix :=
    List.forall_mem_singleton.mpr ⟨rfl, rfl⟩
  obtain ⟨L, left⟩ := run_left leaves empty names clean
  rw [isLived] at left
  have isPayloads : last.journal.records.map Record.payload = payloads spec count := by
    rw [adds.payloads]
    rfl
  have length : last.journal.records.length = count.toNat := by
    rw [← List.length_map Record.payload, isPayloads]
    exact length_payloadsFrom
  have shaped (index : Nat) (record : Record) (recordAt : last.journal.records[index]? = some record) :
      Shaped spec index record.payload := by
    have payloadAt : (payloads spec count)[index]? = some record.payload := by
      rw [← isPayloads, List.getElem?_map, recordAt]
      rfl
    have shaped := payloadsFrom_shaped valid payloadAt
    rwa [Nat.zero_add] at shaped
  have takes : Ample caps last.journal.records := by
    intro n record mem
    obtain ⟨index, recordAt⟩ := List.getElem?_of_mem mem
    exact (shaped index record recordAt).greatest.trans (ample n)
  obtain ⟨final, reads⟩ := left.reads overflowChecks isNew takes
  refine ⟨isCount.trans (Nat.zero_add _), ⟨t.sessionId, ?_, root⟩, last.journal.records, _, final, reads,
    clean_script _, ?_, isPayloads, length, shaped⟩
  · rw [head_of_left left]
    exact adds.root t.sessionId rfl
  · rw [filter_script, ← List.flatMap_def]
    rfl

end Reading

namespace Sample

open Tcslog.Sample

/-- Payloads of one byte to four. -/
def spec : RecordFormatSpec :=
  .variableSimple 1 4

/-- The generator after it created a log of three records. -/
def created : WriteState :=
  (ending (createLog env [] [] spec 7 3 (some 1000)) (start ∅).state).2

theorem createLog_created :
    (createLog env [] [] spec 7 3 (some 1000)).run (start ∅).state = .ok ⟨buildName [] 1002 [], 3⟩ created :=
  run_of_ending (by decide +kernel)

end Sample

theorem generated_log_read_sample :
    ∃ (records : List Record) (outcomes : List Outcome) (last : ReadState),
      ReadsToEof (.still Sample.created.dir noFault true) (fun _ => 4)
          (Tcslog.Sample.reader [1002, 1011, 1019]).begin outcomes last ∧
        Clean outcomes ∧ outcomes.filter Outcome.isRecord = records.map Record.outcome ∧
        records.map Record.payload = payloads Sample.spec 3 ∧ records.length = 3 ∧
        ∀ index record, records[index]? = some record → Shaped Sample.spec index record.payload :=
  (generated_log_read (fun _ => rfl) (fun _ => rfl) (show Sample.spec.Valid by decide)
    Sample.createLog_created true
    (show LogRead.new true (some Sample.created.dir) [] [] = .ok (Tcslog.Sample.reader [1002, 1011, 1019])
      by decide +kernel) (fun _ => (by decide))).2.2

end Tcslog.Generator
