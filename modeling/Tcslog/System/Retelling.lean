import Tcslog.System.Holding
import Tcslog.System.Remains

/-!
# What a reader tells of what is left

In a directory that stays as it is, a reader tells exactly what is said of the
files that are left: each call gives the first outcome still to be told, and
leaves the reader where the others are to be told.
-/

namespace Tcslog

open Lib.Program Lib.Spanned

namespace Scene

variable {S : Scene} {files : SegId → Option Bytes}

/-- Nothing changes, and each strand is a session from its first file on. -/
structure Plain (S : Scene) (files : SegId → Option Bytes) : Prop extends S.Still files where
  first : ∀ {k : Nat} {σ : Strand}, S.log.strands[k]? = some σ → σ.firstSequence = 0
  apart : ∀ {k k' : Nat} {σ τ : Strand}, S.log.strands[k]? = some σ → S.log.strands[k']? = some τ →
    σ.sessionId = τ.sessionId → k = k'

end Scene

namespace Log

variable {L : Log} {files : SegId → Option Bytes} {id : SegId} {ids : List SegId} {f g : Fragment}

/-- The file of this name shows a fragment. -/
structure Displays (L : Log) (files : SegId → Option Bytes) (id : SegId) (f : Fragment) : Prop where
  fileAt : L.FileAt f.k f.j f.strand id
  content : files id = some ((f.strand.file f.j id).take (segmentFileHeaderLen + f.shown))

/-- What is left in the files of these names, those that are not usable left
out. -/
inductive Displayed (L : Log) (files : SegId → Option Bytes) : List SegId → List Fragment → Prop
  | nil : Displayed L files [] []
  | unusable {id : SegId} {ids : List SegId} {rest : List Fragment}
      (refused : Segment.ofFile files id = none) (more : Displayed L files ids rest) :
      Displayed L files (id :: ids) rest
  | usable {id : SegId} {ids : List SegId} {f : Fragment} {rest : List Fragment}
      (displays : L.Displays files id f) (more : Displayed L files ids rest) :
      Displayed L files (id :: ids) (f :: rest)

theorem Displays.unique (displays : L.Displays files id f) (displays' : L.Displays files id g) : f = g := by
  obtain ⟨k, j, σ, c, isFile, within⟩ := f
  obtain ⟨k', j', σ', c', isFile', within'⟩ := g
  obtain ⟨rfl, rfl, rfl⟩ := displays.fileAt.unique displays'.fileAt
  have len := congrArg List.length (Option.some.inj (displays.content.symm.trans displays'.content))
  rw [Strand.length_take_file _ within, Strand.length_take_file _ within'] at len
  obtain rfl : c = c' := Nat.add_left_cancel len
  rfl

theorem Displays.ofFile (displays : L.Displays files id f) : Segment.ofFile files id ≠ none := by
  rw [Segment.ofFile, displays.content, Option.bind_some, validate_file id f.within]
  simp

/-- Where no file is left, every file is unusable. -/
theorem Displayed.unusable_of_nil (displayed : L.Displayed files ids []) :
    ∀ p ∈ ids, Segment.ofFile files p = none := by
  generalize isNil : ([] : List Fragment) = fs at displayed
  induction displayed with
  | nil => simp
  | unusable refused more ih => exact List.forall_mem_cons.mpr ⟨refused, ih isNil⟩
  | usable displays more => contradiction

end Log

/-- The last file listed is not usable. -/
def endsRefused (files : SegId → Option Bytes) (ids : List SegId) : Bool :=
  ids.getLast?.any fun id => (Segment.ofFile files id).isNone

/-- Behind the last file that is left, unusable ones are listed only if the last
of them is not usable. -/
theorem Log.Displays.endsRefused_iff {L : Log} {files : SegId → Option Bytes} {id : SegId}
    {ids pending : List SegId} {f : Fragment} (displays : L.Displays files id f)
    (suffix : id :: pending <:+ ids) (displayed : L.Displayed files pending []) :
    endsRefused files ids = true ↔ pending ≠ [] := by
  obtain ⟨front, rfl⟩ := suffix
  rw [endsRefused, List.getLast?_append_of_ne_nil _ (List.cons_ne_nil _ _)]
  rcases List.eq_nil_or_concat pending with rfl | ⟨most, p, rfl⟩
  · have usable := displays.ofFile
    simpa [Option.isNone_iff_eq_none] using usable
  · have refused := displayed.unusable_of_nil p (by simp)
    rw [List.concat_eq_append, ← List.cons_append, List.getLast?_append_of_ne_nil _ (List.cons_ne_nil _ _)]
    simp [refused]

namespace Scene

variable {S : Scene} {files : SegId → Option Bytes}

/-- What was measured of a file. -/
def Measured.fragment {ops : List ReadOp} {id : SegId} {k j c : Nat} {σ : Strand}
    (measured : S.Measured ops id k j σ c) : Fragment :=
  ⟨k, j, σ, c, measured.fileAt.lt, measured.within⟩

section Still

variable {ops : List ReadOp} {id : SegId} {ids pending rest : List SegId} {k j c : Nat} {σ : Strand}
  {fs : List Fragment}

theorem Still.displays (still : S.Still files) (measured : S.Measured ops id k j σ c) :
    S.log.Displays files id measured.fragment :=
  ⟨measured.fileAt, still.measured measured⟩

/-- Whatever a listed file holds, it is unusable or shows a fragment. -/
theorem Still.exists_displayed (still : S.Still files) (listed : ∀ p ∈ ids, p ∈ S.listing) :
    ∃ fs, S.log.Displayed files ids fs := by
  induction ids with
  | nil => exact ⟨[], .nil⟩
  | cons id ids ih =>
      obtain ⟨fs, more⟩ := ih fun p mem => listed p (List.mem_cons_of_mem _ mem)
      cases usable : Segment.ofFile files id with
      | none => exact ⟨fs, .unusable usable more⟩
      | some segment =>
          obtain ⟨content, present, accepted, _⟩ := Segment.ofFile_eq_some usable
          have shown := (still.shown 0 id).trans present
          obtain ⟨k, j, σ, c, sight, _⟩ := sight_of_validate (listed id List.mem_cons_self) shown accepted
          refine ⟨⟨k, j, σ, c, sight.fileAt.lt, sight.within⟩ :: fs, .usable ⟨sight.fileAt, ?_⟩ more⟩
          rw [← still.shown 0]
          exact sight.content

/-- The file found is the first that is left. -/
theorem Still.displayed_of_found (still : S.Still files) (displayed : S.log.Displayed files pending fs)
    (listed : ∀ p ∈ pending, p ∈ S.listing) (found : S.Found ops pending id rest k j σ c) :
    ∃ fs', fs = found.measured.fragment :: fs' ∧ S.log.Displayed files rest fs' := by
  obtain ⟨⟨front, rfl, missed⟩, measured⟩ := found
  induction front generalizing fs with
  | nil =>
      cases displayed with
      | unusable refused more => exact absurd refused (still.displays measured).ofFile
      | @usable _ _ f rest displays more =>
          exact ⟨rest, by rw [displays.unique (still.displays measured)], more⟩
  | cons p front ih =>
      have unusable := still.missed (listed p List.mem_cons_self) (missed p List.mem_cons_self)
      cases displayed with
      | unusable refused more =>
          exact ih (fun q mem => missed q (List.mem_cons_of_mem _ mem)) more
            fun q mem => listed q (List.mem_cons_of_mem _ mem)
      | usable displays more => exact absurd unusable displays.ofFile

/-- Where every file is missed none is left. -/
theorem Still.displayed_of_missed (still : S.Still files) (displayed : S.log.Displayed files pending fs)
    (listed : ∀ p ∈ pending, p ∈ S.listing) (missed : ∀ p ∈ pending, S.Missed ops p) : fs = [] := by
  induction displayed with
  | nil => rfl
  | unusable refused more ih =>
      exact ih (fun q mem => listed q (List.mem_cons_of_mem _ mem))
        fun q mem => missed q (List.mem_cons_of_mem _ mem)
  | usable displays more _ =>
      exact absurd (still.missed (listed _ List.mem_cons_self) (missed _ List.mem_cons_self)) displays.ofFile

end Still

/-! ## Where the reader stands -/

/-- A search that stands where these files are still to be told of. -/
structure Follows (S : Scene) (files : SegId → Option Bytes) (search : Search) (stage : Stage)
    (fs : List Fragment) : Prop where
  seeks : stage.Seeks
  session : search.session = stage.fragment.map fun f => f.strand.sessionId
  known : ∀ f, stage.fragment = some f → S.log.strands[f.k]? = some f.strand ∧
    search.startLost = stage.ahead
  suffix : search.pending <:+ S.listing
  displayed : S.log.Displayed files search.pending fs

/-- The hint says of the next file whether it begins with a payload that can be
restored. -/
structure Hinted (S : Scene) (files : SegId → Option Bytes) (s : ReadState) (stage : Stage)
    (fs : List Fragment) : Prop where
  about : ∀ hint, s.recovery = some hint → ∃ h rest, fs = h :: rest ∧ S.log.Displays files hint.segment h
  settles : ∀ id h rest, fs = h :: rest → S.log.Displays files id h →
    ((s.recovery.bind fun hint => recoveredPayloadLen hint id h.strand.format
      (h.strand.header h.j id).remaining.toNat h.strand.dataSection).isSome ↔ stage.Restores h)

theorem hinted_of_none {s : ReadState} {stage : Stage} {fs : List Fragment} (none : s.recovery = none)
    (nothing : ∀ h, ¬ stage.Restores h) : S.Hinted files s stage fs := by
  refine ⟨fun hint told => ?_, fun id h rest _ _ => ?_⟩
  · rw [none] at told
    contradiction
  · rw [none]
    simp [nothing h]

/-- What a reader between two calls is still to tell. -/
inductive Stands (S : Scene) (files : SegId → Option Bytes) (s : ReadState) : List Outcome → Prop
  | between {f : Fragment} {id : SegId} {pos i : Nat} {fs : List Fragment}
      (rest : S.AtRest s f.k f.j f.strand id f.shown pos i) (some : 0 < f.shown)
      (displayed : S.log.Displayed files s.pending fs) :
      Stands S files s (Stage.retellFrom (endsRefused files S.listing) f i fs)
  | seeking {stage : Stage} {fs : List Fragment} (closed : s.current = none)
      (follows : S.Follows files (searchOf s) stage fs) (hinted : S.Hinted files s stage fs) :
      Stands S files s (stage.retell (endsRefused files S.listing) fs)

/-! ## A record that is read -/

section Record

variable {ops : List ReadOp} {pending pending' : List SegId} {id : SegId} {k j j' c c' pos i y cap : Nat}
  {σ : Strand} {s s' t : ReadState} {f g h : Fragment} {fs : List Fragment} {e : LogError}
  {result : Except LogError ReadResult} {refused : Bool}

/-- Passing on to the next files of the strand leaves the same to be told. -/
theorem Passes.retold (still : S.Still files) (passes : S.Passes ops k σ pending j c pending' j' c')
    (listed : ∀ p ∈ pending, p ∈ S.listing) {isFile : j < σ.ids.length} {within : c ≤ (σ.data j).length}
    (displayed : S.log.Displayed files pending fs) (le : i ≤ (Fragment.mk k j σ c isFile within).done) :
    ∃ isFile' within' fs', S.log.Displayed files pending' fs' ∧
      Stage.retellFrom refused ⟨k, j, σ, c, isFile, within⟩ i fs =
        Stage.retellFrom refused ⟨k, j', σ, c', isFile', within'⟩ i fs' ∧
      i ≤ (Fragment.mk k j' σ c' isFile' within').done ∧
      (pending' = pending ∧ j' = j ∧ c' = c ∨ j * σ.dataSection + c ≤ j' * σ.dataSection) := by
  induction passes generalizing fs with
  | refl => exact ⟨isFile, within, fs, displayed, rfl, le, .inl ⟨rfl, rfl, rfl⟩⟩
  | @next pending rest pending' id j c j' c' c'' full found more ih =>
      obtain ⟨fs', rfl, displayed'⟩ := still.displayed_of_found displayed listed found
      have precedes : (Fragment.mk k j σ c isFile within).Precedes found.measured.fragment :=
        ⟨rfl, rfl, full⟩
      have on := precedes.base_eq rfl
      obtain ⟨isFile', within', fs'', displayed'', same, le', place⟩ :=
        ih (fun p mem => listed p (found.suffix.mem (List.mem_cons_of_mem _ mem))) displayed'
          (le.trans (precedes.done_le rfl))
      refine ⟨isFile', within', fs'', displayed'', ?_, le', .inr ?_⟩
      · rw [Stage.retellFrom_of_precedes precedes rfl le]
        exact same
      · change (j + 1) * σ.dataSection = j * σ.dataSection + c at on
        rcases place with ⟨_, rfl, _⟩ | beyond
        · exact on.ge
        · exact on.ge.trans ((Nat.le_add_right _ _).trans beyond)

/-- A record that failed is told to be cut short. -/
theorem outcomeOf_truncated {lost n : Nat} {dst : Bytes} (isIt : g.done = i) (counted : n = g.placed)
    (front : 0 < n → ∃ record, g.strand.records[i]? = some record ∧
      dst.take n = record.payload.take n) :
    outcomeOf (.error (.readTruncated lost n)) dst = g.cutShort lost := by
  subst isIt counted
  rw [outcomeOf, Fragment.cutShort, show (LogError.readTruncated lost g.placed).placed = g.placed from rfl]
  rcases Nat.eq_zero_or_pos g.placed with none | some
  · rw [none, List.take_zero, List.take_zero]
  · obtain ⟨record, recordAt, same⟩ := front some
    rw [same, recordAt]
    rfl

variable (f h id) in
/-- What is known of the next file settles whether it begins with a payload
that can be restored. -/
theorem restores_iff (sameK : h.k = f.k) (same : h.strand = f.strand) (isFirst : f.strand.firstSequence = 0) :
    ((hintAfter f.strand f.j f.shown f.done f.partway f.strand h.j id).bind fun hint =>
      recoveredPayloadLen hint id h.strand.format (h.strand.header h.j id).remaining.toNat
        h.strand.dataSection).isSome ∧ f.strand.format = .variableSimple ↔ f.Restores h := by
  have owes : (h.strand.header h.j id).remaining.toNat = h.owes := Strand.header_remaining h.isFile
  have small : h.owes < 2 ^ 32 := Strand.owed_lt _ (h.base_le_limit.trans h.limit_le)
  have enough : f.limit ≤ f.strand.start (f.done + 1) := by
    rcases Nat.lt_or_eq_of_le f.done_le with more | atEnd
    · exact (f.limit_lt more).le
    · rw [f.strand.start_of_length_le (by omega)]
      exact f.limit_le
  have place := f.start_done_add
  rw [owes, same, hintAfter, isFirst, Fragment.Restores, place]
  constructor
  · rintro ⟨settled, simple⟩
    split at settled
    next cond =>
      obtain ⟨one, full, known⟩ := cond
      rw [Option.bind_some, recoveredPayloadLen] at settled
      split at settled
      · simp at settled
      next owing =>
      split at settled
      · simp at settled
      split at settled
      · simp at settled
      next covers =>
      split at settled
      · simp at settled
      next room =>
      rw [not_or] at owing
      have limit := Fragment.limit_eq full
      have base : h.base = h.j * f.strand.dataSection := by rw [Fragment.base, same]
      have isNext : h.j = f.j + 2 := by omega
      refine ⟨simple, sameK, isNext, full, known, ?_, Nat.pos_of_ne_zero owing.2⟩
      rw [base, isNext, show f.j + 2 = f.j + 1 + 1 from rfl, Nat.succ_mul, ← limit]
      dsimp only at covers room
      omega
    next => simp at settled
  · rintro ⟨simple, _, isNext, full, known, room, owing⟩
    refine ⟨?_, simple⟩
    have limit := Fragment.limit_eq full
    have base : h.base = h.j * f.strand.dataSection := by rw [Fragment.base, same]
    rw [base, isNext, show f.j + 2 = f.j + 1 + 1 from rfl, Nat.succ_mul, ← limit] at room
    rw [if_pos ⟨by omega, full, known⟩, Option.bind_some, recoveredPayloadLen, if_neg (by simp; omega),
      if_neg (not_not.mpr simple), if_neg (by dsimp only; omega), if_neg (by dsimp only; omega),
      if_pos (by rw [u32Max]; omega)]
    rfl

/-- A record that broke off leaves the reader to search the files that are
left. -/
theorem Stands.broken (session : s'.session = some g.strand.sessionId)
    (strandAt : S.log.strands[g.k]? = some g.strand) (lost : s'.sessionStartLost = 0)
    (suffix : s'.pending <:+ S.listing) (displayed : S.log.Displayed files s'.pending fs)
    (hinted : S.Hinted files s'.losePosition (.broken g) fs) :
    S.Stands files s'.losePosition ((Stage.broken g).retell (endsRefused files S.listing) fs) := by
  refine .seeking rfl ⟨trivial, session, ?_, suffix, displayed⟩ hinted
  rintro f isFragment
  obtain rfl := Option.some.inj isFragment
  exact ⟨strandAt, lost⟩

/-- A file of another session ends the session, or cuts the record short. -/
theorem Found.retold_boundary {rest : List SegId} {τ : Strand} {n : Nat} (plain : S.Plain files)
    (found : S.Found ops pending id rest k' j' τ c') (suffix : pending <:+ S.listing)
    (displayed : S.log.Displayed files rest fs) (strandAt : S.log.strands[g.k]? = some g.strand)
    (differs : τ.sessionId ≠ g.strand.sessionId) (lost : s'.sessionStartLost = 0)
    (left : s'.pending = id :: rest)
    (session : s'.session = if g.partway = 0 then none else some g.strand.sessionId)
    (recovery : s'.recovery = none)
    (error : e = if g.partway = 0 then .sessionEnd else .readTruncated 0 n) :
    ∃ outcome outcomes, (Stage.reading g).retell (endsRefused files S.listing)
        (found.measured.fragment :: fs) = outcome :: outcomes ∧
      S.Stands files s'.losePosition outcomes ∧
      (e = .sessionEnd ∧ outcome = .failed .sessionEnd [] ∨
        ∃ lost n, e = .readTruncated lost n ∧ outcome = g.cutShort lost) := by
  have another : found.measured.fragment.k ≠ g.k := by
    intro (sameK : k' = g.k)
    subst sameK
    rw [Option.some.inj (found.measured.fileAt.strandAt.symm.trans strandAt)] at differs
    exact differs rfl
  have noHint : s'.losePosition.recovery = none := recovery
  have behind : s'.pending <:+ S.listing := by
    rw [left]
    exact found.suffix.trans suffix
  have displayed' : S.log.Displayed files s'.pending (found.measured.fragment :: fs) := by
    rw [left]
    exact .usable (plain.displays found.measured) displayed
  rcases Nat.eq_zero_or_pos g.partway with none | begun
  · rw [if_pos none] at session error
    refine ⟨_, Stage.start.retell (endsRefused files S.listing) (found.measured.fragment :: fs), ?_,
      ?_, .inl ⟨error, rfl⟩⟩
    · refine Stage.retell_of_other rfl another fun _ => ?_
      rw [Fragment.Torn, none]
      exact Nat.lt_irrefl 0
    · exact .seeking rfl ⟨trivial, session, by simp [Stage.fragment], behind, displayed'⟩
        (hinted_of_none noHint fun _ restores => restores)
  · rw [if_neg begun.ne'] at session error
    refine ⟨_, (Stage.broken g).retell (endsRefused files S.listing) (found.measured.fragment :: fs),
      Stage.retell_reading_of_torn another begun, ?_, .inr ⟨0, _, error, rfl⟩⟩
    refine .broken session strandAt lost behind displayed' ⟨fun hint told => ?_, ?_⟩
    · rw [noHint] at told
      contradiction
    · rintro id' h rest' isHead _
      obtain rfl := (List.cons.inj isHead).1
      rw [noHint]
      simp only [Option.bind_none, Option.isSome_none, Bool.false_eq_true, false_iff]
      exact fun restores => another restores.2.1

/-- What a reader notes of the next file of the strand says whether a payload
is restored there. -/
theorem Found.hinted {rest : List SegId} (plain : S.Plain files)
    (found : S.Found ops pending id rest g.k j' g.strand c') (isFirst : g.strand.firstSequence = 0)
    (segment : ∀ hint, s'.recovery = some hint → hint.segment = id)
    (noted : g.strand.format = .variableSimple → s'.recovery =
      hintAfter g.strand g.j g.shown g.done g.partway g.strand j' id) :
    S.Hinted files s'.losePosition (.broken g) (found.measured.fragment :: fs) := by
  have displays := plain.displays found.measured
  refine ⟨fun hint told => ⟨_, _, rfl, segment hint told ▸ displays⟩, ?_⟩
  rintro id' h rest' isHead displays'
  obtain rfl := (List.cons.inj isHead).1
  obtain rfl : id' = id :=
    Option.some.inj (displays'.fileAt.idAt.symm.trans found.measured.fileAt.idAt)
  by_cases simple : g.strand.format = .variableSimple
  · rw [show s'.losePosition.recovery = _ from noted simple]
    have settles := restores_iff id' g found.measured.fragment rfl rfl isFirst
    rw [and_iff_left simple] at settles
    exact settles
  · refine ⟨fun settled => ?_, fun restores => absurd restores.1 simple⟩
    obtain ⟨n, settled⟩ := Option.isSome_iff_exists.mp settled
    obtain ⟨hint, _, settled⟩ := Option.bind_eq_some_iff.mp settled
    have simple' : found.measured.fragment.strand.format ≠ .variableSimple := simple
    simp [recoveredPayloadLen, simple'] at settled

/-- Where a record broke off the next outcome says so, or that the session
ended. -/
theorem Broke.retold (plain : S.Plain files) {m : ReadState}
    (mid : S.Mid m g.k g.j g.strand id g.shown g.shown i y) (startLost : m.sessionStartLost = 0)
    (more : g.strand.start i + y < g.strand.start (i + 1) ∨ i = g.strand.records.length)
    (displayed : S.log.Displayed files m.pending fs) (some : 0 < y ∨ m.pending ≠ [] ∨ g.shown = 0)
    (broke : S.Broke m g.k g.j g.strand g.shown i y e s') :
    g.done = i ∧ g.partway = y ∧ ∃ outcome outcomes,
      (Stage.reading g).retell (endsRefused files S.listing) fs = outcome :: outcomes ∧
      S.Stands files s'.losePosition outcomes ∧
      (e = .sessionEnd ∧ outcome = .failed .sessionEnd [] ∨
        ∃ lost n, e = .readTruncated lost n ∧ outcome = g.cutShort lost) := by
  have place : g.limit = g.strand.start i + y := mid.place
  obtain rfl : g.done = i :=
    Fragment.done_eq mid.index (place ▸ Nat.le_add_right _ _) (by rwa [place])
  obtain rfl : g.partway = y := by
    rw [Fragment.partway]
    omega
  have strandAt := mid.measured.fileAt.strandAt
  have listed : ∀ p ∈ m.pending, p ∈ S.listing := mid.toOpen.listed
  have behind : m.pending <:+ S.listing := (List.suffix_cons _ _).trans mid.suffix
  have lostAfter : s'.sessionStartLost = 0 := broke.carried.sessionStartLost.trans startLost
  refine ⟨rfl, rfl, ?_⟩
  cases broke.cause with
  | ended missed pending session recovery =>
      obtain rfl := plain.displayed_of_missed displayed listed missed
      have isOpen : S.log.Displays files id g := ⟨mid.measured.fileAt, plain.measured mid.measured⟩
      have refused := isOpen.endsRefused_iff mid.suffix displayed
      have tells : endsRefused files S.listing = true ∨ g.Torn ∨ g.shown = 0 := by
        rw [refused, Fragment.Torn]
        exact or_left_comm.mp some
      refine ⟨_, [], by rw [Stage.retell, Stage.last, if_pos tells], ?_, .inr ⟨0, _, rfl, rfl⟩⟩
      change S.Stands files _ ((Stage.broken g).retell (endsRefused files S.listing) [])
      refine .broken (session.trans mid.session) strandAt lostAfter ?_ ?_ ⟨fun hint told => ?_, by simp⟩
      · rw [pending]
        exact List.nil_suffix
      · rw [pending]
        exact .nil
      · rw [show s'.losePosition.recovery = none from recovery] at told
        contradiction
  | boundary found differs pending session recovery error =>
      obtain ⟨fs', rfl, displayed'⟩ := plain.displayed_of_found displayed listed found
      exact found.retold_boundary plain behind displayed' strandAt differs lostAfter pending session
        recovery error
  | @rejected _ id' rest k' j' τ c' found same denied pending session recovery noted =>
      obtain ⟨fs', rfl, displayed'⟩ := plain.displayed_of_found displayed listed found
      have sameK : k' = g.k := plain.apart found.measured.fileAt.strandAt strandAt same
      subst sameK
      obtain rfl : τ = g.strand :=
        Option.some.inj (found.measured.fileAt.strandAt.symm.trans strandAt)
      have isFirst := plain.first strandAt
      refine ⟨_, (Stage.broken g).retell (endsRefused files S.listing) (found.measured.fragment :: fs'),
        ?_, ?_, .inr ⟨_, _, rfl, rfl⟩⟩
      · have gap : ¬ g.Precedes found.measured.fragment := denied
        rw [Stage.retell_reading_of_gap gap rfl, isFirst, Nat.zero_add, Nat.zero_add]
        rfl
      · refine .broken session strandAt lostAfter ?_ ?_
          (found.hinted plain isFirst (fun hint told => (recovery hint told).1) noted)
        · rw [pending]
          exact found.suffix.trans behind
        · rw [pending]
          exact .usable (plain.displays found.measured) displayed'

/-- Coming further within a record leaves the same to be told. -/
theorem Reached.retold (still : S.Still files) (isOpen : S.Open t f.k f.j f.strand id f.shown pos)
    (displayed : S.log.Displayed files t.pending fs) (le : i ≤ f.done) {m : ReadState}
    {j' c' pos' y : Nat} {id' : SegId}
    (reached : S.Reached t f.k f.j f.strand f.shown i m j' id' c' pos' y) :
    ∃ (isFile' : j' < f.strand.ids.length) (within' : c' ≤ (f.strand.data j').length) (fs' : List Fragment),
      S.log.Displayed files m.pending fs' ∧
      Stage.retellFrom refused f i fs =
        Stage.retellFrom refused ⟨f.k, j', f.strand, c', isFile', within'⟩ i fs' ∧
      (m.pending = t.pending ∧ j' = f.j ∧ c' = f.shown ∨ f.limit ≤ j' * f.strand.dataSection) := by
  have le' : i ≤ (Fragment.mk f.k f.j f.strand f.shown f.isFile f.within).done := le
  obtain ⟨isFile', within', fs', displayed', same, _, place⟩ :=
    reached.passes.retold still isOpen.listed displayed le'
  exact ⟨isFile', within', fs', displayed', same, place⟩

/-- A record that is read, or breaks off, is the first that was still to be
told of. -/
theorem Reading.retold (plain : S.Plain files) (isOpen : S.Open t f.k f.j f.strand id f.shown pos)
    (synced : t.resync = false) (startLost : t.sessionStartLost = 0)
    (displayed : S.log.Displayed files t.pending fs) (le : i ≤ f.done)
    (unread : t.pending ≠ [] ∨ f.strand.start i < f.limit)
    (ample : ∀ record ∈ f.strand.records, record.payload.length ≤ cap)
    (reading : S.Reading t f.k f.j f.strand f.shown i cap result s')
    (into : ∀ r, result = .ok r → ReadInto s' ∨ r = ⟨0, .fixed⟩) :
    ∃ outcomes, Stage.retellFrom (endsRefused files S.listing) f i fs =
      outcomeOf result s'.dst :: outcomes ∧ S.Stands files s' outcomes := by
  cases reading with
  | @whole _ record j' id' c' pos' y recordAt fits dst reached done =>
      obtain ⟨isFile', within', fs', displayed', same, _⟩ :=
        reached.retold plain.toStill isOpen displayed le
      have mid := reached.mid
      have place := mid.place.trans done
      have index := (List.getElem?_eq_some_iff.mp recordAt).1
      have past : i + 1 ≤ (Fragment.mk f.k j' f.strand c' isFile' within').done := by
        have := mid.posLe
        rw [Fragment.le_done_iff (f := ⟨f.k, j', f.strand, c', isFile', within'⟩) (i := i + 1) index,
          Fragment.limit, Fragment.base]
        dsimp only
        omega
      refine ⟨_, ?_, .between (f := ⟨f.k, j', f.strand, c', isFile', within'⟩)
        ⟨mid.toOpen, place, index, ?_, reached.carried.resync.trans synced,
          reached.carried.sessionStartLost.trans startLost⟩ ?_ displayed'⟩
      · rw [same, Stage.retellFrom_cons (f := ⟨f.k, j', f.strand, c', isFile', within'⟩) recordAt past,
          outcomeOf, dst, List.take_length]
        rfl
      · exact List.ne_nil_of_mem (List.mem_of_getElem? recordAt)
      · obtain ⟨segment, current, some⟩ := (into _ rfl).resolve_right
          (ne_empty_fixed (Strand.fits_of_getElem? recordAt))
        rw [mid.current] at current
        obtain rfl := Option.some.inj current
        exact Nat.lt_of_lt_of_le some mid.posLe
  | overflow recordAt long =>
      exact absurd (ample _ (List.mem_of_getElem? recordAt)) (Nat.not_le_of_lt long)
  | cut recordAt long =>
      exact absurd (ample _ (List.mem_of_getElem? recordAt)) (Nat.not_le_of_lt long)
  | @failed _ u y e failed result front counted =>
      subst result
      cases failed with
      | denied reached denied => exact (plain.not_refused denied.refused denied.mid.measured).elim
      | @broke m _ _ j' id' c' reached more broke =>
          obtain ⟨isFile', within', fs', displayed', same, place⟩ :=
            reached.retold plain.toStill isOpen displayed le
          have begun := (Fragment.le_done_iff reached.mid.index).mp le
          have some : 0 < y ∨ m.pending ≠ [] ∨ c' = 0 := by
            have here := reached.mid.place
            rcases place with ⟨pending, rfl, rfl⟩ | beyond
            · rw [pending]
              refine unread.elim (fun more => .inr (.inl more)) fun inside => .inl ?_
              rw [Fragment.limit, Fragment.base] at inside
              omega
            · by_cases begins : 0 < y
              · exact .inl begins
              · exact .inr (.inr (by omega))
          obtain ⟨isDone, partway, outcome, outcomes, tells, stands, cause⟩ := Broke.retold
            (g := ⟨f.k, j', f.strand, c', isFile', within'⟩) plain reached.mid
            (reached.carried.sessionStartLost.trans startLost) more displayed' some broke
          refine ⟨outcomes, ?_, stands⟩
          rw [same, ← isDone, Stage.retellFrom_done, tells]
          congr 1
          rcases cause with ⟨rfl, rfl⟩ | ⟨lost, n, rfl, rfl⟩
          · simp [outcomeOf, LogError.placed]
          · refine (outcomeOf_truncated isDone ?_ fun some => ?_).symm
            · rw [Fragment.placed, partway]
              exact counted _ _ rfl
            · obtain ⟨record, recordAt, front, _⟩ := front some
              exact ⟨record, recordAt, front⟩

end Record

/-! ## A record boundary that is searched -/

section Search

variable {ops : List ReadOp} {search search' : Search} {id : SegId} {rest : List SegId} {k j c : Nat}
  {σ : Strand} {stage : Stage} {fs : List Fragment} {refused : Bool}

/-- A file of the session that is opened is the next that is left. -/
theorem Follows.opens (plain : S.Plain files) (follows : S.Follows files search stage fs)
    (opens : search.Opens S ops id rest k j σ c) :
    ∃ fs', fs = opens.found.measured.fragment :: fs' ∧ (∀ f, stage.fragment = some f → k = f.k) ∧
      S.Follows files (search.open rest σ j)
        (.seeking opens.found.measured.fragment (stage.owing opens.found.measured.fragment)) fs' := by
  have strandAt := opens.found.measured.fileAt.strandAt
  obtain ⟨fs', rfl, displayed⟩ := plain.displayed_of_found follows.displayed
    (fun p mem => follows.suffix.mem mem) opens.found
  refine ⟨fs', rfl, fun f known => ?_, trivial, rfl, ?_, ?_, displayed⟩
  · have session := follows.session
    rw [known, Option.map_some] at session
    have same := opens.session.resolve_left (by rw [session]; simp)
    exact plain.apart strandAt (follows.known f known).1 (Option.some.inj (same.symm.trans session))
  · rintro f isFragment
    obtain rfl := Option.some.inj isFragment
    refine ⟨strandAt, ?_⟩
    have session := follows.session
    change (if search.session = none then σ.firstSequence + j else search.startLost) = stage.owing _
    cases stage with
    | start =>
        refine (if_pos session).trans ?_
        rw [plain.first strandAt, Nat.zero_add]
        rfl
    | reading f => exact follows.seeks.elim
    | broken f =>
        exact (if_neg (by rw [session]; simp [Stage.fragment])).trans (follows.known f rfl).2
    | seeking f ahead =>
        exact (if_neg (by rw [session]; simp [Stage.fragment])).trans (follows.known f rfl).2
  · exact (List.suffix_cons _ _).trans (opens.found.suffix.trans follows.suffix)

variable (refused) in
/-- Nothing is told of files that are passed over. -/
theorem PassesOver.retold (plain : S.Plain files) (past : S.PassesOver ops search search')
    (follows : S.Follows files search stage fs) (unsettled : ∀ h rest, fs = h :: rest → ¬ stage.Restores h) :
    ∃ stage' fs', S.Follows files search' stage' fs' ∧
      (∀ h rest, fs' = h :: rest → ¬ stage'.Restores h) ∧
      stage.retell refused fs = stage'.retell refused fs' := by
  induction past generalizing stage fs with
  | refl => exact ⟨stage, fs, follows, unsettled, rfl⟩
  | past opens covered more ih =>
      obtain ⟨fs', rfl, same, follows'⟩ := follows.opens plain opens
      obtain ⟨stage', fs'', follows'', unsettled', tells⟩ := ih follows' fun _ _ _ restores => restores
      refine ⟨stage', fs'', follows'', unsettled', ?_⟩
      have entered := Stage.step_of_same follows.seeks same (unsettled _ _ rfl)
      have passed : ¬ opens.found.measured.fragment.Offers := Nat.not_lt_of_le covered
      rw [Stage.retell, entered, Fragment.enter_of_covered passed, List.nil_append, tells]

variable {s t : ReadState} {pos i n k₀ i₀ : Nat}

/-- Where no hint settles the next file nothing is restored from it. -/
theorem Unsettled.not_restores (plain : S.Plain files) (follows : S.Follows files (searchOf s) stage fs)
    (hinted : S.Hinted files s stage fs) (unsettled : S.Unsettled ops s) :
    ∀ h rest, fs = h :: rest → ¬ stage.Restores h := by
  obtain ⟨id, rest, k, j, σ, c, found, none⟩ := unsettled
  obtain ⟨fs', rfl, _⟩ := plain.displayed_of_found follows.displayed
    (fun p mem => follows.suffix.mem mem) found
  intro h rest' isHead restores
  obtain rfl := (List.cons.inj isHead).1
  have settled := (hinted.settles id _ _ rfl (plain.displays found.measured)).mpr restores
  exact Option.isSome_iff_ne_none.mp settled none

/-- A search that ends without a record leaves the same to be told. -/
theorem PassesOver.leads (plain : S.Plain files) (past : S.PassesOver ops (searchOf s) search')
    (follows : S.Follows files (searchOf s) stage fs) (hinted : S.Hinted files s stage fs)
    (unsettled : search' = searchOf s ∨ S.Unsettled ops s) :
    ∃ stage' fs', S.Follows files search' stage' fs' ∧
      stage.retell refused fs = stage'.retell refused fs' := by
  rcases unsettled with rfl | unsettled
  · exact ⟨stage, fs, follows, rfl⟩
  · obtain ⟨stage', fs', follows', _, tells⟩ :=
      past.retold refused plain follows (unsettled.not_restores plain follows hinted)
    exact ⟨stage', fs', follows', tells⟩

/-- The first record that begins in the file found is told of next, behind the
files lost ahead of it. -/
theorem Fresh.retold (plain : S.Plain files) (follows : S.Follows files (searchOf s) stage fs)
    (hinted : S.Hinted files s stage fs) (fresh : S.Fresh s t k j σ id c pos i) :
    ∃ (isFile : j < σ.ids.length) (within : c ≤ (σ.data j).length) (fs' : List Fragment),
      S.log.Displayed files t.pending fs' ∧ i ≤ (Fragment.mk k j σ c isFile within).done ∧
      stage.retell refused fs =
        (if 0 < t.sessionStartLost then [.failed (.readTruncated t.sessionStartLost 0) []] else []) ++
          Stage.retellFrom refused ⟨k, j, σ, c, isFile, within⟩ i fs' := by
  obtain ⟨search, rest, past, opens, result⟩ := fresh.opens
  obtain ⟨stage', fs'', follows', unsettled, tells⟩ := past.retold refused plain follows
    (fresh.unsettled.not_restores plain follows hinted)
  obtain ⟨fs', rfl, same, follows''⟩ := follows'.opens plain opens
  have measured := opens.found.measured
  have offers : measured.fragment.Offers := by
    have := fresh.offers
    rwa [fresh.owes] at this
  have isFirst : measured.fragment.first = i := by
    have place := fresh.place
    rw [fresh.owes] at place
    exact Fragment.first_eq fresh.index.le place
  have lost : t.sessionStartLost = stage'.owing measured.fragment :=
    (congrArg Search.startLost result).trans (follows''.known _ rfl).2
  have pending : t.pending = rest := congrArg Search.pending result
  refine ⟨measured.fileAt.lt, measured.within, fs', pending ▸ follows''.displayed,
    isFirst ▸ offers.first_lt, ?_⟩
  rw [tells, Stage.retell, Stage.step_of_same follows'.seeks same (unsettled _ _ rfl),
    Fragment.enter_of_offers offers, isFirst, lost, List.append_assoc]
  rfl

/-- The record whose payload begins the file found is told of next. -/
theorem Recovered.retold (plain : S.Plain files) (follows : S.Follows files (searchOf s) stage fs)
    (hinted : S.Hinted files s stage fs) (recovered : S.Recovered s t k₀ i₀ k j σ id c i n) :
    ∃ (isFile : j < σ.ids.length) (within : c ≤ (σ.data j).length) (fs' : List Fragment),
      S.log.Displayed files t.pending fs' ∧ i ≤ (Fragment.mk k j σ c isFile within).done ∧
      stage.retell refused fs = Stage.retellFrom refused ⟨k, j, σ, c, isFile, within⟩ i fs' := by
  obtain ⟨search, rest, past, opens, result⟩ := recovered.opens
  obtain ⟨hint, told⟩ := Option.isSome_iff_exists.mp recovered.hinted
  obtain ⟨h, rest', isHead, displays⟩ := hinted.about hint told
  have settled := recovered.settled
  have sameId : hint.segment = id := by
    rw [told, Option.bind_some] at settled
    by_contra differs
    simp [recoveredPayloadLen, differs] at settled
  cases past with
  | past opens₁ covered more =>
      -- the hint is about the file that was passed over
      obtain ⟨fs', rfl, _⟩ := follows.opens plain opens₁
      obtain rfl := (List.cons.inj isHead).1
      rw [sameId] at displays
      have same := Option.some.inj (displays.fileAt.idAt.symm.trans opens₁.found.measured.fileAt.idAt)
      have later := more.suffix.mem (opens.found.suffix.mem List.mem_cons_self)
      have less := List.rel_of_pairwise_cons
        (S.sorted.sublist (opens₁.found.suffix.trans follows.suffix).sublist) later
      exact absurd (same ▸ less) (UInt64.lt_irrefl _)
  | refl =>
      obtain ⟨fs', rfl, same, follows'⟩ := follows.opens plain opens
      have measured := opens.found.measured
      have restores : stage.Restores measured.fragment :=
        (hinted.settles id _ _ rfl (plain.displays measured)).mp (Option.isSome_of_eq_some settled)
      have pending : t.pending = rest := congrArg Search.pending result
      cases stage with
      | broken f =>
          have sameK := same f rfl
          subst sameK
          obtain rfl : f.strand = σ :=
            Option.some.inj ((follows.known f rfl).1.symm.trans measured.fileAt.strandAt)
          obtain ⟨record, recordAt, _⟩ := recovered.recovers.recordAt
          have index := (List.getElem?_eq_some_iff.mp recordAt).1
          have base : measured.fragment.base ≤ f.strand.start f.strand.records.length :=
            Strand.start_length ▸ measured.fragment.base_le_limit.trans measured.fragment.limit_le
          have room : f.strand.start (f.done + 1) + f.strand.format.dataHeaderLen =
              measured.fragment.base := restores.2.2.2.2.2.1
          have place : measured.fragment.base = f.strand.start i + f.strand.format.dataHeaderLen :=
            recovered.place
          have header : 0 < f.strand.format.dataHeaderLen := by
            rw [restores.1]
            decide
          have more : f.done < f.strand.records.length := by
            refine Nat.lt_of_le_of_ne f.done_le fun atEnd => ?_
            rw [f.strand.start_of_length_le (by omega), ← Strand.start_length] at room
            omega
          obtain rfl : i = f.done + 1 := Strand.start_injective index.le more (by omega)
          refine ⟨measured.fileAt.lt, measured.within, fs', pending ▸ follows'.displayed, ?_, ?_⟩
          · refine (Fragment.le_done_iff (f := measured.fragment) index.le).mpr ?_
            have begins : f.strand.start (f.done + 1) ≤ measured.fragment.base :=
              place ▸ Nat.le_add_right _ _
            exact begins.trans measured.fragment.base_le_limit
          · have resumes : (Stage.broken f).step measured.fragment = f.resume measured.fragment := if_pos rfl
            have restored : f.resume measured.fragment =
                (measured.fragment.tells (f.done + 1), .reading measured.fragment) := if_pos restores
            rw [Stage.retell, resumes, restored]
            rfl
      | start => exact restores.elim
      | reading f => exact restores.elim
      | seeking f ahead => exact restores.elim

end Search

/-! ## One call -/

section Call

variable {s s' t : ReadState} {k i cap : Nat} {e : LogError} {result : Except LogError ReadResult}
  {outcomes : List Outcome}

/-- A reader between two records is in one place. -/
theorem AtRest.unique {j j' k' c c' pos pos' i' : Nat} {σ τ : Strand} {id id' : SegId}
    (rest : S.AtRest s k j σ id c pos i) (rest' : S.AtRest s k' j' τ id' c' pos' i') :
    k' = k ∧ j' = j ∧ τ = σ ∧ id' = id ∧ c' = c ∧ pos' = pos ∧ i' = i := by
  have same := Option.some.inj (rest'.current.symm.trans rest.current)
  obtain rfl : id' = id := congrArg Segment.id same
  obtain rfl : c' = c := congrArg Segment.dataLen same
  obtain rfl : pos' = pos := congrArg Segment.pos same
  obtain ⟨rfl, rfl, rfl⟩ := rest'.measured.fileAt.unique rest.measured.fileAt
  exact ⟨rfl, rfl, rfl, rfl, rfl, rfl,
    Strand.start_injective rest'.index rest.index (rest'.place.symm.trans rest.place)⟩

/-- A call between two records gives the next outcome. -/
theorem Step.retold_at_rest (plain : S.Plain files) {f : Fragment} {id : SegId} {pos i' : Nat}
    {fs : List Fragment} (rest : S.AtRest s f.k f.j f.strand id f.shown pos i') (some : 0 < f.shown)
    (displayed : S.log.Displayed files s.pending fs)
    (ample : ∀ record ∈ f.strand.records, record.payload.length ≤ cap) (step : S.Step s cap k i result s')
    (into : ∀ r, result = .ok r → ReadInto s' ∨ r = ⟨0, .fixed⟩) :
    Stage.retellFrom (endsRefused files S.listing) f i' fs = [] ∧ result = .error .eof ∨
      ∃ more, Stage.retellFrom (endsRefused files S.listing) f i' fs = outcomeOf result s'.dst :: more ∧
        S.Stands files s' more := by
  have notClosed {P : Prop} (closed : S.Closed s k i) : P := by
    have isOpen := rest.current
    rw [closed.closed] at isOpen
    contradiction
  have place : f.base + pos = f.strand.start i' := rest.place
  have le : i' ≤ f.done := by
    rw [Fragment.le_done_iff rest.index, Fragment.limit]
    have := rest.posLe
    omega
  cases step with
  | unlocated closed => exact notClosed closed
  | startLost closed => exact notClosed closed
  | fresh closed => exact notClosed closed
  | recovered closed => exact notClosed closed
  | next rest' unread reading =>
      obtain ⟨rfl, rfl, rfl, rfl, rfl, rfl, rfl⟩ := rest.unique rest'
      refine .inr (reading.retold plain rest.toOpen rest.synced rest.startLost displayed le ?_ ample into)
      refine unread.imp_right fun inside => ?_
      rw [Fragment.limit]
      omega
  | eof noMore exhausted result =>
      refine .inl ⟨?_, rfl⟩
      rw [noMore] at displayed
      cases displayed
      have whole : pos = f.shown := by
        have := rest.posLe
        rw [LogRead.exhausted, rest.current] at exhausted
        have := of_decide_eq_true exhausted
        dsimp only [opened] at this
        omega
      have atEnd : f.limit = f.strand.start i' := by rw [Fragment.limit, ← whole, place]
      have isDone : f.done = i' := by rw [Fragment.done, atEnd, Strand.ended_start rest.index]
      have whole : f.partway = 0 := by rw [Fragment.partway, isDone, atEnd, Nat.sub_self]
      have refused : ¬ endsRefused files S.listing = true := by
        have displays : S.log.Displays files id f := ⟨rest.measured.fileAt, plain.measured rest.measured⟩
        rw [displays.endsRefused_iff rest.suffix (noMore ▸ .nil), not_not]
        exact noMore
      rw [← isDone, Stage.retellFrom_done, Stage.retell, Stage.last, if_neg]
      rintro (isRefused | torn | none)
      · exact refused isRefused
      · exact absurd whole (Nat.ne_of_gt torn)
      · exact absurd none (Nat.ne_of_gt some)

/-- Where a search ends without a file nothing is left to tell, or a session
ended. -/
theorem Located.retold {stage : Stage} {fs : List Fragment} (plain : S.Plain files)
    (follows : S.Follows files (searchOf s) stage fs) (hinted : S.Hinted files s stage fs)
    (located : S.Located s k i (.error e) t) :
    stage.retell (endsRefused files S.listing) fs = [] ∧ e = .eof ∨
      ∃ more, stage.retell (endsRefused files S.listing) fs =
          outcomeOf (.error e) t.losePosition.dst :: more ∧ S.Stands files t.losePosition more := by
  cases located with
  | denied past opens refused =>
      obtain ⟨_, refused⟩ := refused
      exact (plain.not_refused refused opens.found.measured).elim
  | ended past missed result recovery unsettled =>
      obtain ⟨stage', fs', follows', tells⟩ := past.leads plain follows hinted unsettled
      obtain rfl := plain.displayed_of_missed follows'.displayed
        (fun p mem => follows'.suffix.mem mem) missed
      exact .inl ⟨tells.trans follows'.seeks.last_eq, rfl⟩
  | @boundary _ search id' rest k' j' τ c' past found differs result recovery unsettled =>
      obtain ⟨stage', fs', follows', tells⟩ := past.leads plain follows hinted unsettled
      obtain ⟨fs'', rfl, displayed⟩ := plain.displayed_of_found follows'.displayed
        (fun p mem => follows'.suffix.mem mem) found
      obtain ⟨sid, session, differs⟩ := differs
      obtain ⟨f, known, isSession⟩ := Option.map_eq_some_iff.mp (follows'.session.symm.trans session)
      have other : found.measured.fragment.k ≠ f.k := by
        intro (same : k' = f.k)
        have strandAt := (follows'.known f known).1
        rw [← same, found.measured.fileAt.strandAt] at strandAt
        rw [← isSession, Option.some.inj strandAt] at differs
        exact differs rfl
      have seeks := follows'.seeks
      refine .inr ⟨Stage.start.retell (endsRefused files S.listing)
        (found.measured.fragment :: fs''), ?_, ?_⟩
      · rw [tells, Stage.retell_of_other known other fun isReading => by
          rw [isReading] at seeks
          exact seeks.elim]
        rfl
      · refine .seeking rfl ⟨trivial, ?_, fun f impossible => ?_, ?_, ?_⟩
          (hinted_of_none recovery fun _ restores => restores)
        · exact congrArg Search.session result
        · simp [Stage.fragment] at impossible
        · rw [show (searchOf t.losePosition).pending = id' :: rest from congrArg Search.pending result]
          exact found.suffix.trans follows'.suffix
        · rw [show (searchOf t.losePosition).pending = id' :: rest from congrArg Search.pending result]
          exact .usable (plain.displays found.measured) displayed

/-- A call with no file open gives the next outcome. -/
theorem Step.retold_closed (plain : S.Plain files) {stage : Stage} {fs : List Fragment}
    (closed : s.current = none) (follows : S.Follows files (searchOf s) stage fs)
    (hinted : S.Hinted files s stage fs) (ample : ∀ record ∈ S.log.records, record.payload.length ≤ cap)
    (step : S.Step s cap k i result s') (into : ∀ r, result = .ok r → ReadInto s' ∨ r = ⟨0, .fixed⟩) :
    stage.retell (endsRefused files S.listing) fs = [] ∧ result = .error .eof ∨
      ∃ more, stage.retell (endsRefused files S.listing) fs = outcomeOf result s'.dst :: more ∧
        S.Stands files s' more := by
  have ampleIn {k : Nat} {σ : Strand} (strandAt : S.log.strands[k]? = some σ) :
      ∀ record ∈ σ.records, record.payload.length ≤ cap := fun record mem =>
    ample record (List.mem_flatMap.mpr ⟨σ, List.mem_of_getElem? strandAt, mem⟩)
  cases step with
  | next rest' =>
      have isOpen := rest'.current
      rw [closed] at isOpen
      contradiction
  | eof noMore exhausted result =>
      have displayed := follows.displayed
      rw [show (searchOf s).pending = [] from noMore] at displayed
      cases displayed
      exact .inl ⟨follows.seeks.last_eq, rfl⟩
  | unlocated _ located grew named result =>
      subst result
      rcases located.retold plain follows hinted with ⟨noMore, rfl⟩ | told
      · exact .inl ⟨noMore, rfl⟩
      · exact .inr told
  | startLost _ fresh lost rest pending ops =>
      obtain ⟨isFile, within, fs', displayed, le, tells⟩ := fresh.retold plain follows hinted
      refine .inr ⟨_, ?_, .between (f := ⟨_, _, _, _, isFile, within⟩) rest
        (Nat.lt_of_le_of_lt (Nat.zero_le _) fresh.offers) (pending ▸ displayed)⟩
      rw [tells, if_pos lost]
      rfl
  | fresh _ fresh none synced reading =>
      obtain ⟨isFile, within, fs', displayed, le, tells⟩ := fresh.retold plain follows hinted
      rw [none, if_neg (Nat.lt_irrefl 0), List.nil_append] at tells
      rw [tells]
      refine .inr (Reading.retold (f := ⟨_, _, _, _, isFile, within⟩) plain fresh.isOpen synced none displayed
        le ?_ (ampleIn fresh.isOpen.measured.fileAt.strandAt) reading into)
      have := fresh.offers
      have := fresh.place
      right
      rw [Fragment.limit, Fragment.base]
      dsimp only
      omega
  | recovered _ recovered synced reading =>
      obtain ⟨isFile, within, fs', displayed, le, tells⟩ := recovered.retold plain follows hinted
      rw [tells]
      refine .inr (Reading.retold (f := ⟨_, _, _, _, isFile, within⟩) plain recovered.isOpen synced
        recovered.startLost displayed le ?_ (ampleIn recovered.isOpen.measured.fileAt.strandAt) reading into)
      have place := recovered.place
      obtain ⟨simple, _⟩ := recovered.recovers
      rw [simple, show Format.variableSimple.dataHeaderLen = 4 from rfl] at place
      right
      rw [Fragment.limit, Fragment.base]
      dsimp only
      omega

/-- One call gives the first outcome that is still to be told, or the end of the
log where none is. -/
theorem Step.retold (plain : S.Plain files) (stands : S.Stands files s outcomes)
    (ample : ∀ record ∈ S.log.records, record.payload.length ≤ cap) (step : S.Step s cap k i result s')
    (into : ∀ r, result = .ok r → ReadInto s' ∨ r = ⟨0, .fixed⟩) :
    outcomes = [] ∧ result = .error .eof ∨
      ∃ more, outcomes = outcomeOf result s'.dst :: more ∧ S.Stands files s' more := by
  cases stands with
  | between rest some displayed =>
      refine step.retold_at_rest plain rest some displayed (fun record mem => ?_) into
      exact ample record (List.mem_flatMap.mpr
        ⟨_, List.mem_of_getElem? rest.measured.fileAt.strandAt, mem⟩)
  | seeking closed follows hinted => exact step.retold_closed plain closed follows hinted ample into

/-- With a buffer for every record, one call gives the first outcome that is
still to be told. -/
theorem readCall_retold (plain : S.Plain files) (ready : S.Ready s k i)
    (stands : S.Stands files s outcomes) (takes : S.Takes cap)
    (ample : ∀ record ∈ S.log.records, record.payload.length ≤ cap) :
    (∃ k' i', S.Ready (readCall S.env cap s).2 k' i') ∧
      (outcomes = [] ∧ (readCall S.env cap s).1 = .failed .eof [] ∨
        ∃ more, outcomes = (readCall S.env cap s).1 :: more ∧ S.Stands files (readCall S.env cap s).2 more) := by
  have spec := (read_spec ready.between takes).and (read_into S.env cap s)
  cases ran : (read S.env cap).run s with
  | ok result s' =>
      obtain ⟨step, into⟩ := spec.of_ok ran
      obtain ⟨_, k', i', _, ready', _⟩ := step.dealt ready
      rw [show readCall S.env cap s = (outcomeOf (.ok result) s'.dst, s') by simp only [readCall, ran]; rfl]
      refine ⟨⟨k', i', ready'⟩, ?_⟩
      refine (step.retold plain stands ample fun r same => Except.ok.inj same ▸ into).imp_left fun ended => ?_
      exact absurd ended.2 (by simp)
  | error stop s' =>
      obtain ⟨⟨e, rfl, step⟩, _⟩ := spec.of_error ran
      obtain ⟨_, k', i', _, ready', _⟩ := step.dealt ready
      rw [show readCall S.env cap s = (outcomeOf (.error e) s'.dst, s') by simp only [readCall, ran]; rfl]
      refine ⟨⟨k', i', ready'⟩, ?_⟩
      refine (step.retold plain stands ample fun _ impossible => by simp at impossible).imp_left fun ended => ?_
      rw [ended.2]
      exact ⟨ended.1, rfl⟩

/-- The end of the log is told of nowhere. -/
theorem Stands.not_eof (stands : S.Stands files s outcomes) :
    ∀ outcome ∈ outcomes, outcome ≠ .failed .eof [] := by
  have records (record : Record) : record.outcome ≠ .failed .eof [] := by simp [Record.outcome]
  have cutShort (f : Fragment) (lost : Nat) : f.cutShort lost ≠ .failed .eof [] := by simp [Fragment.cutShort]
  have ahead (n : Nat) : Outcome.failed (.readTruncated n 0) [] ≠ .failed .eof [] := by simp
  have boundary : Outcome.failed .sessionEnd [] ≠ .failed .eof [] := by simp
  cases stands with
  | between => exact Stage.forall_mem_retellFrom records cutShort ahead boundary _ _ _ _
  | seeking => exact Stage.forall_mem_retell records cutShort ahead boundary _ _ _

/-- To the end of the log a reader tells all that is to be told. -/
theorem reads_retold {caps : Nat → Nat} (plain : S.Plain files) (ready : S.Ready s k i)
    (stands : S.Stands files s outcomes) (ample : Ample caps S.log.records) :
    ∃ last, ReadsToEof S.env caps s outcomes last := by
  induction outcomes generalizing s k i caps with
  | nil =>
      obtain ⟨_, told⟩ := readCall_retold plain ready stands (ample.takes 0) (ample 0)
      rcases told with ⟨_, isEof⟩ | ⟨more, impossible, _⟩
      · exact ⟨_, .nil (Prod.ext isEof rfl)⟩
      · contradiction
  | cons outcome outcomes ih =>
      obtain ⟨⟨k', i', ready'⟩, told⟩ := readCall_retold plain ready stands (ample.takes 0) (ample 0)
      rcases told with ⟨impossible, _⟩ | ⟨more, same, stands'⟩
      · contradiction
      · obtain ⟨isOutcome, rfl⟩ := List.cons.inj same
        obtain ⟨last, reads⟩ := ih ready' stands' fun n => ample (n + 1)
        exact ⟨last, reads.cons (Prod.ext isOutcome.symm rfl) (stands.not_eof _ List.mem_cons_self)⟩

end Call

end Scene

end Tcslog
