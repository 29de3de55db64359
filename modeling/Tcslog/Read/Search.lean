import Tcslog.Read.Record

/-!
# Finding a record boundary

A resynchronization opens the files that are left, one after another, until one
offers a record boundary.  A file wholly covered by a record that began before
it is passed over.  After a gap of one file the record whose data header
was in it can sometimes be placed from its payload.
-/

namespace Tcslog

open Lib.Program Lib.Spanned

namespace Scene

variable {S : Scene}

/-- What a search keeps: the files left, the session and the files it knows to
be lost ahead of the session's first. -/
structure Search where
  pending : List SegId
  session : Option SegId
  startLost : Nat

/-- A reader's search. -/
def searchOf (s : ReadState) : Search :=
  ⟨s.pending, s.session, s.sessionStartLost⟩

/-- What the search keeps after opening file `j` of a strand. -/
def Search.open (search : Search) (rest : List SegId) (σ : Strand) (j : Nat) : Search where
  pending := rest
  session := some σ.sessionId
  startLost := if search.session = none then σ.firstSequence + j else search.startLost

/-- A file of the session searched is opened. -/
structure Search.Opens (S : Scene) (ops : List ReadOp) (search : Search) (id : SegId)
    (rest : List SegId) (k j : Nat) (σ : Strand) (c : Nat) : Prop where
  found : S.Found ops search.pending id rest k j σ c
  session : search.session = none ∨ search.session = some σ.sessionId

/-- Files that offer no record boundary are opened and passed over. -/
inductive PassesOver (S : Scene) (ops : List ReadOp) : Search → Search → Prop
  | refl {search : Search} : PassesOver S ops search search
  | past {search search' : Search} {id : SegId} {rest : List SegId} {k j : Nat} {σ : Strand}
      {c : Nat} (opens : search.Opens S ops id rest k j σ c)
      (covered : c ≤ owed σ.blocks (j * σ.dataSection))
      (more : PassesOver S ops (search.open rest σ j) search') :
      PassesOver S ops search search'

/-- No file is open. -/
structure Closed (S : Scene) (s : ReadState) (k₀ i₀ : Nat) : Prop where
  named : S.Named s
  suffix : s.pending <:+ S.listing
  closed : s.current = none
  hint : ∀ hint, s.recovery = some hint → s.sessionStartLost = 0 ∧
    ∃ k j σ, S.log.FileAt k j σ hint.segment ∧ s.session = some σ.sessionId ∧
      Hints k j σ hint k₀ i₀

/-- The hint does not settle where a record begins in the first file found. -/
def Unsettled (S : Scene) (ops : List ReadOp) (s : ReadState) : Prop :=
  ∃ id rest k j σ c, S.Found ops s.pending id rest k j σ c ∧
    s.recovery.bind (fun hint => recoveredPayloadLen hint id σ.format (σ.header j id).remaining.toNat
      σ.dataSection) = none

/-- The search ended with file `j` of a strand open at `pos`. -/
structure OpensAt (S : Scene) (s s' : ReadState) (k j : Nat) (σ : Strand) (id : SegId)
    (c pos : Nat) : Prop where
  grew : s.ops <+: s'.ops
  opens : ∃ search rest, S.PassesOver s'.ops (searchOf s) search ∧
    search.Opens S s'.ops id rest k j σ c ∧ searchOf s' = search.open rest σ j
  isOpen : S.Open s' k j σ id c pos

/-- Record `i` is the first that begins in the file the search opened. -/
structure Fresh (S : Scene) (s s' : ReadState) (k j : Nat) (σ : Strand) (id : SegId)
    (c pos i : Nat) : Prop extends S.OpensAt s s' k j σ id c pos where
  place : j * σ.dataSection + pos = σ.start i
  owes : pos = owed σ.blocks (j * σ.dataSection)
  offers : pos < c
  index : i < σ.records.length
  first : ∀ i', i' < i → σ.start i' < j * σ.dataSection
  unsettled : S.Unsettled s'.ops s

/-- The file the search opened begins with the payload of record `i`, of `n`
bytes. -/
structure Recovered (S : Scene) (s s' : ReadState) (k₀ i₀ k j : Nat) (σ : Strand) (id : SegId)
    (c i n : Nat) : Prop extends S.OpensAt s s' k j σ id c 0 where
  strand : k = k₀
  startLost : s'.sessionStartLost = 0
  place : j * σ.dataSection = σ.start i + σ.format.dataHeaderLen
  later : i₀ ≤ i
  recovers : Recovers σ i n
  hinted : s.recovery.isSome
  settled : s.recovery.bind (fun hint => recoveredPayloadLen hint id σ.format
    (σ.header j id).remaining.toNat σ.dataSection) = some n

/-- Where a search ended. -/
inductive Located (S : Scene) (s : ReadState) (k₀ i₀ : Nat) : Except LogError Start → ReadState → Prop
  | ended {s' : ReadState} {search : Search} (past : S.PassesOver s'.ops (searchOf s) search)
      (missed : ∀ p ∈ search.pending, S.Missed s'.ops p)
      (result : searchOf s' = { search with pending := [] }) (recovery : s'.recovery = none)
      (unsettled : search = searchOf s ∨ S.Unsettled s'.ops s) :
      Located S s k₀ i₀ (.error .eof) s'
  | boundary {s' : ReadState} {search : Search} {id : SegId} {rest : List SegId} {k j : Nat}
      {σ : Strand} {c : Nat} (past : S.PassesOver s'.ops (searchOf s) search)
      (found : S.Found s'.ops search.pending id rest k j σ c)
      (differs : ∃ sid, search.session = some sid ∧ sid ≠ σ.sessionId)
      (result : searchOf s' = ⟨id :: rest, none, search.startLost⟩) (recovery : s'.recovery = none)
      (unsettled : search = searchOf s ∨ S.Unsettled s'.ops s) :
      Located S s k₀ i₀ (.error .sessionEnd) s'
  | denied {s' : ReadState} {search : Search} {id : SegId} {rest : List SegId} {k j : Nat}
      {σ : Strand} {c : Nat} (past : S.PassesOver s'.ops (searchOf s) search)
      (opens : search.Opens S s'.ops id rest k j σ c) (refused : ∃ m, S.Refused m s' id)
      (result : searchOf s' = search.open rest σ j) (recovery : s'.recovery = none)
      (unsettled : search = searchOf s ∨ S.Unsettled s'.ops s) :
      Located S s k₀ i₀ (.error .ioError) s'
  | fresh {s' : ReadState} {k j : Nat} {σ : Strand} {id : SegId} {c pos i : Nat}
      (fresh : S.Fresh s s' k j σ id c pos i) : Located S s k₀ i₀ (.ok .fresh) s'
  | recovered {s' : ReadState} {k j : Nat} {σ : Strand} {id : SegId} {c i n : Nat}
      (recovered : S.Recovered s s' k₀ i₀ k j σ id c i n) : Located S s k₀ i₀ (.ok (.recovered n)) s'

/-! ## Recovering a record from its payload -/

/-- When the arithmetic of a hint settles it, the payload of the record after
the interrupted one begins the file. -/
theorem recovers_of_hint {k j k₀ i₀ n : Nat} {σ : Strand} {id : SegId} {hint : Recovery}
    (within : j < σ.ids.length) (hints : Hints k j σ hint k₀ i₀)
    (settled : recoveredPayloadLen hint id σ.format (σ.header j id).remaining.toNat σ.dataSection =
      some n) :
    k = k₀ ∧ ∃ i, i₀ ≤ i ∧ Recovers σ i n ∧
      j * σ.dataSection = σ.start i + σ.format.dataHeaderLen := by
  have onTape := σ.page_start_le_flatten within
  rw [Strand.header_remaining within, recoveredPayloadLen] at settled
  split at settled
  · contradiction
  next owes =>
  split at settled
  · contradiction
  next simple =>
  split at settled
  · contradiction
  next covers =>
  split at settled
  · contradiction
  next room =>
  split at settled
  rotate_left
  · contradiction
  rw [not_not] at simple room
  rw [not_or] at owes
  have len : σ.format.dataHeaderLen = 4 := by rw [simple]; rfl
  have notFirst : 0 < j := by
    refine Nat.pos_of_ne_zero fun zero => owes.2 ?_
    rw [zero, Nat.zero_mul, owed_zero]
  obtain ⟨rfl, i, later, place⟩ := hints simple notFirst
  have place' : j * σ.dataSection = σ.start i + σ.format.dataHeaderLen := by omega
  have index : i < σ.records.length := by
    refine Nat.lt_of_not_le fun past => ?_
    rw [σ.start_of_length_le past] at place'
    omega
  have recordAt := List.getElem?_eq_getElem index
  have next := Fits.start_succ recordAt
  have inside : σ.start i + σ.format.dataHeaderLen < σ.start (i + 1) := by
    refine Nat.lt_of_le_of_ne (Strand.start_add_dataHeaderLen_le index) fun atEnd => owes.2 ?_
    rw [place', atEnd, Strand.owed_start]
  refine ⟨rfl, i, later, ⟨simple, _, recordAt, ?_⟩, place'⟩
  rw [← Option.some.inj settled, place', Strand.owed_of_start inside (by omega)]
  omega

/-- A file that is not wholly covered offers the first boundary after what it
owes. -/
theorem exists_boundary {j c : Nat} {σ : Strand} (within : j < σ.ids.length)
    (shown : c ≤ (σ.data j).length) (offers : owed σ.blocks (j * σ.dataSection) < c) :
    ∃ i, i < σ.records.length ∧
      j * σ.dataSection + owed σ.blocks (j * σ.dataSection) = σ.start i ∧
      ∀ i', i' < i → σ.start i' < j * σ.dataSection := by
  obtain ⟨i, le, place, first⟩ :=
    exists_offset_eq_add_owed σ.blocks (σ.page_start_le_flatten within)
  refine ⟨i, ?_, place.symm, first⟩
  rw [Strand.length_blocks] at le
  refine lt_of_le_of_ne le fun atEnd => ?_
  have stored : σ.stored ≤ σ.blocks.flatten.length := σ.storedLe
  have total := Strand.start_length (σ := σ)
  rw [σ.length_data] at shown
  rw [← atEnd, Strand.start] at total
  omega

/-! ## The search -/

theorem searchOf_adopt {s : ReadState} {rest : List SegId} {j c : Nat} {σ : Strand} (id : SegId)
    {s' : ReadState} (within : j < σ.ids.length)
    (session : s.session = none ∨ s.session = some σ.sessionId)
    (pending : s'.pending = rest)
    (sessionEq : s'.session =
      (({ s.toLogRead with pending := rest }).adopt (opened σ j id c)).session)
    (startLost : s'.sessionStartLost =
      (({ s.toLogRead with pending := rest }).adopt (opened σ j id c)).sessionStartLost) :
    searchOf s' = (searchOf s).open rest σ j := by
  have sequence : (σ.header j id).sequence.toNat = σ.firstSequence + j :=
    Strand.header_sequence within
  rcases session with none | some
  · simp [searchOf, Search.open, pending, sessionEq, startLost, none, opened, sequence]
    rfl
  · simp [searchOf, Search.open, pending, sessionEq, startLost, some]

theorem Unsettled.mono {ops ops' : List ReadOp} {s : ReadState} (unsettled : S.Unsettled ops s)
    (grew : ops <+: ops') : S.Unsettled ops' s := by
  obtain ⟨id, rest, k, j, σ, c, found, none⟩ := unsettled
  exact ⟨id, rest, k, j, σ, c, found.mono grew, none⟩

/-- The search opened the first usable file and stands at its front. -/
structure Entered (S : Scene) (s t : ReadState) (id : SegId) (rest : List SegId) (k j : Nat)
    (σ : Strand) (c : Nat) : Prop where
  grew : s.ops <+: t.ops
  opens : (searchOf s).Opens S t.ops id rest k j σ c
  search : searchOf t = (searchOf s).open rest σ j
  isOpen : S.Open t k j σ id c 0
  resync : t.resync = s.resync
  cursor : t.cursor = s.cursor

theorem Closed.entered {s t : ReadState} {k₀ i₀ k j c : Nat} {σ : Strand} {id : SegId}
    {rest : List SegId} (closed : S.Closed s k₀ i₀) (grew : s.ops <+: t.ops)
    (found : S.Found t.ops s.pending id rest k j σ c)
    (session : s.session = none ∨ s.session = some σ.sessionId)
    (result : t = { s with
      toLogRead := ({ s.toLogRead with recovery := none, pending := rest }).adopt (opened σ j id c)
      ops := t.ops }) :
    S.Entered s t id rest k j σ c := by
  have search : searchOf t = (searchOf s).open rest σ j := by
    refine searchOf_adopt id (c := c) found.measured.fileAt.lt session ?_ ?_ ?_ <;> rw [result] <;> simp
  refine ⟨grew, ⟨found, session⟩, search, ⟨?_, ?_, found.measured, ?_, Nat.zero_le _, ?_, ?_, ?_⟩, ?_, ?_⟩
  · rw [result]
    exact ⟨by simpa using closed.named.namePrefix, by simpa using closed.named.nameSuffix⟩
  · rw [show t.pending = rest from congrArg Search.pending search]
    exact found.suffix.trans closed.suffix
  · rw [result, LogRead.adopt_current]
    rfl
  · exact congrArg Search.session search
  · rw [result]
    simp [opened]
  · rw [result]
    simp
  · rw [result]
    simp
  · rw [result]

/-- A record whose payload the hint placed is recovered. -/
theorem Entered.recovered {s t : ReadState} {k₀ i₀ k j c n : Nat} {σ : Strand} {id : SegId}
    {rest : List SegId} (entered : S.Entered s t id rest k j σ c) (closed : S.Closed s k₀ i₀)
    (settled : s.recovery.bind (fun hint => recoveredPayloadLen hint id σ.format
      (σ.header j id).remaining.toNat σ.dataSection) = some n) :
    S.Located s k₀ i₀ (.ok (.recovered n)) t := by
  obtain ⟨hint, known, settled⟩ := Option.bind_eq_some_iff.mp settled
  obtain ⟨startLost, k', j', τ, fileAt, session, hints⟩ := closed.hint hint known
  have sameId : hint.segment = id := by
    by_contra differs
    simp [recoveredPayloadLen, differs] at settled
  rw [sameId] at fileAt
  obtain ⟨rfl, rfl, rfl⟩ := fileAt.unique entered.isOpen.measured.fileAt
  obtain ⟨strand, i, later, recovers, place⟩ :=
    recovers_of_hint entered.isOpen.measured.fileAt.lt hints settled
  refine .recovered ⟨⟨entered.grew, ⟨_, _, .refl, entered.opens, entered.search⟩, entered.isOpen⟩, strand,
    ?_, place, later, recovers, by rw [known]; rfl, by rw [known]; exact settled⟩
  rw [show t.sessionStartLost = _ from congrArg Search.startLost entered.search]
  simp [Search.open, searchOf, session, startLost]

/-- A file that offers a record boundary is opened there. -/
theorem Entered.offers_spec {s t : ReadState} {k j c : Nat} {σ : Strand} {id : SegId}
    {rest : List SegId} (k₀ i₀ : Nat) (entered : S.Entered s t id rest k j σ c)
    (notSettled : s.recovery.bind (fun hint => recoveredPayloadLen hint id σ.format
      (σ.header j id).remaining.toNat σ.dataSection) = none)
    (offers : owed σ.blocks (j * σ.dataSection) < c) :
    Meets (seekForward S.env (opened σ j id c) (owed σ.blocks (j * σ.dataSection))) t
      (fun moved u =>
        let s' := { u with
          current := some { moved with pos := owed σ.blocks (j * σ.dataSection) } }
        s.ops <+: s'.ops ∧ s'.resync = s.resync ∧ s'.cursor = s.cursor ∧
          S.Located s k₀ i₀ (.ok .fresh) s')
      (fun stop u => s.ops <+: u.ops ∧ S.Named u ∧
        ∃ e, stop = .error e ∧ S.Located s k₀ i₀ (.error e) u) := by
  have isOpen := entered.isOpen
  have found := entered.opens.found
  obtain ⟨i, index, place, first⟩ :=
    exists_boundary isOpen.measured.fileAt.lt isOpen.measured.within offers
  have opens {ops : List ReadOp} (asked : t.ops <+: ops) :
      (searchOf s).Opens S ops id rest k j σ c :=
    ⟨found.mono asked, entered.opens.session⟩
  refine (seekForward_spec isOpen (by omega) _ isOpen.current).imp ?_ ?_
  · rintro moved u ⟨asked, rfl⟩
    have same := asked.toLogRead_eq
    have search : searchOf u = (searchOf s).open rest σ j := by
      rw [← entered.search, searchOf, searchOf, same]
    refine ⟨entered.grew.trans asked.asked, ?_, ?_, .fresh ⟨⟨entered.grew.trans asked.asked,
      ⟨_, _, .refl, opens asked.asked, search⟩, ?_⟩, place, rfl, offers, index, first,
      id, rest, k, j, σ, c, found.mono asked.asked, notSettled⟩⟩
    · rw [← entered.resync, same]
    · rw [← entered.cursor, asked.same]
    · refine ⟨?_, ?_, found.measured.mono asked.asked, rfl, offers.le, ?_, ?_, ?_⟩
      · exact ⟨same ▸ isOpen.named.namePrefix, same ▸ isOpen.named.nameSuffix⟩
      · rw [same]
        exact isOpen.suffix
      · rw [same]
        exact isOpen.session
      · rw [same]
        exact isOpen.prevSeq
      · rw [same]
        exact isOpen.noHint
  · rintro stop u ⟨rfl, refused⟩
    have asked := refused.asked
    have same := asked.toLogRead_eq
    refine ⟨entered.grew.trans asked.asked, isOpen.named.of_onlyAsked asked, .ioError, rfl,
      .denied .refl (opens asked.asked) ⟨t, refused⟩ ?_ ?_ (.inl rfl)⟩
    · rw [← entered.search, searchOf, searchOf, same]
    · rw [same, isOpen.noHint]

/-- One pass of the search. -/
theorem examineNext_spec {s : ReadState} {k₀ i₀ : Nat} (closed : S.Closed s k₀ i₀) :
    Meets (examineNext S.env) s
      (fun start s' => s.ops <+: s'.ops ∧ s'.resync = s.resync ∧ s'.cursor = s.cursor ∧
        match start with
        | some start => S.Located s k₀ i₀ (.ok start) s'
        | none => ∃ id rest k j σ c, (searchOf s).Opens S s'.ops id rest k j σ c ∧
            c ≤ owed σ.blocks (j * σ.dataSection) ∧ searchOf s' = (searchOf s).open rest σ j ∧
            S.Closed s' k₀ i₀ ∧ s'.recovery = none ∧ S.Unsettled s'.ops s)
      (fun stop s' => s.ops <+: s'.ops ∧ S.Named s' ∧
        ∃ e, stop = .error e ∧ S.Located s k₀ i₀ (.error e) s') := by
  have named : S.Named { s with recovery := none } := ⟨closed.named.namePrefix, closed.named.nameSuffix⟩
  have listed : ∀ p ∈ s.pending, p ∈ S.listing := fun p mem => closed.suffix.mem mem
  simp only [examineNext, meets_bind, meets_get, meets_modify, meets_ite]
  refine (openNext_spec named listed).imp ?_ ?_
  · rintro isOpen t ⟨grew, opening⟩
    cases opening with
    | none missed result =>
        refine ⟨by simp, fun _ => ?_⟩
        rw [meets_fail]
        refine ⟨grew, ?_, .eof, rfl, .ended .refl missed ?_ ?_ (.inl rfl)⟩
        · rw [result]
          exact ⟨closed.named.namePrefix, closed.named.nameSuffix⟩
        · rw [result]
          rfl
        · rw [result]
    | @file _ id rest k j σ c found session result =>
        refine ⟨fun _ => ?_, by simp⟩
        have entered := closed.entered grew found session result
        have isOpen := entered.isOpen
        have remaining : (opened σ j id c).header.remaining.toNat =
            owed σ.blocks (j * σ.dataSection) :=
          Strand.header_remaining found.measured.fileAt.lt
        simp only [isOpen.current]
        split
        next n settled => exact ⟨grew, entered.resync, entered.cursor, entered.recovered closed settled⟩
        next notSettled =>
          simp only [meets_ite, meets_bind, meets_modify, meets_pure, remaining]
          refine ⟨fun covered => ?_, fun offers => ?_⟩
          · refine ⟨grew, entered.resync, entered.cursor, id, rest, k, j, σ, c, entered.opens, covered,
              entered.search, ⟨⟨isOpen.named.namePrefix, isOpen.named.nameSuffix⟩, ?_, rfl, ?_⟩,
              isOpen.noHint, id, rest, k, j, σ, c, found, notSettled⟩
            · exact (List.suffix_cons _ _).trans isOpen.suffix
            · simp [isOpen.noHint]
          · exact entered.offers_spec k₀ i₀ notSettled (Nat.lt_of_not_le offers)
  · rintro stop t ⟨grew, rfl, id, rest, k, j, σ, c, boundary⟩
    refine ⟨grew, ?_, .sessionEnd, rfl, .boundary .refl boundary.found boundary.session ?_ ?_ (.inl rfl)⟩
    · rw [boundary.result]
      exact ⟨closed.named.namePrefix, closed.named.nameSuffix⟩
    · rw [boundary.result]
      rfl
    · rw [boundary.result]

/-- A search goes on after a file it passed over. -/
theorem Located.past {s t s' : ReadState} {k₀ i₀ k j c : Nat} {σ : Strand} {id : SegId}
    {rest : List SegId} {outcome : Except LogError Start}
    (opens : (searchOf s).Opens S s'.ops id rest k j σ c)
    (covered : c ≤ owed σ.blocks (j * σ.dataSection))
    (search : searchOf t = (searchOf s).open rest σ j) (noHint : t.recovery = none)
    (grew : s.ops <+: t.ops) (unsettled : S.Unsettled s'.ops s) (located : S.Located t k₀ i₀ outcome s') :
    S.Located s k₀ i₀ outcome s' := by
  have extend {search' : Search} (past : S.PassesOver s'.ops (searchOf t) search') :
      S.PassesOver s'.ops (searchOf s) search' := by
    rw [search] at past
    exact .past opens covered past
  cases located with
  | ended past missed result recovery =>
      exact .ended (extend past) missed result recovery (.inr unsettled)
  | boundary past found differs result recovery =>
      exact .boundary (extend past) found differs result recovery (.inr unsettled)
  | denied past opens' refused result recovery =>
      exact .denied (extend past) opens' refused result recovery (.inr unsettled)
  | fresh fresh =>
      obtain ⟨search', rest', past, more⟩ := fresh.opens
      exact .fresh { fresh with
        grew := grew.trans fresh.grew, opens := ⟨search', rest', extend past, more⟩
        unsettled := unsettled }
  | recovered recovered =>
      exact absurd recovered.hinted (by simp [noHint])

theorem findRecordStart_spec {s : ReadState} {k₀ i₀ : Nat} (closed : S.Closed s k₀ i₀) :
    Meets (findRecordStart S.env) s
      (fun start s' => s.ops <+: s'.ops ∧ s'.resync = s.resync ∧ s'.cursor = s.cursor ∧
        S.Located s k₀ i₀ (.ok start) s')
      (fun stop s' => s.ops <+: s'.ops ∧ S.Named s' ∧
        ∃ e, stop = .error e ∧ S.Located s k₀ i₀ (.error e) s') := by
  induction size : s.pending.length using Nat.strong_induction_on generalizing s with
  | _ size ih =>
      have spec := (examineNext_spec closed).and (examineNext_decreases S.env s)
      rw [Meets, run_findRecordStart]
      cases ran : (examineNext S.env).run s with
      | error stop t => exact (spec.of_error ran).1
      | ok start t =>
          obtain ⟨⟨grew, resync, cursor, outcome⟩, less⟩ := spec.of_ok ran
          cases start with
          | some start => exact ⟨grew, resync, cursor, outcome⟩
          | none =>
              obtain ⟨id, rest, k, j, σ, c, opens, covered, search, closed', noHint, unsettled⟩ := outcome
              have rest_ := ih _ (size ▸ less rfl) closed' rfl
              have opens' {ops : List ReadOp} (more : t.ops <+: ops) :
                  (searchOf s).Opens S ops id rest k j σ c :=
                ⟨opens.found.mono more, opens.session⟩
              refine rest_.imp ?_ ?_
              · rintro start u ⟨more, resync', cursor', located⟩
                exact ⟨grew.trans more, resync'.trans resync, cursor'.trans cursor,
                  located.past (opens' more) covered search noHint grew (unsettled.mono more)⟩
              · rintro stop u ⟨more, named, e, rfl, located⟩
                exact ⟨grew.trans more, named, e, rfl,
                  located.past (opens' more) covered search noHint grew (unsettled.mono more)⟩

end Scene

end Tcslog
