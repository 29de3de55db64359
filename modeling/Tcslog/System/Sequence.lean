import Tcslog.System.Damage
import Tcslog.Write.Chronicle

/-!
# The numbering of an undamaged log

Where no file of a log is missing between those a reader lists, the next usable
file is the next of the log: it carries on the numbering of its session, or
begins one.  So a reader finds nothing lost.
-/

namespace Tcslog

open Lib.Program Lib.Spanned

namespace Log

variable {L : Log} {k j k' j' : Nat} {σ τ : Strand}

/-- File `j'` of strand `k'` is the one after file `j` of strand `k`, which is
`σ`. -/
def Successor (k j : Nat) (σ : Strand) (k' j' : Nat) : Prop :=
  k' = k ∧ j' = j + 1 ∨ k' = k + 1 ∧ j' = 0 ∧ j + 1 = σ.ids.length

/-- The number of the next file says whether it is of the same session. -/
theorem Numbered.successor (numbered : L.Numbered) (strandAt : L.strands[k]? = some σ)
    (strandAt' : L.strands[k']? = some τ) (successor : Successor k j σ k' j') :
    τ.sessionId = σ.sessionId ∧ τ.firstSequence + j' = σ.firstSequence + j + 1 ∨
      τ.sessionId ≠ σ.sessionId ∧ τ.firstSequence + j' = 0 := by
  rcases successor with ⟨rfl, rfl⟩ | ⟨rfl, rfl, last⟩
  · obtain rfl := Option.some.inj (strandAt'.symm.trans strandAt)
    exact .inl ⟨rfl, rfl⟩
  · obtain ⟨less, rfl⟩ := List.getElem?_eq_some_iff.mp strandAt
    obtain ⟨less', rfl⟩ := List.getElem?_eq_some_iff.mp strandAt'
    rcases List.isChain_iff_getElem.mp numbered.follows k less' with ⟨zero, differs⟩ | ⟨same, next⟩
    · exact .inr ⟨fun equal => differs equal.symm, zero⟩
    · exact .inl ⟨same, by omega⟩

theorem Numbered.head (numbered : L.Numbered) (strandAt : L.strands[0]? = some σ) :
    σ.firstSequence = 0 :=
  numbered.first σ (List.head?_eq_getElem?.trans strandAt)

/-- Between two files that do not follow one another there is a third. -/
theorem exists_between {id id' : SegId} (fileAt : L.FileAt k j σ id) (fileAt' : L.FileAt k' j' τ id')
    (less : id < id') (notNext : ¬ Successor k j σ k' j') :
    ∃ b k'' j'' ρ, L.FileAt k'' j'' ρ b ∧ id < b ∧ b < id' := by
  have order := (fileAt.id_lt_iff fileAt').mp less
  have pick (k'' j'' : Nat) {ρ : Strand} (strandAt : L.strands[k'']? = some ρ)
      (within : j'' < ρ.ids.length) (after : k < k'' ∨ k = k'' ∧ j < j'')
      (before : k'' < k' ∨ k'' = k' ∧ j'' < j') :
      ∃ b k'' j'' ρ, L.FileAt k'' j'' ρ b ∧ id < b ∧ b < id' := by
    have there : L.FileAt k'' j'' ρ ρ.ids[j''] := ⟨strandAt, List.getElem?_eq_getElem within⟩
    exact ⟨_, k'', j'', ρ, there, (fileAt.id_lt_iff there).mpr after,
      (there.id_lt_iff fileAt').mpr before⟩
  have within := fileAt.lt
  have within' := fileAt'.lt
  simp only [Successor] at notNext
  by_cases more : j + 1 < σ.ids.length
  · exact pick k (j + 1) fileAt.strandAt more (by omega) (by omega)
  · rcases order with later | ⟨rfl, later⟩
    · by_cases first : j' = 0
      · have inside : k + 1 < L.strands.length := by
          have := (List.getElem?_eq_some_iff.mp fileAt'.strandAt).1
          omega
        exact pick _ 0 (List.getElem?_eq_getElem inside) (List.length_pos_of_ne_nil (Strand.nonempty _))
          (by omega) (by omega)
      · exact pick k' (j' - 1) fileAt'.strandAt (by omega) (by omega) (by omega)
    · obtain rfl := Option.some.inj (fileAt'.strandAt.symm.trans fileAt.strandAt)
      omega

end Log

namespace Scene

variable {S : Scene}

/-- No request fails, files that were listed are still there, and every file of
the log before a listed one is listed and usable. -/
structure Fronted (S : Scene) : Prop where
  quiet : ∀ t, S.env.fault t = false
  present : ∀ id ∈ S.listing, ∀ t, ((S.env.dir t).lookup (S.name id)).isSome
  usable : ∀ {id k j σ id' k' j' τ}, id ∈ S.listing → S.log.FileAt k j σ id →
    S.log.FileAt k' j' τ id' → id' < id → id' ∈ S.listing ∧ ∀ t, ∃ c, S.Sight t id' k' j' τ c
  numbered : S.log.Numbered

namespace Fronted

variable {ops : List ReadOp} {k j k' j' c : Nat} {σ τ : Strand} {id : SegId}
  {pending rest : List SegId}

theorem not_missed (fronted : S.Fronted) {id' : SegId} (listed : id ∈ S.listing)
    (fileAt : S.log.FileAt k j σ id) (fileAt' : S.log.FileAt k' j' τ id') (less : id' < id) :
    ¬ S.Missed ops id' := by
  rintro ⟨t, op, _, _, fault | unseen⟩
  · rw [fronted.quiet t] at fault
    contradiction
  · obtain ⟨c, sight⟩ := (fronted.usable listed fileAt fileAt' less).2 t
    exact unseen _ _ _ _ sight

/-- The files of the log before the one found do not come after one given up. -/
theorem found_first (fronted : S.Fronted) (suffix : pending <:+ S.listing)
    (found : S.Found ops pending id rest k j σ c) {b : SegId} (fileAt : S.log.FileAt k' j' τ b)
    (mem : b ∈ pending) : id ≤ b := by
  by_contra less
  rw [UInt64.not_le] at less
  have listed := suffix.mem (found.suffix.mem (List.mem_cons_self))
  obtain ⟨⟨front, split, missed⟩, measured⟩ := found
  rw [split] at mem
  rcases List.mem_append.mp mem with before | after
  · exact fronted.not_missed listed measured.fileAt fileAt less (missed b before)
  · have sorted : (id :: rest).Pairwise (· < ·) :=
      S.sorted.sublist (((List.suffix_append front _).trans (split ▸ suffix)).sublist)
    rcases List.mem_cons.mp after with rfl | later
    · exact UInt64.lt_irrefl _ less
    · exact UInt64.lt_asymm less (List.rel_of_pairwise_cons sorted later)

/-- The next usable file after an open one is the next of the log. -/
theorem successor (fronted : S.Fronted) {a : SegId} (fileAt : S.log.FileAt k j σ a)
    (suffix : a :: pending <:+ S.listing) (found : S.Found ops pending id rest k' j' τ c) :
    Log.Successor k j σ k' j' := by
  by_contra notNext
  have sorted := S.sorted.sublist suffix.sublist
  have inPending : id ∈ pending := found.suffix.mem List.mem_cons_self
  have listed := suffix.mem (List.mem_cons_of_mem _ inPending)
  have there := found.measured.fileAt
  obtain ⟨b, k'', j'', ρ, fileAt'', after, before⟩ :=
    Log.exists_between fileAt there (List.rel_of_pairwise_cons sorted inPending) notNext
  have listedB := (fronted.usable listed there fileAt'' before).1
  obtain ⟨front, split⟩ := suffix
  rw [← split] at listedB
  have memB : b ∈ pending := by
    have ordered := S.sorted
    rw [← split] at ordered
    rcases List.mem_append.mp listedB with early | late
    · exact absurd after (UInt64.lt_asymm ((List.pairwise_append.mp ordered).2.2 b early a
        List.mem_cons_self))
    · rcases List.mem_cons.mp late with rfl | late
      · exact absurd after (UInt64.lt_irrefl _)
      · exact late
  have first := fronted.found_first ((List.suffix_cons _ _).trans ⟨front, split⟩) found fileAt'' memB
  exact absurd before (UInt64.not_lt.mpr first)

/-- The first usable file is the first of the log. -/
theorem first (fronted : S.Fronted) (found : S.Found ops S.listing id rest k j σ c) :
    k = 0 ∧ j = 0 := by
  have there := found.measured.fileAt
  have listed := found.suffix.mem List.mem_cons_self
  have inside : 0 < S.log.strands.length := by
    have := (List.getElem?_eq_some_iff.mp there.strandAt).1
    omega
  have some := List.length_pos_of_ne_nil (S.log.strands[0]).nonempty
  have fileAt : S.log.FileAt 0 0 S.log.strands[0] S.log.strands[0].ids[0] :=
    ⟨List.getElem?_eq_getElem inside, List.getElem?_eq_getElem some⟩
  by_contra later
  have less := (fileAt.id_lt_iff there).mpr (by omega)
  have listed' := (fronted.usable listed there fileAt less).1
  have first := fronted.found_first List.suffix_rfl found fileAt listed'
  exact absurd less (UInt64.not_lt.mpr first)

end Fronted

/-! ## What a search will find -/

/-- Nothing is known to be lost, and the next usable file is of the session or
begins another. -/
structure Search.Sequenced (S : Scene) (search : Search) : Prop where
  startLost : search.startLost = 0
  suffix : search.pending <:+ S.listing
  next : ∀ {ops id rest k j σ c}, S.Found ops search.pending id rest k j σ c →
    search.session = some σ.sessionId ∨ σ.firstSequence + j = 0

/-- The reader finds nothing lost. -/
abbrev Sequenced (S : Scene) (s : ReadState) : Prop :=
  (searchOf s).Sequenced S

section Sequenced

variable {s t s' : ReadState} {search search' : Search} {ops : List ReadOp} {k j c pos i y : Nat}
  {σ : Strand} {id : SegId} {rest : List SegId}

/-- After a file of the log comes the next of it. -/
theorem sequenced_after (fronted : S.Fronted) (fileAt : S.log.FileAt k j σ id)
    (suffix : id :: search.pending <:+ S.listing) (session : search.session = some σ.sessionId)
    (startLost : search.startLost = 0) : search.Sequenced S := by
  refine ⟨startLost, (List.suffix_cons _ _).trans suffix, fun found => ?_⟩
  have successor := fronted.successor fileAt suffix found
  rcases fronted.numbered.successor fileAt.strandAt found.measured.fileAt.strandAt successor with
    ⟨same, _⟩ | ⟨_, zero⟩
  · exact .inl (by rw [session, same])
  · exact .inr zero

theorem Open.sequenced (fronted : S.Fronted) (isOpen : S.Open s k j σ id c pos)
    (startLost : s.sessionStartLost = 0) : S.Sequenced s :=
  sequenced_after fronted isOpen.measured.fileAt isOpen.suffix isOpen.session startLost

theorem Search.Opens.sequenced (fronted : S.Fronted) (sequenced : search.Sequenced S)
    (opens : search.Opens S ops id rest k j σ c) : (search.open rest σ j).Sequenced S := by
  refine sequenced_after fronted opens.found.measured.fileAt
    (opens.found.suffix.trans sequenced.suffix) rfl ?_
  simp only [Search.open]
  split
  next none =>
    refine (sequenced.next opens.found).resolve_left fun known => ?_
    rw [none] at known
    contradiction
  next => exact sequenced.startLost

theorem PassesOver.sequenced (fronted : S.Fronted) (past : S.PassesOver ops search search')
    (sequenced : search.Sequenced S) : search'.Sequenced S := by
  induction past with
  | refl => exact sequenced
  | past opens _ _ ih => exact ih (opens.sequenced fronted sequenced)

theorem Search.Sequenced.nil (sequenced : search.Sequenced S) (session : Option SegId) :
    Search.Sequenced S ⟨[], session, search.startLost⟩ := by
  refine ⟨sequenced.startLost, List.nil_suffix, fun found => ?_⟩
  obtain ⟨⟨front, split, _⟩, _⟩ := found
  simp at split

/-- Standing before a file that begins a session, or is of the one known. -/
theorem sequenced_before (session : Option SegId) {startLost : Nat} (fronted : S.Fronted)
    (suffix : id :: rest <:+ S.listing) (fileAt : S.log.FileAt k j σ id) (none : startLost = 0)
    (there : S.Measured ops id k j σ c)
    (begins : session = some σ.sessionId ∨ σ.firstSequence + j = 0) :
    Search.Sequenced S ⟨id :: rest, session, startLost⟩ := by
  refine ⟨none, suffix, fun {ops' id' rest' k' j' τ c'} found => ?_⟩
  have isFirst := fronted.found_first suffix found fileAt List.mem_cons_self
  have sorted := S.sorted.sublist suffix.sublist
  obtain rfl : id' = id := by
    rcases List.mem_cons.mp (found.suffix.mem (List.mem_cons_self (a := id'))) with same | later
    · exact same
    · exact absurd (List.rel_of_pairwise_cons sorted later) (UInt64.not_lt.mpr isFirst)
  obtain ⟨rfl, rfl, rfl⟩ := found.measured.fileAt.unique fileAt
  exact begins

theorem Search.Sequenced.boundary (fronted : S.Fronted) (sequenced : search.Sequenced S)
    (found : S.Found ops search.pending id rest k j σ c)
    (differs : ∃ sid, search.session = some sid ∧ sid ≠ σ.sessionId) :
    Search.Sequenced S ⟨id :: rest, none, search.startLost⟩ := by
  obtain ⟨sid, known, differs⟩ := differs
  have begins := (sequenced.next found).resolve_left fun same => differs <| by
    rw [known] at same
    exact Option.some.inj same
  exact sequenced_before _ fronted (found.suffix.trans sequenced.suffix) found.measured.fileAt
    sequenced.startLost found.measured (.inr begins)

/-! ## What a call reports -/

/-- An error that says nothing is lost. -/
def Lossless : LogError → Prop
  | .eof | .sessionEnd | .readTruncated 0 _ | .readOverflow _ => True
  | _ => False

/-- Files that are there are not refused by a request. -/
theorem Refused.elim (fronted : S.Fronted) (refused : S.Refused s s' id) (listed : id ∈ S.listing) :
    False := by
  have found := refused.found
  rw [fronted.quiet, if_neg (by simp)] at found
  have present := fronted.present id listed s.ops.length
  rw [← found] at present
  contradiction

/-- A record that fails where nothing is missing ran into the end of the log or
of its session. -/
theorem Failed.sequenced {e : LogError} (fronted : S.Fronted) (failed : S.Failed t k j σ c i y e s')
    (startLost : t.sessionStartLost = 0) : S.Sequenced s' ∧ Lossless e := by
  cases failed with
  | denied reached denied =>
      exact (denied.refused.elim fronted (denied.mid.suffix.mem List.mem_cons_self)).elim
  | @broke m _ _ j' id' c' reached more broke =>
      have isOpen := reached.mid.toOpen
      have sequenced := isOpen.sequenced fronted (reached.carried.sessionStartLost.trans startLost)
      have kept := broke.carried.sessionStartLost.trans sequenced.startLost
      have sessionM : (searchOf m).session = some σ.sessionId := isOpen.session
      cases broke.cause with
      | ended missed pending session recovery =>
          refine ⟨?_, trivial⟩
          have nil := sequenced.nil s'.session
          rwa [show (searchOf m).startLost = s'.sessionStartLost from
            broke.carried.sessionStartLost.symm, ← pending] at nil
      | @boundary _ _ id'' rest k'' j'' τ c'' found differs pending session recovery error =>
          have begins := (sequenced.next found).resolve_left fun same => differs <| by
            rw [sessionM] at same
            exact (Option.some.inj same).symm
          have after := sequenced_before s'.session fronted
            (found.suffix.trans sequenced.suffix) found.measured.fileAt kept found.measured
            (.inr begins)
          refine ⟨?_, ?_⟩
          · rwa [← pending] at after
          · rw [error]
            split <;> trivial
      | @rejected _ id'' rest k'' j'' τ c'' found same denied pending session recovery =>
          have successor := fronted.successor isOpen.measured.fileAt isOpen.suffix found
          have after := sequenced_before s'.session fronted
            (found.suffix.trans sequenced.suffix) found.measured.fileAt kept found.measured
            (.inl (by rw [session, same]))
          refine ⟨by rwa [← pending] at after, ?_⟩
          rcases fronted.numbered.successor isOpen.measured.fileAt.strandAt
            found.measured.fileAt.strandAt successor with ⟨_, next⟩ | ⟨differs, _⟩
          · rw [next, Nat.sub_self]
            trivial
          · exact absurd same differs

theorem Reading.sequenced {cap : Nat} {result : Except LogError ReadResult} (fronted : S.Fronted)
    (reading : S.Reading t k j σ c i cap result s') (startLost : t.sessionStartLost = 0) :
    S.Sequenced s' ∧ ∀ e, result = .error e → Lossless e := by
  have stands {j' : Nat} {id' : SegId} {c' pos' y : Nat}
      (reached : S.Reached t k j σ c i s' j' id' c' pos' y) : S.Sequenced s' :=
    reached.mid.toOpen.sequenced fronted (reached.carried.sessionStartLost.trans startLost)
  cases reading with
  | whole recordAt fits dst reached done => exact ⟨stands reached, by simp⟩
  | overflow recordAt long dst reached done =>
      refine ⟨stands reached, fun e isError => ?_⟩
      obtain rfl := Except.error.inj isError
      trivial
  | cut recordAt long dst failed result =>
      obtain ⟨sequenced, _⟩ := failed.sequenced fronted startLost
      refine ⟨result ▸ sequenced, fun e isError => ?_⟩
      obtain rfl := Except.error.inj isError
      trivial
  | failed failed result front =>
      obtain ⟨sequenced, lossless⟩ := failed.sequenced fronted startLost
      refine ⟨result ▸ sequenced, fun e isError => ?_⟩
      obtain rfl := Except.error.inj isError
      exact lossless

theorem OpensAt.sequenced (fronted : S.Fronted) (opensAt : S.OpensAt s t k j σ id c pos)
    (sequenced : S.Sequenced s) : S.Sequenced t := by
  obtain ⟨search, rest, past, opens, result⟩ := opensAt.opens
  have after := opens.sequenced fronted (past.sequenced fronted sequenced)
  rwa [← result] at after

/-- A call where nothing is missing finds nothing lost. -/
theorem Step.sequenced {k₀ i₀ cap : Nat} {result : Except LogError ReadResult} (fronted : S.Fronted)
    (step : S.Step s cap k₀ i₀ result s') (sequenced : S.Sequenced s) :
    S.Sequenced s' ∧ ∀ e, result = .error e → Lossless e := by
  cases step with
  | eof noMore exhausted result =>
      refine ⟨result ▸ sequenced, fun e isError => ?_⟩
      obtain rfl := Except.error.inj isError
      trivial
  | next rest more reading => exact reading.sequenced fronted rest.startLost
  | startLost closed fresh lost rest pending ops =>
      have none := (fresh.toOpensAt.sequenced fronted sequenced).startLost
      exact absurd none (Nat.pos_iff_ne_zero.mp lost)
  | fresh closed fresh none synced reading =>
      exact reading.sequenced fronted (fresh.toOpensAt.sequenced fronted sequenced).startLost
  | recovered closed recovered synced reading =>
      exact reading.sequenced fronted (recovered.toOpensAt.sequenced fronted sequenced).startLost
  | @unlocated _ t e closed located grew named result =>
      subst result
      suffices S.Sequenced t ∧ Lossless e by
        refine ⟨this.1, fun e' isError => ?_⟩
        rw [← Except.error.inj isError]
        exact this.2
      cases located with
      | ended past missed result recovery =>
          refine ⟨?_, trivial⟩
          rw [Sequenced, result]
          exact (past.sequenced fronted sequenced).nil _
      | boundary past found differs result recovery =>
          refine ⟨?_, trivial⟩
          rw [Sequenced, result]
          exact (past.sequenced fronted sequenced).boundary fronted found differs
      | denied past opens refused result recovery =>
          obtain ⟨m, refused⟩ := refused
          have suffix := (past.sequenced fronted sequenced).suffix
          have listed := suffix.mem (opens.found.suffix.mem List.mem_cons_self)
          exact (refused.elim fronted listed).elim

/-- Calls in a row where nothing is missing find nothing lost. -/
theorem readCalls_sequenced {i : Nat} {caps : Nat → Nat} (fronted : S.Fronted) (ready : S.Ready s k i)
    (sequenced : S.Sequenced s) (takes : ∀ n, S.Takes (caps n)) (calls : Nat) :
    ∀ e bytes, .failed e bytes ∈ (readCalls S.env caps calls s).1 → Lossless e := by
  induction calls generalizing s k i caps with
  | zero => simp [readCalls]
  | succ calls ih =>
      obtain ⟨result, step, outcome⟩ := readCall_step ready (takes 0)
      obtain ⟨_, k₁, i₁, _, ready₁, _⟩ := step.dealt ready
      obtain ⟨sequenced₁, lossless⟩ := step.sequenced fronted sequenced
      intro e bytes mem
      rw [readCalls_succ] at mem
      rcases List.mem_cons.mp mem with here | later
      · rw [outcome] at here
        cases result with
        | ok result => simp [outcomeOf] at here
        | error e' =>
            simp only [outcomeOf, Outcome.failed.injEq] at here
            exact here.1 ▸ lossless e' rfl
      · exact ih ready₁ sequenced₁ (fun n => takes (n + 1)) e bytes later

end Sequenced

/-- A reader that made no call yet finds nothing lost. -/
theorem sequenced_begin {s : ReadState} (fronted : S.Fronted) (pending : s.pending = S.listing)
    (startLost : s.sessionStartLost = 0) : S.Sequenced s := by
  refine ⟨startLost, show s.pending <:+ S.listing from pending ▸ List.suffix_rfl,
    fun {ops id rest k j σ c} found => .inr ?_⟩
  have found' : S.Found ops S.listing id rest k j σ c := pending ▸ found
  obtain ⟨rfl, rfl⟩ := fronted.first found'
  rw [fronted.numbered.head found'.measured.fileAt.strandAt]

end Scene

end Tcslog
