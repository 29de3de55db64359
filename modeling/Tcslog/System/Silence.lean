import Tcslog.Read.Reach
import Tcslog.System.Retold

/-!
# When nothing is told of a loss

What a reader is told is clean where it is told of records and ends of sessions
only.  Whether it is, with room for any record, is settled by the files that are
left: by those in which the reader reads and what comes behind them, and by the
sessions of which a record begins though the first file is gone.
-/

namespace Tcslog

/-- Nothing is told but records and ends of sessions. -/
def Clean (outcomes : List Outcome) : Prop :=
  ∀ outcome ∈ outcomes, outcome.isRecord = true ∨ outcome = .failed .sessionEnd []

theorem clean_append {outcomes more : List Outcome} :
    Clean (outcomes ++ more) ↔ Clean outcomes ∧ Clean more :=
  List.forall_mem_append

/-- Where readers with these buffers are told of no loss, nothing is clipped. -/
theorem clipped_of_clean {caps : Nat → Nat} {outcomes : List Outcome} (clean : Clean (clipped caps outcomes)) :
    clipped caps outcomes = outcomes := by
  induction outcomes generalizing caps with
  | nil => rfl
  | cons outcome outcomes ih =>
      have unfolds : clipped caps (outcome :: outcomes) =
          outcome.clip (caps 0) :: clipped (fun n => caps (n + 1)) outcomes := List.mapIdx_cons
      rw [unfolds] at clean ⊢
      have whole : outcome.clip (caps 0) = outcome := by
        have told := clean _ List.mem_cons_self
        cases outcome with
        | record payload metadata =>
            rw [Outcome.clip] at told ⊢
            split
            next long => simp [if_pos long, Outcome.isRecord] at told
            next => rfl
        | failed e bytes =>
            cases e with
            | readTruncated lost n =>
                rw [Outcome.clip] at told
                split at told <;> simp [Outcome.isRecord] at told
            | _ => rfl
        | panicked => rfl
      rw [whole, ih fun o mem => clean o (List.mem_cons_of_mem _ mem)]

theorem clean_cons {outcome : Outcome} {outcomes : List Outcome} :
    Clean (outcome :: outcomes) ↔
      (outcome.isRecord = true ∨ outcome = .failed .sessionEnd []) ∧ Clean outcomes :=
  List.forall_mem_cons

/-- The records of sessions are told, and their ends. -/
theorem clean_script (sessions : List (List Record)) : Clean (script sessions) := by
  have told (records : List Record) : Clean (records.map Record.outcome) := by
    intro outcome mem
    obtain ⟨record, _, rfl⟩ := List.mem_map.mp mem
    exact .inl rfl
  cases sessions with
  | nil => exact fun _ mem => absurd mem List.not_mem_nil
  | cons records later =>
      induction later generalizing records with
      | nil =>
          rw [script_singleton]
          exact told records
      | cons next later ih =>
          rw [script_cons_cons]
          exact clean_append.mpr ⟨told records, clean_cons.mpr ⟨.inr rfl, ih next⟩⟩

namespace Fragment

/-- A reader is told of a loss among these files: it reads in a file that the next
of the session does not follow, or breaks off in one, or a record begins in what
is left of a session of which the first file is gone. -/
inductive LossTold (fs : List Fragment) (refused : Bool) : Prop
  | gap {f g : Fragment} (reads : Reads fs f) (next : [f, g] <:+: fs) (same : g.k = f.k)
      (apart : ¬ f.Precedes g)
  | torn {f g : Fragment} (reads : Reads fs f) (next : [f, g] <:+: fs) (other : g.k ≠ f.k) (torn : f.Torn)
  | ahead {g : Fragment} (mem : g ∈ fs) (offers : g.Offers) (gone : ∀ e ∈ fs, e.k = g.k → 0 < e.j)
  | atEnd {f : Fragment} (reads : Reads fs f) (isLast : [f] <:+ fs)
      (short : refused = true ∨ f.Torn ∨ f.shown = 0)

end Fragment

namespace Stage

open Fragment

variable {f h : Fragment} {stage : Stage} {fs front rest : List Fragment} {refused : Bool}

theorem clean_tells (f : Fragment) (i : Nat) : Clean (f.tells i) :=
  forall_mem_tells (P := fun outcome => outcome.isRecord = true ∨ outcome = .failed .sessionEnd [])
    (fun _ => .inl rfl) f i

theorem not_clean_cutShort (f : Fragment) (lost : Nat) (outcomes : List Outcome) :
    ¬ Clean (f.cutShort lost :: outcomes) := by
  rw [clean_cons]
  simp [Fragment.cutShort, Outcome.isRecord]

theorem clean_enter_iff (h : Fragment) (ahead : Nat) :
    Clean (h.enter ahead).1 ↔ (h.Offers → ahead = 0) := by
  by_cases offers : h.Offers
  · rw [enter_of_offers offers, clean_append, and_iff_left (clean_tells h _)]
    rcases Nat.eq_zero_or_pos ahead with rfl | some
    · simp [Clean]
    · rw [if_pos some]
      simp [Clean, Outcome.isRecord, offers, some.ne']
  · rw [enter_of_covered offers]
    simp [Clean, offers]

theorem clean_change_iff (h : Fragment) : Clean (change h).1 ↔ (h.Offers → h.j = 0) :=
  (clean_cons.trans (and_iff_right (.inr rfl))).trans (clean_enter_iff h h.j)

theorem clean_step_reading_iff (f h : Fragment) : Clean ((reading f).step h).1 ↔
    (h.k = f.k → f.Precedes h) ∧ (h.k ≠ f.k → ¬ f.Torn ∧ (h.Offers → h.j = 0)) := by
  by_cases precedes : f.Precedes h
  · rw [step, if_pos precedes]
    exact iff_of_true (clean_tells h _) ⟨fun _ => precedes, fun other => absurd precedes.1 other⟩
  by_cases same : h.k = f.k
  · rw [step, if_neg precedes, if_pos same]
    exact iff_of_false (not_clean_cutShort _ _ _) fun both => precedes (both.1 same)
  · rw [step, if_neg precedes, if_neg same, tellFirst, clean_append, clean_change_iff]
    by_cases torn : f.Torn
    · rw [if_pos torn]
      exact iff_of_false (fun both => not_clean_cutShort _ _ _ both.1) fun both => (both.2 same).1 torn
    · simp [Clean, torn, same]

theorem clean_step_seeking_iff (f h : Fragment) (ahead : Nat) : Clean ((seeking f ahead).step h).1 ↔
    (h.Offers → if h.k = f.k then ahead = 0 else h.j = 0) := by
  by_cases same : h.k = f.k
  · rw [step, if_pos same, if_pos same, clean_enter_iff]
  · rw [step, if_neg same, if_neg same, clean_change_iff]

theorem clean_last_iff (stage : Stage) (refused : Bool) : Clean (stage.last refused) ↔
    ∀ f, stage = reading f → ¬ (refused = true ∨ f.Torn ∨ f.shown = 0) := by
  cases stage with
  | reading f =>
      rw [last]
      split
      next short => exact iff_of_false (not_clean_cutShort _ _ _) fun all => all f rfl short
      next whole => exact iff_of_true (List.forall_mem_nil _) fun g same => Stage.reading.inj same ▸ whole
  | start | broken f | seeking f ahead =>
      exact iff_of_true (List.forall_mem_nil _) fun _ impossible => by simp at impossible

/-- What is told is clean if it is at each of the files and at the end. -/
theorem clean_retell_iff : Clean (stage.retell refused fs) ↔
    (∀ front h rest, fs = front ++ h :: rest → Clean ((stage.after front).step h).1) ∧
      Clean ((stage.after fs).last refused) := by
  constructor
  · intro clean
    exact ⟨fun front h rest split outcome mem =>
        clean outcome (mem_retell.mpr (.inl ⟨front, h, rest, split, mem⟩)),
      fun outcome mem => clean outcome (mem_retell.mpr (.inr mem))⟩
  · rintro ⟨steps, atEnd⟩ outcome mem
    rcases mem_retell.mp mem with ⟨front, h, rest, split, told⟩ | told
    · exact steps front h rest split outcome told
    · exact atEnd outcome told

/-- The first of the files of a session in which a record begins. -/
theorem exists_first_offers (mem : h ∈ fs) (offers : h.Offers) : ∃ front g rest, fs = front ++ g :: rest ∧
    g.k = h.k ∧ g.Offers ∧ ∀ e ∈ front, e.k = h.k → ¬ e.Offers := by
  have found : (fs.find? fun e => e.k = h.k ∧ e.Offers).isSome := by
    rw [List.find?_isSome]
    exact ⟨h, mem, by simp [offers]⟩
  obtain ⟨g, found⟩ := Option.isSome_iff_exists.mp found
  obtain ⟨isFirst, front, rest, split, noneBefore⟩ := List.find?_eq_some_iff_append.mp found
  obtain ⟨same, offers⟩ := of_decide_eq_true isFirst
  exact ⟨front, g, rest, split, same, offers,
    fun e mem same offers => by simpa [same, offers] using noneBefore e mem⟩

section Sorted

variable (sorted : fs.Pairwise Before)

include sorted

/-- The files of a session whose first file is not among those in front, and is not
this one, leave the first file out. -/
theorem gone_of_split (split : fs = front ++ h :: rest) (later : 0 < h.j)
    (noneBefore : ∀ e ∈ front, e.k = h.k → 0 < e.j) : ∀ e ∈ fs, e.k = h.k → 0 < e.j := by
  subst split
  intro e mem same
  rcases List.mem_append.mp mem with inFront | inRest
  · exact noneBefore e inFront same
  rcases List.mem_cons.mp inRest with rfl | behind
  · exact later
  · have before := (List.pairwise_cons.mp (List.pairwise_append.mp sorted).2.1).1 e behind
    rw [Before] at before
    omega

/-- Where no loss is told of, nothing but records and ends of sessions is told of a
file. -/
theorem clean_step_of_not_lossTold (none : ¬ LossTold fs refused) (split : fs = front ++ h :: rest) :
    Clean ((start.after front).step h).1 := by
  have isIn : h ∈ fs := split ▸ by simp
  have opens (offers : h.Offers) (noneBefore : ∀ e ∈ front, e.k = h.k → 0 < e.j) : h.j = 0 := by
    by_contra later
    exact none (.ahead isIn offers (gone_of_split sorted split (Nat.pos_of_ne_zero later) noneBefore))
  rcases List.eq_nil_or_concat front with rfl | ⟨front, f, rfl⟩
  · exact (clean_enter_iff h h.j).mpr fun offers => opens offers (by simp)
  rw [List.concat_eq_append] at *
  have next : [f, h] <:+: fs := ⟨front, rest, by simp [split]⟩
  have sortedFront : (front ++ [f]).Pairwise Before := sorted.sublist (split ▸ List.sublist_append_left _ _)
  have behind := behind_after sortedFront
  have before : f.Before h := (List.pairwise_append.mp (split ▸ sorted)).2.2 f (by simp) h (by simp)
  have apart (other : h.k ≠ f.k) : ∀ e ∈ front ++ [f], e.k = h.k → 0 < e.j := fun e mem same => by
    have := le_last sortedFront mem
    have := before.le
    omega
  rcases behind.last with isReading | ⟨ahead, isSeeking⟩
  · have reads : Reads fs f := by
      rw [split, reads_append_iff (split ▸ sorted) (by simp)]
      exact behind.reads.mp isReading
    rw [isReading, clean_step_reading_iff]
    refine ⟨fun same => ?_, fun other => ⟨fun torn => none (.torn reads next other torn), fun offers => ?_⟩⟩
    · by_contra gap
      exact none (.gap reads next same gap)
    · exact opens offers (apart other)
  · rw [isSeeking, clean_step_seeking_iff]
    intro offers
    split
    next same =>
      rw [behind.ahead ahead isSeeking]
      by_contra notBegun
      have noneBefore : ∀ e ∈ front ++ [f], e.k = h.k → 0 < e.j := fun e mem sameK =>
        Nat.pos_of_ne_zero fun isFirst => notBegun ⟨e, mem, sameK.trans same, .inl isFirst⟩
      have later := opens offers noneBefore
      rw [Before] at before
      omega
    next other => exact opens offers (apart other)

/-- A loss ahead of a session is told of where a record of it begins first. -/
theorem not_clean_of_ahead (mem : h ∈ fs) (offers : h.Offers) (gone : ∀ e ∈ fs, e.k = h.k → 0 < e.j) :
    ∃ front g rest, fs = front ++ g :: rest ∧ ¬ Clean ((start.after front).step g).1 := by
  obtain ⟨front, g, rest, split, same, offers, noneBefore⟩ := exists_first_offers mem offers
  refine ⟨front, g, rest, split, ?_⟩
  have later : 0 < g.j := gone g (split ▸ by simp) same
  rcases List.eq_nil_or_concat front with rfl | ⟨front, f, rfl⟩
  · exact fun clean => absurd ((clean_enter_iff g g.j).mp clean offers) later.ne'
  rw [List.concat_eq_append] at *
  have behind := behind_after (sorted.sublist (split ▸ List.sublist_append_left _ _))
  have notBegun (sameK : g.k = f.k) : ¬ Begun (front ++ [f]) f.k := by
    rintro ⟨e, mem, isK, isFirst | offersThere⟩
    · have := gone e (split ▸ List.mem_append_left _ mem) (isK.trans (sameK.symm.trans same))
      omega
    · exact noneBefore e mem (isK.trans (sameK.symm.trans same)) offersThere
  rcases behind.last with isReading | ⟨ahead, isSeeking⟩
  · obtain ⟨e, mem, isK, offersThere⟩ := (behind.reads.mp isReading).exists_offers
    rw [isReading, clean_step_reading_iff]
    intro clean
    by_cases sameK : g.k = f.k
    · exact notBegun sameK ⟨e, mem, isK, .inr offersThere⟩
    · exact absurd ((clean.2 sameK).2 offers) later.ne'
  · rw [isSeeking, clean_step_seeking_iff]
    intro clean
    have told := clean offers
    split at told
    next sameK => exact notBegun sameK ((behind.ahead ahead isSeeking).mp told)
    next => exact absurd told later.ne'

/-- A reader with room for any record is told of records and ends of sessions only
if and only if no loss is told of among the files. -/
theorem clean_retell_iff_not_lossTold : Clean (start.retell refused fs) ↔ ¬ LossTold fs refused := by
  rw [clean_retell_iff]
  have readingAt {f : Fragment} {front rest : List Fragment} (split : fs = front ++ [f] ++ rest)
      (reads : Reads fs f) :
      start.after (front ++ [f]) = reading f := by
    have behind := behind_after (sorted.sublist (split ▸ List.sublist_append_left _ _))
    rw [behind.reads, ← reads_append_iff (split ▸ sorted) (by simp), ← split]
    exact reads
  constructor
  · rintro ⟨steps, atEnd⟩ told
    cases told with
    | @gap f g reads next same apart =>
        obtain ⟨front, rest, split⟩ := next
        have split : fs = front ++ [f] ++ g :: rest := by rw [← split]; simp
        have clean := steps _ g rest split
        rw [readingAt split reads, clean_step_reading_iff] at clean
        exact apart (clean.1 same)
    | @torn f g reads next other torn =>
        obtain ⟨front, rest, split⟩ := next
        have split : fs = front ++ [f] ++ g :: rest := by rw [← split]; simp
        have clean := steps _ g rest split
        rw [readingAt split reads, clean_step_reading_iff] at clean
        exact (clean.2 other).1 torn
    | ahead mem offers gone =>
        obtain ⟨front, g, rest, split, notClean⟩ := not_clean_of_ahead sorted mem offers gone
        exact notClean (steps front g rest split)
    | @atEnd f reads isLast short =>
        obtain ⟨front, split⟩ := isLast
        have isReading := readingAt (show fs = front ++ [f] ++ [] by rw [List.append_nil, split]) reads
        rw [split] at isReading
        exact (clean_last_iff _ _).mp atEnd f isReading short
  · intro none
    refine ⟨fun front h rest split => clean_step_of_not_lossTold sorted none split,
      (clean_last_iff _ _).mpr fun f isReading short => ?_⟩
    rcases List.eq_nil_or_concat fs with rfl | ⟨front, e, rfl⟩
    · contradiction
    rw [List.concat_eq_append] at *
    have behind := behind_after sorted
    have isLast := behind.fragment_eq
    rw [isReading] at isLast
    obtain rfl := Option.some.inj isLast
    exact none (.atEnd (behind.reads.mp isReading) (List.suffix_append _ _) short)

end Sorted

end Stage

end Tcslog
