import Tcslog.Write.Counts

/-!
# A file is opened to be written

After a record was stored the open file holds data.  So of a strand that was
never interrupted only the first file may be without any.
-/

namespace Tcslog

open Lib.Program Lib.Spanned WriteState

/-- The open file holds data. -/
def WriteState.Filled (s : WriteState) : Prop :=
  ∀ cur, s.current = some cur → 0 < cur.dataWritten

/-- The last file holds data, unless it is the first. -/
def Strand.Tight (σ : Strand) : Prop :=
  1 < σ.ids.length → (σ.ids.length - 1) * σ.dataSection < σ.stored

def Log.Tight (L : Log) : Prop :=
  ∀ σ ∈ L.strands, σ.Tight

section Filled

variable {env : WriteEnv} {s t : WriteState}

/-- A pass that stores bytes stores them in the file that stays open. -/
theorem writeChunk_filled (data : Bytes) (s : WriteState) :
    Meets (writeChunk env data) s (fun n t => 0 < n → t.Filled) (fun _ _ => True) := by
  simp only [writeChunk, meets_bind]
  refine meets_true.imp (fun _ t _ => ?_) fun _ _ _ => trivial
  refine meets_true.imp (fun n u _ => ?_) fun _ _ _ => trivial
  rw [meets_get]
  cases u.current with
  | none => trivial
  | some cur =>
      rw [meets_bind]
      refine meets_true.imp (fun done v _ => ?_) fun _ _ _ => trivial
      cases done with
      | true =>
          intro some cur' isCurrent
          obtain rfl := Option.some.inj isCurrent
          exact Nat.add_pos_right _ some
      | false =>
          simp only [Bool.false_eq_true, if_false, meets_bind, meets_fail]
          exact meets_true

theorem writeBytes_filled (data : Bytes) (s : WriteState) :
    Meets (writeBytes env data) s (fun _ t => (data = [] → s.Filled) → t.Filled) (fun _ _ => True) := by
  induction len : data.length using Nat.strong_induction_on generalizing data s with
  | _ size ih =>
      rw [writeBytes]
      split
      next none => exact fun filled => filled none
      next more =>
        rw [meets_bind]
        refine (writeChunk_filled data s).imp (fun n t stored => ?_) fun _ _ _ => trivial
        split
        next => trivial
        next progress =>
          have some := List.length_pos_of_ne_nil more
          have shorter : (data.drop n).length < size := by
            rw [List.length_drop]
            omega
          refine (ih _ shorter (data.drop n) t rfl).imp (fun _ u goesOn _ => ?_) fun _ _ _ => trivial
          exact goesOn fun _ => stored (Nat.pos_of_ne_zero progress)

/-- Only records of one length have no data header. -/
theorem buildDataHeader_headed (len : Nat) (s : WriteState) :
    Meets (buildDataHeader env len) s (fun built _ => (∀ n, s.format ≠ .fixed n) → built.1 ≠ [])
      (fun _ _ => True) := by
  rw [buildDataHeader, meets_ite]
  refine ⟨fun _ => trivial, fun _ => ?_⟩
  rw [meets_bind, meets_get]
  cases s.format with
  | fixed n => exact fun notFixed => absurd rfl (notFixed n)
  | variableSimple => exact fun _ => List.ne_nil_of_length_pos (by simp)
  | variableTsRc =>
      rw [meets_bind]
      refine meets_true.imp (fun ts t _ => ?_) fun _ _ _ => trivial
      simp only [meets_bind, meets_modify, meets_get, meets_pure]
      exact fun _ => List.ne_nil_of_length_pos (by simp)

theorem appendRecord_filled {msg : Bytes} {total : Nat}
    (some : (∃ n, s.format = .fixed n) → msg ≠ []) :
    Meets (appendRecord env msg total) s (fun _ t => t.Filled) (fun _ _ => True) := by
  simp only [appendRecord, meets_bind]
  refine ((format_follows env).toStores.rollIfFull s).imp (fun _ t rolled => ?_) fun _ _ _ => trivial
  refine (buildDataHeader_headed msg.length t).imp ?_ fun _ _ _ => trivial
  rintro ⟨built, metadata⟩ u headed
  simp only [meets_modify]
  refine (writeBytes_filled built _).imp (fun _ v first => ?_) fun _ _ _ => trivial
  refine (writeBytes_filled msg v).imp (fun _ w second => ?_) fun _ _ _ => trivial
  refine second fun noPayload => first fun noHeader => ?_
  refine absurd noHeader (headed fun n isFixed => ?_)
  exact some ⟨n, rolled.symm.trans isFixed⟩ noPayload

/-- Every record takes room, so the file it ends in holds data. -/
theorem storeRecord_filled (msg : Bytes) (valid : s.format ≠ .fixed 0) :
    Meets (storeRecord env msg) s (fun _ t => t.Filled) (fun _ _ => True) := by
  simp only [storeRecord, meets_bind, meets_get, meets_ite, meets_fail, meets_pure]
  refine ⟨fun _ => trivial, fun takes => ⟨fun _ => trivial, fun _ => ⟨fun _ => trivial, fun _ => ?_⟩⟩⟩
  refine ((format_follows env).toWrites.ensureSession s).imp (fun _ t format => ?_) fun _ _ _ => trivial
  apply appendRecord_filled
  rintro ⟨n, isFixed⟩ rfl
  rw [format] at isFixed
  have len : ([] : Bytes).length = n.toNat := by simpa [isFixed, Format.refusesLen] using takes
  have zero : n = 0 := UInt32.toNat_inj.mp len.symm
  exact valid (isFixed.trans (by rw [zero]))

end Filled

/-! ## Tight logs -/

section Tight

variable {env : WriteEnv} {s t : WriteState} {L L' : Log} {front : List Strand} {σ σ₁ : Strand}
  {began : Bool} {more : List Record} {record : Record}

theorem Log.tight_empty : Log.empty.Tight := by
  simp [Log.Tight, Log.empty]

/-- The strands before the one that grew are those of the log. -/
theorem Log.Grew.mem_front (grew : L.Grew began more L' front σ₁ σ) {τ : Strand} (mem : τ ∈ front) :
    τ ∈ L.strands := by
  have base := grew.base
  cases began with
  | true => exact base.1 ▸ mem
  | false =>
      rw [show L.strands = front ++ [σ₁] from base]
      exact List.mem_append_left _ mem

theorem Log.Grew.tight (grew : L.Grew began more L' front σ₁ σ) (tight : L.Tight)
    (last : σ.Tight) : L'.Tight := by
  intro τ mem
  rw [grew.ends] at mem
  rcases List.mem_append.mp mem with before | isLast
  · exact tight τ (grew.mem_front before)
  · rwa [List.mem_singleton.mp isLast]

/-- A session begins with one file. -/
theorem Log.Grew.tight_begin (grew : L.Grew true [] L' L.strands σ σ) (tight : L.Tight) : L'.Tight := by
  obtain ⟨_, _, _, ids, _⟩ := grew.base
  exact grew.tight tight fun several => by simp [ids] at several

theorem Stored.tight (stored : Stored env s L began record t L' front σ₁ σ) (filled : t.Filled)
    (tight : L.Tight) : L'.Tight := by
  obtain ⟨cur, isCurrent, pen⟩ := stored.pen
  refine stored.grew.tight tight fun _ => ?_
  rw [pen.written]
  exact Nat.lt_add_of_pos_right (filled cur isCurrent)

end Tight

end Tcslog
