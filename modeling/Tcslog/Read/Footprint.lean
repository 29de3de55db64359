import Tcslog.Read.Outcomes

/-!
# The files a call asks about

A reader makes requests only about files it holds, and gives up files for
good.  After a request that failed it holds the file no longer.
-/

namespace Tcslog

open Lib.Program Lib.Spanned Scene

/-- The reader holds files of `H` only, and since the requests `ops` has asked
about no other. -/
structure Confined (H : SegId → Prop) (ops : List ReadOp) (s : ReadState) : Prop where
  held : ∀ id ∈ held s, H id
  asked : ∃ more, s.ops = ops ++ more ∧ ∀ op ∈ more, H op.id

namespace Confined

variable {H : SegId → Prop} {ops : List ReadOp} {s s' : ReadState}

theorem current {segment : Segment} (confined : Confined H ops s) (isOpen : s.current = some segment) :
    H segment.id :=
  confined.held segment.id (by simp [Scene.held, isOpen])

theorem pending {id : SegId} (confined : Confined H ops s) (mem : id ∈ s.pending) : H id :=
  confined.held id (List.mem_append_right _ mem)

/-- Giving up files, and what does not concern them, keeps a reader confined. -/
theorem shrink (confined : Confined H ops s) (held : ∀ id ∈ Scene.held s', id ∈ Scene.held s)
    (same : s'.ops = s.ops) : Confined H ops s' :=
  ⟨fun id mem => confined.held id (held id mem), by rw [same]; exact confined.asked⟩

end Confined

section Footprint

variable (env : ReadEnv) {H : SegId → Prop} {ops : List ReadOp}

theorem perform_confined (request : ReadRequest) {id : SegId} (inside : H id) :
    Maintains (Confined H ops) (perform env request id) := by
  intro s confined
  simp only [perform, meets_bind, meets_get, meets_set, meets_pure]
  obtain ⟨more, same, asked⟩ := confined.asked
  refine ⟨confined.held, more ++ [⟨request, id⟩], ?_, fun op mem => ?_⟩
  · rw [same, List.append_assoc]
  · rcases List.mem_append.mp mem with before | here
    · exact asked op before
    · rw [List.mem_singleton.mp here]
      exact inside

theorem readExact_confined {segment : Segment} (len : Nat) (inside : H segment.id) :
    Maintains (Confined H ops) (readExact env segment len) := by
  refine .ite (.pure _) (.bind (perform_confined env _ inside) fun content => ?_)
  cases content with
  | none => exact .throw _
  | some content => exact .ite (.throw _) (.pure _)

theorem seekForward_confined {segment : Segment} (len : Nat) (inside : H segment.id) :
    Maintains (Confined H ops) (seekForward env segment len) := by
  refine .bind (perform_confined env _ inside) fun content => ?_
  cases content with
  | none => exact .throw _
  | some _ => exact .pure _

theorem openValidated_confined {id : SegId} (inside : H id) :
    Maintains (Confined H ops) (openValidated env id) := by
  refine .bind (perform_confined env _ inside) fun opened => ?_
  cases opened with
  | none => exact .pure _
  | some _ =>
  refine .bind (perform_confined env _ inside) fun measured => ?_
  cases measured with
  | none => exact .pure _
  | some measured =>
  refine .ite (.pure _) (.bind (perform_confined env _ inside) fun content => ?_)
  cases content with
  | none => exact .pure _
  | some content =>
      dsimp only
      split
      · exact .pure _
      · exact .ite (.pure _) (.ite (.pure _) (.pure _))

/-- The file opened is the one asked for. -/
theorem openValidated_id (id : SegId) (s : ReadState) :
    Meets (openValidated env id) s (fun found _ => ∀ segment, found = some segment → segment.id = id)
      (fun _ _ => True) := by
  simp only [openValidated, meets_bind]
  refine meets_true.imp (fun opened s₁ _ => ?_) fun _ _ _ => trivial
  cases opened with
  | none => simp
  | some _ =>
  simp only [meets_bind]
  refine meets_true.imp (fun measured s₂ _ => ?_) fun _ _ _ => trivial
  cases measured with
  | none => simp
  | some measured =>
  simp only [meets_ite, meets_bind, meets_pure]
  refine ⟨by simp, fun _ => meets_true.imp (fun content s₃ _ => ?_) fun _ _ _ => trivial⟩
  cases content with
  | none => simp
  | some content =>
      dsimp only
      split
      · simp
      · simp only [meets_ite, meets_pure]
        exact ⟨by simp, fun _ => ⟨by simp, fun _ segment isIt => by rw [← Option.some.inj isIt]⟩⟩

theorem openNextOf_confined (ids : List SegId) (inside : ∀ id ∈ ids, H id) :
    Maintains (Confined H ops) (openNextOf env ids) := by
  induction ids with
  | nil =>
      refine .bind (.modify fun s confined => confined.shrink ?_ rfl) fun _ => .pure _
      exact fun id mem => by simp_all [held]
  | cons id rest ih =>
      have insideRest : ∀ p ∈ rest, H p := fun p mem => inside p (List.mem_cons_of_mem _ mem)
      have replace {s s' : ReadState} (confined : Confined H ops s) (same : s'.ops = s.ops)
          (holds : ∀ p ∈ held s', p ∈ held s ∨ p ∈ id :: rest) : Confined H ops s' :=
        ⟨fun p mem => (holds p mem).elim (confined.held p) (inside p),
          by rw [same]; exact confined.asked⟩
      refine .bind (.modify fun s confined => replace confined rfl ?_) fun _ => ?_
      · intro p mem
        rcases List.mem_append.mp mem with open_ | later
        · exact .inl (List.mem_append_left _ open_)
        · exact .inr (List.mem_cons_of_mem _ later)
      intro s confined
      rw [meets_bind]
      refine ((openValidated_confined env (inside id (by simp)) s confined).and
        (openValidated_id env id s)).imp ?_ fun _ _ both => both.1
      rintro found t ⟨confined', isId⟩
      cases found with
      | none => exact ih insideRest t confined'
      | some segment =>
          simp only [meets_bind, meets_get, meets_ite, meets_set, meets_fail, meets_pure]
          refine ⟨fun _ => replace confined' rfl ?_, fun _ => replace confined' rfl ?_⟩
          · intro p mem
            exact (List.mem_append.mp mem).imp_left (List.mem_append_left _)
          · intro p mem
            simp only [held, LogRead.adopt_current, LogRead.adopt_pending, Option.map_some,
              Option.toList_some, List.singleton_append] at mem
            rcases List.mem_cons.mp mem with rfl | later
            · exact .inr (by simp [isId segment rfl])
            · exact .inl (List.mem_append_right _ later)

theorem openNext_confined : Maintains (Confined H ops) (openNext env) :=
  .bind_get fun s confined =>
    openNextOf_confined env s.pending (fun _ mem => confined.pending mem) s confined

theorem rejectCurrent_confined (lost placed : Nat) :
    Maintains (Confined H ops) (rejectCurrent lost placed) := by
  refine .bind_get fun s confined => ?_
  cases isOpen : s.current with
  | none => exact confined
  | some segment =>
      simp only [meets_bind, meets_set, meets_fail]
      refine confined.shrink (fun id mem => ?_) rfl
      simpa [held, isOpen] using mem

/-- A change that concerns neither the files held nor the requests made. -/
theorem Confined.same {s s' : ReadState} (confined : Confined H ops s)
    (same : s'.current = s.current ∧ s'.pending = s.pending ∧ s'.ops = s.ops) :
    Confined H ops s' := by
  refine confined.shrink (fun id mem => ?_) same.2.2
  rwa [Scene.held, same.1, same.2.1] at mem

theorem subU64_confined (checks : Bool) (a b : Nat) : Maintains (Confined H ops) (subU64 checks a b) := by
  unfold subU64
  exact .ite (.pure _) (.ite (.throw _) (.pure _))

theorem addU64_confined (checks : Bool) (a b : Nat) : Maintains (Confined H ops) (addU64 checks a b) := by
  unfold addU64
  exact .ite (.pure _) (.ite (.throw _) (.pure _))

theorem checkRemaining_confined (header : SegmentHeader) :
    Maintains (Confined H ops) (checkRemaining env header) := by
  refine .bind_get fun s confined => ?_
  refine meets_ite.mpr ⟨fun _ => confined, fun _ => ?_⟩
  cases s.cursor.total with
  | none => exact meets_ite.mpr ⟨fun _ => confined, fun _ => confined.same ⟨rfl, rfl, rfl⟩⟩
  | some total => exact Maintains.bind (subU64_confined _ _ _) (fun _ => .pure _) s confined

theorem checkSequence_confined (prevSeq : Option SeqId) (sequence : SeqId) :
    Maintains (Confined H ops) (checkSequence env prevSeq sequence) := by
  cases prevSeq with
  | none => exact .pure _
  | some prev =>
      refine .bind (addU64_confined _ _ _) fun expected => ?_
      refine .ite (.pure _) (.ite ?_ (.pure _))
      exact .bind (subU64_confined _ _ _) fun ahead =>
        .bind (subU64_confined _ _ _) fun lost => .pure _

theorem noteRecovery_confined (id : SegId) : Maintains (Confined H ops) (noteRecovery env id) := by
  refine .bind_get fun s confined => ?_
  cases s.cursor.total with
  | none => exact confined
  | some total =>
      rw [meets_bind]
      exact (subU64_confined _ _ _ s confined).imp (fun _ _ confined' => by
        rw [meets_set]
        exact confined.same ⟨rfl, rfl, rfl⟩) fun _ _ confined' => confined'

theorem checkCrossing_confined (prevShort : Bool) (prevSeq : Option SeqId) (segment : Segment) :
    Maintains (Confined H ops) (checkCrossing env prevShort prevSeq segment) := by
  have rejects (lost : Nat) :
      Maintains (Confined H ops) (do rejectCurrent lost (← get).cursor.payloadInBuf) :=
    .bind_get fun s confined => rejectCurrent_confined _ _ s confined
  refine .bind (checkRemaining_confined env _) fun denied => ?_
  refine .bind (checkSequence_confined env _ _) fun sequence => ?_
  exact .ite (.ite (.bind (noteRecovery_confined env _) fun _ => rejects _) (rejects _)) (.pure _)

theorem cross_confined : Maintains (Confined H ops) (cross env) := by
  refine .bind_get fun s confined => ?_
  simp only [meets_bind, meets_set]
  have closed : Confined H ops { s with current := none } :=
    confined.shrink (fun id mem => by simp_all [held]) rfl
  refine (maintains_attempt (openNext_confined env) _ closed).imp (fun result t confined' => ?_)
    fun _ _ confined' => confined'
  cases result with
  | error e =>
      simp only [meets_ite, meets_bind, meets_modify, meets_fail]
      exact ⟨fun _ => confined'.same ⟨rfl, rfl, rfl⟩, fun _ => confined'⟩
  | ok isOpen =>
      cases isOpen with
      | false => exact confined'
      | true =>
          simp only [meets_bind, meets_get]
          cases t.current with
          | none => exact confined'
          | some segment => exact checkCrossing_confined env _ _ segment t confined'

theorem crossIfExhausted_confined : Maintains (Confined H ops) (crossIfExhausted env) := by
  refine .bind_get fun s confined => meets_ite.mpr ⟨fun _ => cross_confined env s confined, ?_⟩
  exact fun _ => confined

/-- Moving within the open file. -/
theorem Confined.moved {s s' : ReadState} {moved : Segment} (confined : Confined H ops s)
    (inside : H moved.id)
    (same : s'.current = some moved ∧ s'.pending = s.pending ∧ s'.ops = s.ops) :
    Confined H ops s' := by
  refine ⟨fun p mem => ?_, by rw [same.2.2]; exact confined.asked⟩
  simp only [Scene.held, same.1, same.2.1, Option.map_some, Option.toList_some, List.singleton_append] at mem
  rcases List.mem_cons.mp mem with rfl | later
  · exact inside
  · exact confined.pending later

theorem seekForward_id (segment : Segment) (len : Nat) (s : ReadState) :
    Meets (seekForward env segment len) s (fun moved _ => moved.id = segment.id)
      (fun _ _ => True) := by
  simp only [seekForward, meets_bind]
  refine meets_true.imp (fun content t _ => ?_) fun _ _ _ => trivial
  cases content <;> simp

theorem fillChunk_confined (len : Nat) : Maintains (Confined H ops) (fillChunk env len) := by
  refine .bind (crossIfExhausted_confined env) fun _ => .bind_get fun s confined => ?_
  cases isOpen : s.current with
  | none => exact confined
  | some segment =>
      have inside := confined.current isOpen
      simp only [meets_bind, meets_modify, meets_pure]
      refine (readExact_confined env _ inside s confined).imp (fun bytes t confined' => ?_)
        fun _ _ confined' => confined'
      refine Confined.moved confined' ?_ ⟨rfl, rfl, rfl⟩
      exact inside

theorem skipChunk_confined (count : Nat) : Maintains (Confined H ops) (skipChunk env count) := by
  refine .bind (crossIfExhausted_confined env) fun _ => .bind_get fun s confined => ?_
  cases isOpen : s.current with
  | none => exact confined
  | some segment =>
      have inside := confined.current isOpen
      simp only [meets_bind, meets_modify, meets_pure]
      refine ((seekForward_confined env _ inside s confined).and (seekForward_id env _ _ s)).imp
        (fun moved t both => ?_) fun _ _ both => both.1
      refine Confined.moved both.1 ?_ ⟨rfl, rfl, rfl⟩
      exact both.2.symm ▸ inside

theorem fill_confined (len : Nat) : Maintains (Confined H ops) (fill env len) :=
  fun _ confined => meets_repeatPass (fun _ s => Confined H ops s)
    (fun _ confined' => fillChunk_confined env _ _ confined') confined

theorem skip_confined (count : Nat) : Maintains (Confined H ops) (skip env count) :=
  fun _ confined => meets_repeatPass (fun _ s => Confined H ops s)
    (fun _ confined' => skipChunk_confined env _ _ confined') confined

theorem examineNext_confined : Maintains (Confined H ops) (examineNext env) := by
  refine .bind_get fun s confined => ?_
  simp only [meets_bind, meets_modify, meets_ite]
  have unhinted : Confined H ops { s with recovery := none } := confined.same ⟨rfl, rfl, rfl⟩
  refine (openNext_confined env _ unhinted).imp (fun isOpen t confined' => ?_)
    fun _ _ confined' => confined'
  refine ⟨fun _ => ?_, fun _ => confined'⟩
  rw [meets_get]
  cases isOpen : t.current with
  | none => exact confined'
  | some segment =>
      have inside := confined'.current isOpen
      dsimp only
      split
      · exact confined'
      · simp only [meets_ite, meets_bind, meets_modify, meets_pure]
        refine ⟨fun _ => confined'.shrink (fun id mem => by simp_all [held]) rfl, fun _ => ?_⟩
        refine ((seekForward_confined env _ inside t confined').and (seekForward_id env _ _ t)).imp
          (fun moved u both => ?_) fun _ _ both => both.1
        refine Confined.moved both.1 ?_ ⟨rfl, rfl, rfl⟩
        exact both.2.symm ▸ inside

theorem findRecordStart_confined : Maintains (Confined H ops) (findRecordStart env) := by
  intro s confined
  induction size : s.pending.length using Nat.strong_induction_on generalizing s with
  | _ size ih =>
      have spec := (examineNext_confined env s confined).and (examineNext_decreases env s)
      rw [Meets, run_findRecordStart]
      cases ran : (examineNext env).run s with
      | error stop t => exact (spec.of_error ran).1
      | ok start t =>
          obtain ⟨confined', less⟩ := spec.of_ok ran
          cases start with
          | some start => exact confined'
          | none => exact ih _ (size ▸ less rfl) t confined' rfl

theorem fillBuf_confined (len : Nat) : Maintains (Confined H ops) (fillBuf env len) := by
  refine .bind (.modify fun s confined => confined.same ⟨rfl, rfl, rfl⟩) fun _ => ?_
  exact .bind (fill_confined env len) fun _ => .bind_get fun s confined => confined

theorem settlePayloadLen_confined (decoded : Nat) :
    Maintains (Confined H ops) (settlePayloadLen decoded) := by
  refine .bind_get fun s confined => ?_
  simp only [meets_bind, meets_ite, meets_pure]
  exact ⟨fun _ => rejectCurrent_confined _ _ s confined, fun _ => confined⟩

theorem setTotal_confined (total : Nat) : Maintains (Confined H ops) (setTotal total) :=
  .modify fun _ confined => confined.same ⟨rfl, rfl, rfl⟩

theorem readDataHeader_confined (format : Format) (minor : Nat) :
    Maintains (Confined H ops) (readDataHeader env format minor) := by
  cases format with
  | fixed len => exact .bind (setTotal_confined _) fun _ => .pure _
  | variableSimple =>
      exact .bind (fillBuf_confined env _) fun _ => .bind (settlePayloadLen_confined _) fun _ =>
        .bind (setTotal_confined _) fun _ => .pure _
  | variableTsRc =>
      exact .bind (fillBuf_confined env _) fun _ => .bind (settlePayloadLen_confined _) fun _ =>
        .bind (setTotal_confined _) fun _ => .pure _

theorem losePosition_confined {s : ReadState} (confined : Confined H ops s) :
    Confined H ops s.losePosition :=
  confined.shrink (fun id mem => by simp_all [held, ReadState.losePosition]) rfl

theorem orLosePosition_confined {α : Type} {x : ReadM α} (maintains : Maintains (Confined H ops) x) :
    Maintains (Confined H ops) (orLosePosition x) := by
  intro s confined
  rw [meets_orLosePosition]
  refine (maintains s confined).imp (fun _ _ confined' => confined') fun stop _ confined' => ?_
  cases stop with
  | error e => exact losePosition_confined confined'
  | panic => exact confined'
  | stuck => exact confined'

theorem locate_confined : Maintains (Confined H ops) (locate env) := by
  refine .bind_get fun s confined => ?_
  simp only [meets_ite, meets_bind, meets_modify, meets_get, meets_set, meets_fail, meets_pure]
  refine ⟨fun _ => ?_, fun _ => confined⟩
  refine (orLosePosition_confined (findRecordStart_confined env) s confined).imp
    (fun start t confined' => ?_) fun _ _ confined' => confined'
  exact ⟨fun _ => confined'.same ⟨rfl, rfl, rfl⟩, fun _ => confined'.same ⟨rfl, rfl, rfl⟩⟩

theorem header_confined (start : Start) (segment : Segment) :
    Maintains (Confined H ops) (header env start segment) := by
  cases start with
  | fresh => exact orLosePosition_confined (readDataHeader_confined env _ _)
  | recovered len =>
      exact .bind (.modify fun _ confined => confined.same ⟨rfl, rfl, rfl⟩) fun _ => .pure _

theorem payload_confined (cap want : Nat) (metadata : Meta) :
    Maintains (Confined H ops) (payload env cap want metadata) := by
  refine .bind (.modify fun _ confined => confined.same ⟨rfl, rfl, rfl⟩) fun _ => ?_
  refine .bind (orLosePosition_confined (fillBuf_confined env _)) fun _ => .ite ?_ (.pure _)
  refine .bind (maintains_attempt (skip_confined env _)) fun skipped => ?_
  cases skipped with
  | ok _ => exact .throw _
  | error e => exact .bind (.modify fun _ confined => losePosition_confined confined) fun _ => .throw _

/-- A call asks only about files it holds, and gets hold of no other. -/
theorem read_confined (cap : Nat) : Maintains (Confined H ops) (read env cap) := by
  refine .bind_get fun s confined => ?_
  simp only [meets_ite, meets_bind, meets_set, meets_fail]
  refine ⟨fun _ => confined.shrink (fun id mem => by simp_all [held]) rfl, fun _ => ?_⟩
  have begun : Confined H ops { s with
      resync := s.resync || s.current.isNone, cursor := {}, dst := [] } :=
    confined.same ⟨rfl, rfl, rfl⟩
  refine (locate_confined env _ begun).imp (fun start t confined' => ?_)
    fun _ _ confined' => confined'
  rw [meets_get]
  cases t.current with
  | none => exact orLosePosition_confined (.throw _) t confined'
  | some segment =>
      exact Maintains.bind (header_confined env start segment)
        (fun found => payload_confined env cap found.1 found.2) t confined'

theorem readCall_confined (cap : Nat) {s : ReadState} (confined : Confined H ops s) :
    Confined H ops (readCall env cap s).2 := by
  have spec := read_confined env cap s confined
  unfold readCall
  cases ran : (read env cap).run s with
  | ok result t => exact spec.of_ok ran
  | error stop t =>
      have confined' := spec.of_error ran
      cases stop <;> exact confined'

theorem readCalls_confined (caps : Nat → Nat) (calls : Nat) {s : ReadState}
    (confined : Confined H ops s) : Confined H ops (readCalls env caps calls s).2 := by
  induction calls generalizing s caps with
  | zero => exact confined
  | succ calls ih =>
      rw [readCalls_succ]
      exact ih _ (readCall_confined env _ confined)

/-- Requests are only added. -/
theorem ReadsToEof.grew {caps : Nat → Nat} {s last : ReadState} {outcomes : List Outcome}
    (reads : ReadsToEof env caps s outcomes last) : s.ops <+: last.ops := by
  have start : Confined (fun _ => True) s.ops s :=
    ⟨fun _ _ => trivial, [], (List.append_nil _).symm, fun _ _ => trivial⟩
  obtain ⟨more, same, _⟩ := (readCalls_confined env caps (outcomes.length + 1) start).asked
  rw [reads.run] at same
  exact ⟨more, same.symm⟩

end Footprint

end Tcslog
