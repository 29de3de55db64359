import Mathlib.Logic.Function.Basic
import Tcslog.Format

/-!
# The buffers a Python program hands to the library

The Python binding keeps a view of the buffer it was last passed, and hands the
library the address it took then while the same buffer is passed again.  The
view keeps the buffer from being resized, but no view is made of an empty one.
-/

namespace Tcslog.Binding

open Function (update)

/-! ## Python's objects -/

/-- What tells an object from every other one while both live. -/
abbrev Ident := Nat

/-- An open or closed writer or reader. -/
abbrev Handle := Nat

/-- An address in a block of memory. -/
structure Pointer where
  addr : Nat
  off : Nat
  deriving DecidableEq, Repr

/-- `bytes`, another read-only buffer or a writable one, such as a `bytearray`. -/
inductive Access
  | bytes
  | readOnly
  | writable
  deriving DecidableEq, Repr

/-- A bytes-like object: one with bytes of its own, or a `memoryview` of a part
of another's. -/
inductive Object
  | owner (access : Access) (addr : Nat) (bytes : Bytes)
  | view (base : Ident) (off len : Nat) (readOnly released : Bool)
  deriving DecidableEq, Repr

/-- The ctypes view of a caller's buffer, and the address C is given. -/
structure Pin where
  obj : Ident
  cap : Nat
  /-- The buffer whose memory the ctypes view keeps exported. -/
  view : Option Ident
  ptr : Option Pointer
  deriving DecidableEq, Repr

/-- The objects that live, and for each open handle the pin it holds. -/
structure Python where
  objects : Ident → Option Object
  handles : Handle → Option (Option Pin)

inductive PyError
  | nameError
  | typeError
  | valueError
  deriving DecidableEq, Repr

/-- A byte view of an object. -/
structure MemoryView where
  base : Ident
  addr : Nat
  off : Nat
  bytes : Bytes
  readOnly : Bool
  deriving DecidableEq, Repr

/-- What the library is handed: an address, or that of a copy of some bytes. -/
inductive Data
  | ptr (ptr : Option Pointer)
  | copy (bytes : Bytes)
  deriving DecidableEq, Repr

structure Handed where
  data : Data
  len : Nat
  deriving DecidableEq, Repr

/-- `memoryview(obj).cast("B")`. -/
def Python.memoryview (py : Python) (obj : Ident) : Except PyError MemoryView :=
  match py.objects obj with
  | none => .error .nameError
  | some (.owner access addr bytes) => .ok ⟨obj, addr, 0, bytes, access ≠ .writable⟩
  | some (.view base off len readOnly released) =>
      if released then .error .valueError
      else
        match py.objects base with
        | some (.owner _ addr bytes) => .ok ⟨base, addr, off, (bytes.drop off).take len, readOnly⟩
        | _ => .error .nameError

/-- Pin a buffer, taking its address unless it is empty. -/
def Pin.new (obj : Ident) (mv : MemoryView) : Pin :=
  if mv.bytes.length = 0 then ⟨obj, 0, none, none⟩
  else ⟨obj, mv.bytes.length, some mv.base, some ⟨mv.addr, mv.off⟩⟩

/-- The pin for `obj`, reusing `current` when it is the same buffer. -/
def Python.pinBuffer (py : Python) (current : Option Pin) (obj : Ident) : Except PyError Pin :=
  match current.filter fun pin => pin.obj = obj with
  | some pin => .ok pin
  | none => do
      let mv ← py.memoryview obj
      if mv.readOnly then .error .typeError else .ok (.new obj mv)

/-- A handle lets go of the pin it held. -/
def Python.hold (py : Python) (h : Handle) (pin : Pin) : Python :=
  { py with handles := update py.handles h (some (some pin)) }

/-- What `LogWrite.write` hands to the library. -/
def Python.write (py : Python) (h : Handle) (msg : Ident) : Except PyError (Handed × Python) :=
  match py.handles h with
  | none => .error .valueError
  | some current =>
      match py.objects msg with
      | some (.owner .bytes addr bytes) => .ok (⟨.ptr (some ⟨addr, 0⟩), bytes.length⟩, py)
      | _ =>
          match current.filter fun pin => pin.obj = msg with
          | some pin => .ok (⟨.ptr pin.ptr, pin.cap⟩, py)
          | none => do
              let mv ← py.memoryview msg
              if mv.readOnly then .ok (⟨.copy mv.bytes, mv.bytes.length⟩, py)
              else
                let pin := Pin.new msg mv
                .ok (⟨.ptr pin.ptr, pin.cap⟩, py.hold h pin)

/-- What `LogRead.read` hands to the library. -/
def Python.read (py : Python) (h : Handle) (buf : Ident) : Except PyError (Handed × Python) :=
  match py.handles h with
  | none => .error .valueError
  | some current => do
      let pin ← py.pinBuffer current buf
      .ok (⟨.ptr pin.ptr, pin.cap⟩, py.hold h pin)

/-! ## What a program may do between calls -/

/-- A view keeps the memory of an object where it is: a pin's, or a `memoryview`
that was not released. -/
def Python.Exported (py : Python) (obj : Ident) : Prop :=
  (∃ h pin, py.handles h = some (some pin) ∧ pin.view = some obj) ∨
    ∃ v off len readOnly, py.objects v = some (.view obj off len readOnly false)

/-- A pin or a view keeps an object alive, and its identity from being used again. -/
def Python.Referenced (py : Python) (obj : Ident) : Prop :=
  (∃ h pin, py.handles h = some (some pin) ∧ pin.obj = obj) ∨ py.Exported obj

/-- What Python lets a program do to its objects and handles.  What the library
stores in a buffer it was handed fills it too. -/
inductive Move : Python → Python → Prop
  | create {py : Python} (obj : Ident) (access : Access) (addr : Nat) (bytes : Bytes)
      (unused : py.objects obj = none) :
      Move py { py with objects := update py.objects obj (some (.owner access addr bytes)) }
  | look {py : Python} {v base : Ident} {access : Access} {addr : Nat} {bytes : Bytes}
      {readOnly : Bool} (unused : py.objects v = none)
      (live : py.objects base = some (.owner access addr bytes)) (off len : Nat)
      (within : off + len ≤ bytes.length) (writable : readOnly = false → access = .writable) :
      Move py { py with objects := update py.objects v (some (.view base off len readOnly false)) }
  | fill {py : Python} (obj : Ident) {addr : Nat} {bytes : Bytes}
      (live : py.objects obj = some (.owner .writable addr bytes)) (bytes' : Bytes)
      (same : bytes'.length = bytes.length) :
      Move py { py with objects := update py.objects obj (some (.owner .writable addr bytes')) }
  | resize {py : Python} (obj : Ident) {addr : Nat} {bytes : Bytes}
      (live : py.objects obj = some (.owner .writable addr bytes)) (free : ¬ py.Exported obj)
      (addr' : Nat) (bytes' : Bytes) :
      Move py { py with objects := update py.objects obj (some (.owner .writable addr' bytes')) }
  | release {py : Python} {v base : Ident} {off len : Nat} {readOnly released : Bool}
      (live : py.objects v = some (.view base off len readOnly released)) :
      Move py { py with objects := update py.objects v (some (.view base off len readOnly true)) }
  | discard {py : Python} {obj : Ident} (unreferenced : ¬ py.Referenced obj) :
      Move py { py with objects := update py.objects obj none }
  | opens {py : Python} (h : Handle) (closed : py.handles h = none) :
      Move py { py with handles := update py.handles h (some none) }
  | closes (py : Python) (h : Handle) : Move py { py with handles := update py.handles h none }

/-- A call that handed a buffer to the library, and the state it was made in. -/
structure Handing where
  before : Python
  handle : Handle
  obj : Ident
  handed : Handed

/-- A run of a program, with the calls that handed a buffer to the library. -/
inductive Run : Python → List Handing → Python → Prop
  | refl (py : Python) : Run py [] py
  | move {py py' last : Python} {handings : List Handing} (move : Move py py')
      (more : Run py' handings last) : Run py handings last
  | write {py py' last : Python} (h : Handle) (msg : Ident) {handed : Handed}
      {handings : List Handing} (call : py.write h msg = .ok (handed, py'))
      (more : Run py' handings last) : Run py (⟨py, h, msg, handed⟩ :: handings) last
  | read {py py' last : Python} (h : Handle) (buf : Ident) {handed : Handed}
      {handings : List Handing} (call : py.read h buf = .ok (handed, py'))
      (more : Run py' handings last) : Run py (⟨py, h, buf, handed⟩ :: handings) last

def Python.start : Python where
  objects _ := none
  handles _ := none

/-! ## Buffers handed as they are -/

/-- The address and length handed to the library are those of the object's bytes,
or the bytes handed to it are. -/
def Describes (py : Python) (obj : Ident) (handed : Handed) : Prop :=
  ∃ mv, py.memoryview obj = .ok mv ∧ handed.len = mv.bytes.length ∧
    match handed.data with
    | .ptr none => mv.bytes = []
    | .ptr (some ptr) => ptr = ⟨mv.addr, mv.off⟩
    | .copy bytes => bytes = mv.bytes

/-- The handle still holds a pin of the object, which was empty when it was
pinned and is not empty now, or which is a view that was released. -/
def Stale (py : Python) (h : Handle) (obj : Ident) : Prop :=
  ∃ pin, py.handles h = some (some pin) ∧ pin.obj = obj ∧
    ((pin.cap = 0 ∧ ∃ mv, py.memoryview obj = .ok mv ∧ mv.bytes ≠ []) ∨
      ∃ base off len readOnly, py.objects obj = some (.view base off len readOnly true))

/-! ## What keeps a pin right -/

/-- The object of a pin lives.  If it was not empty its bytes are where and as
long as they were when it was pinned, and a view of none stays one of none. -/
inductive Anchored (py : Python) : Pin → Prop
  | emptyOwner {obj : Ident} {addr : Nat} {bytes : Bytes}
      (live : py.objects obj = some (.owner .writable addr bytes)) : Anchored py ⟨obj, 0, none, none⟩
  | owner {obj : Ident} {addr : Nat} {bytes : Bytes}
      (live : py.objects obj = some (.owner .writable addr bytes)) :
      Anchored py ⟨obj, bytes.length, some obj, some ⟨addr, 0⟩⟩
  | emptyView {obj base : Ident} {off : Nat} {released : Bool}
      (live : py.objects obj = some (.view base off 0 false released)) :
      Anchored py ⟨obj, 0, none, none⟩
  | view {obj base : Ident} {off len : Nat} {released : Bool} {addr : Nat} {bytes : Bytes}
      (live : py.objects obj = some (.view base off len false released))
      (held : py.objects base = some (.owner .writable addr bytes))
      (within : off + len ≤ bytes.length) :
      Anchored py ⟨obj, len, some base, some ⟨addr, off⟩⟩

/-- The object an open view shows lives, and holds what the view shows. -/
def Python.Looks (py : Python) (base : Ident) (off len : Nat) (readOnly : Bool) : Prop :=
  ∃ access addr bytes, py.objects base = some (.owner access addr bytes) ∧
    off + len ≤ bytes.length ∧ (readOnly = false → access = .writable)

structure Sound (py : Python) : Prop where
  pinned : ∀ {h : Handle} {pin : Pin}, py.handles h = some (some pin) → Anchored py pin
  viewed : ∀ {v base : Ident} {off len : Nat} {readOnly : Bool},
    py.objects v = some (.view base off len readOnly false) → py.Looks base off len readOnly

/-- What no move changes: an object that is referenced stays, one that is exported
keeps its place and its length, and no pin is made. -/
structure Keeps (py py' : Python) : Prop where
  owner : ∀ {obj : Ident} {access : Access} {addr : Nat} {bytes : Bytes},
    py.objects obj = some (.owner access addr bytes) → py.Referenced obj →
    ∃ addr' bytes', py'.objects obj = some (.owner access addr' bytes') ∧
      (py.Exported obj → addr' = addr ∧ bytes'.length = bytes.length)
  view : ∀ {v base : Ident} {off len : Nat} {readOnly released : Bool},
    py.objects v = some (.view base off len readOnly released) → py.Referenced v →
    ∃ released', py'.objects v = some (.view base off len readOnly released')
  views : ∀ {v base : Ident} {off len : Nat} {readOnly : Bool},
    py'.objects v = some (.view base off len readOnly false) →
    py.objects v = some (.view base off len readOnly false) ∨ py'.Looks base off len readOnly
  pins : ∀ {h : Handle} {pin : Pin}, py'.handles h = some (some pin) → py.handles h = some (some pin)

section Keeps

variable {py py' : Python} {obj : Ident} {h : Handle} {pin : Pin}

/-- A change to one object that lives. -/
theorem Keeps.update {object object' : Object} (live : py.objects obj = some object)
    (owner : ∀ access addr bytes, object = .owner access addr bytes → ∃ addr' bytes',
      object' = .owner access addr' bytes' ∧
        (py.Exported obj → addr' = addr ∧ bytes'.length = bytes.length))
    (view : ∀ base off len readOnly released, object = .view base off len readOnly released →
      object' = .view base off len readOnly true) :
    Keeps py { py with objects := Function.update py.objects obj (some object') } where
  owner {o access addr bytes} live' _ := by
    by_cases same : o = obj
    · subst o
      rw [live, Option.some.injEq] at live'
      obtain ⟨addr', bytes', after, exported⟩ := owner access addr bytes live'
      exact ⟨addr', bytes', by simp [after], exported⟩
    · exact ⟨addr, bytes, by simp [same, live'], fun _ => ⟨rfl, rfl⟩⟩
  view {v base off len readOnly released} live' _ := by
    by_cases same : v = obj
    · subst v
      rw [live, Option.some.injEq] at live'
      exact ⟨true, by simp [view _ _ _ _ _ live']⟩
    · exact ⟨released, by simp [same, live']⟩
  views {v base off len readOnly} live' := by
    by_cases same : v = obj
    · subst v
      simp only [Function.update_self, Option.some.injEq] at live'
      cases object with
      | owner access addr bytes =>
          obtain ⟨_, _, after, _⟩ := owner access addr bytes rfl
          rw [after] at live'
          contradiction
      | view base' off' len' readOnly' released =>
          rw [view _ _ _ _ _ rfl] at live'
          simp at live'
    · exact .inl (by simpa [same] using live')
  pins pinned := pinned

/-- The objects that live and are referenced stay as they are. -/
theorem Keeps.of_same
    (same : ∀ {o : Ident} {object : Object}, py.objects o = some object → py.Referenced o →
      py'.objects o = some object)
    (views : ∀ {v base : Ident} {off len : Nat} {readOnly : Bool},
      py'.objects v = some (.view base off len readOnly false) →
      py.objects v = some (.view base off len readOnly false) ∨ py'.Looks base off len readOnly)
    (pins : ∀ {h : Handle} {pin : Pin}, py'.handles h = some (some pin) →
      py.handles h = some (some pin)) : Keeps py py' where
  owner {_ _ addr bytes} live referenced :=
    ⟨addr, bytes, same live referenced, fun _ => ⟨rfl, rfl⟩⟩
  view {_ _ _ _ _ released} live referenced := ⟨released, same live referenced⟩
  views := views
  pins := pins

/-- An object that is made takes no other's identity. -/
theorem Keeps.create {object : Object} (unused : py.objects obj = none)
    (looks : ∀ base off len readOnly, object = .view base off len readOnly false →
      py.Looks base off len readOnly) :
    Keeps py { py with objects := Function.update py.objects obj (some object) } := by
  have other {o : Ident} {object' : Object} (live : py.objects o = some object') : o ≠ obj := by
    rintro rfl
    rw [unused] at live
    contradiction
  refine .of_same (fun live _ => ?_) (fun {v base off len readOnly} live => ?_) fun pinned => pinned
  · simpa [other live] using live
  · by_cases same : v = obj
    · subst v
      simp only [Function.update_self, Option.some.injEq] at live
      obtain ⟨access, addr, bytes, there, within⟩ := looks _ _ _ _ live
      exact .inr ⟨access, addr, bytes, by simpa [other there] using there, within⟩
    · exact .inl (by simpa [same] using live)

theorem Move.keeps (move : Move py py') : Keeps py py' := by
  cases move with
  | create obj access addr bytes unused => exact .create unused (by simp)
  | look unused live off len within writable =>
      refine .create unused fun _ _ _ _ same => ?_
      obtain ⟨rfl, rfl, rfl, rfl, -⟩ := Object.view.inj same
      exact ⟨_, _, _, live, within, writable⟩
  | fill obj live bytes' same =>
      refine .update live (fun _ _ _ before => ?_) (by simp)
      obtain ⟨rfl, rfl, rfl⟩ := Object.owner.inj before
      exact ⟨_, _, rfl, fun _ => ⟨rfl, same⟩⟩
  | resize obj live free addr' bytes' =>
      refine .update live (fun _ _ _ before => ?_) (by simp)
      obtain ⟨rfl, rfl, rfl⟩ := Object.owner.inj before
      exact ⟨_, _, rfl, fun exported => absurd exported free⟩
  | release live =>
      refine .update live (by simp) fun _ _ _ _ _ before => ?_
      obtain ⟨rfl, rfl, rfl, rfl, -⟩ := Object.view.inj before
      rfl
  | @discard obj unreferenced =>
      have other {o : Ident} (referenced : py.Referenced o) : o ≠ obj := by
        rintro rfl
        exact unreferenced referenced
      refine .of_same (fun live referenced => ?_) (fun {v base off len readOnly} live => ?_)
        fun pinned => pinned
      · simpa [other referenced] using live
      · by_cases same : v = obj
        · simp [same] at live
        · exact .inl (by simpa [same] using live)
  | opens h closed =>
      refine .of_same (fun live _ => live) .inl fun {h' pin} pinned => ?_
      by_cases same : h' = h
      · simp [same] at pinned
      · simpa [same] using pinned
  | closes h =>
      refine .of_same (fun live _ => live) .inl fun {h' pin} pinned => ?_
      by_cases same : h' = h
      · simp [same] at pinned
      · simpa [same] using pinned

/-- A pin stays right whatever a program does: its object is referenced, and
exported if it was not empty. -/
theorem Anchored.keeps (anchored : Anchored py pin) (pinned : py.handles h = some (some pin))
    (keeps : Keeps py py') : Anchored py' pin := by
  have referenced : py.Referenced pin.obj := .inl ⟨h, pin, pinned, rfl⟩
  cases anchored with
  | emptyOwner live =>
      obtain ⟨_, _, live', -⟩ := keeps.owner live referenced
      exact .emptyOwner live'
  | owner live =>
      obtain ⟨_, bytes', live', exported⟩ := keeps.owner live referenced
      obtain ⟨rfl, same⟩ := exported (.inl ⟨h, _, pinned, rfl⟩)
      rw [← same]
      exact .owner live'
  | emptyView live =>
      obtain ⟨_, live'⟩ := keeps.view live referenced
      exact .emptyView live'
  | @view obj base off len released addr bytes live held within =>
      have exported : py.Exported base := .inl ⟨h, _, pinned, rfl⟩
      obtain ⟨_, live'⟩ := keeps.view live referenced
      obtain ⟨_, bytes', held', kept⟩ := keeps.owner held (.inr exported)
      obtain ⟨rfl, same⟩ := kept exported
      exact .view live' held' (by rw [same]; exact within)

theorem Sound.keeps (sound : Sound py) (keeps : Keeps py py') : Sound py' where
  pinned pinned := (sound.pinned (keeps.pins pinned)).keeps (keeps.pins pinned) keeps
  viewed {v base off len readOnly} live := by
    rcases keeps.views live with older | looks
    · obtain ⟨access, addr, bytes, held, within, writable⟩ := sound.viewed older
      have exported : py.Exported base := .inr ⟨v, off, len, readOnly, older⟩
      obtain ⟨addr', bytes', held', kept⟩ := keeps.owner held (.inr exported)
      exact ⟨access, addr', bytes', held', by rw [(kept exported).2]; exact within, writable⟩
    · exact looks

end Keeps

/-! ## What is handed to the library -/

section Calls

variable {py py' : Python} {h : Handle} {obj : Ident} {current : Option Pin} {pin : Pin} {mv : MemoryView}
  {handed : Handed}

theorem memoryview_owner {access : Access} {addr : Nat} {bytes : Bytes}
    (live : py.objects obj = some (.owner access addr bytes)) :
    py.memoryview obj = .ok ⟨obj, addr, 0, bytes, access ≠ .writable⟩ := by
  rw [Python.memoryview, live]

/-- A view shows as many bytes as it is long. -/
theorem Sound.memoryview_view (sound : Sound py) {base : Ident} {off len : Nat} {readOnly : Bool}
    (live : py.objects obj = some (.view base off len readOnly false)) :
    ∃ access addr bytes, py.objects base = some (.owner access addr bytes) ∧
      off + len ≤ bytes.length ∧ (readOnly = false → access = .writable) ∧
      py.memoryview obj = .ok ⟨base, addr, off, (bytes.drop off).take len, readOnly⟩ := by
  obtain ⟨access, addr, bytes, held, within, writable⟩ := sound.viewed live
  refine ⟨access, addr, bytes, held, within, writable, ?_⟩
  simp [Python.memoryview, live, held]

/-- A pin that is made is right. -/
theorem Sound.pin_new (sound : Sound py) (shown : py.memoryview obj = .ok mv)
    (writable : mv.readOnly = false) : Anchored py (.new obj mv) := by
  cases live : py.objects obj with
  | none => simp [Python.memoryview, live] at shown
  | some object =>
      cases object with
      | owner access addr bytes =>
          simp only [Python.memoryview, live, Except.ok.injEq] at shown
          subst shown
          obtain rfl : access = .writable := by simpa using writable
          rw [Pin.new]
          split
          · exact .emptyOwner live
          · exact .owner live
      | view base off len readOnly released =>
          cases released with
          | true => simp [Python.memoryview, live] at shown
          | false =>
              obtain ⟨access, addr, bytes, held, within, isWritable, shown'⟩ := sound.memoryview_view live
              rw [shown, Except.ok.injEq] at shown'
              subst shown'
              obtain rfl : readOnly = false := writable
              obtain rfl := isWritable rfl
              have long : ((bytes.drop off).take len).length = len := by
                rw [List.length_take, List.length_drop]
                omega
              rw [Pin.new, long]
              split
              next empty =>
                subst empty
                exact .emptyView live
              next => exact .view live held within

theorem stale_iff (pinned : py.handles h = some (some pin)) (same : pin.obj = obj)
    (shown : py.memoryview obj = .ok mv) : Stale py h obj ↔ pin.cap = 0 ∧ mv.bytes ≠ [] := by
  constructor
  · rintro ⟨pin', pinned', -, stale⟩
    rw [pinned, Option.some.injEq, Option.some.injEq] at pinned'
    subst pinned'
    rcases stale with ⟨empty, mv', shown', grown⟩ | ⟨base, off, len, readOnly, released⟩
    · rw [shown, Except.ok.injEq] at shown'
      subst shown'
      exact ⟨empty, grown⟩
    · simp [Python.memoryview, released] at shown
  · rintro ⟨empty, grown⟩
    exact ⟨pin, pinned, same, .inl ⟨empty, mv, shown, grown⟩⟩

/-- A view that was released shows nothing. -/
theorem stale_of_released (pinned : py.handles h = some (some pin)) {base : Ident} {off len : Nat}
    {readOnly : Bool} (live : py.objects pin.obj = some (.view base off len readOnly true)) :
    Describes py pin.obj handed ↔ ¬ Stale py h pin.obj := by
  have stale : Stale py h pin.obj := ⟨pin, pinned, rfl, .inr ⟨base, off, len, readOnly, live⟩⟩
  refine iff_of_false ?_ (not_not_intro stale)
  rintro ⟨mv, shown, -⟩
  simp [Python.memoryview, live] at shown

/-- The pin a handle holds describes its object just if it is not stale. -/
theorem Anchored.describes_iff (anchored : Anchored py pin) (sound : Sound py)
    (pinned : py.handles h = some (some pin)) :
    Describes py pin.obj ⟨.ptr pin.ptr, pin.cap⟩ ↔ ¬ Stale py h pin.obj := by
  cases anchored with
  | @emptyOwner obj addr bytes live =>
      have shown := memoryview_owner live
      rw [stale_iff pinned rfl shown]
      constructor
      · rintro ⟨mv, shown', -, empty⟩
        rw [shown, Except.ok.injEq] at shown'
        subst shown'
        exact fun grown => grown.2 empty
      · intro fresh
        have empty : bytes = [] := by_contra fun grown => fresh ⟨rfl, grown⟩
        exact ⟨_, shown, by rw [empty]; rfl, empty⟩
  | @owner obj addr bytes live =>
      have shown := memoryview_owner live
      rw [stale_iff pinned rfl shown]
      refine iff_of_true ⟨_, shown, rfl, rfl⟩ ?_
      rintro ⟨empty, grown⟩
      exact grown (List.length_eq_zero_iff.mp empty)
  | @emptyView obj base off released live =>
      cases released with
      | true => exact stale_of_released pinned live
      | false =>
          obtain ⟨access, addr, bytes, held, within, -, shown⟩ := sound.memoryview_view live
          rw [stale_iff pinned rfl shown]
          exact iff_of_true ⟨_, shown, rfl, rfl⟩ fun grown => grown.2 rfl
  | @view obj base off len released addr bytes live held within =>
      cases released with
      | true => exact stale_of_released pinned live
      | false =>
          obtain ⟨access, addr', bytes', held', -, -, shown⟩ := sound.memoryview_view live
          rw [held, Option.some.injEq] at held'
          obtain ⟨rfl, rfl, rfl⟩ := Object.owner.inj held'
          have long : ((bytes.drop off).take len).length = len := by
            rw [List.length_take, List.length_drop]
            omega
          rw [stale_iff pinned rfl shown]
          refine iff_of_true ⟨_, shown, long.symm, rfl⟩ ?_
          rintro ⟨empty, grown⟩
          exact grown (List.length_eq_zero_iff.mp (long.trans empty))

/-- A pin just made describes its object. -/
theorem Pin.describes_new (shown : py.memoryview obj = .ok mv) :
    Describes py obj ⟨.ptr (Pin.new obj mv).ptr, (Pin.new obj mv).cap⟩ := by
  refine ⟨mv, shown, ?_⟩
  rw [Pin.new]
  split
  next empty => exact ⟨empty.symm, List.length_eq_zero_iff.mp empty⟩
  next => exact ⟨rfl, rfl⟩

theorem Anchored.hold {held : Pin} (anchored : Anchored py pin) : Anchored (py.hold h held) pin := by
  cases anchored with
  | emptyOwner live => exact .emptyOwner live
  | owner live => exact .owner live
  | emptyView live => exact .emptyView live
  | view live there within => exact .view live there within

theorem Sound.hold (sound : Sound py) (anchored : Anchored py pin) : Sound (py.hold h pin) where
  pinned {h' pin'} pinned := by
    by_cases same : h' = h
    · simp only [Python.hold, same, Function.update_self, Option.some.injEq] at pinned
      subst pinned
      exact anchored.hold
    · have older : py.handles h' = some (some pin') := by simpa [Python.hold, same] using pinned
      exact (sound.pinned older).hold
  viewed live := sound.viewed live

/-- A buffer the handle holds no pin of is not stale. -/
theorem not_stale (held : py.handles h = some current)
    (unpinned : current.filter (fun pin => pin.obj = obj) = none) : ¬ Stale py h obj := by
  rintro ⟨pin, pinned, same, -⟩
  rw [held, Option.some.injEq] at pinned
  rw [pinned] at unpinned
  simp [same] at unpinned

theorem pinned_of_filter (held : py.handles h = some current)
    (found : current.filter (fun pin => pin.obj = obj) = some pin) :
    py.handles h = some (some pin) ∧ pin.obj = obj := by
  obtain ⟨is, same⟩ := Option.filter_eq_some_iff.mp found
  exact ⟨by rw [held, is], of_decide_eq_true same⟩

/-- `bytes` are never pinned. -/
theorem Sound.not_stale_bytes (sound : Sound py) {addr : Nat} {bytes : Bytes}
    (live : py.objects obj = some (.owner .bytes addr bytes)) : ¬ Stale py h obj := by
  rintro ⟨pin, pinned, rfl, -⟩
  cases sound.pinned pinned with
  | emptyOwner live' => simp [live] at live'
  | owner live' => simp [live] at live'
  | emptyView live' => simp [live] at live'
  | view live' => simp [live] at live'

/-- A read hands over its buffer as it is just if that is not stale. -/
theorem Sound.read (sound : Sound py) (call : py.read h obj = .ok (handed, py')) :
    Sound py' ∧ (Describes py obj handed ↔ ¬ Stale py h obj) := by
  rw [Python.read] at call
  cases held : py.handles h with
  | none => simp [held] at call
  | some current =>
      rw [held] at call
      cases found : current.filter fun pin => pin.obj = obj with
      | some pin =>
          obtain ⟨pinned, rfl⟩ := pinned_of_filter held found
          simp only [Python.pinBuffer, found, bind, Except.bind, Except.ok.injEq, Prod.mk.injEq] at call
          obtain ⟨rfl, rfl⟩ := call
          have anchored := sound.pinned pinned
          exact ⟨sound.hold anchored, anchored.describes_iff sound pinned⟩
      | none =>
          simp only [Python.pinBuffer, found, bind, Except.bind] at call
          cases shown : py.memoryview obj with
          | error e => simp [shown] at call
          | ok mv =>
              cases writable : mv.readOnly with
              | true => simp [shown, writable] at call
              | false =>
                  simp only [shown, writable, Bool.false_eq_true, if_false, Except.ok.injEq,
                    Prod.mk.injEq] at call
                  obtain ⟨rfl, rfl⟩ := call
                  refine ⟨sound.hold (sound.pin_new shown writable), ?_⟩
                  exact iff_of_true (Pin.describes_new shown) (not_stale held found)

theorem Sound.write (sound : Sound py) (call : py.write h obj = .ok (handed, py')) :
    Sound py' ∧ (Describes py obj handed ↔ ¬ Stale py h obj) := by
  rw [Python.write] at call
  cases held : py.handles h with
  | none => simp [held] at call
  | some current =>
      rw [held] at call
      simp only at call
      split at call
      next addr bytes live =>
        simp only [Except.ok.injEq, Prod.mk.injEq] at call
        obtain ⟨rfl, rfl⟩ := call
        exact ⟨sound, iff_of_true ⟨_, memoryview_owner live, rfl, rfl⟩ (sound.not_stale_bytes live)⟩
      next =>
        cases found : current.filter fun pin => pin.obj = obj with
        | some pin =>
            obtain ⟨pinned, rfl⟩ := pinned_of_filter held found
            simp only [found, Except.ok.injEq, Prod.mk.injEq] at call
            obtain ⟨rfl, rfl⟩ := call
            exact ⟨sound, (sound.pinned pinned).describes_iff sound pinned⟩
        | none =>
            simp only [found, bind, Except.bind] at call
            cases shown : py.memoryview obj with
            | error e => simp [shown] at call
            | ok mv =>
                have fresh := not_stale held found
                cases writable : mv.readOnly with
                | true =>
                    simp only [shown, writable, if_true, Except.ok.injEq, Prod.mk.injEq] at call
                    obtain ⟨rfl, rfl⟩ := call
                    exact ⟨sound, iff_of_true ⟨mv, shown, rfl, rfl⟩ fresh⟩
                | false =>
                    simp only [shown, writable, Bool.false_eq_true, if_false, Except.ok.injEq,
                      Prod.mk.injEq] at call
                    obtain ⟨rfl, rfl⟩ := call
                    exact ⟨sound.hold (sound.pin_new shown writable),
                      iff_of_true (Pin.describes_new shown) fresh⟩

end Calls

theorem Run.describes_iff {py last : Python} {handings : List Handing} (run : Run py handings last)
    (sound : Sound py) :
    ∀ c ∈ handings, Describes c.before c.obj c.handed ↔ ¬ Stale c.before c.handle c.obj := by
  induction run with
  | refl py => simp
  | move move _ ih => exact ih (sound.keeps move.keeps)
  | write h msg call _ ih =>
      obtain ⟨sound', here⟩ := sound.write call
      exact List.forall_mem_cons.mpr ⟨here, ih sound'⟩
  | read h buf call _ ih =>
      obtain ⟨sound', here⟩ := sound.read call
      exact List.forall_mem_cons.mpr ⟨here, ih sound'⟩

/-- In every run of a program a call hands over its buffer as it is, unless the
handle still holds a pin of it made when it was empty, or of a view since released. -/
theorem buffers_described {last : Python} {handings : List Handing} (run : Run .start handings last) :
    ∀ c ∈ handings, Describes c.before c.obj c.handed ↔ ¬ Stale c.before c.handle c.obj :=
  run.describes_iff ⟨fun pinned => by simp [Python.start] at pinned, fun live => by simp [Python.start] at live⟩

namespace Sample

/-- A log being written by a program whose only object is a `bytearray`. -/
def array (addr : Nat) (bytes : Bytes) : Python where
  objects := update Python.start.objects 1 (some (.owner .writable addr bytes))
  handles := update Python.start.handles 0 (some none)

theorem array_run (addr : Nat) (bytes : Bytes) {handings : List Handing} {last : Python}
    (run : Run (array addr bytes) handings last) : Run .start handings last :=
  .move (.opens 0 rfl) (.move (.create 1 .writable addr bytes rfl) run)

/-- No view is made of an empty array. -/
theorem empty_unexported (addr : Nat) : ¬ ((array addr []).hold 0 ⟨1, 0, none, none⟩).Exported 1 := by
  rintro (⟨h, pin, pinned, exported⟩ | ⟨v, off, len, readOnly, live⟩)
  · by_cases same : h = 0
    · simp only [Python.hold, same, Function.update_self, Option.some.injEq] at pinned
      simp [← pinned] at exported
    · simp [Python.hold, array, Python.start, same] at pinned
  · by_cases same : v = 1
    · simp [Python.hold, array, same] at live
    · simp [Python.hold, array, Python.start, same] at live

end Sample

/-- A `bytearray` that was empty when it was first written is handed over as
nothing when it is written again, whatever it holds. -/
theorem grown_array_stale : ∃ handings last, Run .start handings last ∧
    ∃ c ∈ handings, (c.before.memoryview c.obj).map MemoryView.bytes = .ok [1, 2] ∧
      c.handed = ⟨.ptr none, 0⟩ ∧ ¬ Describes c.before c.obj c.handed := by
  have run := Sample.array_run 16 [] (.write 0 1 rfl
    (.move (.resize 1 rfl (Sample.empty_unexported 16) 32 [1, 2])
      (.write 0 1 rfl (.refl _))))
  refine ⟨_, _, run, _, List.mem_cons_of_mem _ (List.mem_singleton.mpr rfl), rfl, rfl, ?_⟩
  rintro ⟨mv, shown, len, -⟩
  obtain rfl := Except.ok.inj shown
  contradiction

/-- An array that is not empty is handed over with what it holds at each call. -/
theorem buffers_described_sample : ∃ handings last, Run .start handings last ∧ handings.length = 2 ∧
    ∀ c ∈ handings, Describes c.before c.obj c.handed ∧ c.handed = ⟨.ptr (some ⟨16, 0⟩), 2⟩ := by
  have run := Sample.array_run 16 [7, 8] (.write 0 1 rfl
    (.move (.fill 1 rfl [1, 2] (Eq.refl 2))
      (.write 0 1 rfl (.refl _))))
  refine ⟨_, _, run, rfl, ?_⟩
  have described := buffers_described run
  rw [List.forall_mem_cons, List.forall_mem_singleton] at described ⊢
  refine ⟨⟨described.1.mpr (not_stale rfl rfl), rfl⟩, ⟨described.2.mpr ?_, rfl⟩⟩
  rintro ⟨pin, pinned, -, ⟨empty, -⟩ | ⟨base, off, len, readOnly, released⟩⟩
  · obtain rfl := Option.some.inj (Option.some.inj pinned)
    contradiction
  · exact absurd (Option.some.inj released) (by simp)

end Tcslog.Binding
