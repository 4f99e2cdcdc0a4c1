import Mathlib.Data.UInt
import Brickred.Buffer.Queue
import Brickred.Lib.Transition

/-!
# The signal queue (`signal_queue.cc`, `self_pipe.cc`)

Threads and signal handlers push signal numbers for the thread of an event loop. The
queue is the pipe itself: a push writes the bytes of an `int` to it, and the loop reads
as many bytes at a time. Nobody looks at what the write returns, and of what the read
returns only whether it is positive.

The pipe takes the bytes of one write all together or not at all, and it does take
them if it is empty; it gives a reader what there is, up to the size of its buffer.
-/

namespace Brickred

open Transition

/-- Where the thread of the loop is: outside of `pipeReadCallback`, between two rounds
of its loop, or in the callback. `signum` is the variable of that name, byte by byte. -/
inductive SignalLoop where
  | waiting
  | reading (signum : List UInt8)
  | receiving (signum : List UInt8)
  deriving DecidableEq, Repr

/-- `SignalQueue::Impl`, with the bytes in its pipe. -/
structure SignalQueue where
  pipe : List UInt8
  capacity : Nat
  littleEndian : Bool
  loop : SignalLoop
  recvSignalCb : Bool

namespace SignalQueue

/-- A queue on which nothing has happened. -/
def init (capacity : Nat) (littleEndian : Bool) : SignalQueue where
  pipe := []
  capacity
  littleEndian
  loop := .waiting
  recvSignalCb := false

/-- The bytes of an `int` in memory. -/
def toBytes (littleEndian : Bool) (signum : Int32) : List UInt8 :=
  DynamicBuffer.encodeInt 4 littleEndian signum.toUInt32.toNat

/-- The `int` with these bytes. -/
def ofBytes (littleEndian : Bool) (bytes : List UInt8) : Int32 :=
  (UInt32.ofNat (DynamicBuffer.decodeInt littleEndian bytes)).toInt32

/-- `pipe_.read` into the variable `signum`, which keeps the bytes that are not
overwritten. -/
def readInto (pipe signum : List UInt8) : List UInt8 :=
  pipe.take 4 ++ signum.drop (pipe.take 4).length

/-- What threads do. -/
inductive Event where
  /-- `push`, with the answer of the pipe -/
  | push (signum : Int32) (accepted : Bool)
  | readable
  /-- A `pipe_.read` that returns a positive number, and whether the callback is invoked. -/
  | read (signum : Int32) (invoked : Bool)
  | callbackReturn
  | readEnd
  | setRecvSignalCallback (set : Bool)
  deriving DecidableEq

/-- The steps of all threads. A push may come from anywhere, so also from the callback. -/
inductive Step : SignalQueue → Event → SignalQueue → Prop where
  | push {s : SignalQueue} {signum : Int32} (hroom : s.pipe.length + 4 ≤ s.capacity) :
      Step s (.push signum true) { s with pipe := s.pipe ++ toBytes s.littleEndian signum }
  | pushFull {s : SignalQueue} {signum : Int32} (hpipe : s.pipe ≠ []) :
      Step s (.push signum false) s
  /-- The loop is told of a descriptor as long as there is something to read. -/
  | readable {s : SignalQueue} (h : s.loop = .waiting) (hpipe : s.pipe ≠ []) :
      Step s .readable { s with loop := .reading (toBytes s.littleEndian 0) }
  | read {s : SignalQueue} {signum signum' : List UInt8} (h : s.loop = .reading signum)
      (hpipe : s.pipe ≠ []) (hread : signum' = readInto s.pipe signum) :
      Step s (.read (ofBytes s.littleEndian signum') s.recvSignalCb)
        { s with
          pipe := s.pipe.drop 4
          loop := if s.recvSignalCb then .receiving signum' else .reading signum' }
  | callbackReturn {s : SignalQueue} {signum : List UInt8} (h : s.loop = .receiving signum) :
      Step s .callbackReturn { s with loop := .reading signum }
  | readEnd {s : SignalQueue} {signum : List UInt8} (h : s.loop = .reading signum)
      (hpipe : s.pipe = []) :
      Step s .readEnd { s with loop := .waiting }
  /-- The thread of the loop runs the user's code, in the callback or elsewhere. -/
  | setRecvSignalCallback {s : SignalQueue} {set : Bool} (h : ∀ signum, s.loop ≠ .reading signum) :
      Step s (.setRecvSignalCallback set) { s with recvSignalCb := set }

/-! ## The bytes of an `int` -/

variable {littleEndian : Bool} {signum : Int32} {bytes : List UInt8}

theorem length_toBytes (littleEndian : Bool) (signum : Int32) :
    (toBytes littleEndian signum).length = 4 := by
  unfold toBytes
  rw [DynamicBuffer.length_encodeInt]

theorem ofBytes_toBytes (littleEndian : Bool) (signum : Int32) :
    ofBytes littleEndian (toBytes littleEndian signum) = signum := by
  unfold ofBytes toBytes
  have hlt : signum.toUInt32.toNat < 256 ^ 4 := signum.toUInt32.toNat_lt
  rw [DynamicBuffer.decodeInt_encodeInt, Nat.mod_eq_of_lt hlt, UInt32.ofNat_toNat, Int32.toInt32_toUInt32]

/-- A pipe that holds whole integers gives the first one. -/
theorem readInto_toBytes (hlen : bytes.length = 4) (rest : List UInt8) :
    readInto (toBytes littleEndian signum ++ rest) bytes = toBytes littleEndian signum := by
  have htake : (toBytes littleEndian signum ++ rest).take 4 = toBytes littleEndian signum := by
    rw [← length_toBytes littleEndian signum, List.take_left]
  rw [readInto, htake, length_toBytes, ← hlen, List.drop_length, List.append_nil]

theorem drop_toBytes (littleEndian : Bool) (signum : Int32) (rest : List UInt8) :
    (toBytes littleEndian signum ++ rest).drop 4 = rest := by
  rw [← length_toBytes littleEndian signum, List.drop_left]

/-! ## What a run hands over -/

/-- The signals that the pipe has taken, in order. -/
def accepted (events : List Event) : List Int32 :=
  events.filterMap fun
    | .push signum true => some signum
    | _ => none

/-- The signals that the loop has read, in order. -/
def taken (events : List Event) : List Int32 :=
  events.filterMap fun
    | .read signum _ => some signum
    | _ => none

/-- The signals that are handed to the callback, in order. A signal that is read while none is
set is gone. -/
def handed (events : List Event) : List Int32 :=
  events.filterMap fun
    | .read signum true => some signum
    | _ => none

/-- The callback that is set last. -/
def callbackSet (events : List Event) : Bool :=
  events.foldl (fun set e => match e with
    | .setRecvSignalCallback set => set
    | _ => set) false

/-- What there is to say of an event, from the events before it: a signal is dropped by the
pipe only while others wait, the callback is invoked if there is one, and the loop ends when all
is read. -/
def Due (before : List Event) : Event → Prop
  | .push _ accept => accept = true ∨ taken before ≠ accepted before
  | .read _ invoked => invoked = callbackSet before
  | .readEnd => taken before = accepted before
  | _ => True

/-- A callback is set whenever a signal is read. -/
def Listening (before : List Event) : Event → Prop
  | .read _ _ => callbackSet before = true
  | _ => True

@[simp] theorem accepted_append (l l' : List Event) : accepted (l ++ l') = accepted l ++ accepted l' :=
  List.filterMap_append ..

@[simp] theorem taken_append (l l' : List Event) : taken (l ++ l') = taken l ++ taken l' :=
  List.filterMap_append ..

/-- What holds between two events, with the signals that wait in the pipe. -/
structure Holds (pending : List Int32) (events : List Event) (s : SignalQueue) : Prop where
  order : accepted events = taken events ++ pending
  pipe : s.pipe = pending.flatMap (toBytes s.littleEndian)
  callback : s.recvSignalCb = callbackSet events
  signum : ∀ signum, s.loop = .reading signum ∨ s.loop = .receiving signum → signum.length = 4
  due : Justified Due events

variable {events : List Event} {pending : List Int32} {e : Event} {s s' : SignalQueue}

theorem holds_init (capacity : Nat) (littleEndian : Bool) :
    Holds [] [] (init capacity littleEndian) where
  order := rfl
  pipe := rfl
  callback := rfl
  signum _ h := by rcases h with h | h <;> cases h
  due := justified_nil

/-- A pipe with nothing in it has no signal waiting. -/
theorem Holds.pending_eq_nil (h : Holds pending events s) : s.pipe = [] ↔ pending = [] := by
  rw [h.pipe]
  cases pending with
  | nil => simp
  | cons signum rest =>
    have hlen := length_toBytes s.littleEndian signum
    constructor
    · intro hnil
      rw [List.flatMap_cons, List.append_eq_nil_iff] at hnil
      rw [hnil.1] at hlen
      cases hlen
    · intro hnil
      cases hnil

/-- An event that moves no signal, and sets no callback. -/
def Event.Quiet (e : Event) : Prop :=
  accepted [e] = [] ∧ taken [e] = [] ∧ ∀ events, callbackSet (events ++ [e]) = callbackSet events

theorem Holds.quiet (h : Holds pending events s) (he : e.Quiet) (hdue : Due events e) {loop : SignalLoop}
    (hloop : ∀ signum, loop = .reading signum ∨ loop = .receiving signum → signum.length = 4) :
    Holds pending (events ++ [e]) { s with loop } where
  order := by rw [accepted_append, taken_append, he.1, he.2.1, List.append_nil, List.append_nil, h.order]
  pipe := h.pipe
  callback := by rw [he.2.2, ← h.callback]
  signum := hloop
  due := h.due.snoc hdue

theorem Holds.step (h : Holds pending events s) (hstep : Step s e s') :
    ∃ pending', Holds pending' (events ++ [e]) s' := by
  cases hstep with
  | @push signum hroom =>
    refine ⟨pending ++ [signum], ?_, ?_, ?_, h.signum, h.due.snoc (.inl rfl)⟩
    · rw [accepted_append, taken_append, h.order]
      simp [accepted, taken]
    · rw [List.flatMap_append, ← h.pipe]
      simp
    · rw [h.callback]
      simp [callbackSet]
  | @pushFull signum hpipe =>
    refine ⟨pending, h.quiet (e := .push signum false) ?_ (.inr fun hall => ?_) h.signum⟩
    · simp [Event.Quiet, accepted, taken, callbackSet]
    · -- were all read that was accepted, the pipe would be empty
      have horder := h.order
      rw [← hall] at horder
      exact hpipe (h.pending_eq_nil.mpr (List.self_eq_append_right.mp horder))
  | readable hloop hpipe =>
    refine ⟨pending, h.quiet (e := .readable) ?_ trivial fun signum hs => ?_⟩
    · simp [Event.Quiet, accepted, taken, callbackSet]
    · rcases hs with hs | hs <;> cases hs
      exact length_toBytes s.littleEndian 0
  | @read signum signum' hloop hpipe hread =>
    cases pending with
    | nil => exact absurd (h.pending_eq_nil.mpr rfl) hpipe
    | cons first rest =>
      have hbytes : s.pipe = toBytes s.littleEndian first ++ rest.flatMap (toBytes s.littleEndian) := by
        rw [h.pipe, List.flatMap_cons]
      rw [hbytes, readInto_toBytes (h.signum signum (.inl hloop))] at hread
      subst hread
      refine ⟨rest, ?_, ?_, ?_, fun signum hs => ?_, h.due.snoc h.callback⟩
      · rw [accepted_append, taken_append, h.order]
        simp [accepted, taken, ofBytes_toBytes]
      · show s.pipe.drop 4 = _
        rw [hbytes, drop_toBytes]
      · rw [h.callback]
        simp [callbackSet]
      · dsimp only at hs
        split at hs <;> rcases hs with hs | hs <;> cases hs <;>
          exact length_toBytes s.littleEndian first
  | callbackReturn hloop =>
    refine ⟨pending, h.quiet (e := .callbackReturn) ?_ trivial fun signum hs => ?_⟩
    · simp [Event.Quiet, accepted, taken, callbackSet]
    · rcases hs with hs | hs <;> cases hs
      exact h.signum _ (.inr hloop)
  | readEnd hloop hpipe =>
    refine ⟨pending, h.quiet (e := .readEnd) ?_ ?_ fun signum hs => ?_⟩
    · simp [Event.Quiet, accepted, taken, callbackSet]
    · show taken events = accepted events
      rw [h.order, h.pending_eq_nil.mp hpipe, List.append_nil]
    · rcases hs with hs | hs <;> cases hs
  | @setRecvSignalCallback set hloop =>
    refine ⟨pending, ?_, h.pipe, ?_, h.signum, h.due.snoc trivial⟩
    · rw [accepted_append, taken_append, h.order]
      simp [accepted, taken]
    · simp [callbackSet]

/-! ## The loop alone -/

/-- The thread of the loop does it, in `pipeReadCallback` or on the way to it. -/
def Event.ofLoop : Event → Bool
  | .push _ _ => false
  | .setRecvSignalCallback _ => false
  | _ => true

/-- What waits after an event, from what waited before it. -/
theorem Holds.next (h : Holds pending events s) {pending' : List Int32}
    (h' : Holds pending' (events ++ [e]) s') : pending ++ accepted [e] = taken [e] ++ pending' := by
  have horder := h'.order
  rw [accepted_append, h.order, taken_append, List.append_assoc, List.append_assoc] at horder
  exact List.append_cancel_left horder

/-- With a callback in every read, what is read is handed over. -/
theorem handed_eq_taken {events : List Event} (hdue : Justified Due events)
    (h : Justified Listening events) : handed events = taken events := by
  refine List.filterMap_congr fun e he => ?_
  obtain ⟨before, after, rfl⟩ := List.append_of_mem he
  cases e with
  | read signum invoked =>
    have hinvoked : invoked = callbackSet before := hdue before _ after rfl
    have hset : callbackSet before = true := h before _ after rfl
    rw [hinvoked, hset]
  | _ => rfl

/-- Left alone the loop reads all that waits, and hands it over if there is a callback. -/
theorem Holds.exists_taken (h : Holds pending events s) {signum : List UInt8}
    (hloop : s.loop = .reading signum) :
    ∃ events' s', Run Step s events' s' ∧ (∀ e ∈ events', e.ofLoop = true) ∧
      taken events' = pending ∧ handed events' = (if s.recvSignalCb then pending else []) ∧
      s'.loop = .waiting ∧ s'.pipe = [] := by
  induction pending generalizing events s signum with
  | nil =>
    have hpipe := h.pending_eq_nil.mpr rfl
    exact ⟨[.readEnd], _, .cons (.readEnd hloop hpipe) .nil, by simp [Event.ofLoop], rfl,
      (ite_self _).symm, rfl, hpipe⟩
  | cons first rest ih =>
    have hpipe : s.pipe ≠ [] := fun hnil => by
      cases h.pending_eq_nil.mp hnil
    have hcall : Step _ _ _ := .read hloop hpipe rfl
    obtain ⟨pending', hread⟩ := h.step hcall
    -- what is read is the first signal that waits
    have hnext := h.next hread
    obtain ⟨hfirst, rfl⟩ : first = ofBytes s.littleEndian (readInto s.pipe signum) ∧ rest = pending' := by
      simpa [accepted, taken] using hnext
    by_cases hcb : s.recvSignalCb = true
    · rw [hcb] at hread hcall
      rw [if_pos rfl] at hread hcall
      have hreturn := Step.callbackReturn (s := { s with
        pipe := s.pipe.drop 4, loop := .receiving (readInto s.pipe signum), recvSignalCb := true }) rfl
      obtain ⟨pending'', hback⟩ := hread.step hreturn
      obtain rfl : rest = pending'' := by simpa [accepted, taken] using hread.next hback
      obtain ⟨events', s', hrun, hall, htaken, hhanded, hend⟩ := ih hback rfl
      refine ⟨_ :: _ :: events', s', .cons hcall (.cons hreturn hrun), ?_, ?_, ?_, hend⟩
      · simpa [Event.ofLoop] using hall
      · rw [hfirst, ← htaken]
        rfl
      · rw [hcb, if_pos rfl, hfirst]
        rw [if_pos rfl] at hhanded
        rw [← hhanded]
        rfl
    · rw [Bool.not_eq_true] at hcb
      rw [hcb] at hread hcall
      obtain ⟨events', s', hrun, hall, htaken, hhanded, hend⟩ := ih hread rfl
      refine ⟨_ :: events', s', .cons hcall hrun, ?_, ?_, ?_, hend⟩
      · simpa [Event.ofLoop] using hall
      · rw [hfirst, ← htaken]
        rfl
      · rw [hcb]
        exact hhanded

/-- In every run the signals that the pipe has taken are those read and, behind them, those that
wait in the pipe, in order and none torn apart. One that is dropped by the pipe has found others
waiting, a signal is handed to the callback that is set and to none otherwise, so that all that
is read is handed over if a callback is set whenever a signal is read; and the loop ends only
when none waits. Whenever one waits, the loop is told and reads all of them, and hands them to
the callback if one is set. -/
theorem run_hands_over {capacity : Nat} (h : Run Step (init capacity littleEndian) events s) :
    ∃ pending, accepted events = taken events ++ pending ∧
      s.pipe = pending.flatMap (toBytes s.littleEndian) ∧ Justified Due events ∧
      (Justified Listening events → handed events = taken events) ∧
      (s.loop = .waiting → pending ≠ [] → ∃ events' s', Run Step s (.readable :: events') s' ∧
        (∀ e ∈ events', e.ofLoop = true) ∧ taken events' = pending ∧
        handed events' = (if callbackSet events then pending else []) ∧ s'.loop = .waiting ∧
        s'.pipe = []) := by
  have hkeep : ∀ {l s e s'}, (∃ pending, Holds pending l s) → Step s e s' →
      ∃ pending, Holds pending (l ++ [e]) s' := by
    rintro l s e s' ⟨_, hs⟩ hstep
    exact hs.step hstep
  obtain ⟨pending, hs⟩ := h.history (I := fun events s => ∃ pending, Holds pending events s)
    hkeep ⟨[], holds_init capacity littleEndian⟩
  refine ⟨pending, hs.order, hs.pipe, hs.due, handed_eq_taken hs.due, fun hwait hne => ?_⟩
  have hpipe : s.pipe ≠ [] := fun hnil => hne (hs.pending_eq_nil.mp hnil)
  have htold := Step.readable hwait hpipe
  obtain ⟨pending', hreading⟩ := hs.step htold
  obtain rfl : pending = pending' := by simpa [accepted, taken] using hs.next hreading
  obtain ⟨events', s', hrun, hall, htaken, hhanded, hend⟩ := hreading.exists_taken rfl
  rw [← hs.callback]
  exact ⟨events', s', .cons htold hrun, hall, htaken, hhanded, hend⟩

/-- Two signals that wait, and a callback. -/
theorem run_hands_over_two : ∃ s : SignalQueue,
    Run Step (init 65536 true) [.setRecvSignalCallback true, .push 2 true, .push 15 true] s ∧
      s.pipe = [2, 0, 0, 0, 15, 0, 0, 0] ∧
      ∃ events' s', Run Step s (.readable :: events') s' ∧ handed events' = [2, 15] := by
  have hset : Step (init 65536 true) (.setRecvSignalCallback true) _ :=
    .setRecvSignalCallback fun _ => nofun
  have hfirst : Step _ (.push 2 true) _ := .push (s := { init 65536 true with
    recvSignalCb := true }) (by decide)
  have hsecond : Step _ (.push 15 true) _ := .push (s := { init 65536 true with
    recvSignalCb := true, pipe := [] ++ toBytes true 2 }) (by decide)
  have hrun := Run.cons hset (Run.cons hfirst (Run.cons hsecond .nil))
  refine ⟨_, hrun, by decide, ?_⟩
  obtain ⟨pending, horder, -, -, -, hhands⟩ := run_hands_over hrun
  obtain rfl : pending = [2, 15] := horder.symm
  obtain ⟨events', s', hrun', -, -, hhanded, -⟩ := hhands rfl (by simp)
  exact ⟨events', s', hrun', hhanded⟩

end SignalQueue

end Brickred
