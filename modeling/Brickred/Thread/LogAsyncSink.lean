import Brickred.Buffer.DynamicBuffer
import Brickred.Lib.Exclusive
import Brickred.Thread.ConcurrentQueue

/-!
# The asynchronous log sink (`log_async_sink.cc`, `object_pool.h`)

Threads that log take a buffer object from a pool, fill it and put a pointer to it into a
queue; the log thread takes the pointers out, hands the texts to the adapted sink and puts
the objects back into the pool. A `UniquePtr` goes on naming an object for a moment after
its pointer has been put into the queue.

The pool is behind a mutex of its own and each of its functions is one step. The queue is
the monitor of `ConcurrentQueue`, in which threads wait.
-/

namespace Brickred

open Monitor Transition

namespace LogAsyncSink

/-- The address of a buffer object. -/
abbrev Pointer := Nat

abbrev Text := List UInt8

/-- The threads: those that log, the log thread, and the one that runs the destructor. -/
inductive Actor (θ : Type) where
  | producer (t : θ)
  | logThread
  | owner
deriving DecidableEq

/-- Where a thread is in `log`: what its `queue_buffer` points to, and the bytes that it
has been given. -/
inductive Producer where
  | idle
  | called (text : Text)
  | taken (a : Pointer) (text : Text)
  | reserved (a : Pointer) (text : Text)
  | copied (a : Pointer) (text : Text)
  | filled (a : Pointer) (text : Text)
  /-- The pointer is in the queue, and `queue_buffer` has yet to be released. -/
  | pushed (a : Pointer)

/-- Where the log thread is in its loop. -/
inductive LogThread where
  | popping
  | popped (a : Pointer)
  | sunk (a : Pointer)
  | emptied (a : Pointer)
  | finished
deriving DecidableEq

/-- How far the destructor is. -/
inductive Owner where
  | running
  | pushing
  | joining
  | destroyed
deriving DecidableEq

end LogAsyncSink

open LogAsyncSink

/-- `buffers` are the buffer objects there are, `pool` is `reused_object_list_`, and `sink`
is what the adapted sink has been given. -/
structure LogAsyncSink (θ : Type) where
  queue : State (Actor θ) (ConcurrentQueue (Option Pointer)) (ConcurrentQueue.Call (Option Pointer))
    ConcurrentQueue.Cond
  pool : List Pointer
  buffers : Pointer → Option DynamicBuffer
  producer : θ → Producer
  logThread : LogThread
  owner : Owner
  sink : List Text

namespace LogAsyncSink

variable {θ : Type}

/-- `LogAsyncSink::LogAsyncSink`, with the log thread in its loop. -/
def init (θ : Type) (queueSize : Nat) : LogAsyncSink θ where
  queue := Monitor.init (.new queueSize)
  pool := []
  buffers := fun _ => none
  producer := fun _ => .idle
  logThread := .popping
  owner := .running
  sink := []

/-- What threads do, as far as texts are concerned. -/
inductive Event (θ : Type) where
  | call (t : θ) (text : Text)
  /-- `reserveWritableBytes` throws, and so does `log`. -/
  | refused (t : θ) (text : Text)
  | enqueued (t : θ) (text : Text)
  /-- Any other step. -/
  | other

section Steps

variable [DecidableEq θ]

def setProducer (s : LogAsyncSink θ) (t : θ) (p : Producer) : LogAsyncSink θ :=
  { s with producer := Function.update s.producer t p }

def setBuffer (s : LogAsyncSink θ) (a : Pointer) (b : Option DynamicBuffer) : LogAsyncSink θ :=
  { s with buffers := Function.update s.buffers a b }

/-- The steps of all threads. No array is larger than `PTRDIFF_MAX`, and `log` is not
called once the destructor has been. -/
inductive Step : LogAsyncSink θ → Event θ → LogAsyncSink θ → Prop where
  | call {s : LogAsyncSink θ} {t text} (h : s.producer t = .idle) (howner : s.owner = .running)
      (hsize : text.length < 2 ^ 63) : Step s (.call t text) (s.setProducer t (.called text))
  /-- `pool_.getObject()` where there is an object to be reused. -/
  | reuse {s : LogAsyncSink θ} {t text pool a} (h : s.producer t = .called text)
      (hpool : s.pool = pool ++ [a]) :
      Step s .other ({ s with pool }.setProducer t (.taken a text))
  /-- `pool_.getObject()` where there is none. -/
  | allocate {s : LogAsyncSink θ} {t text a b} (h : s.producer t = .called text)
      (hpool : s.pool = []) (ha : s.buffers a = none)
      (hb : DynamicBuffer.construct 1024 1024 = some b) :
      Step s .other ((s.setBuffer a (some b)).setProducer t (.taken a text))
  | reserve {s : LogAsyncSink θ} {t text a b b'} (h : s.producer t = .taken a text)
      (hb : s.buffers a = some b) (hreserve : b.reserveWritableBytes text.length = some b') :
      Step s .other ((s.setBuffer a (some b')).setProducer t (.reserved a text))
  /-- The `UniquePtr` deletes the object. -/
  | refuse {s : LogAsyncSink θ} {t text a b} (h : s.producer t = .taken a text)
      (hb : s.buffers a = some b) (hreserve : b.reserveWritableBytes text.length = none) :
      Step s (.refused t text) ((s.setBuffer a none).setProducer t .idle)
  | copy {s : LogAsyncSink θ} {t text a b b'} (h : s.producer t = .reserved a text)
      (hb : s.buffers a = some b) (hcopy : b.copyIn text = some b') :
      Step s .other ((s.setBuffer a (some b')).setProducer t (.copied a text))
  | write {s : LogAsyncSink θ} {t text a b} (h : s.producer t = .copied a text)
      (hb : s.buffers a = some b) :
      Step s .other ((s.setBuffer a (some (b.write text.length))).setProducer t (.filled a text))
  | pushWaits {s : LogAsyncSink θ} {t text a m} (h : s.producer t = .filled a text)
      (hpush : StepOf ConcurrentQueue.run (.producer t) (.push (some a)) s.queue none m) :
      Step s .other { s with queue := m }
  | push {s : LogAsyncSink θ} {t text a m} (h : s.producer t = .filled a text)
      (hpush : StepOf ConcurrentQueue.run (.producer t) (.push (some a)) s.queue (some .done) m) :
      Step s (.enqueued t text) ({ s with queue := m }.setProducer t (.pushed a))
  | release {s : LogAsyncSink θ} {t a} (h : s.producer t = .pushed a) :
      Step s .other (s.setProducer t .idle)
  | popWaits {s : LogAsyncSink θ} {m} (h : s.logThread = .popping)
      (hpop : StepOf ConcurrentQueue.run .logThread .pop s.queue none m) :
      Step s .other { s with queue := m }
  | pop {s : LogAsyncSink θ} {item m} (h : s.logThread = .popping)
      (hpop : StepOf ConcurrentQueue.run .logThread .pop s.queue (some (.item item)) m) :
      Step s .other { s with queue := m, logThread := item.elim .finished .popped }
  | sink {s : LogAsyncSink θ} {a b} (h : s.logThread = .popped a) (hb : s.buffers a = some b) :
      Step s .other { s with sink := s.sink ++ [b.readable], logThread := .sunk a }
  | read {s : LogAsyncSink θ} {a b} (h : s.logThread = .sunk a) (hb : s.buffers a = some b) :
      Step s .other { s.setBuffer a (some (b.read b.readableBytes)) with logThread := .emptied a }
  | returnObject {s : LogAsyncSink θ} {a} (h : s.logThread = .emptied a) :
      Step s .other { s with pool := s.pool ++ [a], logThread := .popping }
  /-- `LogAsyncSink::~LogAsyncSink`, when all threads have returned from `log`. -/
  | destroy {s : LogAsyncSink θ} (h : s.owner = .running) (hidle : ∀ t, s.producer t = .idle) :
      Step s .other { s with owner := .pushing }
  | ownerWaits {s : LogAsyncSink θ} {m} (h : s.owner = .pushing)
      (hpush : StepOf ConcurrentQueue.run .owner (.push none) s.queue none m) :
      Step s .other { s with queue := m }
  | ownerPush {s : LogAsyncSink θ} {m} (h : s.owner = .pushing)
      (hpush : StepOf ConcurrentQueue.run .owner (.push none) s.queue (some .done) m) :
      Step s .other { s with queue := m, owner := .joining }
  | join {s : LogAsyncSink θ} (h : s.owner = .joining) (hfinished : s.logThread = .finished) :
      Step s .other { s with owner := .destroyed }

end Steps

/-! ## Who has a buffer object -/

/-- Where a buffer object may be. -/
inductive Place (θ : Type) where
  | pool
  | queue
  | producer (t : θ)
  | logThread

/-- The object that a thread has, which it may use. -/
def Producer.held : Producer → Option Pointer
  | .idle => none
  | .called _ => none
  | .taken a _ => some a
  | .reserved a _ => some a
  | .copied a _ => some a
  | .filled a _ => some a
  | .pushed _ => none

def LogThread.held : LogThread → Option Pointer
  | .popping => none
  | .popped a => some a
  | .sunk a => some a
  | .emptied a => some a
  | .finished => none

/-- The pointers in the queue. -/
def queued (s : LogAsyncSink θ) : List Pointer := s.queue.shared.queue.reduceOption

/-- The object is in a place. -/
def At (s : LogAsyncSink θ) (a : Pointer) : Place θ → Prop
  | .pool => a ∈ s.pool
  | .queue => a ∈ s.queued
  | .producer t => (s.producer t).held = some a
  | .logThread => s.logThread.held = some a

/-- What is in the buffer object of a thread that logs. -/
def Producer.Holds (b : DynamicBuffer) : Producer → Prop
  | .taken _ _ => b.readable = []
  | .reserved _ text => b.readable = [] ∧ text.length ≤ b.writableBytes
  | .copied _ text => (b.write text.length).readable = text
  | .filled _ text => b.readable = text
  | _ => True

def LogThread.Holds (b : DynamicBuffer) : LogThread → Prop
  | .emptied _ => b.readable = []
  | _ => True

/-- What is in a buffer object that is in some place. -/
def Content (s : LogAsyncSink θ) (b : DynamicBuffer) : Place θ → Prop
  | .pool => b.readable = []
  | .queue => True
  | .producer t => (s.producer t).Holds b
  | .logThread => s.logThread.Holds b

/-- The bytes that a thread has been given in a call of `log` and has not enqueued. -/
def Producer.text : Producer → Option Text
  | .idle => none
  | .called text => some text
  | .taken _ text => some text
  | .reserved _ text => some text
  | .copied _ text => some text
  | .filled _ text => some text
  | .pushed _ => none

/-- The objects whose texts are yet to be given to the sink, in order. -/
def pending (s : LogAsyncSink θ) : List Pointer :=
  (match s.logThread with
    | .popped a => [a]
    | _ => []) ++ s.queued

/-- The text in an object. -/
def text (s : LogAsyncSink θ) (a : Pointer) : Option Text := (s.buffers a).map DynamicBuffer.readable

/-! ## One place for each object -/

/-- Each object there is is in one place, and there once. -/
structure Owned (s : LogAsyncSink θ) : Prop where
  exclusive : Exclusive.Holds (fun a => s.buffers a ≠ none) s.At
  pool : s.pool.Nodup
  queue : s.queued.Nodup

section

variable {s s' : LogAsyncSink θ} {a : Pointer}

theorem at_congr (hpool : s'.pool = s.pool) (hqueue : s'.queued = s.queued)
    (hproducer : ∀ t, (s'.producer t).held = (s.producer t).held)
    (hlogThread : s'.logThread.held = s.logThread.held) (a : Pointer) (r : Place θ) :
    s'.At a r ↔ s.At a r := by
  cases r with
  | pool => rw [At, At, hpool]
  | queue => rw [At, At, hqueue]
  | producer t => rw [At, At, hproducer]
  | logThread => rw [At, At, hlogThread]

theorem Owned.init (queueSize : Nat) : Owned (init θ queueSize) where
  exclusive := by
    refine ⟨fun a => ⟨fun h => absurd rfl h, ?_⟩, fun {a p q} hp _ => ?_⟩
    · rintro ⟨r, hr⟩
      cases r <;> cases hr
    · cases p <;> cases hp
  pool := .nil
  queue := .nil

/-- Nothing goes to another place. -/
theorem Owned.congr (hs : Owned s) (hpool : s'.pool = s.pool) (hqueue : s'.queued = s.queued)
    (hproducer : ∀ t, (s'.producer t).held = (s.producer t).held)
    (hlogThread : s'.logThread.held = s.logThread.held)
    (hlive : ∀ a, s'.buffers a ≠ none ↔ s.buffers a ≠ none) : Owned s' where
  exclusive := hs.exclusive.congr hlive (at_congr hpool hqueue hproducer hlogThread)
  pool := hpool ▸ hs.pool
  queue := hqueue ▸ hs.queue

/-- An object is put behind those of a list that it is not in. -/
theorem nodup_snoc {l : List Pointer} (hl : l.Nodup) (ha : a ∉ l) : (l ++ [a]).Nodup := by
  rw [← List.concat_eq_append]
  exact hl.concat ha

theorem Owned.pop (hs : Owned s)
    {m : State (Actor θ) (ConcurrentQueue (Option Pointer)) (ConcurrentQueue.Call (Option Pointer))
      ConcurrentQueue.Cond} {l : LogThread} (hfree : s.logThread.held = none)
    (hl : l.held = some a) (hqueued : s.queued = a :: m.shared.queue.reduceOption) :
    Owned { s with queue := m, logThread := l } := by
  have hnodup := hs.queue
  rw [hqueued, List.nodup_cons] at hnodup
  have ha : s.At a .queue := by
    show a ∈ s.queued
    rw [hqueued]
    exact List.mem_cons_self
  refine ⟨hs.exclusive.move ha (q := .logThread) nofun (fun _ => .rfl) ?_ ?_ ?_, hs.pool, hnodup.2⟩
  · intro x
    show x ∈ m.shared.queue.reduceOption ↔ x ∈ s.queued ∧ x ≠ a
    rw [hqueued, List.mem_cons]
    constructor
    · exact fun hx => ⟨.inr hx, fun hxa => hnodup.1 (hxa ▸ hx)⟩
    · exact fun hx => hx.1.resolve_left hx.2
  · intro x
    show l.held = some x ↔ s.logThread.held = some x ∨ x = a
    rw [hfree, hl]
    simp [eq_comm]
  · intro x r hq hlog
    cases r with
    | queue => exact absurd rfl hq
    | logThread => exact absurd rfl hlog
    | pool | producer u => exact .rfl

theorem Owned.returnObject (hs : Owned s) {l : LogThread} (hheld : s.logThread.held = some a)
    (hl : l.held = none) : Owned { s with pool := s.pool ++ [a], logThread := l } := by
  have ha : s.At a .logThread := hheld
  refine ⟨hs.exclusive.move ha (q := .pool) nofun (fun _ => .rfl) ?_ ?_ ?_, ?_, hs.queue⟩
  · intro x
    show l.held = some x ↔ s.logThread.held = some x ∧ x ≠ a
    rw [hheld, hl]
    simp [eq_comm]
  · intro x
    show x ∈ s.pool ++ [a] ↔ x ∈ s.pool ∨ x = a
    rw [List.mem_append, List.mem_singleton]
  · intro x r hlog hq
    cases r with
    | logThread => exact absurd rfl hlog
    | pool => exact absurd rfl hq
    | queue | producer u => exact .rfl
  · refine nodup_snoc hs.pool fun hmem => ?_
    have hx : s.At a .pool := hmem
    exact hs.exclusive.ne ha hx nofun rfl

end

variable [DecidableEq θ] {s s' : LogAsyncSink θ} {e : Event θ} {t u : θ} {a : Pointer}
  {p : Producer}

/-- What a thread keeps all threads keep, when the others do nothing. -/
theorem map_setProducer {γ : Type} {f : Producer → γ} (h : f (s.producer t) = f p) (u : θ) :
    f ((s.setProducer t p).producer u) = f (s.producer u) := by
  show f (Function.update s.producer t p u) = _
  by_cases hut : u = t
  · rw [hut, Function.update_self, h]
  · rw [Function.update_of_ne hut]

/-- What the threads have when one of them gets an object, or gives one away. -/
theorem producer_setProducer (hut : u ≠ t) :
    ((s.setProducer t p).producer u).held = (s.producer u).held := by
  show (Function.update s.producer t p u).held = _
  rw [Function.update_of_ne hut]

theorem producer_setProducer_self : ((s.setProducer t p).producer t).held = p.held := by
  show (Function.update s.producer t p t).held = _
  rw [Function.update_self]

/-- An object that there is stays. -/
theorem live_update {buffers : Pointer → Option DynamicBuffer} {b b' : DynamicBuffer}
    (hb : buffers a = some b) (x : Pointer) :
    Function.update buffers a (some b') x ≠ none ↔ buffers x ≠ none := by
  by_cases hxa : x = a
  · rw [hxa, Function.update_self, hb]
    exact ⟨fun _ => nofun, fun _ => nofun⟩
  · rw [Function.update_of_ne hxa]

/-- A thread works on the object that it has. -/
theorem Owned.edit (hs : Owned s) {b b' : DynamicBuffer} (hheld : (s.producer t).held = p.held)
    (hb : s.buffers a = some b) : Owned ((s.setBuffer a (some b')).setProducer t p) :=
  hs.congr rfl rfl (map_setProducer hheld) rfl (live_update hb)

/-- The same for an object that there was not, -/
theorem live_create {buffers : Pointer → Option DynamicBuffer} {b : DynamicBuffer} (x : Pointer) :
    Function.update buffers a (some b) x ≠ none ↔ buffers x ≠ none ∨ x = a := by
  by_cases hxa : x = a
  · rw [hxa, Function.update_self]
    exact ⟨fun _ => .inr rfl, fun _ => nofun⟩
  · rw [Function.update_of_ne hxa]
    exact ⟨.inl, fun h => h.resolve_right hxa⟩

/-- and for one that is deleted. -/
theorem live_delete {buffers : Pointer → Option DynamicBuffer} (x : Pointer) :
    Function.update buffers a none x ≠ none ↔ buffers x ≠ none ∧ x ≠ a := by
  by_cases hxa : x = a
  · rw [hxa, Function.update_self]
    exact ⟨fun h => absurd rfl h, fun h => absurd rfl h.2⟩
  · rw [Function.update_of_ne hxa]
    exact ⟨fun h => ⟨h, hxa⟩, And.left⟩

/-! ### The moves -/

theorem at_producer (hut : u ≠ t) (x : Pointer) :
    (s.setProducer t p).At x (.producer u) ↔ s.At x (.producer u) := by
  rw [At, At, producer_setProducer hut]

/-- The thread gets an object, -/
theorem at_producer_gets (hfree : (s.producer t).held = none) (hp : p.held = some a) (x : Pointer) :
    (s.setProducer t p).At x (.producer t) ↔ s.At x (.producer t) ∨ x = a := by
  rw [At, At, producer_setProducer_self, hfree, hp]
  simp [eq_comm]

/-- or gives it away. -/
theorem at_producer_gives (hheld : (s.producer t).held = some a) (hp : p.held = none)
    (x : Pointer) : (s.setProducer t p).At x (.producer t) ↔ s.At x (.producer t) ∧ x ≠ a := by
  rw [At, At, producer_setProducer_self, hheld, hp]
  simp [eq_comm]

theorem Owned.reuse (hs : Owned s) {pool : List Pointer} (hfree : (s.producer t).held = none)
    (hp : p.held = some a) (hpool : s.pool = pool ++ [a]) :
    Owned ({ s with pool }.setProducer t p) := by
  have hnodup := hs.pool
  rw [hpool, List.nodup_append] at hnodup
  have hnot : a ∉ pool := fun hmem => hnodup.2.2 a hmem a List.mem_cons_self rfl
  have ha : s.At a .pool := by
    show a ∈ s.pool
    rw [hpool]
    exact List.mem_append_right _ List.mem_cons_self
  refine ⟨hs.exclusive.move ha (q := .producer t) nofun (fun _ => .rfl) ?_
    (at_producer_gets (s := { s with pool }) hfree hp) ?_, hnodup.1, hs.queue⟩
  · intro x
    show x ∈ pool ↔ x ∈ s.pool ∧ x ≠ a
    rw [hpool, List.mem_append, List.mem_singleton]
    constructor
    · exact fun hx => ⟨.inl hx, fun hxa => hnot (hxa ▸ hx)⟩
    · exact fun hx => hx.1.resolve_right hx.2
  · intro x r hpool hproducer
    cases r with
    | pool => exact absurd rfl hpool
    | queue | logThread => exact .rfl
    | producer u =>
      exact at_producer (s := { s with pool }) (fun hut => hproducer (by rw [hut])) x

theorem Owned.allocate (hs : Owned s) {b : DynamicBuffer} (hfree : (s.producer t).held = none)
    (hp : p.held = some a) (ha : s.buffers a = none) :
    Owned ((s.setBuffer a (some b)).setProducer t p) := by
  refine ⟨hs.exclusive.create (a := a) (q := .producer t) (not_not.mpr ha) live_create
    (at_producer_gets (s := s.setBuffer a (some b)) hfree hp) ?_, hs.pool, hs.queue⟩
  intro x r hproducer
  cases r with
  | pool | queue | logThread => exact .rfl
  | producer u =>
    exact at_producer (s := s.setBuffer a (some b)) (fun hut => hproducer (by rw [hut])) x

theorem Owned.refuse (hs : Owned s) (hheld : (s.producer t).held = some a) (hp : p.held = none) :
    Owned ((s.setBuffer a none).setProducer t p) := by
  have ha : s.At a (.producer t) := hheld
  refine ⟨hs.exclusive.delete (a := a) live_delete ?_, hs.pool, hs.queue⟩
  intro x r
  have hother : r ≠ .producer t → (s.At x r ↔ s.At x r ∧ x ≠ a) := fun hr =>
    ⟨fun hx => ⟨hx, hs.exclusive.ne ha hx hr⟩, And.left⟩
  cases r with
  | pool | queue | logThread => exact hother nofun
  | producer u =>
    by_cases hut : u = t
    · subst hut
      exact at_producer_gives (s := s.setBuffer a none) hheld hp x
    · exact (at_producer (s := s.setBuffer a none) hut x).trans
        (hother fun hr => hut (by injection hr))

theorem Owned.push (hs : Owned s)
    {m : State (Actor θ) (ConcurrentQueue (Option Pointer)) (ConcurrentQueue.Call (Option Pointer))
      ConcurrentQueue.Cond} (hheld : (s.producer t).held = some a) (hp : p.held = none)
    (hqueued : m.shared.queue.reduceOption = s.queued ++ [a]) :
    Owned ({ s with queue := m }.setProducer t p) := by
  have ha : s.At a (.producer t) := hheld
  refine ⟨hs.exclusive.move ha (q := .queue) nofun (fun _ => .rfl)
    (at_producer_gives (s := { s with queue := m }) hheld hp) ?_ ?_, hs.pool, ?_⟩
  · intro x
    show x ∈ m.shared.queue.reduceOption ↔ x ∈ s.queued ∨ x = a
    rw [hqueued, List.mem_append, List.mem_singleton]
  · intro x r hproducer hq
    cases r with
    | queue => exact absurd rfl hq
    | pool | logThread => exact .rfl
    | producer u =>
      exact at_producer (s := { s with queue := m }) (fun hut => hproducer (by rw [hut])) x
  · show m.shared.queue.reduceOption.Nodup
    rw [hqueued]
    refine nodup_snoc hs.queue fun hmem => ?_
    have hx : s.At a .queue := hmem
    exact hs.exclusive.ne ha hx nofun rfl

theorem owned_step (hs : Owned s) (h : Step s e s') : Owned s' := by
  cases h with
  | call h => exact hs.congr rfl rfl (map_setProducer (by rw [h]; rfl)) rfl fun _ => .rfl
  | release h => exact hs.congr rfl rfl (map_setProducer (by rw [h]; rfl)) rfl fun _ => .rfl
  | reserve h hb | copy h hb | write h hb => exact hs.edit (by rw [h]; rfl) hb
  | reuse h hpool => exact hs.reuse (by rw [h]; rfl) rfl hpool
  | allocate h _ ha => exact hs.allocate (by rw [h]; rfl) rfl ha
  | refuse h => exact hs.refuse (by rw [h]; rfl) rfl
  | pushWaits _ hpush | ownerWaits _ hpush =>
    have hshared := ConcurrentQueue.push_waits hpush
    exact hs.congr rfl (congrArg (·.queue.reduceOption) hshared) (fun _ => rfl) rfl fun _ => .rfl
  | popWaits _ hpop =>
    have hshared := ConcurrentQueue.pop_waits hpop
    exact hs.congr rfl (congrArg (·.queue.reduceOption) hshared) (fun _ => rfl) rfl fun _ => .rfl
  | push h hpush =>
    have hqueue := ConcurrentQueue.push_done hpush
    refine hs.push (by rw [h]; rfl) rfl ?_
    rw [hqueue, List.reduceOption_append]
    rfl
  | @pop item m h hpop =>
    have hqueue := ConcurrentQueue.pop_item hpop
    have hfree : s.logThread.held = none := by rw [h]; rfl
    cases item with
    | none =>
      have hqueued : s.queued = m.shared.queue.reduceOption := by rw [queued, hqueue]; rfl
      exact hs.congr rfl hqueued.symm (fun _ => rfl) hfree.symm fun _ => .rfl
    | some a => exact hs.pop hfree rfl (by rw [queued, hqueue]; rfl)
  | sink h hb => exact hs.congr rfl rfl (fun _ => rfl) (by rw [h]; rfl) fun _ => .rfl
  | read h hb => exact hs.congr rfl rfl (fun _ => rfl) (by rw [h]; rfl) (live_update hb)
  | returnObject h => exact hs.returnObject (by rw [h]; rfl) rfl
  | destroy | join => exact hs.congr rfl rfl (fun _ => rfl) rfl fun _ => .rfl
  | ownerPush _ hpush =>
    have hqueue := ConcurrentQueue.push_done hpush
    refine hs.congr rfl ?_ (fun _ => rfl) rfl fun _ => .rfl
    show List.reduceOption _ = s.queued
    rw [hqueue, List.reduceOption_append]
    exact List.append_nil _

end LogAsyncSink

end Brickred
