import Brickred.Thread.ConcurrentQueue

/-!
# The message queue (`message_queue.h`, `self_pipe.cc`)

Threads push messages for the thread of an event loop, which a pipe wakes up. `push`
is two steps, the one of `ConcurrentQueue::push` and a write to the pipe; the loop drains
the pipe before it invokes the callback, which takes messages while others are pushed.

The thread `none` is that of the loop. Its callback may push, too.
-/

namespace Brickred

open Monitor Transition

/-- Where the thread of the loop is: in `epoll_wait`, in the loop of `pipeReadCallback`,
or in the callback, which has seen `pop` return false or called `yield`, or has not. -/
inductive Consumer where
  | waiting
  | draining
  | receiving (settled : Bool)
deriving DecidableEq, Repr

/-- `pipe` is how many bytes there are in the pipe, which holds `capacity`; `owes` are the
threads that are in `push` and have yet to write to it. -/
structure MessageQueue (θ T : Type) where
  queue : State (Option θ) (ConcurrentQueue T) (ConcurrentQueue.Call T) ConcurrentQueue.Cond
  pipe : Nat
  capacity : Nat
  owes : Option θ → Bool
  consumer : Consumer
  recvMessageCb : Bool
  capacity_pos : 0 < capacity

namespace MessageQueue

variable {θ T : Type}

/-- A queue on which nothing has happened. -/
def init (θ T : Type) (maxSize capacity : Nat) (recvMessageCb : Bool)
    (capacity_pos : 0 < capacity) : MessageQueue θ T where
  queue := Monitor.init (.new maxSize)
  pipe := 0
  capacity
  owes := fun _ => false
  consumer := .waiting
  recvMessageCb
  capacity_pos

/-- `SelfPipe::write` of one byte. The pipe does not block: a byte that it has no room for
is dropped. -/
def write (s : MessageQueue θ T) : MessageQueue θ T :=
  { s with pipe := if s.pipe < s.capacity then s.pipe + 1 else s.pipe }

/-- `SelfPipe::read` into an array of 1024 bytes. -/
def read (s : MessageQueue θ T) : MessageQueue θ T := { s with pipe := s.pipe - min 1024 s.pipe }

/-- What threads do. -/
inductive Event (θ T : Type) where
  /-- A step of `queue_.push`, which is the last one or not. -/
  | push (t : Option θ) (item : T) (done : Bool)
  /-- `pipe_.write` in `push` -/
  | write (t : Option θ)
  | readable
  | read
  | readEnd
  | pop (item : Option T)
  | look
  | yield
  | callbackReturn

section Steps

variable [DecidableEq θ]

/-- The steps of all threads. What the callback calls it calls one after the other. -/
inductive Step : MessageQueue θ T → Event θ T → MessageQueue θ T → Prop where
  | push {s : MessageQueue θ T} {t item r m} (howes : s.owes t = false)
      (hcallback : t = none → ∃ settled, s.consumer = .receiving settled)
      (h : StepOf ConcurrentQueue.run t (.push item) s.queue r m) :
      Step s (.push t item r.isSome)
        { s with queue := m, owes := Function.update s.owes t r.isSome }
  | write {s : MessageQueue θ T} {t} (howes : s.owes t = true) :
      Step s (.write t) { s.write with owes := Function.update s.owes t false }
  /-- The loop is told of a descriptor as long as there is something to read. -/
  | readable {s : MessageQueue θ T} (h : s.consumer = .waiting) (hpipe : 0 < s.pipe) :
      Step s .readable { s with consumer := .draining }
  | read {s : MessageQueue θ T} (h : s.consumer = .draining) (hpipe : 0 < s.pipe) :
      Step s .read s.read
  | readEnd {s : MessageQueue θ T} (h : s.consumer = .draining) (hpipe : s.pipe = 0) :
      Step s .readEnd
        { s with consumer := if s.recvMessageCb then .receiving false else .waiting }
  | pop {s : MessageQueue θ T} {settled item m} (h : s.consumer = .receiving settled)
      (howes : s.owes none = false)
      (hpop : StepOf ConcurrentQueue.run none .popIfNotEmpty s.queue (some (.found item)) m) :
      Step s (.pop item)
        { s with queue := m, consumer := .receiving (settled || item.isNone) }
  | look {s : MessageQueue θ T} {settled k r m} (h : s.consumer = .receiving settled)
      (howes : s.owes none = false) (hk : k = .peek ∨ k = .size)
      (hlook : StepOf ConcurrentQueue.run none k s.queue (some r) m) :
      Step s .look { s with queue := m }
  | yield {s : MessageQueue θ T} {settled} (h : s.consumer = .receiving settled)
      (howes : s.owes none = false) (houtside : s.queue.phase none = .outside) :
      Step s .yield { s.write with consumer := .receiving true }
  | callbackReturn {s : MessageQueue θ T} {settled} (h : s.consumer = .receiving settled)
      (howes : s.owes none = false) (houtside : s.queue.phase none = .outside) :
      Step s .callbackReturn { s with consumer := .waiting }

end Steps

/-- There is a callback, and it returns only when `pop` has returned false in it, or it
has called `yield`. -/
def Disciplined (s : MessageQueue θ T) : Event θ T → Prop
  | .readEnd => s.recvMessageCb = true
  | .callbackReturn => s.consumer = .receiving true
  | _ => True

/-- The loop may wait now, or as soon as the callback returns. -/
def MayWait : Consumer → Prop
  | .waiting => True
  | .draining => False
  | .receiving settled => settled = true

/-- Whoever has put a message into the queue has written to the pipe, or is about to. -/
def Signalled (s : MessageQueue θ T) : Prop :=
  MayWait s.consumer → s.queue.shared.queue ≠ [] → 0 < s.pipe ∨ ∃ t, s.owes t = true

theorem pipe_write_pos (s : MessageQueue θ T) : 0 < s.write.pipe := by
  have hcapacity := s.capacity_pos
  show 0 < if s.pipe < s.capacity then s.pipe + 1 else s.pipe
  split <;> omega

variable [DecidableEq θ] {s s' : MessageQueue θ T} {e : Event θ T}

theorem signalled_step (hs : Signalled s) (h : Guarded Disciplined Step s e s') : Signalled s' := by
  obtain ⟨hguard, hstep⟩ := h
  cases hstep with
  | @push t item r m howes hcallback h =>
    intro hwait hne
    obtain ⟨rfl, hshared⟩ | ⟨rfl, hshared⟩ := ConcurrentQueue.push_shared h
    · -- the queue is as it was, and so are those who owe
      change m.shared.queue ≠ [] at hne
      rw [hshared] at hne
      obtain hpipe | ⟨u, hu⟩ := hs hwait hne
      · exact .inl hpipe
      · refine .inr ⟨u, ?_⟩
        have hut : u ≠ t := by
          rintro rfl
          rw [howes] at hu
          cases hu
        show Function.update s.owes t _ u = true
        rwa [Function.update_of_ne hut]
    · refine .inr ⟨t, ?_⟩
      show Function.update s.owes t _ t = true
      rw [Function.update_self]
      rfl
  | write | yield => exact fun _ _ => .inl s.pipe_write_pos
  | readable => exact fun hwait => hwait.elim
  | read h =>
    intro hwait
    change MayWait s.consumer at hwait
    rw [h] at hwait
    exact hwait.elim
  | readEnd h hpipe =>
    intro hwait
    have hcallback : s.recvMessageCb = true := hguard
    change MayWait (if s.recvMessageCb then .receiving false else .waiting) at hwait
    rw [if_pos hcallback] at hwait
    cases hwait
  | @pop settled item m h howes hpop =>
    intro hwait hne
    change m.shared.queue ≠ [] at hne
    obtain ⟨hr, -⟩ | ⟨-, -, hempty⟩ | ⟨x, hr, hqueue⟩ := ConcurrentQueue.popIfNotEmpty_shared hpop
    · cases hr
    · exact absurd hempty hne
    · -- a message has been taken, and the callback is as settled as before
      cases hr
      change (settled || false) = true at hwait
      rw [Bool.or_false] at hwait
      refine hs ?_ (by rw [hqueue]; exact List.cons_ne_nil _ _)
      rw [h]
      exact hwait
  | @look settled k r m h howes hk hlook =>
    intro hwait hne
    have hshared : m.shared = s.queue.shared := by
      obtain ⟨hr, -⟩ | ⟨n, r', hr, hbody⟩ := hlook.shared
      · cases hr
      · obtain rfl | rfl := hk <;>
        · injection hbody with hm
          exact hm.symm
    change m.shared.queue ≠ [] at hne
    rw [hshared] at hne
    exact hs hwait hne
  | callbackReturn h =>
    intro _ hne
    refine hs ?_ hne
    have hsettled : s.consumer = .receiving true := hguard
    rw [hsettled]
    rfl

/-- What holds between two steps. Outside of the callback the loop is in no call of the
queue. -/
structure Sound (s : MessageQueue θ T) : Prop where
  signalled : Signalled s
  callback : s.recvMessageCb = true
  outside : (∀ settled, s.consumer ≠ .receiving settled) →
    s.queue.phase none = .outside ∧ s.owes none = false

theorem sound_step (hs : Sound s) (h : Guarded Disciplined Step s e s') : Sound s' := by
  refine ⟨signalled_step hs.signalled h, ?_, ?_⟩
  · obtain ⟨-, hstep⟩ := h
    cases hstep <;> exact hs.callback
  · obtain ⟨-, hstep⟩ := h
    intro hloop
    cases hstep with
    | @push t item r m howes hcallback h =>
      obtain ⟨hphase, hnone⟩ := hs.outside hloop
      have ht : none ≠ t := by
        rintro rfl
        obtain ⟨settled, hsettled⟩ := hcallback rfl
        exact hloop settled hsettled
      refine ⟨h.outside ht hphase, ?_⟩
      show Function.update s.owes t _ none = false
      rwa [Function.update_of_ne ht]
    | @write t howes =>
      obtain ⟨hphase, hnone⟩ := hs.outside hloop
      refine ⟨hphase, ?_⟩
      show Function.update s.owes t false none = false
      by_cases ht : none = t
      · rw [ht, Function.update_self]
      · rwa [Function.update_of_ne ht]
    | readable h | readEnd h => exact hs.outside fun settled he => by cases h.symm.trans he
    | read => exact hs.outside hloop
    | pop | yield => exact absurd rfl (hloop _)
    | look h => exact absurd h (hloop _)
    | callbackReturn h howes houtside => exact ⟨houtside, howes⟩

/-! ## The loop alone -/

/-- The thread of the loop does it. -/
def Event.ofLoop : Event θ T → Bool
  | .push _ _ _ => false
  | .write _ => false
  | _ => true

/-- The messages that the callback takes. -/
def taken (events : List (Event θ T)) : List T :=
  events.filterMap fun e => match e with
    | .pop item => item
    | _ => none

/-- The loop reads until the pipe is empty. -/
theorem exists_drained {n : Nat} (hn : s.pipe ≤ n) (h : s.consumer = .draining) :
    ∃ events s', Run (Guarded Disciplined Step) s events s' ∧ (∀ e ∈ events, e.ofLoop = true) ∧
      taken events = [] ∧ s'.pipe = 0 ∧ s'.consumer = .draining ∧ s'.queue = s.queue ∧
      s'.owes = s.owes ∧ s'.recvMessageCb = s.recvMessageCb := by
  induction n generalizing s with
  | zero => exact ⟨[], s, .nil, nofun, rfl, Nat.le_zero.mp hn, h, rfl, rfl, rfl⟩
  | succ n ih =>
    by_cases hpipe : s.pipe = 0
    · exact ⟨[], s, .nil, nofun, rfl, hpipe, h, rfl, rfl, rfl⟩
    · have hless : s.read.pipe ≤ n := by
        show s.pipe - min 1024 s.pipe ≤ n
        omega
      obtain ⟨events, s', hrun, hloop, htaken, hrest⟩ := ih hless h
      refine ⟨.read :: events, s', .cons ⟨trivial, .read h (Nat.pos_of_ne_zero hpipe)⟩ hrun, ?_,
        htaken, hrest⟩
      exact List.forall_mem_cons.mpr ⟨rfl, hloop⟩

/-- The callback takes messages until there is none. -/
theorem exists_taken {l : List T} {settled : Bool} (hqueue : s.queue.shared.queue = l)
    (h : s.consumer = .receiving settled) (houtside : s.queue.phase none = .outside)
    (howes : s.owes none = false) :
    ∃ events s', Run (Guarded Disciplined Step) s events s' ∧ (∀ e ∈ events, e.ofLoop = true) ∧
      taken events = l ∧ s'.queue.shared.queue = [] ∧ s'.consumer = .receiving true ∧
      s'.queue.phase none = .outside ∧ s'.owes none = false := by
  induction l generalizing s settled with
  | nil =>
    have hbody : ConcurrentQueue.run .popIfNotEmpty s.queue.shared =
        .leave s.queue.shared none (.found none) := by
      simp only [ConcurrentQueue.run, ConcurrentQueue.popIfNotEmpty, hqueue]
    obtain ⟨m, hpop, hshared, hphase⟩ := exists_stepOf houtside hbody
    refine ⟨[.pop none], _, .cons ⟨trivial, .pop h howes hpop⟩ .nil, ?_, rfl, ?_, ?_, hphase, howes⟩
    · exact List.forall_mem_cons.mpr ⟨rfl, by simp⟩
    · exact (congrArg ConcurrentQueue.queue hshared).trans hqueue
    · show Consumer.receiving (settled || true) = .receiving true
      rw [Bool.or_true]
  | cons x l ih =>
    have hbody : ConcurrentQueue.run .popIfNotEmpty s.queue.shared =
        .leave { s.queue.shared with queue := l } (some .notFull) (.found (some x)) := by
      simp only [ConcurrentQueue.run, ConcurrentQueue.popIfNotEmpty, hqueue]
    obtain ⟨m, hpop, hshared, hphase⟩ := exists_stepOf houtside hbody
    obtain ⟨events, s', hrun, hloop, htaken, hrest⟩ :=
      @ih { s with queue := m, consumer := .receiving (settled || (some x).isNone) } _
        (congrArg ConcurrentQueue.queue hshared) rfl hphase howes
    refine ⟨.pop (some x) :: events, s', .cons ⟨trivial, .pop h howes hpop⟩ hrun, ?_, ?_, hrest⟩
    · exact List.forall_mem_cons.mpr ⟨rfl, hloop⟩
    · exact congrArg (x :: ·) htaken

/-- **No wake-up is lost**: in every run in which the callback returns only after `pop` has
returned false or `yield` has been called, when the loop waits and no thread is between the
two steps of `push`, a queue that is not empty has its pipe not empty. The loop is told of
it, and can hand over all that is in the queue without another push. -/
theorem run_signalled {maxSize capacity : Nat} {hcapacity : 0 < capacity}
    {events : List (Event θ T)}
    (h : Run (Guarded Disciplined Step) (init θ T maxSize capacity true hcapacity) events s)
    (hwait : s.consumer = .waiting) (howes : ∀ t, s.owes t = false)
    (hne : s.queue.shared.queue ≠ []) :
    0 < s.pipe ∧
    ∃ events' s', Run (Guarded Disciplined Step) s (.readable :: events') s' ∧
      (∀ e ∈ events', e.ofLoop = true) ∧ taken events' = s.queue.shared.queue ∧
      s'.queue.shared.queue = [] ∧ s'.consumer = .waiting := by
  have hinit : Sound (init θ T maxSize capacity true hcapacity) :=
    ⟨fun _ hne => absurd rfl hne, rfl, fun _ => ⟨rfl, rfl⟩⟩
  have hs : Sound s := h.invariant sound_step hinit
  have hpipe : 0 < s.pipe := by
    obtain hpipe | ⟨t, ht⟩ := hs.signalled (by rw [hwait]; trivial) hne
    · exact hpipe
    · cases (howes t).symm.trans ht
  obtain ⟨houtside, hnone⟩ := hs.outside fun settled he => by cases hwait.symm.trans he
  refine ⟨hpipe, ?_⟩
  obtain ⟨reads, s₁, hreads, hloop₁, htaken₁, hpipe₁, hconsumer₁, hqueue₁, howes₁, hcallback₁⟩ :=
    @exists_drained _ _ _ { s with consumer := .draining } _ (Nat.le_refl _) rfl
  have hcallback : s₁.recvMessageCb = true := hcallback₁.trans hs.callback
  obtain ⟨pops, s₂, hpops, hloop₂, htaken₂, hqueue₂, hconsumer₂, houtside₂, howes₂⟩ :=
    @exists_taken _ _ _ { s₁ with
        consumer := if s₁.recvMessageCb then .receiving false else .waiting }
      s.queue.shared.queue false (by rw [hqueue₁]) (if_pos hcallback)
      (by rw [hqueue₁]; exact houtside) (by rw [howes₁]; exact hnone)
  have hend : Run (Guarded Disciplined Step) s₁ (.readEnd :: pops) s₂ :=
    .cons ⟨hcallback, .readEnd hconsumer₁ hpipe₁⟩ hpops
  have hreturn : Guarded Disciplined Step s₂ .callbackReturn { s₂ with consumer := .waiting } :=
    ⟨hconsumer₂, .callbackReturn hconsumer₂ howes₂ houtside₂⟩
  refine ⟨reads ++ (.readEnd :: pops ++ [.callbackReturn]), { s₂ with consumer := .waiting },
    .cons ⟨trivial, .readable hwait hpipe⟩ (hreads.append (hend.append (.cons hreturn .nil))), ?_, ?_,
    hqueue₂, rfl⟩
  · intro e he
    simp only [List.mem_append, List.mem_cons, List.not_mem_nil, or_false] at he
    obtain he | (rfl | he) | rfl := he
    · exact hloop₁ e he
    · rfl
    · exact hloop₂ e he
    · rfl
  · simp only [taken, List.cons_append, List.filterMap_append, List.filterMap_cons,
      List.filterMap_nil, List.append_nil] at htaken₁ htaken₂ ⊢
    rw [htaken₁, htaken₂]
    rfl

/-- A callback takes one of two messages and yields, and the loop waits again with the other
one in the queue. -/
theorem run_signalled_yield : ∃ (events : List (Event Unit Nat)) (s : MessageQueue Unit Nat),
    Run (Guarded Disciplined Step) (init Unit Nat 0 65536 true (by decide)) events s ∧
      s.consumer = .waiting ∧ s.queue.shared.queue = [6] ∧ 0 < s.pipe ∧
      ∃ events' s', Run (Guarded Disciplined Step) s (.readable :: events') s' ∧
        taken events' = [6] ∧ s'.queue.shared.queue = [] ∧ s'.consumer = .waiting := by
  have hrun : Run (Guarded Disciplined Step) (init Unit Nat 0 65536 true (by decide))
      [.push (some ()) 5 true, .write (some ()), .push (some ()) 6 true, .write (some ()), .readable,
        .read, .readEnd, .pop (some 5), .yield, .callbackReturn] _ :=
    .cons ⟨trivial, .push (r := some .done) rfl nofun (.returns trivial rfl (.missed nofun))⟩ <|
    .cons ⟨trivial, .write rfl⟩ <|
    .cons ⟨trivial, .push (r := some .done) rfl nofun (.returns trivial rfl (.missed nofun))⟩ <|
    .cons ⟨trivial, .write rfl⟩ <|
    .cons ⟨trivial, .readable rfl (by decide)⟩ <|
    .cons ⟨trivial, .read rfl (by decide)⟩ <|
    .cons ⟨rfl, .readEnd rfl rfl⟩ <|
    .cons ⟨trivial, .pop rfl rfl (.returns trivial rfl (.missed nofun))⟩ <|
    .cons ⟨trivial, .yield rfl rfl rfl⟩ <|
    .cons ⟨rfl, .callbackReturn rfl rfl rfl⟩ .nil
  obtain ⟨hpipe, events', s', hrun', -, htaken, hqueue, hwaiting⟩ :=
    run_signalled hrun rfl (fun t => by cases t <;> rfl) (List.cons_ne_nil 6 [])
  exact ⟨_, _, hrun, rfl, rfl, hpipe, events', s', hrun', htaken, hqueue, hwaiting⟩

end MessageQueue

end Brickred
