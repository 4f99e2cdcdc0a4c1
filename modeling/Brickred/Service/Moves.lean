import Brickred.Lib.Transition
import Brickred.Service.Table

/-!
# What can happen to a socket

`EntryMove` lists the ways in which one entry of the table changes, with what is
seen of each; a step of the service is a sequence of such moves (`Moves`). The
results about single sockets and connections are read off this list and need not
look at the handlers.

Some moves are possible only where the code has a weak spot, and sockets come and
go only by calls that name their ids: `TcpHazard` says what a step may meet of
this, and the moves ask for it.
-/

namespace Brickred

variable {C : Type}

/-- Who makes a move: calls of the user make fewer kinds than handlers do. -/
inductive TcpActor
  | user
  | handler

/-- The ids that `SocketIdAllocator` can give to a descriptor. -/
def IdOf (id : SocketId) (fd : Descriptor) : Prop :=
  ∃ v : Nat, 0 < v ∧ id = v * 2 ^ 32 + fd

/-- The weak spots a step can meet, and the ids it opens and closes. -/
structure TcpHazard where
  /-- A connect completes on a connection that has left the status `CONNECTING`. -/
  late : Prop
  /-- A message is queued while the callback of an earlier one is outstanding. -/
  overwrite : Prop
  /-- A write buffer would grow beyond what a vector can hold. -/
  throws : Prop
  /-- A timer is started while the next timer id is still in use. -/
  timerLost : Prop
  /-- A socket is opened under an id. -/
  opens : SocketId → Prop
  /-- The user closes the socket of an id. -/
  closes : SocketId → Prop

/-- Whatever one step meets, another one meets. -/
structure TcpHazard.Le (z z' : TcpHazard) : Prop where
  late : z.late → z'.late
  overwrite : z.overwrite → z'.overwrite
  throws : z.throws → z'.throws
  timerLost : z.timerLost → z'.timerLost
  opens : ∀ id, z.opens id → z'.opens id
  closes : ∀ id, z.closes id → z'.closes id

theorem TcpHazard.Le.refl (z : TcpHazard) : z.Le z := ⟨id, id, id, id, fun _ => id, fun _ => id⟩

/-- A timer has been started for a socket, or was lost. -/
def TcpHazard.TimerSet (z : TcpHazard) (timerCb : TimerCallback)
    (timer : Int × Option (Timer TimerCallback)) : Prop :=
  (∃ t u, timer = (t, some u) ∧ 0 < t ∧ u.timerCb = timerCb) ∨ (timer = (-1, none) ∧ z.timerLost)

/-- The connection object an output is about. -/
def TcpOutput.connection : TcpOutput C → Option Nat
  | .written q _ | .accepted q _ _ | .refused q _ | .thrown q | .completed q _ _
  | .newConnection _ q _ | .recvMessage q _ | .peerClose q _ | .error q _ _ => some q
  | .returnedId _ | .returnedAsync _ _ | .returnedBool _ | .timer _ => none

/-- The connection is new. -/
structure TcpConnection.Fresh (c : TcpConnection C) (address : Nat) : Prop where
  socket : c.socket = address
  read : c.readBuffer.readable = []
  write : c.writeBuffer.readable = []
  callback : c.sendCompleteCb = none

/-- What is left of an entry when its send-completion callback is called: that of
`sendMessageThenClose` closes the socket. -/
def TcpEntry.afterComplete (e : TcpEntry C) : Option (SendCompleteCallback C) → Option (TcpEntry C)
  | some .sendCompleteClose => none
  | _ => some e

/-- A limit that is not set, or holds. -/
def Within (maxSize size : Nat) : Prop := 0 < maxSize → size ≤ maxSize

/-- A move of the entry of one socket id, with what is seen of it. New sockets have
addresses from `n` on, new connections from `m` on. No step both opens a socket and
sends. -/
inductive EntryMove (cfg : TcpConfig) (z : TcpHazard) (n m : Nat) (id : SocketId) :
    TcpActor → List (TcpOutput C) → Option (TcpEntry C) → Option (TcpEntry C) → Prop
  | listening {a : TcpActor} {p : Nat} {fd : Descriptor} (hid : IdOf id fd) (hopens : z.opens id)
      (hp : n ≤ p) :
    EntryMove cfg z n m id a [] none
      (some ⟨p, ⟨fd, id, some .onListenSocketRead, none⟩, none, none, none⟩)
  | opened {a : TcpActor} {p q : Nat} {fd : Descriptor} {c : TcpConnection C}
      {outs : List (TcpOutput C)} (hid : IdOf id fd) (hopens : z.opens id) (hp : n ≤ p)
      (hq : m ≤ q) (hstatus : c.status = .connected) (hfresh : c.Fresh p)
      (houts : outs = [] ∨ ∃ listenId, outs = [.newConnection listenId q id]) :
    EntryMove cfg z n m id a outs none
      (some ⟨p, ⟨fd, id, some .onSocketRead, none⟩, some (q, c), none, none⟩)
  | connecting {a : TcpActor} {p q : Nat} {fd : Descriptor} {c : TcpConnection C}
      {timer : Option (Int × Option (Timer TimerCallback))} (hid : IdOf id fd)
      (hopens : z.opens id) (hp : n ≤ p) (hq : m ≤ q) (hstatus : c.status = .connecting)
      (hfresh : c.Fresh p)
      (htimer : ∀ x ∈ timer, z.TimerSet .onAsyncConnectTimeout x) :
    EntryMove cfg z n m id a [] none
      (some ⟨p, ⟨fd, id, none, some .onAsyncConnectSocketWrite⟩, some (q, c), timer, none⟩)
  | closed {a : TcpActor} {e : TcpEntry C} (hcloses : z.closes id) :
    EntryMove cfg z n m id a [] (some e) none
  | context {a : TcpActor} {e : TcpEntry C} (context : Nat) :
    EntryMove cfg z n m id a [] (some e) (some { e with context := some context })
  | consumed {a : TcpActor} {e : TcpEntry C} {q : Nat} {c : TcpConnection C}
      (hc : e.connection = some (q, c)) (size : Nat) :
    EntryMove cfg z n m id a [] (some e)
      (some { e with connection := some (q, { c with readBuffer := c.readBuffer.read size }) })
  | refused {a : TcpActor} {e : TcpEntry C} {q : Nat} {c : TcpConnection C}
      (hc : e.connection = some (q, c)) (hstatus : c.status ≠ .connected) :
    EntryMove cfg z n m id a [.refused q none] (some e) (some e)
  | failed {a : TcpActor} {e : TcpEntry C} {q : Nat} {c : TcpConnection C} {errno : Int}
      {timer : Int × Option (Timer TimerCallback)} {outs : List (TcpOutput C)}
      (hquiet : ∀ id, ¬z.opens id) (hc : e.connection = some (q, c))
      (hstatus : c.status = .connected)
      (htimer : z.TimerSet .onSendMessageError timer)
      (houts : outs = [.refused q (some errno)] ∨ c.writeBuffer.readable = [] ∧
        ∃ bytes, outs = [.written q bytes, .refused q (some errno)]) :
    EntryMove cfg z n m id a outs (some e)
      (some { e with connection := some (q, c.setError errno), timer := some timer })
  | sent {a : TcpActor} {e : TcpEntry C} {q : Nat} {c : TcpConnection C} {message : List UInt8}
      {cb : Option (SendCompleteCallback C)} {x : Option (TcpEntry C)}
      (hquiet : ∀ id, ¬z.opens id) (hc : e.connection = some (q, c))
      (hstatus : c.status = .connected) (hempty : c.writeBuffer.readable = [])
      (hx : x = e.afterComplete cb) :
    EntryMove cfg z n m id a
      (.written q message :: .accepted q message cb :: (cb.map (.completed q id)).toList)
      (some e) x
  | started {a : TcpActor} {e : TcpEntry C} {q : Nat} {c : TcpConnection C}
      {message : List UInt8} {k : Nat} {writeBuffer : DynamicBuffer}
      {cb : Option (SendCompleteCallback C)} (hquiet : ∀ id, ¬z.opens id)
      (hc : e.connection = some (q, c))
      (hstatus : c.status = .connected) (hempty : c.writeBuffer.readable = [])
      (hk : k < message.length) (hread : writeBuffer.readable = message.drop k)
      (hmax : Within cfg.connWriteBufferMaxSize writeBuffer.readableBytes) :
    EntryMove cfg z n m id a [.written q (message.take k), .accepted q message cb] (some e)
      (some { e with
        socket := { e.socket with writeCb := some .onSocketWrite }
        connection := some (q, { c with writeBuffer, sendCompleteCb := cb }) })
  | queued {a : TcpActor} {e : TcpEntry C} {q : Nat} {c : TcpConnection C}
      {message : List UInt8} {writeBuffer : DynamicBuffer}
      {cb : Option (SendCompleteCallback C)} (hquiet : ∀ id, ¬z.opens id)
      (hc : e.connection = some (q, c))
      (hstatus : c.status = .connected) (hne : c.writeBuffer.readable ≠ [])
      (hread : writeBuffer.readable = c.writeBuffer.readable ++ message)
      (hmax : Within cfg.connWriteBufferMaxSize writeBuffer.readableBytes)
      (hover : c.sendCompleteCb = none ∨ z.overwrite) :
    EntryMove cfg z n m id a [.accepted q message cb] (some e)
      (some { e with connection := some (q, { c with writeBuffer, sendCompleteCb := cb }) })
  | thrown {a : TcpActor} {e : TcpEntry C} {q : Nat} {c : TcpConnection C}
      {outs : List (TcpOutput C)} (hquiet : ∀ id, ¬z.opens id)
      (hc : e.connection = some (q, c)) (hthrows : z.throws)
      (houts : outs = [.thrown q] ∨ c.writeBuffer.readable = [] ∧
        ∃ bytes, outs = [.written q bytes, .thrown q]) :
    EntryMove cfg z n m id a outs (some e) (some e)
  | paused {e : TcpEntry C} {timer : Int × Option (Timer TimerCallback)}
      (hc : e.connection = none) (hread : e.socket.readCb = some .onListenSocketRead)
      (htimer : z.TimerSet .onListenSocketResumeRead timer) :
    EntryMove cfg z n m id .handler [] (some e)
      (some { e with socket := { e.socket with readCb := none }, timer := some timer })
  | resumed {e : TcpEntry C} (hc : e.connection = none) :
    EntryMove cfg z n m id .handler [] (some e)
      (some { e with
        socket := { e.socket with readCb := some .onListenSocketRead }, timer := none })
  | untimed {e : TcpEntry C} {q : Nat} {c : TcpConnection C} (hc : e.connection = some (q, c)) :
    EntryMove cfg z n m id .handler [] (some e) (some { e with timer := none })
  | errored {e : TcpEntry C} {q : Nat} {c : TcpConnection C} {errorCode : Int}
      {outs : List (TcpOutput C)} (hc : e.connection = some (q, c))
      (houts : outs = [] ∨ outs = [.error q id errorCode]) :
    EntryMove cfg z n m id .handler outs (some e)
      (some { e with connection := some (q, c.setError errorCode) })
  | reported {e : TcpEntry C} {q : Nat} {c : TcpConnection C} (hc : e.connection = some (q, c)) :
    EntryMove cfg z n m id .handler [.error q id c.errorCode] (some e) (some e)
  | established {e : TcpEntry C} {q : Nat} {c : TcpConnection C} {outs : List (TcpOutput C)}
      (hc : e.connection = some (q, c))
      (hwrite : e.socket.writeCb = some .onAsyncConnectSocketWrite) (htimer : e.timer = none)
      (hlate : c.status = .connecting ∨ z.late)
      (houts : outs = [] ∨ outs = [.newConnection id q id]) :
    EntryMove cfg z n m id .handler outs (some e)
      (some { e with
        socket := { e.socket with readCb := some .onSocketRead, writeCb := none }
        connection := some (q, { c with status := .connected }) })
  | received {e : TcpEntry C} {q : Nat} {c : TcpConnection C} {readBuffer : DynamicBuffer}
      (hc : e.connection = some (q, c))
      (hmax : Within cfg.connReadBufferMaxSize c.readBuffer.readableBytes →
        Within cfg.connReadBufferMaxSize readBuffer.readableBytes) :
    EntryMove cfg z n m id .handler [] (some e)
      (some { e with connection := some (q, { c with readBuffer }) })
  | announced {e : TcpEntry C} {q : Nat} {c : TcpConnection C} (hc : e.connection = some (q, c)) :
    EntryMove cfg z n m id .handler [.recvMessage q id] (some e) (some e)
  | peerClosed {e : TcpEntry C} {q : Nat} {c : TcpConnection C} {outs : List (TcpOutput C)}
      (hc : e.connection = some (q, c))
      (houts : outs = [] ∨ outs = [.peerClose q id]) :
    EntryMove cfg z n m id .handler outs (some e)
      (some { e with connection := some (q, { c with status := .peerClosed }) })
  | wrote {e : TcpEntry C} {q : Nat} {c : TcpConnection C} {k : Nat} {writeBuffer : DynamicBuffer}
      (hquiet : ∀ id, ¬z.opens id) (hc : e.connection = some (q, c)) (hwrite : e.socket.writeCb = some .onSocketWrite)
      (hread : writeBuffer.readable = c.writeBuffer.readable.drop k)
      (hne : writeBuffer.readable ≠ []) :
    EntryMove cfg z n m id .handler [.written q (c.writeBuffer.readable.take k)] (some e)
      (some { e with connection := some (q, { c with writeBuffer }) })
  | drained {e : TcpEntry C} {q : Nat} {c : TcpConnection C} {writeBuffer : DynamicBuffer}
      {x : Option (TcpEntry C)} (hquiet : ∀ id, ¬z.opens id) (hc : e.connection = some (q, c))
      (hwrite : e.socket.writeCb = some .onSocketWrite) (hread : writeBuffer.readable = [])
      (hx : x = TcpEntry.afterComplete
        { e with
          socket := { e.socket with writeCb := none }
          connection := some (q, { c with writeBuffer, sendCompleteCb := none }) }
        c.sendCompleteCb) :
    EntryMove cfg z n m id .handler
      (.written q c.writeBuffer.readable :: (c.sendCompleteCb.map (.completed q id)).toList)
      (some e) x

/-- A move of the table: of one entry, or only a result that is handed out. -/
inductive TableMove (cfg : TcpConfig) (z : TcpHazard) (n m : Nat) (a : TcpActor) :
    TcpTable C → List (TcpOutput C) → TcpTable C → Prop
  | note {T : TcpTable C} {o : TcpOutput C} (ho : o.connection = none) :
    TableMove cfg z n m a T [o] T
  | entry {T : TcpTable C} {id : SocketId} {outs : List (TcpOutput C)}
      {x : Option (TcpEntry C)} (h : EntryMove cfg z n m id a outs (T id) x) :
    TableMove cfg z n m a T outs (Function.update T id x)

/-- A sequence of moves, with what is seen of it. -/
def Moves (cfg : TcpConfig) (z : TcpHazard) (n m : Nat) (a : TcpActor) (T : TcpTable C)
    (outs : List (TcpOutput C)) (T' : TcpTable C) : Prop :=
  ∃ labels, Transition.Run (TableMove cfg z n m a) T labels T' ∧ labels.flatten = outs

variable {cfg : TcpConfig} {z z' : TcpHazard} {n m : Nat} {a : TcpActor} {id : SocketId}
  {outs outs' : List (TcpOutput C)} {x y : Option (TcpEntry C)} {T T' T'' : TcpTable C}
  {e e' : TcpEntry C} {q : Nat} {c : TcpConnection C}

namespace Moves

theorem refl (T : TcpTable C) : Moves cfg z n m a T [] T := ⟨[], .nil, rfl⟩

theorem single (h : TableMove cfg z n m a T outs T') : Moves cfg z n m a T outs T' :=
  ⟨[outs], .cons h .nil, by simp⟩

theorem trans (h₁ : Moves cfg z n m a T outs T') (h₂ : Moves cfg z n m a T' outs' T'') :
    Moves cfg z n m a T (outs ++ outs') T'' := by
  obtain ⟨l₁, hr₁, rfl⟩ := h₁
  obtain ⟨l₂, hr₂, rfl⟩ := h₂
  exact ⟨l₁ ++ l₂, hr₁.append hr₂, by simp⟩

/-- One entry moves. -/
theorem one (hT : T id = x) (h : EntryMove cfg z n m id a outs x y)
    (hT' : T' = Function.update T id y) : Moves cfg z n m a T outs T' := by
  subst hT hT'
  exact single (.entry h)

theorem note (h : Moves cfg z n m a T outs T') {o : TcpOutput C} (ho : o.connection = none) :
    Moves cfg z n m a T (outs ++ [o]) T' :=
  h.trans (single (.note ho))

end Moves

/-! ## Monotonicity -/

/-- Handlers can do what the user can, and more happens where there are more
addresses. -/
theorem EntryMove.mono {n' m' : Nat} {a' : TcpActor} (hn : n' ≤ n) (hm : m' ≤ m)
    (ha : a = .handler → a' = .handler) (h : EntryMove cfg z n m id a outs x y) :
    EntryMove cfg z n' m' id a' outs x y := by
  cases h with
  | listening hid hopens hp => exact .listening hid hopens (hn.trans hp)
  | opened hid hopens hp hq hstatus hfresh houts =>
    exact .opened hid hopens (hn.trans hp) (hm.trans hq) hstatus hfresh houts
  | connecting hid hopens hp hq hstatus hfresh htimer =>
    exact .connecting hid hopens (hn.trans hp) (hm.trans hq) hstatus hfresh htimer
  | closed hcloses => exact .closed hcloses
  | context context => exact .context context
  | consumed hc size => exact .consumed hc size
  | refused hc hstatus => exact .refused hc hstatus
  | failed hquiet hc hstatus htimer houts => exact .failed hquiet hc hstatus htimer houts
  | sent hquiet hc hstatus hempty hx => exact .sent hquiet hc hstatus hempty hx
  | started hquiet hc hstatus hempty hk hread hmax =>
    exact .started hquiet hc hstatus hempty hk hread hmax
  | queued hquiet hc hstatus hne hread hmax hover =>
    exact .queued hquiet hc hstatus hne hread hmax hover
  | thrown hquiet hc hthrows houts => exact .thrown hquiet hc hthrows houts
  | paused hc hread htimer => exact ha rfl ▸ .paused hc hread htimer
  | resumed hc => exact ha rfl ▸ .resumed hc
  | untimed hc => exact ha rfl ▸ .untimed hc
  | errored hc houts => exact ha rfl ▸ .errored hc houts
  | reported hc => exact ha rfl ▸ .reported hc
  | established hc hwrite htimer hlate houts =>
    exact ha rfl ▸ .established hc hwrite htimer hlate houts
  | received hc hmax => exact ha rfl ▸ .received hc hmax
  | announced hc => exact ha rfl ▸ .announced hc
  | peerClosed hc houts => exact ha rfl ▸ .peerClosed hc houts
  | wrote hquiet hc hwrite hread hne => exact ha rfl ▸ .wrote hquiet hc hwrite hread hne
  | drained hquiet hc hwrite hread hx => exact ha rfl ▸ .drained hquiet hc hwrite hread hx

theorem Moves.mono {n' m' : Nat} {a' : TcpActor} (hn : n' ≤ n) (hm : m' ≤ m)
    (ha : a = .handler → a' = .handler) (h : Moves cfg z n m a T outs T') :
    Moves cfg z n' m' a' T outs T' := by
  obtain ⟨labels, hr, rfl⟩ := h
  refine ⟨labels, hr.mono fun hmove => ?_, rfl⟩
  cases hmove with
  | note ho => exact .note ho
  | entry h => exact .entry (h.mono hn hm ha)

/-! ## Rules for a whole sequence of moves -/

/-- What every move keeps of the table and of all that has been seen, a sequence of
moves keeps. -/
theorem Moves.history {I : TcpTable C → List (TcpOutput C) → Prop}
    (hnote : ∀ {T : TcpTable C} {l o}, I T l → o.connection = none → I T (l ++ [o]))
    (hstep : ∀ {T : TcpTable C} {l} {id : SocketId} {outs x}, I T l →
      EntryMove cfg z n m id a outs (T id) x → I (Function.update T id x) (l ++ outs))
    (h : Moves cfg z n m a T outs T') {l : List (TcpOutput C)} (hT : I T l) :
    I T' (l ++ outs) := by
  obtain ⟨labels, hr, rfl⟩ := h
  induction hr generalizing l with
  | nil => rwa [List.flatten_nil, List.append_nil]
  | cons hmove _ ih =>
    rw [List.flatten_cons, ← List.append_assoc]
    refine ih ?_
    cases hmove with
    | note ho => exact hnote hT ho
    | entry h => exact hstep hT h

/-- What every move keeps of the table, a sequence of moves keeps. -/
theorem Moves.invariant {I : TcpTable C → Prop}
    (hstep : ∀ {T : TcpTable C} {id : SocketId} {outs x}, I T →
      EntryMove cfg z n m id a outs (T id) x → I (Function.update T id x))
    (h : Moves cfg z n m a T outs T') (hT : I T) : I T' := by
  obtain ⟨labels, hr, -⟩ := h
  refine hr.invariant (fun hI hmove => ?_) hT
  cases hmove with
  | note ho => exact hI
  | entry h => exact hstep hI h

/-- What every move keeps of each entry, a sequence of moves keeps. -/
theorem Moves.forall_entry {P : SocketId → TcpEntry C → Prop}
    (hstep : ∀ {id outs} {x : Option (TcpEntry C)} {e' : TcpEntry C}, (∀ e ∈ x, P id e) →
      EntryMove cfg z n m id a outs x (some e') → P id e')
    (h : Moves cfg z n m a T outs T') (hT : ∀ id, ∀ e ∈ T id, P id e) :
    ∀ id, ∀ e ∈ T' id, P id e := by
  refine h.invariant (I := fun T => ∀ id, ∀ e ∈ T id, P id e) (fun {T id outs x} hI hmove => ?_) hT
  intro id' e' he'
  by_cases hid : id' = id
  · subst hid
    rw [Function.update_self] at he'
    obtain rfl : x = some e' := he'
    exact hstep (hI id') hmove
  · rw [Function.update_of_ne hid] at he'
    exact hI id' e' he'

end Brickred
