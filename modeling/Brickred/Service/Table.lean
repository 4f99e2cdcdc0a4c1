import Brickred.Lib.Outcome
import Brickred.Service.TcpService
import Brickred.Timer.Lookup

/-!
# The service as a table of sockets

`entry` puts together what the five maps, the objects and the timers of a service
say about one socket id. `Linked` is the part of the invariant that makes this a
table: every pointer leads to an object, the keys of the smaller maps are socket
ids, and the two timer maps are inverse to each other. Each primitive of the
model then rewrites one entry.

A timer that could not be started has the id -1 in the timer maps; of that id
`Linked` only promises that it leads from a timer to a socket and back.
-/

namespace Brickred

/-- What the service knows about a socket id. -/
structure TcpEntry (C : Type) where
  address : Nat
  socket : TcpSocket
  /-- The connection and its address. -/
  connection : Option (Nat × TcpConnection C)
  /-- The timer in the maps, and what the heap has under this id. -/
  timer : Option (Int × Option (Timer TimerCallback))
  context : Option Nat

abbrev TcpTable (C : Type) := SocketId → Option (TcpEntry C)

namespace TcpService

variable {C : Type}

/-- The entry of a socket id. -/
def entry (s : TcpService C) : TcpTable C := fun socketId =>
  (s.sockets socketId).bind fun address =>
    (s.socketObjects.cell address).map fun socket =>
      { address, socket
        connection := (s.connections socketId).bind fun q =>
          (s.connectionObjects.cell q).map fun connection => (q, connection)
        timer := (s.socketToTimerMap socketId).map fun timerId =>
          (timerId, s.timerHeap.find? timerId)
        context := s.contexts socketId }

/-- The socket map and the connection map lead to objects, and to every object. -/
structure ObjectsLinked (sockets connections : SocketId → Option Nat)
    (socketObjects : ObjectHeap TcpSocket) (connectionObjects : ObjectHeap (TcpConnection C)) :
    Prop where
  socket : ∀ {id p}, sockets id = some p → ∃ x, socketObjects.cell p = some x ∧ x.id = id
  socketLive : ∀ {p x}, socketObjects.cell p = some x → sockets x.id = some p
  connection : ∀ {id q}, connections id = some q →
    ∃ c, connectionObjects.cell q = some c ∧ sockets id = some c.socket
  connectionLive : ∀ {q c}, connectionObjects.cell q = some c → ∃ id, connections id = some q

/-- The timer maps are inverse to each other and lead to timers that are called
once. -/
structure TimersLinked (socketToTimerMap : SocketId → Option Int)
    (timerToSocketMap : Int → Option SocketId) (timerHeap : TimerHeap TimerCallback) :
    Prop where
  inverse : ∀ {id t}, t ≠ -1 → (socketToTimerMap id = some t ↔ timerToSocketMap t = some id)
  lost : ∀ {id}, timerToSocketMap (-1) = some id → socketToTimerMap id = some (-1)
  pending : ∀ {id t}, t ≠ -1 → socketToTimerMap id = some t →
    ∃ u, timerHeap.find? t = some u ∧ u.callTimes = 1 ∧ u.timerCb ≠ .user
  wf : timerHeap.Wf

/-- The maps, objects and timers of a service fit together. -/
structure Linked (s : TcpService C) : Prop where
  objects : ObjectsLinked s.sockets s.connections s.socketObjects s.connectionObjects
  timers : TimersLinked s.socketToTimerMap s.timerToSocketMap s.timerHeap
  keys : ∀ {id}, s.sockets id = none → s.contexts id = none ∧ s.socketToTimerMap id = none

theorem linked_init : Linked (init C) where
  objects := ⟨nofun, nofun, nofun, nofun⟩
  timers := ⟨fun _ => ⟨nofun, nofun⟩, nofun, nofun, TimerHeap.wf_init⟩
  keys _ := ⟨rfl, rfl⟩

theorem entry_init : (init C).entry = fun _ => none := rfl

variable {s s' : TcpService C} {e : TcpEntry C} {id : SocketId} {p q : Nat} {x : TcpSocket}
  {c : TcpConnection C} {t : Int}

section Objects

variable {a b : SocketId → Option Nat} {m : ObjectHeap TcpSocket}
  {n : ObjectHeap (TcpConnection C)}

theorem ObjectsLinked.socket_inj (h : ObjectsLinked a b m n) {id' : SocketId} (hp : a id = some p)
    (hp' : a id' = some p) : id = id' := by
  obtain ⟨x, hx, rfl⟩ := h.socket hp
  obtain ⟨x', hx', rfl⟩ := h.socket hp'
  rw [hx] at hx'
  rw [Option.some.inj hx']

theorem ObjectsLinked.connection_inj (h : ObjectsLinked a b m n) {id' : SocketId}
    (hq : b id = some q) (hq' : b id' = some q) : id = id' := by
  obtain ⟨c, hc, hp⟩ := h.connection hq
  obtain ⟨c', hc', hp'⟩ := h.connection hq'
  rw [hc] at hc'
  rw [← Option.some.inj hc'] at hp'
  exact h.socket_inj hp hp'

end Objects

/-! ## Reading the table -/

/-- An entry and what it is made of. -/
theorem entry_eq_some : s.entry id = some e ↔
    s.sockets id = some e.address ∧ s.socketObjects.cell e.address = some e.socket ∧
      ((s.connections id).bind fun q => (s.connectionObjects.cell q).map fun c => (q, c)) =
        e.connection ∧
      ((s.socketToTimerMap id).map fun t => (t, s.timerHeap.find? t)) = e.timer ∧
      s.contexts id = e.context := by
  unfold entry
  constructor
  · intro h
    obtain ⟨p, hp, h⟩ := Option.bind_eq_some_iff.mp h
    obtain ⟨x, hx, rfl⟩ := Option.map_eq_some_iff.mp h
    exact ⟨hp, hx, rfl, rfl, rfl⟩
  · rintro ⟨hp, hx, hc, ht, hctx⟩
    rw [hp, Option.bind_some, hx, Option.map_some, hc, ht, hctx]

namespace Linked

theorem entry_of_sockets (h : Linked s) (hp : s.sockets id = some p) :
    ∃ e, s.entry id = some e ∧ e.address = p ∧ s.socketObjects.cell p = some e.socket ∧
      e.socket.id = id := by
  obtain ⟨x, hx, hid⟩ := h.objects.socket hp
  exact ⟨⟨p, x, _, _, _⟩, entry_eq_some.mpr ⟨hp, hx, rfl, rfl, rfl⟩, rfl, hx, hid⟩

/-- A live socket is that of the entry under its id. -/
theorem entry_of_cell (h : Linked s) (hx : s.socketObjects.cell p = some x) :
    ∃ e, s.entry x.id = some e ∧ e.address = p ∧ e.socket = x := by
  have hp := h.objects.socketLive hx
  exact ⟨⟨p, x, _, _, _⟩, entry_eq_some.mpr ⟨hp, hx, rfl, rfl, rfl⟩, rfl, rfl⟩

theorem entry_eq_none (h : Linked s) : s.entry id = none ↔ s.sockets id = none := by
  constructor
  · intro he
    by_contra hne
    obtain ⟨p, hp⟩ := Option.ne_none_iff_exists'.mp hne
    obtain ⟨e, he', -⟩ := h.entry_of_sockets hp
    rw [he] at he'
    cases he'
  · intro hp
    unfold entry
    rw [hp]
    rfl

theorem present_of_entry (he : s.entry id = some e) : s.sockets id ≠ none := by
  rw [(entry_eq_some.mp he).1]
  simp

/-- The connection map and the connection of an entry. -/
theorem connections_eq (h : Linked s) (he : s.entry id = some e) :
    s.connections id = e.connection.map Prod.fst := by
  obtain ⟨-, -, hc, -⟩ := entry_eq_some.mp he
  rw [← hc]
  cases hq : s.connections id with
  | none => rfl
  | some q =>
    obtain ⟨c, hcell, -⟩ := h.objects.connection hq
    simp [hcell]

theorem socket_id (h : Linked s) (he : s.entry id = some e) : e.socket.id = id := by
  obtain ⟨hp, hx, -⟩ := entry_eq_some.mp he
  obtain ⟨x, hx', hid⟩ := h.objects.socket hp
  obtain rfl := Option.some.inj (hx.symm.trans hx')
  exact hid

theorem connection_of_entry (h : Linked s) (he : s.entry id = some e)
    (hc : e.connection = some (q, c)) :
    s.connections id = some q ∧ s.connectionObjects.cell q = some c ∧ c.socket = e.address := by
  obtain ⟨hp, -, hc', -⟩ := entry_eq_some.mp he
  rw [hc] at hc'
  obtain ⟨q', hq, hmap⟩ := Option.bind_eq_some_iff.mp hc'
  obtain ⟨c', hcell, heq⟩ := Option.map_eq_some_iff.mp hmap
  cases heq
  obtain ⟨c', hcell', hsock⟩ := h.objects.connection hq
  obtain rfl := Option.some.inj (hcell.symm.trans hcell')
  exact ⟨hq, hcell, Option.some.inj (hsock.symm.trans hp)⟩

/-- A key of the connection map has an entry with that connection. -/
theorem entry_of_connections (h : Linked s) (hq : s.connections id = some q) :
    ∃ e c, s.entry id = some e ∧ e.connection = some (q, c) ∧
      s.connectionObjects.cell q = some c ∧ c.socket = e.address := by
  obtain ⟨c, hcell, hsock⟩ := h.objects.connection hq
  obtain ⟨e, he, hp, -⟩ := h.entry_of_sockets hsock
  refine ⟨e, c, he, ?_, hcell, hp.symm⟩
  obtain ⟨-, -, hc, -⟩ := entry_eq_some.mp he
  rw [← hc, hq, Option.bind_some, hcell]
  rfl

/-- A live connection is that of some entry. -/
theorem entry_of_connection_cell (h : Linked s) (hcell : s.connectionObjects.cell q = some c) :
    ∃ id e, s.entry id = some e ∧ e.connection = some (q, c) := by
  obtain ⟨id, hq⟩ := h.objects.connectionLive hcell
  obtain ⟨e, c', he, hc, hcell', -⟩ := h.entry_of_connections hq
  obtain rfl := Option.some.inj (hcell.symm.trans hcell')
  exact ⟨id, e, he, hc⟩

theorem timer_eq (he : s.entry id = some e) :
    s.socketToTimerMap id = e.timer.map Prod.fst := by
  obtain ⟨-, -, -, ht, -⟩ := entry_eq_some.mp he
  rw [← ht]
  cases s.socketToTimerMap id <;> rfl

/-- Different ids have different sockets. -/
theorem socket_inj (h : Linked s) {id' : SocketId} (hp : s.sockets id = some p)
    (hp' : s.sockets id' = some p) : id = id' := h.objects.socket_inj hp hp'

/-- Different ids have different connections. -/
theorem connection_inj (h : Linked s) {id' : SocketId} (hq : s.connections id = some q)
    (hq' : s.connections id' = some q) : id = id' := h.objects.connection_inj hq hq'

end Linked

/-! ## Writing to objects -/

/-- Two tables that differ at one id. -/
theorem entry_update (id : SocketId) {x' : Option (TcpEntry C)} (hid : s'.entry id = x')
    (hne : ∀ id', id' ≠ id → s'.entry id' = s.entry id') :
    s'.entry = Function.update s.entry id x' := by
  funext id'
  by_cases h : id' = id
  · rw [h, hid, Function.update_self]
  · rw [hne id' h, Function.update_of_ne h]

theorem Linked.setSocket (h : Linked s) {f : TcpSocket → TcpSocket} (hf : ∀ x, (f x).id = x.id)
    (p : Nat) : Linked (s.setSocket p f) where
  objects :=
    { socket := fun {id p'} hp => by
        obtain ⟨x, hx, hid⟩ := h.objects.socket hp
        by_cases hpp : p' = p
        · exact ⟨f x, by rw [hpp]; exact ObjectHeap.cell_update_self (hpp ▸ hx), (hf x).trans hid⟩
        · exact ⟨x, (ObjectHeap.cell_update_ne hpp).trans hx, hid⟩
      socketLive := fun {p' y} hy => by
        rw [show (s.setSocket p f).socketObjects = s.socketObjects.update p f from rfl,
          ObjectHeap.cell_update] at hy
        split at hy
        · obtain ⟨x, hx, rfl⟩ := Option.map_eq_some_iff.mp hy
          rw [hf]
          exact h.objects.socketLive hx
        · exact h.objects.socketLive hy
      connection := h.objects.connection
      connectionLive := h.objects.connectionLive }
  timers := h.timers
  keys := h.keys

theorem entry_setSocket (h : Linked s) (he : s.entry id = some e) (f : TcpSocket → TcpSocket) :
    (s.setSocket e.address f).entry =
      Function.update s.entry id (some { e with socket := f e.socket }) := by
  obtain ⟨hp, hx, hc, ht, hctx⟩ := entry_eq_some.mp he
  refine entry_update _ ?_ fun id' hne => ?_
  · exact entry_eq_some.mpr ⟨hp, ObjectHeap.cell_update_self hx, hc, ht, hctx⟩
  · unfold entry
    refine Option.bind_congr fun p' hp' => ?_
    rw [show (s.setSocket e.address f).socketObjects.cell p' = s.socketObjects.cell p' from
      ObjectHeap.cell_update_ne fun heq => hne (h.socket_inj hp' (heq ▸ hp))]
    rfl

theorem Linked.setConnection (h : Linked s) {f : TcpConnection C → TcpConnection C}
    (hf : ∀ c, (f c).socket = c.socket) (q : Nat) : Linked (s.setConnection q f) where
  objects :=
    { socket := h.objects.socket
      socketLive := h.objects.socketLive
      connection := fun {id q'} hq => by
        obtain ⟨c, hc, hp⟩ := h.objects.connection hq
        by_cases hqq : q' = q
        · exact ⟨f c, by rw [hqq]; exact ObjectHeap.cell_update_self (hqq ▸ hc), by rw [hf]; exact hp⟩
        · exact ⟨c, (ObjectHeap.cell_update_ne hqq).trans hc, hp⟩
      connectionLive := fun {q' c'} hc => by
        rw [show (s.setConnection q f).connectionObjects = s.connectionObjects.update q f from rfl,
          ObjectHeap.cell_update] at hc
        split at hc
        · obtain ⟨c, hcell, -⟩ := Option.map_eq_some_iff.mp hc
          exact h.objects.connectionLive hcell
        · exact h.objects.connectionLive hc }
  timers := h.timers
  keys := h.keys

theorem entry_setConnection (h : Linked s) (he : s.entry id = some e)
    (hc : e.connection = some (q, c)) (f : TcpConnection C → TcpConnection C) :
    (s.setConnection q f).entry =
      Function.update s.entry id (some { e with connection := some (q, f c) }) := by
  obtain ⟨hp, hx, -, ht, hctx⟩ := entry_eq_some.mp he
  obtain ⟨hq, hcell, -⟩ := h.connection_of_entry he hc
  refine entry_update _ ?_ fun id' hne => ?_
  · refine entry_eq_some.mpr ⟨hp, hx, ?_, ht, hctx⟩
    rw [show (s.setConnection q f).connections = s.connections from rfl, hq, Option.bind_some,
      show (s.setConnection q f).connectionObjects.cell q = some (f c) from
        ObjectHeap.cell_update_self hcell]
    rfl
  · unfold entry
    have hconn : ((s.setConnection q f).connections id').bind (fun q' =>
        ((s.setConnection q f).connectionObjects.cell q').map fun c => (q', c)) =
        (s.connections id').bind fun q' =>
          (s.connectionObjects.cell q').map fun c => (q', c) := by
      refine Option.bind_congr fun q' hq' => ?_
      rw [show (s.setConnection q f).connectionObjects.cell q' = s.connectionObjects.cell q' from
        ObjectHeap.cell_update_ne fun heq => hne (h.connection_inj hq' (heq ▸ hq))]
    rw [hconn]
    rfl

/-! ## Timers -/

namespace TimersLinked

variable {a : SocketId → Option Int} {b : Int → Option SocketId}
  {heap heap' : TimerHeap TimerCallback} {u : Timer TimerCallback}

/-- No map has the id of a timer that is not in the heap. -/
theorem unused (h : TimersLinked a b heap) (ht : t ≠ -1) (hfind : heap.find? t = none)
    (id : SocketId) : a id ≠ some t := by
  intro hid
  obtain ⟨u, hu, -⟩ := h.pending ht hid
  rw [hfind] at hu
  cases hu

/-- No two sockets have one timer. -/
theorem timer_inj (h : TimersLinked a b heap) {id' : SocketId} (ht : t ≠ -1)
    (hid : a id = some t) (hid' : a id' = some t) : id' = id := by
  have h₁ := (h.inverse ht).mp hid
  have h₂ := (h.inverse ht).mp hid'
  exact Option.some.inj (h₂.symm.trans h₁)

/-- A new timer for a socket that has none. -/
theorem insert (h : TimersLinked a b heap) (hfree : a id = none) (hfresh : heap.find? t = none)
    (ht : t ≠ -1) (hw : heap'.Wf) (hfind : heap'.find? = Function.update heap.find? t (some u))
    (hcalls : u.callTimes = 1) (hcb : u.timerCb ≠ .user) :
    TimersLinked (Function.update a id (some t)) (Function.update b t (some id)) heap' where
  inverse {id' t'} ht' := by
    by_cases hid : id' = id
    · subst hid
      rw [Function.update_self]
      by_cases htt : t' = t
      · simp [htt]
      · rw [Function.update_of_ne htt, ← h.inverse ht', hfree]
        simp [Ne.symm htt]
    · rw [Function.update_of_ne hid]
      by_cases htt : t' = t
      · subst htt
        rw [Function.update_self]
        exact iff_of_false (h.unused ht hfresh id') fun heq => hid (Option.some.inj heq).symm
      · rw [Function.update_of_ne htt]
        exact h.inverse ht'
  lost {id'} hid' := by
    rw [Function.update_of_ne (Ne.symm ht)] at hid'
    have hlost := h.lost hid'
    refine (Function.update_of_ne ?_ ..).trans hlost
    rintro rfl
    rw [hfree] at hlost
    cases hlost
  pending {id' t'} ht' hid' := by
    rw [hfind]
    by_cases hid : id' = id
    · subst hid
      rw [Function.update_self] at hid'
      obtain rfl := Option.some.inj hid'
      exact ⟨u, Function.update_self .., hcalls, hcb⟩
    · rw [Function.update_of_ne hid] at hid'
      have htt : t' ≠ t := by
        rintro rfl
        exact h.unused ht hfresh id' hid'
      rw [Function.update_of_ne htt]
      exact h.pending ht' hid'
  wf := hw

/-- A timer that could not be started. -/
theorem insertLost (h : TimersLinked a b heap) (hfree : a id = none) (hw : heap'.Wf)
    (hfind : heap'.find? = heap.find?) :
    TimersLinked (Function.update a id (some (-1))) (Function.update b (-1) (some id)) heap' where
  inverse {id' t'} ht' := by
    rw [Function.update_of_ne ht', ← h.inverse ht']
    by_cases hid : id' = id
    · subst hid
      rw [Function.update_self, hfree]
      simp [Ne.symm ht']
    · rw [Function.update_of_ne hid]
  lost {id'} hid' := by
    rw [Function.update_self] at hid'
    obtain rfl := Option.some.inj hid'
    exact Function.update_self ..
  pending {id' t'} ht' hid' := by
    by_cases hid : id' = id
    · subst hid
      rw [Function.update_self] at hid'
      exact absurd (Option.some.inj hid').symm ht'
    · rw [Function.update_of_ne hid] at hid'
      rw [hfind]
      exact h.pending ht' hid'
  wf := hw

/-- The timers of other sockets are still in the heap when one timer has gone. -/
theorem keep (h : TimersLinked a b heap) (hid : a id = some t)
    (hfind : ∀ t', t' ≠ t → heap'.find? t' = heap.find? t')
    (hlost : t = -1 → heap'.find? = heap.find?) {id' : SocketId} (hne : id' ≠ id) {t' : Int}
    (hid' : a id' = some t') : heap'.find? t' = heap.find? t' := by
  by_cases htt : t' = t
  · by_cases hpos : t = -1
    · rw [hlost hpos]
    · exact absurd (h.timer_inj hpos hid (by rw [← htt]; exact hid')) hne
  · exact hfind t' htt

/-- A timer that has gone is taken out of the maps. -/
theorem erase (h : TimersLinked a b heap) (hid : a id = some t) (hw : heap'.Wf)
    (hfind : ∀ t', t' ≠ t → heap'.find? t' = heap.find? t')
    (hlost : t = -1 → heap'.find? = heap.find?) :
    TimersLinked (Function.update a id none) (Function.update b t none) heap' where
  inverse {id' t'} ht' := by
    by_cases hne : id' = id
    · subst hne
      rw [Function.update_self]
      refine iff_of_false (by simp) fun heq => ?_
      by_cases htt : t' = t
      · subst htt
        simp at heq
      · rw [Function.update_of_ne htt, ← h.inverse ht', hid] at heq
        exact htt (Option.some.inj heq).symm
    · rw [Function.update_of_ne hne]
      by_cases htt : t' = t
      · subst htt
        rw [Function.update_self]
        exact iff_of_false (fun heq => hne (h.timer_inj ht' hid heq)) (by simp)
      · rw [Function.update_of_ne htt]
        exact h.inverse ht'
  lost {id'} hid' := by
    by_cases htt : -1 = t
    · rw [htt, Function.update_self] at hid'
      cases hid'
    · rw [Function.update_of_ne htt] at hid'
      have hlost := h.lost hid'
      refine (Function.update_of_ne ?_ ..).trans hlost
      rintro rfl
      exact htt (Option.some.inj (hlost.symm.trans hid))
  pending {id' t'} ht' hid' := by
    by_cases hne : id' = id
    · subst hne
      simp at hid'
    · rw [Function.update_of_ne hne] at hid'
      rw [h.keep hid hfind hlost hne hid']
      exact h.pending ht' hid'
  wf := hw

end TimersLinked

/-- `s` with other timers. -/
def withTimers (s : TcpService C) (timerHeap : TimerHeap TimerCallback)
    (socketToTimerMap : SocketId → Option Int) (timerToSocketMap : Int → Option SocketId) :
    TcpService C :=
  { s with timerHeap, socketToTimerMap, timerToSocketMap }

theorem entry_withTimers {heap : TimerHeap TimerCallback} {a : SocketId → Option Int}
    {b : Int → Option SocketId} (id : SocketId)
    (hid : (a id).map (fun t => (t, heap.find? t)) =
      (s.socketToTimerMap id).map fun t => (t, s.timerHeap.find? t)) :
    (s.withTimers heap a b).entry id = s.entry id := by
  unfold entry withTimers
  dsimp only
  rw [hid]

/-- Only a socket has a timer. -/
theorem Linked.withTimers (h : Linked s) {heap : TimerHeap TimerCallback}
    {a : SocketId → Option Int} {b : Int → Option SocketId} (ht : TimersLinked a b heap)
    (hkeys : ∀ id, s.sockets id = none → a id = none) : Linked (s.withTimers heap a b) where
  objects := h.objects
  timers := ht
  keys {id} hid := ⟨(h.keys hid).1, hkeys id hid⟩

/-- What `addSocketTimer` leaves in the timer maps: the id of a pending timer, or -1
when the next id is still in use. -/
def TimerStarted (s : TcpService C) (timerCb : TimerCallback)
    (timer : Int × Option (Timer TimerCallback)) : Prop :=
  (∃ u, timer = (s.timerHeap.getId.2, some u) ∧ u.timerCb = timerCb ∧ 0 < s.timerHeap.getId.2) ∨
  (timer = (-1, none) ∧ s.timerHeap.find? s.timerHeap.getId.2 ≠ none)

theorem Linked.addSocketTimer (h : Linked s) (he : s.entry id = some e) (hnone : e.timer = none)
    (timeoutMs : Int) {timerCb : TimerCallback} (hcb : timerCb ≠ .user) (now : Timestamp) :
    ∃ heap a b timer, s.addSocketTimer id timeoutMs timerCb now = .ok (s.withTimers heap a b) ∧
      Linked (s.withTimers heap a b) ∧
      (s.withTimers heap a b).entry =
        Function.update s.entry id (some { e with timer := some timer }) ∧
      TimerStarted s timerCb timer := by
  obtain ⟨heap, r, e₁, hw, -, hcase⟩ := h.timers.wf.addTimer now timeoutMs timerCb 1
  have hfree : s.socketToTimerMap id = none := by rw [timer_eq he, hnone]; rfl
  obtain ⟨hpos, -⟩ := TimerHeap.getId_range h.timers.wf.range
  have hrun : s.addSocketTimer id timeoutMs timerCb now =
      .ok (s.withTimers heap (Function.update s.socketToTimerMap id (some r))
        (Function.update s.timerToSocketMap r (some id))) := by
    unfold TcpService.addSocketTimer
    rw [e₁]
    rfl
  have hkeys : ∀ id', s.sockets id' = none →
      Function.update s.socketToTimerMap id (some r) id' = none := by
    intro id' hid'
    rw [Function.update_of_ne, (h.keys hid').2]
    rintro rfl
    rw [← h.entry_eq_none, he] at hid'
    cases hid'
  obtain ⟨hp, hx, hc, -, hctx⟩ := entry_eq_some.mp he
  split at hcase
  next hfresh =>
    obtain ⟨rfl, hfind⟩ := hcase
    refine ⟨_, _, _, _, hrun, h.withTimers (h.timers.insert hfree hfresh (by omega) hw hfind rfl hcb)
      hkeys, entry_update id (entry_eq_some.mpr ⟨hp, hx, hc, ?_, hctx⟩) ?_,
      .inl ⟨TimerHeap.newTimer s.timerHeap.getId.2 now timeoutMs timerCb 1, rfl, rfl, hpos⟩⟩
    · show (Function.update s.socketToTimerMap id (some _) id).map _ = _
      rw [Function.update_self, Option.map_some]
      show some (_, heap.find? _) = _
      rw [hfind, Function.update_self]
    · intro id' hne
      refine entry_withTimers id' ?_
      rw [Function.update_of_ne hne, hfind]
      refine Option.map_congr fun t ht => ?_
      rw [Function.update_of_ne]
      rintro rfl
      exact h.timers.unused (by omega) hfresh id' ht
  next hbusy =>
    obtain ⟨rfl, hfind⟩ := hcase
    refine ⟨_, _, _, _, hrun, h.withTimers (h.timers.insertLost hfree hw hfind) hkeys,
      entry_update id (entry_eq_some.mpr ⟨hp, hx, hc, ?_, hctx⟩) ?_,
      .inr ⟨rfl, hbusy⟩⟩
    · show (Function.update s.socketToTimerMap id (some (-1)) id).map _ = _
      rw [Function.update_self, Option.map_some]
      show some (-1, heap.find? (-1)) = _
      rw [hfind, h.timers.wf.find?_of_nonpos (by decide)]
    · intro id' hne
      refine entry_withTimers id' ?_
      rw [Function.update_of_ne hne, hfind]

/-- A timer that has gone is taken out of the maps. -/
theorem Linked.forgetTimer (h : Linked s) {heap : TimerHeap TimerCallback} (hw : heap.Wf)
    (hid : s.socketToTimerMap id = some t)
    (hfind : ∀ t', t' ≠ t → heap.find? t' = s.timerHeap.find? t')
    (hlost : t = -1 → heap.find? = s.timerHeap.find?) :
    Linked (s.withTimers heap (Function.update s.socketToTimerMap id none)
      (Function.update s.timerToSocketMap t none)) ∧
    (s.withTimers heap (Function.update s.socketToTimerMap id none)
      (Function.update s.timerToSocketMap t none)).entry =
        Function.update s.entry id ((s.entry id).map ({ · with timer := none })) := by
  refine ⟨h.withTimers (h.timers.erase hid hw hfind hlost) fun id' hid' => ?_,
    entry_update _ ?_ fun id' hne => ?_⟩
  · by_cases hne : id' = id
    · rw [hne]
      exact Function.update_self ..
    · exact (Function.update_of_ne hne ..).trans (h.keys hid').2
  · cases he : s.entry id with
    | none => exact absurd (h.keys (h.entry_eq_none.mp he)).2 (by rw [hid]; simp)
    | some e =>
      obtain ⟨hp, hx, hc, -, hctx⟩ := entry_eq_some.mp he
      refine entry_eq_some.mpr ⟨hp, hx, hc, ?_, hctx⟩
      show (Function.update s.socketToTimerMap id none id).map _ = _
      rw [Function.update_self]
      rfl
  · refine entry_withTimers id' ?_
    rw [Function.update_of_ne hne]
    exact Option.map_congr fun t' ht' => by rw [h.timers.keep hid hfind hlost hne ht']

/-- `removeSocketTimer` takes the timer out of an entry. -/
theorem Linked.removeSocketTimer (h : Linked s) (id : SocketId) :
    ∃ heap a b, s.removeSocketTimer id = .ok (s.withTimers heap a b) ∧
      Linked (s.withTimers heap a b) ∧
      (s.withTimers heap a b).entry =
        Function.update s.entry id ((s.entry id).map ({ · with timer := none })) ∧
      a = Function.update s.socketToTimerMap id none := by
  unfold TcpService.removeSocketTimer
  cases hid : s.socketToTimerMap id with
  | none =>
    refine ⟨s.timerHeap, s.socketToTimerMap, s.timerToSocketMap, rfl, h, ?_, ?_⟩
    · refine entry_update _ ?_ fun _ _ => rfl
      cases he : s.entry id with
      | none => exact he
      | some e =>
        have ht := timer_eq he
        rw [hid] at ht
        have hnone : e.timer = none := by
          cases hte : e.timer with
          | none => rfl
          | some x => rw [hte] at ht; cases ht
        rw [Option.map_some, ← hnone]
        exact he
    · rw [← hid, Function.update_eq_self]
  | some t =>
    obtain ⟨heap, e₁, hw, -, hfind⟩ := h.timers.wf.removeTimer t
    obtain ⟨hl, he⟩ := h.forgetTimer hw hid (fun t' ht' => by rw [hfind, Function.update_of_ne ht'])
      fun ht => by
        have hnone := h.timers.wf.find?_of_nonpos (show (-1 : Int) ≤ 0 by decide)
        rw [hfind, ht, ← hnone, Function.update_eq_self]
    refine ⟨_, _, _, ?_, hl, he, rfl⟩
    show (do
      let timerHeap ← orFault .timer (s.timerHeap.removeTimer t)
      .ok _) = _
    rw [e₁]
    rfl

/-- Timers of other sockets, or of the application, come and go. -/
theorem Linked.otherTimer (h : Linked s) {heap : TimerHeap TimerCallback} (hw : heap.Wf)
    (hkeep : ∀ id t, t ≠ -1 → s.socketToTimerMap id = some t →
      heap.find? t = s.timerHeap.find? t) :
    Linked { s with timerHeap := heap } ∧ entry { s with timerHeap := heap } = s.entry := by
  refine ⟨⟨h.objects, ⟨h.timers.inverse, h.timers.lost, fun {id t} ht hid => ?_, hw⟩, h.keys⟩, funext fun id =>
    entry_withTimers (b := s.timerToSocketMap) id (Option.map_congr fun t hid => ?_)⟩
  · show ∃ u, heap.find? t = some u ∧ _
    rw [hkeep id t ht hid]
    exact h.timers.pending ht hid
  · by_cases ht : t = -1
    · rw [ht, hw.find?_of_nonpos (by decide), h.timers.wf.find?_of_nonpos (by decide)]
    · rw [hkeep id t ht hid]

/-- A turn of `checkTimeout` that fires the timer `u`: either it is in no map, or it
is the timer of an entry. -/
theorem Linked.fire (h : Linked s) {heap : TimerHeap TimerCallback} (hw : heap.Wf)
    {u : Timer TimerCallback} {v : Option (Timer TimerCallback)}
    (hu : s.timerHeap.find? u.id = some u)
    (hfind : heap.find? = Function.update s.timerHeap.find? u.id v) :
    (s.timerToSocketMap u.id = none → Linked { s with timerHeap := heap } ∧
      entry { s with timerHeap := heap } = s.entry) ∧
    (∀ id, s.timerToSocketMap u.id = some id → u.timerCb ≠ .user ∧
      ∃ e, s.entry id = some e ∧ e.timer = some (u.id, some u) ∧
        Linked (s.withTimers heap (Function.update s.socketToTimerMap id none)
          (Function.update s.timerToSocketMap u.id none)) ∧
        (s.withTimers heap (Function.update s.socketToTimerMap id none)
          (Function.update s.timerToSocketMap u.id none)).entry =
            Function.update s.entry id (some { e with timer := none })) := by
  have hpos : u.id ≠ -1 := by
    have hpos : 0 < u.id := h.timers.wf.pos (by rw [hu]; simp)
    omega
  have hother : ∀ t, t ≠ u.id → heap.find? t = s.timerHeap.find? t := fun t ht => by
    rw [hfind, Function.update_of_ne ht]
  constructor
  · intro hnone
    refine h.otherTimer hw fun id t ht hid => hother t ?_
    rintro rfl
    rw [(h.timers.inverse hpos).mp hid] at hnone
    cases hnone
  · intro id hsome
    have hid := (h.timers.inverse hpos).mpr hsome
    obtain ⟨w, hw', -, hcb⟩ := h.timers.pending hpos hid
    obtain rfl := Option.some.inj (hu.symm.trans hw')
    obtain ⟨hl, hent⟩ := h.forgetTimer hw hid hother fun ht => absurd ht hpos
    cases he : s.entry id with
    | none => exact absurd (h.keys (h.entry_eq_none.mp he)).2 (by rw [hid]; simp)
    | some e =>
      rw [he, Option.map_some] at hent
      refine ⟨hcb, e, rfl, ?_, hl, hent⟩
      obtain ⟨-, -, -, ht, -⟩ := entry_eq_some.mp he
      rw [← ht, hid, Option.map_some, hu]

/-! ## Opening and closing -/

theorem Linked.insertSocket (h : Linked s) (hnone : s.sockets x.id = none) :
    Linked (s.insertSocket x) ∧ (s.insertSocket x).entry =
      Function.update s.entry x.id (some ⟨s.socketObjects.next, x, none, none, none⟩) := by
  obtain ⟨hctx, htimer⟩ := h.keys hnone
  have hconn : s.connections x.id = none := by
    by_contra hne
    obtain ⟨q, hq⟩ := Option.ne_none_iff_exists'.mp hne
    obtain ⟨c, -, hp⟩ := h.objects.connection hq
    rw [hnone] at hp
    cases hp
  have hcell : ∀ {p y}, s.socketObjects.cell p = some y →
      (s.insertSocket x).socketObjects.cell p = some y := fun {p y} hy =>
    (if_neg (Nat.ne_of_lt (ObjectHeap.lt_next hy))).trans hy
  have hold : ∀ {id p}, s.sockets id = some p → (s.insertSocket x).sockets id = some p := by
    intro id p hp
    refine (Function.update_of_ne ?_ ..).trans hp
    rintro rfl
    rw [hnone] at hp
    cases hp
  refine ⟨⟨⟨?_, ?_, ?_, h.objects.connectionLive⟩, h.timers, ?_⟩, entry_update _ ?_ ?_⟩
  · intro id p hp
    by_cases hid : id = x.id
    · rw [hid, show (s.insertSocket x).sockets x.id = some s.socketObjects.next from
        Function.update_self ..] at hp
      cases hp
      exact ⟨x, ObjectHeap.cell_alloc_next x, hid.symm⟩
    · obtain ⟨y, hy, hyid⟩ := h.objects.socket ((Function.update_of_ne hid ..).symm.trans hp)
      exact ⟨y, hcell hy, hyid⟩
  · intro p y hy
    by_cases hp : p = s.socketObjects.next
    · subst hp
      obtain rfl := Option.some.inj ((ObjectHeap.cell_alloc_next x).symm.trans hy)
      exact Function.update_self ..
    · exact hold (h.objects.socketLive ((if_neg hp).symm.trans hy))
  · intro id q hq
    obtain ⟨c, hc, hp⟩ := h.objects.connection hq
    exact ⟨c, hc, hold hp⟩
  · intro id hid
    refine h.keys ?_
    by_contra hne
    obtain ⟨p, hp⟩ := Option.ne_none_iff_exists'.mp hne
    rw [hold hp] at hid
    cases hid
  · refine entry_eq_some.mpr ⟨Function.update_self .., ObjectHeap.cell_alloc_next x, ?_, ?_, hctx⟩
    · show (s.connections x.id).bind _ = _
      rw [hconn]
      rfl
    · show (s.socketToTimerMap x.id).map _ = _
      rw [htimer]
      rfl
  · intro id hid
    unfold entry
    rw [show (s.insertSocket x).sockets id = s.sockets id from Function.update_of_ne hid ..]
    refine Option.bind_congr fun p hp => ?_
    obtain ⟨y, hy, -⟩ := h.objects.socket hp
    rw [hcell hy, hy]
    rfl

theorem Linked.insertConnection (h : Linked s) (he : s.entry id = some e)
    (hnone : e.connection = none) (hc : c.socket = e.address) :
    Linked (s.insertConnection id c) ∧ (s.insertConnection id c).entry =
      Function.update s.entry id
        (some { e with connection := some (s.connectionObjects.next, c) }) := by
  obtain ⟨hp, hx, -, ht, hctx⟩ := entry_eq_some.mp he
  have hfree : s.connections id = none := by rw [h.connections_eq he, hnone]; rfl
  have hcell : ∀ {q d}, s.connectionObjects.cell q = some d →
      (s.insertConnection id c).connectionObjects.cell q = some d := fun {q d} hd =>
    (if_neg (Nat.ne_of_lt (ObjectHeap.lt_next hd))).trans hd
  refine ⟨⟨⟨h.objects.socket, h.objects.socketLive, ?_, ?_⟩, h.timers, h.keys⟩,
    entry_update _ ?_ ?_⟩
  · intro id' q hq
    by_cases hid : id' = id
    · rw [hid, show (s.insertConnection id c).connections id = some s.connectionObjects.next from
        Function.update_self ..] at hq
      cases hq
      exact ⟨c, ObjectHeap.cell_alloc_next c, by rw [hid, hc]; exact hp⟩
    · obtain ⟨d, hd, hp'⟩ := h.objects.connection ((Function.update_of_ne hid ..).symm.trans hq)
      exact ⟨d, hcell hd, hp'⟩
  · intro q d hd
    by_cases hq : q = s.connectionObjects.next
    · subst hq
      exact ⟨id, Function.update_self ..⟩
    · obtain ⟨id', hid'⟩ := h.objects.connectionLive ((if_neg hq).symm.trans hd)
      refine ⟨id', (Function.update_of_ne ?_ ..).trans hid'⟩
      rintro rfl
      rw [hfree] at hid'
      cases hid'
  · refine entry_eq_some.mpr ⟨hp, hx, ?_, ht, hctx⟩
    rw [show (s.insertConnection id c).connections id = some s.connectionObjects.next from
      Function.update_self .., Option.bind_some,
      show (s.insertConnection id c).connectionObjects.cell s.connectionObjects.next = some c from
        ObjectHeap.cell_alloc_next c]
    rfl
  · intro id' hid
    have hconn : ((s.insertConnection id c).connections id').bind (fun q =>
        ((s.insertConnection id c).connectionObjects.cell q).map fun d => (q, d)) =
        (s.connections id').bind fun q => (s.connectionObjects.cell q).map fun d => (q, d) := by
      rw [show (s.insertConnection id c).connections id' = s.connections id' from
        Function.update_of_ne hid ..]
      refine Option.bind_congr fun q hq => ?_
      obtain ⟨d, hd, -⟩ := h.objects.connection hq
      rw [hcell hd, hd]
    unfold entry
    rw [hconn]
    rfl

theorem Linked.setContext (h : Linked s) (he : s.entry id = some e) (context : Nat) :
    s.setContext id context =
      ({ s with contexts := Function.update s.contexts id (some context) }, true) ∧
    Linked { s with contexts := Function.update s.contexts id (some context) } ∧
    entry { s with contexts := Function.update s.contexts id (some context) } =
      Function.update s.entry id (some { e with context := some context }) := by
  obtain ⟨hp, hx, hc, ht, -⟩ := entry_eq_some.mp he
  refine ⟨?_, ⟨h.objects, h.timers, fun {id'} hid' => ?_⟩, entry_update _ ?_ fun id' hne => ?_⟩
  · unfold TcpService.setContext
    rw [hp]
    rfl
  · obtain ⟨hctx, htimer⟩ := h.keys hid'
    refine ⟨(Function.update_of_ne ?_ ..).trans hctx, htimer⟩
    rintro rfl
    rw [show s.sockets id' = some e.address from hp] at hid'
    cases hid'
  · exact entry_eq_some.mpr ⟨hp, hx, hc, ht, Function.update_self ..⟩
  · unfold entry
    dsimp only
    rw [Function.update_of_ne hne]

/-- What `closeSocket` does to the maps: all that is said about the socket goes. -/
structure Closed (s : TcpService C) (id : SocketId) (s' : TcpService C) : Prop where
  sockets : s'.sockets = Function.update s.sockets id none
  connections : s'.connections = Function.update s.connections id none
  contexts : s'.contexts = Function.update s.contexts id none
  socketToTimerMap : s'.socketToTimerMap = Function.update s.socketToTimerMap id none
  config : s'.config = s.config
  socketIdAllocator : s'.socketIdAllocator = s.socketIdAllocator
  frames : s'.frames = s.frames
  socketNext : s'.socketObjects.next = s.socketObjects.next
  connectionNext : s'.connectionObjects.next = s.connectionObjects.next

section Erase

variable {a b : SocketId → Option Nat} {m : ObjectHeap TcpSocket}
  {n : ObjectHeap (TcpConnection C)}

theorem cell_remove_ne {α : Type} (m : ObjectHeap α) {k l : Nat} (h : k ≠ l) :
    (m.remove l).cell k = m.cell k := if_neg h

theorem cell_remove_self {α : Type} (m : ObjectHeap α) (k : Nat) : (m.remove k).cell k = none :=
  if_pos rfl

theorem ObjectsLinked.eraseConnection (h : ObjectsLinked a b m n) (hq : b id = some q) :
    ObjectsLinked a (Function.update b id none) m (n.remove q) where
  socket := h.socket
  socketLive := h.socketLive
  connection {id' q'} hq' := by
    by_cases hid : id' = id
    · rw [hid, Function.update_self] at hq'
      cases hq'
    · rw [Function.update_of_ne hid] at hq'
      obtain ⟨d, hd, hp⟩ := h.connection hq'
      refine ⟨d, (cell_remove_ne n ?_).trans hd, hp⟩
      rintro rfl
      exact hid (h.connection_inj hq' hq)
  connectionLive {q' d} hd := by
    have hqq : q' ≠ q := by
      rintro rfl
      rw [cell_remove_self] at hd
      cases hd
    obtain ⟨id', hid'⟩ := h.connectionLive ((cell_remove_ne n hqq).symm.trans hd)
    refine ⟨id', (Function.update_of_ne ?_ ..).trans hid'⟩
    rintro rfl
    exact hqq (Option.some.inj (hid'.symm.trans hq))

theorem ObjectsLinked.eraseSocket (h : ObjectsLinked a b m n) (hq : b id = none)
    (hp : a id = some p) : ObjectsLinked (Function.update a id none) b (m.remove p) n where
  socket {id' p'} hp' := by
    by_cases hid : id' = id
    · rw [hid, Function.update_self] at hp'
      cases hp'
    · rw [Function.update_of_ne hid] at hp'
      obtain ⟨z, hz, hzid⟩ := h.socket hp'
      refine ⟨z, (cell_remove_ne m ?_).trans hz, hzid⟩
      rintro rfl
      exact hid (h.socket_inj hp' hp)
  socketLive {p' z} hz := by
    have hpp : p' ≠ p := by
      rintro rfl
      rw [cell_remove_self] at hz
      cases hz
    have hlive := h.socketLive ((cell_remove_ne m hpp).symm.trans hz)
    refine (Function.update_of_ne ?_ ..).trans hlive
    intro heq
    rw [heq, hp] at hlive
    exact hpp (Option.some.inj hlive).symm
  connection {id' q} hq' := by
    obtain ⟨d, hd, hp'⟩ := h.connection hq'
    refine ⟨d, hd, (Function.update_of_ne ?_ ..).trans hp'⟩
    rintro rfl
    rw [hq] at hq'
    cases hq'
  connectionLive := h.connectionLive

end Erase

theorem Linked.eraseConnection (h : Linked s) (id : SocketId) :
    ∃ m, s.eraseConnection id = .ok { s with
        connectionObjects := m, connections := Function.update s.connections id none } ∧
      m.next = s.connectionObjects.next ∧
      Linked { s with
        connectionObjects := m, connections := Function.update s.connections id none } ∧
      entry { s with
        connectionObjects := m, connections := Function.update s.connections id none } =
          Function.update s.entry id ((s.entry id).map ({ · with connection := none })) := by
  cases hq : s.connections id with
  | none =>
    have hsame : Function.update s.connections id none = s.connections := by
      rw [← hq, Function.update_eq_self]
    rw [hsame]
    refine ⟨s.connectionObjects, by unfold TcpService.eraseConnection; rw [hq], rfl, h, ?_⟩
    refine (Function.update_eq_self_iff.mpr ?_).symm
    cases he : s.entry id with
    | none => rfl
    | some e =>
      have hc := h.connections_eq he
      rw [hq] at hc
      have hnone : e.connection = none := by
        cases hce : e.connection with
        | none => rfl
        | some y => rw [hce] at hc; cases hc
      rw [Option.map_some, ← hnone]
  | some q =>
    obtain ⟨e, c, he, hce, hcell, hp⟩ := h.entry_of_connections hq
    have hfree : s.connectionObjects.free q = some (s.connectionObjects.remove q) := by
      rw [ObjectHeap.free, hcell]
      rfl
    refine ⟨s.connectionObjects.remove q, ?_, rfl,
      ⟨h.objects.eraseConnection hq, h.timers, h.keys⟩, entry_update _ ?_ ?_⟩
    · unfold TcpService.eraseConnection
      rw [hq]
      show (do
        let connectionObjects ← orFault .dangling (s.connectionObjects.free q)
        .ok _) = _
      rw [hfree]
      rfl
    · obtain ⟨hp', hx, -, ht, hctx⟩ := entry_eq_some.mp he
      rw [he]
      refine entry_eq_some.mpr ⟨hp', hx, ?_, ht, hctx⟩
      show (Function.update s.connections id none id).bind _ = _
      rw [Function.update_self]
      rfl
    · intro id' hid
      have hconn : (Function.update s.connections id none id').bind (fun q' =>
          ((s.connectionObjects.remove q).cell q').map fun d => (q', d)) =
          (s.connections id').bind fun q' =>
            (s.connectionObjects.cell q').map fun d => (q', d) := by
        rw [Function.update_of_ne hid]
        refine Option.bind_congr fun q' hq' => ?_
        rw [cell_remove_ne]
        rintro rfl
        exact hid (h.connection_inj hq' hq)
      unfold entry
      dsimp only
      rw [hconn]

/-- The end of `closeSocket`, when the timer and the connection have gone. -/
theorem Linked.eraseSocket (h : Linked s) (id : SocketId) (hc : s.connections id = none)
    (ht : s.socketToTimerMap id = none) :
    ∃ m, s.eraseSocket id =
        .ok { s with socketObjects := m, sockets := Function.update s.sockets id none } ∧
      m.next = s.socketObjects.next ∧
      Linked { s with
        socketObjects := m
        sockets := Function.update s.sockets id none
        contexts := Function.update s.contexts id none } ∧
      entry { s with
        socketObjects := m
        sockets := Function.update s.sockets id none
        contexts := Function.update s.contexts id none } = Function.update s.entry id none := by
  cases hp : s.sockets id with
  | none =>
    have hsame : Function.update s.sockets id none = s.sockets := by
      rw [← hp, Function.update_eq_self]
    have hsame' : Function.update s.contexts id none = s.contexts := by
      rw [← (h.keys hp).1, Function.update_eq_self]
    rw [hsame, hsame']
    refine ⟨s.socketObjects, by unfold TcpService.eraseSocket; rw [hp], rfl, h, ?_⟩
    rw [← h.entry_eq_none.mpr hp, Function.update_eq_self]
  | some p =>
    obtain ⟨y, hy, hyid⟩ := h.objects.socket hp
    have hfree : s.socketObjects.free p = some (s.socketObjects.remove p) := by
      rw [ObjectHeap.free, hy]
      rfl
    refine ⟨s.socketObjects.remove p, ?_, rfl,
      ⟨h.objects.eraseSocket hc hp, h.timers, fun {id'} hid' => ?_⟩, entry_update _ ?_ ?_⟩
    · unfold TcpService.eraseSocket
      rw [hp]
      show (do
        let socketObjects ← orFault .dangling (s.socketObjects.free p)
        .ok _) = _
      rw [hfree]
      rfl
    · by_cases hid : id' = id
      · rw [hid]
        exact ⟨Function.update_self .., ht⟩
      · have hkeys := h.keys ((Function.update_of_ne hid ..).symm.trans hid')
        exact ⟨(Function.update_of_ne hid ..).trans hkeys.1, hkeys.2⟩
    · show (Function.update s.sockets id none id).bind _ = _
      rw [Function.update_self]
      rfl
    · intro id' hid
      unfold entry
      dsimp only
      rw [Function.update_of_ne hid, Function.update_of_ne hid]
      refine Option.bind_congr fun p' hp' => ?_
      rw [cell_remove_ne]
      rintro rfl
      exact hid (h.socket_inj hp' hp)

/-- `closeSocket` takes the entry out of the table. -/
theorem Linked.closeSocket (h : Linked s) (id : SocketId) :
    ∃ s', s.closeSocket id = .ok s' ∧ Linked s' ∧ s'.entry = Function.update s.entry id none ∧
      Closed s id s' := by
  obtain ⟨heap, a, b, e₁, h₁, ht₁, ha⟩ := h.removeSocketTimer id
  obtain ⟨m, e₂, hm, h₂, ht₂⟩ := h₁.eraseConnection id
  obtain ⟨n, e₃, hn, h₃, ht₃⟩ := h₂.eraseSocket id (Function.update_self ..) (by
    show a id = none
    rw [ha, Function.update_self])
  refine ⟨_, ?_, h₃, ?_, ⟨rfl, rfl, rfl, ha, rfl, rfl, rfl, hn, hm⟩⟩
  · unfold TcpService.closeSocket
    rw [e₁, Outcome.ok_bind, e₂, Outcome.ok_bind, e₃]
    rfl
  · rw [ht₃, ht₂, Function.update_idem, ht₁, Function.update_idem]

end TcpService

end Brickred
