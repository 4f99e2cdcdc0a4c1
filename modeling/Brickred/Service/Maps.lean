import Brickred.Service.Identity

/-!
# The maps of the service

As long as no timer is lost, the five maps and the timer heap agree with each other.
A timer is lost when `addTimer` returns -1 since the next id is still in use:
`addSocketTimer` puts this result into the maps like any other.
-/

namespace Brickred

variable {C : Type}

/-- If the entry has a timer, the timer is pending. -/
def TcpEntry.TimerPending (e : TcpEntry C) : Prop :=
  ∀ t v, e.timer = some (t, v) → 0 < t ∧ v ≠ none

theorem TcpHazard.TimerSet.pending {z : TcpHazard} {timerCb : TimerCallback}
    {timer : Int × Option (Timer TimerCallback)} (h : z.TimerSet timerCb timer)
    (hz : ¬z.timerLost) : 0 < timer.1 ∧ timer.2 ≠ none := by
  rcases h with ⟨t, u, rfl, hpos, -⟩ | ⟨-, hlost⟩
  · exact ⟨hpos, by simp⟩
  · exact absurd hlost hz

/-- As long as no timer is lost, every move leaves only pending timers. -/
theorem EntryMove.timerPending {cfg : TcpConfig} {z : TcpHazard} {n m : Nat} {a : TcpActor}
    {id : SocketId} {outs : List (TcpOutput C)} {x : Option (TcpEntry C)} {e' : TcpEntry C}
    (hz : ¬z.timerLost) (hx : ∀ e ∈ x, e.TimerPending)
    (h : EntryMove cfg z n m id a outs x (some e')) : e'.TimerPending := by
  cases h with
  | listening | opened | resumed | untimed => exact fun t v htv => by cases htv
  | connecting _ _ _ _ _ _ htimer => exact fun t v htv => (htimer _ htv).pending hz
  | failed _ _ _ htimer | paused _ _ htimer =>
    intro t v htv
    cases htv
    exact htimer.pending hz
  | sent _ _ _ _ hafter =>
    obtain rfl := TcpEntry.afterComplete_eq_some hafter
    exact hx _ rfl
  | @drained e _ _ _ _ _ _ _ _ hafter =>
    obtain rfl := TcpEntry.afterComplete_eq_some hafter
    exact hx e rfl
  | refused | thrown | reported | announced => exact hx _ rfl
  | @started _ e | @queued _ e | @consumed _ e | @context _ e => exact hx e rfl
  | @errored e | @established e | @received e | @peerClosed e | @wrote e => exact hx e rfl

namespace TcpService

variable {s s' : TcpService C} {id : SocketId} {p : Nat} {x : TcpSocket} {t : Int}
  {moves : List (TcpOp C × List (TcpOutput C))}

/-- The steps that lose no timer. -/
abbrev TimedSteps : TcpService C → TcpOp C × List (TcpOutput C) → TcpService C → Prop :=
  Transition.Guarded (fun s move => ¬s.TimerLost move.1) Steps

/-- The maps agree with each other and with the timer heap. -/
structure MapsOk (s : TcpService C) : Prop where
  connections : ∀ {id}, s.connections id ≠ none → s.sockets id ≠ none
  contexts : ∀ {id}, s.contexts id ≠ none → s.sockets id ≠ none
  inverse : ∀ {id t}, s.socketToTimerMap id = some t ↔ s.timerToSocketMap t = some id
  timerPending : ∀ {id t}, s.socketToTimerMap id = some t → s.timerHeap.find? t ≠ none
  timerSocket : ∀ {id t}, s.timerToSocketMap t = some id → s.sockets id ≠ none
  /-- A listening socket that does not wait for connections will do so again. -/
  resumes : ∀ {id p x}, s.sockets id = some p → s.socketObjects.cell p = some x →
    s.connections id = none → x.readCb = none →
    ∃ t u, s.socketToTimerMap id = some t ∧ s.timerHeap.find? t = some u ∧
      u.timerCb = .onListenSocketResumeRead

/-- `closeSocket` has taken a socket out of all maps and changed nothing else. -/
structure ClosedMaps (s : TcpService C) (id : SocketId) (s' : TcpService C) : Prop where
  sockets : s'.sockets = Function.update s.sockets id none
  connections : s'.connections = Function.update s.connections id none
  contexts : s'.contexts = Function.update s.contexts id none
  socketToTimerMap : s'.socketToTimerMap = Function.update s.socketToTimerMap id none
  timerToSocketMap : ∀ t id', s'.timerToSocketMap t = some id' ↔
    id' ≠ id ∧ s.timerToSocketMap t = some id'
  /-- Objects, timers and context of another socket. -/
  entries : ∀ {id'}, id' ≠ id → s'.entry id' = s.entry id'

theorem Invariant.mapsOk (h : Invariant s) (ht : ∀ id, ∀ e ∈ s.entry id, e.TimerPending) :
    MapsOk s := by
  have hl := h.linked
  have htimer : ∀ {id t}, s.socketToTimerMap id = some t →
      ∃ e, s.entry id = some e ∧ e.timer = some (t, s.timerHeap.find? t) ∧ 0 < t ∧
        s.timerHeap.find? t ≠ none := by
    intro id t hid
    cases he : s.entry id with
    | none => exact absurd (hl.keys (hl.entry_eq_none.mp he)).2 (by rw [hid]; simp)
    | some e =>
      obtain ⟨-, -, -, htime, -⟩ := entry_eq_some.mp he
      rw [hid, Option.map_some] at htime
      exact ⟨e, rfl, htime.symm, ht id e he t _ htime.symm⟩
  have hneg : s.timerToSocketMap (-1) = none := by
    by_contra hne
    obtain ⟨id, hid⟩ := Option.ne_none_iff_exists'.mp hne
    obtain ⟨e, -, -, hpos, -⟩ := htimer (hl.timers.lost hid)
    omega
  have hinverse : ∀ {id t}, s.socketToTimerMap id = some t ↔ s.timerToSocketMap t = some id := by
    intro id t
    by_cases hlost : t = -1
    · subst hlost
      rw [hneg]
      refine iff_of_false (fun hid => ?_) (by simp)
      obtain ⟨e, -, -, hpos, -⟩ := htimer hid
      omega
    · exact hl.timers.inverse hlost
  have hkeys : ∀ {id}, s.sockets id = none → s.contexts id = none ∧ s.socketToTimerMap id = none :=
    hl.keys
  refine ⟨fun {id} hne hnone => ?_, fun hne hnone => hne (hkeys hnone).1, hinverse,
    fun {id t} hid => ?_, fun {id t} hid hnone => ?_, fun {id p x} hp hx hc hread => ?_⟩
  · obtain ⟨q, hq⟩ := Option.ne_none_iff_exists'.mp hne
    obtain ⟨c, -, hsock⟩ := hl.objects.connection hq
    rw [hnone] at hsock
    cases hsock
  · obtain ⟨e, -, -, -, hfind⟩ := htimer hid
    exact hfind
  · have hid' := hinverse.mpr hid
    rw [(hkeys hnone).2] at hid'
    cases hid'
  · obtain ⟨e, he, rfl, hcell, -⟩ := hl.entry_of_sockets hp
    obtain rfl := Option.some.inj (hcell.symm.trans hx)
    have hnone : e.connection = none := Option.map_eq_none_iff.mp
      ((hl.connections_eq he).symm.trans hc)
    rcases ((h.good id e he).listener hnone).readCb with ⟨hread', -⟩ | ⟨-, t, v, htime, hcb⟩
    · rw [hread] at hread'
      cases hread'
    · obtain ⟨-, hv⟩ := ht id e he t v htime
      obtain ⟨u, rfl⟩ := Option.ne_none_iff_exists'.mp hv
      have hid : s.socketToTimerMap id = some t := by rw [Linked.timer_eq he, htime]; rfl
      obtain ⟨-, -, -, htime', -⟩ := entry_eq_some.mp he
      rw [htime, hid, Option.map_some] at htime'
      exact ⟨t, u, hid, congrArg Prod.snd (Option.some.inj htime'), hcb u rfl⟩

/-- Every run that loses no timer keeps the timers of the sockets pending. -/
theorem timers_pending (hrun : Transition.Run TimedSteps (init C) moves s) :
    Invariant s ∧ ∀ id, ∀ e ∈ s.entry id, e.TimerPending := by
  refine hrun.invariant (I := fun s => Invariant s ∧ ∀ id, ∀ e ∈ s.entry id, e.TimerPending)
    (fun ⟨hi, ht⟩ ⟨hguard, hstep⟩ => ?_) ⟨invariant_init, by simp [entry_init]⟩
  have hs := hi.step hstep
  exact ⟨hs.invariant, hs.moves.forall_entry (fun hx hmove => hmove.timerPending hguard hx) ht⟩

theorem Invariant.closedMaps (h : Invariant s) (ht : ∀ id, ∀ e ∈ s.entry id, e.TimerPending)
    (id : SocketId) : ∃ s', s.closeSocket id = .ok s' ∧ MapsOk s' ∧ ClosedMaps s id s' := by
  obtain ⟨s', e₁, hd, hent, hc⟩ := h.linked.closeSocket_done
    (z := s.hazard (.closeSocket id)) (a := .user) id rfl
  have hother : ∀ {id'}, id' ≠ id → s'.entry id' = s.entry id' := fun hne => by
    rw [hent, Function.update_of_ne hne]
  have ht' : ∀ id', ∀ e ∈ s'.entry id', e.TimerPending := by
    intro id' e he
    by_cases hid : id' = id
    · rw [hent, hid, Function.update_self] at he
      cases he
    · rw [hother hid] at he
      exact ht id' e he
  have hm := h.mapsOk ht
  have hm' := (hd.stepped_user h).invariant.mapsOk ht'
  refine ⟨s', e₁, hm', hc.sockets, hc.connections, hc.contexts, hc.socketToTimerMap,
    fun t id' => ?_, hother⟩
  rw [← hm'.inverse, ← hm.inverse, hc.socketToTimerMap]
  by_cases hid : id' = id
  · subst hid
    simp
  · rw [Function.update_of_ne hid]
    exact (and_iff_right hid).symm

/-- In every run that loses no timer the maps agree with each other and with the timer
heap, and `closeSocket` takes out exactly what they say about one socket. -/
theorem maps_ok (hrun : Transition.Run TimedSteps (init C) moves s) :
    MapsOk s ∧ ∀ id, ∃ s', s.closeSocket id = .ok s' ∧ MapsOk s' ∧ ClosedMaps s id s' := by
  obtain ⟨hi, ht⟩ := timers_pending hrun
  exact ⟨hi.mapsOk ht, hi.closedMaps ht⟩

/-! ## A lost timer

Connects that are given up use up the timer ids while the first of them is still in
use, until the counter comes back to it. -/

/-- A connect with a timeout, when its socket can be opened. -/
theorem asyncConnect_run (h : Invariant s) (hids : s.entry.IdsMatch) (hconfig : s.config = .init)
    {x : OpenAnswer} (hattached : x.attached = true)
    (hkernel : ∀ p y, s.socketObjects.cell p = some y → y.fd ≠ x.fd) {timeoutMs : Int}
    (htimeout : timeoutMs > 0) (now : Timestamp) :
    ∃ s' r e, Steps s (.asyncConnect (.inProgress x) timeoutMs now,
        [.returnedAsync (s.getId x.fd).2 (some false)]) s' ∧
      s.timerHeap.addTimer now timeoutMs .onAsyncConnectTimeout 1 = some (s'.timerHeap, r) ∧
      s'.entry = Function.update s.entry (s.getId x.fd).2 (some e) ∧
      s'.socketToTimerMap = Function.update s.socketToTimerMap (s.getId x.fd).2 (some r) ∧
      s'.config = s.config ∧ s'.frames = s.frames := by
  obtain ⟨hsocket, hconnection⟩ := h.linked.getId_fresh hids hkernel
  have hid := (idOf_getId s x.fd).pos
  obtain ⟨heap, r, hadd, -⟩ := h.linked.timers.wf.addTimer now timeoutMs .onAsyncConnectTimeout 1
  -- what the code does
  have hrun : ∃ s', s.buildAsyncConnectSocket x timeoutMs now =
      .ok (s', (s.getId x.fd).2) ∧ s'.timerHeap = heap ∧
      s'.socketToTimerMap = Function.update s.socketToTimerMap (s.getId x.fd).2 (some r) := by
    have hs : (s.getId x.fd).1.sockets (s.getId x.fd).2 = none := hsocket
    have hc : (s.getId x.fd).1.connections (s.getId x.fd).2 = none := hconnection
    have hnew : ∃ c, (s.getId x.fd).1.newConnection .connecting = .ok c := by
      unfold newConnection
      rw [show (s.getId x.fd).1.config = .init from hconfig]
      exact ⟨_, rfl⟩
    have htimer : (s.getId x.fd).1.addSocketTimer (s.getId x.fd).2 timeoutMs
        .onAsyncConnectTimeout now = .ok ((s.getId x.fd).1.withTimers heap
          (Function.update s.socketToTimerMap (s.getId x.fd).2 (some r))
          (Function.update s.timerToSocketMap r (some (s.getId x.fd).2))) := by
      unfold addSocketTimer
      rw [show (s.getId x.fd).1.timerHeap = s.timerHeap from rfl, hadd]
      rfl
    obtain ⟨c, hc'⟩ := hnew
    refine ⟨(((s.getId x.fd).1.withTimers heap
      (Function.update s.socketToTimerMap (s.getId x.fd).2 (some r))
      (Function.update s.timerToSocketMap r (some (s.getId x.fd).2))).insertSocket
        ⟨x.fd, (s.getId x.fd).2, none, some .onAsyncConnectSocketWrite⟩).insertConnection
          (s.getId x.fd).2 c, ?_, rfl, rfl⟩
    unfold buildAsyncConnectSocket
    dsimp only
    rw [hattached, hs, hc, hc', Outcome.ok_bind, if_neg (by simp), if_neg (by simp),
      if_pos htimeout, htimer, Outcome.ok_bind]
  obtain ⟨s', hbuild, hheap, hmap⟩ := hrun
  have hbuilt := (buildAsyncConnectSocket_spec
    (z := ⟨False, False, False, True, fun _ => True, fun _ => False⟩) h.linked x timeoutMs now
    trivial fun _ _ _ => trivial).of_ok hbuild
  have hpos : ∀ i : Int, 0 < i → i ≠ -1 := by omega
  have hne := hpos _ hid
  obtain ⟨e, hent⟩ := hbuilt.present hne
  refine ⟨s', r, e, ?_, hheap ▸ hadd, hent, hmap, hbuilt.config, hbuilt.frames⟩
  unfold Steps step asyncConnect
  dsimp only
  rw [hbuild, Outcome.ok_bind, Outcome.ok_bind, if_neg hne]

/-- The maps with a connect that has a timeout. -/
theorem maps_ok_asyncConnect : ∃ s : TcpService Unit,
    (∃ t, s.socketToTimerMap (2 ^ 32 + 3) = some t ∧ s.timerToSocketMap t = some (2 ^ 32 + 3)) ∧
    MapsOk s ∧ ∀ id, ∃ s', s.closeSocket id = .ok s' ∧ MapsOk s' ∧ ClosedMaps s id s' := by
  obtain ⟨s, r, e, hstep, -, -, hmap, -⟩ := asyncConnect_run (C := Unit)
    invariant_init (Reachable.idsMatch ⟨[], .nil⟩) rfl (x := ⟨⟨3, by omega⟩, true⟩) rfl
    (by simp [init, ObjectHeap.empty]) (by decide : (10 : Int) > 0) ⟨0, 0, by decide, by decide⟩
  have hid : ((init Unit).getId ⟨3, by omega⟩).2 = 2 ^ 32 + 3 := rfl
  have hguard : ¬(init Unit).TimerLost (.asyncConnect (.inProgress ⟨⟨3, by omega⟩, true⟩) 10
      ⟨0, 0, by decide, by decide⟩) := by
    rintro ⟨-, -, hbusy⟩
    exact hbusy rfl
  have hall := maps_ok (.cons ⟨hguard, hstep⟩ .nil)
  have hr : s.socketToTimerMap (2 ^ 32 + 3) = some r := by rw [hmap, hid, Function.update_self]
  exact ⟨s, ⟨r, hr, hall.1.inverse.mp hr⟩, hall⟩

/-- `closeSocket` uses no timer id. -/
theorem closeSocket_timerIds (h : Linked s) (id : SocketId) :
    Outcome.Ensures (fun _ => True)
      (fun s' => s'.timerHeap.timerIdAllocator = s.timerHeap.timerIdAllocator) (s.closeSocket id) := by
  unfold closeSocket
  have hremove : Outcome.Ensures (fun _ => True)
      (fun s' => s'.timerHeap.timerIdAllocator = s.timerHeap.timerIdAllocator)
      (s.removeSocketTimer id) := by
    unfold removeSocketTimer
    split
    · exact rfl
    next t _ =>
      obtain ⟨heap, e₁, -, halloc, -⟩ := h.timers.wf.removeTimer t
      rw [e₁]
      exact halloc
  refine hremove.bind fun s₁ h₁ => ?_
  have hconnection : Outcome.Ensures (fun _ => True)
      (fun s' => s'.timerHeap.timerIdAllocator = s.timerHeap.timerIdAllocator)
      (s₁.eraseConnection id) := by
    unfold eraseConnection
    split
    · exact h₁
    · exact .bind_of_forall fun _ => h₁
  refine hconnection.bind fun s₂ h₂ => ?_
  have hsocket : Outcome.Ensures (fun _ => True)
      (fun s' => s'.timerHeap.timerIdAllocator = s.timerHeap.timerIdAllocator)
      (s₂.eraseSocket id) := by
    unfold eraseSocket
    split
    · exact h₂
    · exact .bind_of_forall fun _ => h₂
  exact hsocket.bind fun s₃ h₃ => h₃

/-- One socket, which waits for its connect and has the timer 1; the last timer id is
`n`. -/
structure Waiting (n : Int) (s : TcpService C) : Prop where
  reachable : Reachable s
  config : s.config = .init
  entry : ∃ id e u, s.entry = Function.update (fun _ => none) id (some e) ∧
    e.socket.fd.val = 3 ∧ e.timer = some (1, some u)
  allocator : s.timerHeap.timerIdAllocator = n

theorem Waiting.kernel {n : Int} (h : Waiting n s) (fd : Descriptor) (hfd : fd.val ≠ 3) :
    ∀ p x, s.socketObjects.cell p = some x → x.fd ≠ fd := by
  intro p x hx heq
  obtain ⟨id, e, u, hent, hfd', -⟩ := h.entry
  obtain ⟨e', he', -, rfl⟩ := h.reachable.invariant.linked.entry_of_cell hx
  rw [hent] at he'
  by_cases hid : e'.socket.id = id
  · rw [hid, Function.update_self] at he'
    obtain rfl := Option.some.inj he'
    exact hfd (heq ▸ hfd')
  · rw [Function.update_of_ne hid] at he'
    cases he'

/-- A connect that is given up uses a timer id. -/
theorem Waiting.next {n : Int} (h : Waiting n s) (hn : n ≠ 2 ^ 63 - 1) :
    ∃ s' : TcpService C, Waiting (n + 1) s' := by
  obtain ⟨s₁, r, e, hstep, hadd, hent, -, hconfig, -⟩ := asyncConnect_run h.reachable.invariant
    h.reachable.idsMatch h.config (x := ⟨⟨4, by omega⟩, true⟩) rfl
    (h.kernel _ (by simp)) (by decide : (10 : Int) > 0) ⟨0, 0, by decide, by decide⟩
  have hs₁ : Reachable s₁ := h.reachable.run (.cons hstep .nil)
  obtain ⟨s₂, hclose, -, hent₂, hclosed⟩ := hs₁.invariant.linked.closeSocket
    (s.getId ⟨4, by omega⟩).2
  have hstep₂ : Steps s₁ (.closeSocket (s.getId ⟨4, by omega⟩).2, []) s₂ := by
    show (do
      let s ← s₁.closeSocket _
      .ok (s, [])) = _
    rw [hclose]
    rfl
  obtain ⟨hsocket, -⟩ := h.reachable.invariant.linked.getId_fresh h.reachable.idsMatch
    (h.kernel ⟨4, by omega⟩ (by simp))
  have hsame : s₂.entry = s.entry := by
    rw [hent₂, hent, Function.update_idem]
    exact Function.update_eq_self_iff.mpr
      (h.reachable.invariant.linked.entry_eq_none.mpr hsocket).symm
  refine ⟨s₂, hs₁.run (.cons hstep₂ .nil), (hclosed.config.trans hconfig).trans h.config,
    hsame ▸ h.entry, ?_⟩
  rw [(closeSocket_timerIds hs₁.invariant.linked _).of_ok hclose, TimerHeap.allocator_addTimer hadd]
  unfold TimerHeap.getId
  dsimp only
  rw [h.allocator, if_neg hn]

/-- A connect with a timeout, from a new service. -/
theorem waiting_one : ∃ s : TcpService Unit, Waiting 1 s := by
  obtain ⟨s, r, e, hstep, hadd, hent, hmap, hconfig, -⟩ := asyncConnect_run (C := Unit)
    invariant_init (Reachable.idsMatch ⟨[], .nil⟩) rfl (x := ⟨⟨3, by omega⟩, true⟩) rfl
    (by simp [init, ObjectHeap.empty]) (by decide : (10 : Int) > 0) ⟨0, 0, by decide, by decide⟩
  have hs : Reachable s := ⟨_, .cons hstep .nil⟩
  have he := (congrFun hent _).trans (Function.update_self ..)
  obtain ⟨h', r', hadd', -, halloc, hcase⟩ := (linked_init (C := Unit)).timers.wf.addTimer
    ⟨0, 0, by decide, by decide⟩ 10 .onAsyncConnectTimeout 1
  obtain ⟨rfl, rfl⟩ := Prod.mk.inj (Option.some.inj (hadd.symm.trans hadd'))
  have hfree : (init Unit).timerHeap.find? (init Unit).timerHeap.getId.2 = none := rfl
  rw [if_pos hfree] at hcase
  obtain ⟨rfl, hfind⟩ := hcase
  have htimer : e.timer = some (1, s.timerHeap.find? 1) := by
    obtain ⟨-, -, -, htimer, -⟩ := entry_eq_some.mp he
    rw [← htimer, hmap, Function.update_self]
    rfl
  have hone : s.timerHeap.find? 1 = some (TimerHeap.newTimer 1 ⟨0, 0, by decide, by decide⟩ 10
      .onAsyncConnectTimeout 1) := by
    rw [hfind]
    exact Function.update_self ..
  refine ⟨s, hs, hconfig, ⟨_, e, _, hent, ?_, htimer.trans (congrArg _ (congrArg _ hone))⟩, halloc⟩
  rw [(hs.idsMatch _ e he).fd_inj (idOf_getId (init Unit) ⟨3, by omega⟩)]

/-- In this state the next timer id is that of a pending timer. -/
theorem Waiting.lost (h : Waiting (2 ^ 63 - 1) s) : ∃ s' : TcpService C, Reachable s' ∧
    ∃ id, s'.socketToTimerMap id = some (-1) ∧ s'.timerHeap.find? (-1) = none := by
  obtain ⟨s', r, e, hstep, hadd, -, hmap, -, -⟩ := asyncConnect_run h.reachable.invariant
    h.reachable.idsMatch h.config (x := ⟨⟨4, by omega⟩, true⟩) rfl
    (h.kernel _ (by simp)) (by decide : (10 : Int) > 0) ⟨0, 0, by decide, by decide⟩
  have hs' : Reachable s' := h.reachable.run (.cons hstep .nil)
  refine ⟨s', hs', (s.getId ⟨4, by omega⟩).2, ?_,
    hs'.invariant.linked.timers.wf.find?_of_nonpos (by decide)⟩
  have hbusy : s.timerHeap.find? s.timerHeap.getId.2 ≠ none := by
    obtain ⟨id, eA, u, hent, -, htimer⟩ := h.entry
    have he := (congrFun hent id).trans (Function.update_self ..)
    obtain ⟨-, -, -, hmap', -⟩ := entry_eq_some.mp he
    rw [htimer] at hmap'
    obtain ⟨t, -, ht⟩ := Option.map_eq_some_iff.mp hmap'
    obtain ⟨rfl, hu⟩ := Prod.mk.inj ht
    have hnext : s.timerHeap.getId.2 = 1 := by
      unfold TimerHeap.getId
      dsimp only
      rw [h.allocator, if_pos rfl]
    rw [hnext, hu]
    simp
  obtain ⟨h', r', hadd', -, -, hcase⟩ := h.reachable.invariant.linked.timers.wf.addTimer
    ⟨0, 0, by decide, by decide⟩ 10 .onAsyncConnectTimeout 1
  obtain ⟨rfl, rfl⟩ := Prod.mk.inj (Option.some.inj (hadd.symm.trans hadd'))
  rw [if_neg hbusy] at hcase
  rw [hmap, Function.update_self, hcase.1]

/-- After `2 ^ 63 - 1` timers a socket has a timer in the maps that is not pending. -/
theorem timer_lost : ∃ s : TcpService Unit, Reachable s ∧ ∃ id t,
    s.socketToTimerMap id = some t ∧ s.timerHeap.find? t = none := by
  have hall : ∀ k : Nat, k < 2 ^ 63 - 1 → ∃ s : TcpService Unit, Waiting (k + 1) s := by
    intro k
    induction k with
    | zero => exact fun _ => waiting_one
    | succ k ih =>
      intro hk
      obtain ⟨s, hs⟩ := ih (Nat.lt_of_succ_lt hk)
      have hn : (k : Int) + 1 ≠ 2 ^ 63 - 1 := by omega
      exact hs.next hn
  obtain ⟨s, hs⟩ := hall (2 ^ 63 - 2) (by decide)
  obtain ⟨s', hs', id, hmap, hfind⟩ := hs.lost
  exact ⟨s', hs', id, -1, hmap, hfind⟩

end TcpService

end Brickred
