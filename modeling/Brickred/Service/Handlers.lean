import Brickred.Service.Sending

/-!
# What the handlers do

The specification `Done` for opening sockets, for the handlers of events and for
what follows a callback.
-/

namespace Brickred

variable {C : Type}

namespace TcpService

variable {s s' : TcpService C} {z : TcpHazard} {a : TcpActor} {id : SocketId}
  {e : TcpEntry C} {p q : Nat} {x : TcpSocket} {c : TcpConnection C}
  {outs : List (TcpOutput C)} {socket : OpenAnswer}

/-! ## Opening sockets -/

theorem idOf_getId (s : TcpService C) (fd : Descriptor) : IdOf (s.getId fd).2 fd := by
  refine ⟨if s.socketIdAllocator = 2 ^ 31 - 1 then 1 else s.socketIdAllocator + 1, ?_, rfl⟩
  split <;> omega

/-- Using up a socket id. -/
theorem Linked.getId (h : Linked s) (fd : Descriptor) : Linked (s.getId fd).1 :=
  ⟨h.objects, h.timers, h.keys⟩

theorem newConnection_fresh (s : TcpService C) (status : TcpConnection.Status) :
    Outcome.Ensures (· = .buffer)
      (fun c => c.status = status ∧ c.Fresh s.socketObjects.next) (s.newConnection status) := by
  unfold newConnection
  cases hr : DynamicBuffer.construct s.config.connReadBufferInitSize
      s.config.connReadBufferExpandSize with
  | none => exact rfl
  | some readBuffer =>
    cases hw : DynamicBuffer.construct s.config.connWriteBufferInitSize
        s.config.connWriteBufferExpandSize with
    | none => exact rfl
    | some writeBuffer =>
      exact ⟨rfl, rfl, DynamicBuffer.readable_construct hr, DynamicBuffer.readable_construct hw, rfl⟩

/-- A socket and its connection are put into the maps. -/
theorem Linked.insertBoth (h : Linked s) (hnone : s.sockets x.id = none)
    (hc : c.socket = s.socketObjects.next) :
    Linked ((s.insertSocket x).insertConnection x.id c) ∧
      ((s.insertSocket x).insertConnection x.id c).entry = Function.update s.entry x.id
        (some ⟨s.socketObjects.next, x, some (s.connectionObjects.next, c), none, none⟩) := by
  obtain ⟨hl, hent⟩ := h.insertSocket hnone
  have he := (congrFun hent x.id).trans (Function.update_self ..)
  obtain ⟨hl', hent'⟩ := hl.insertConnection he rfl hc
  refine ⟨hl', hent'.trans ?_⟩
  rw [hent, Function.update_idem]
  rfl

/-- What building a socket leads to: an id that is used up, or a socket that is
there. -/
structure Built (z : TcpHazard) (s s' : TcpService C) (id : SocketId)
    (outs : List (TcpOutput C)) : Prop where
  linked : Linked s'
  config : s'.config = s.config
  frames : s'.frames = s.frames
  socketNext : s.socketObjects.next ≤ s'.socketObjects.next
  connectionNext : s.connectionObjects.next ≤ s'.connectionObjects.next
  moves : ∀ {a}, Moves s.config z s.socketObjects.next s.connectionObjects.next a s.entry outs
    s'.entry
  /-- The sockets that were there are still there. -/
  old : ∀ {p x}, s.socketObjects.cell p = some x → s'.socketObjects.cell p = some x
  present : id ≠ -1 → ∃ e, s'.entry = Function.update s.entry id (some e)

theorem Built.done (h : Built z s s' id outs) (hcalls : ∀ o ∈ outs, o.callees = []) :
    Done z a s s' outs :=
  ⟨h.linked, h.moves, h.config, h.socketNext, h.connectionNext, .quiet h.frames hcalls⟩

theorem Built.sockets_ne (h : Built z s s' id outs) (hid : id ≠ -1) : s'.sockets id ≠ none := by
  obtain ⟨e, hent⟩ := h.present hid
  exact Linked.present_of_entry ((congrFun hent id).trans (Function.update_self ..))

/-- Nothing but an id has been used. -/
theorem Linked.built_getId (h : Linked s) (fd : Descriptor) : Built z s (s.getId fd).1 (-1) [] :=
  ⟨h.getId fd, rfl, rfl, le_rfl, le_rfl, .refl _, fun hx => hx, fun hne => absurd rfl hne⟩

theorem cell_insertSocket {y : TcpSocket} (hx : s.socketObjects.cell p = some x) :
    (s.insertSocket y).socketObjects.cell p = some x :=
  (if_neg (Nat.ne_of_lt (ObjectHeap.lt_next hx))).trans hx

theorem buildListenSocket_spec (h : Linked s) (socket : OpenAnswer)
    (hopens : z.opens (s.getId socket.fd).2) :
    Built z s (s.buildListenSocket socket).1 (s.buildListenSocket socket).2 [] := by
  unfold buildListenSocket
  by_cases hattached : socket.attached = true
  case neg =>
    rw [Bool.not_eq_true] at hattached
    rw [hattached]
    exact h.built_getId socket.fd
  rw [hattached]
  dsimp only
  rw [if_neg (by simp)]
  cases hin : (s.getId socket.fd).1.sockets (s.getId socket.fd).2 with
  | some p => exact h.built_getId socket.fd
  | none =>
    obtain ⟨hl, hent⟩ := (h.getId socket.fd).insertSocket
      (x := ⟨socket.fd, (s.getId socket.fd).2, some .onListenSocketRead, none⟩) hin
    refine ⟨hl, rfl, rfl, Nat.le_succ _, le_rfl, ?_, cell_insertSocket, fun _ => ?_⟩
    · exact .one (h.entry_eq_none.mpr hin) (.listening (idOf_getId s socket.fd) hopens le_rfl) hent
    · exact ⟨_, hent⟩

/-- The socket that `accept` or `connect` has opened, and whether the user is told. -/
theorem buildConnectedSocket_spec (h : Linked s) (socket : OpenAnswer)
    (hopens : z.opens (s.getId socket.fd).2) :
    Outcome.Ensures (· = .buffer)
      (fun r => Built z s r.1 r.2 [] ∧ r.1.timerHeap = s.timerHeap ∧
        (r.2 ≠ -1 → ∀ listenId,
          Built z s r.1 r.2 [.newConnection listenId s.connectionObjects.next r.2]))
      (s.buildConnectedSocket socket) := by
  unfold buildConnectedSocket
  by_cases hattached : socket.attached = true
  case neg =>
    rw [Bool.not_eq_true] at hattached
    rw [hattached]
    exact ⟨h.built_getId socket.fd, rfl, fun hne => absurd rfl hne⟩
  rw [hattached]
  dsimp only
  rw [if_neg (by simp)]
  refine Outcome.Ensures.bind (newConnection_fresh _ _) fun c ⟨hstatus, hfresh⟩ => ?_
  cases hin : (s.getId socket.fd).1.sockets (s.getId socket.fd).2 with
  | some p => exact ⟨h.built_getId socket.fd, rfl, fun hne => absurd rfl hne⟩
  | none =>
    have hconn : (s.getId socket.fd).1.connections (s.getId socket.fd).2 = none := by
      by_contra hne
      obtain ⟨q, hq⟩ := Option.ne_none_iff_exists'.mp hne
      obtain ⟨c, -, hp⟩ := (h.getId socket.fd).objects.connection hq
      rw [hin] at hp
      cases hp
    rw [hconn]
    obtain ⟨hl, hent⟩ := (h.getId socket.fd).insertBoth (c := c)
      (x := ⟨socket.fd, (s.getId socket.fd).2, some .onSocketRead, none⟩) hin hfresh.socket
    have hbuilt : ∀ outs : List (TcpOutput C), (outs = [] ∨ ∃ listenId, outs =
          [.newConnection listenId s.connectionObjects.next (s.getId socket.fd).2]) →
        Built z s (((s.getId socket.fd).1.insertSocket
          ⟨socket.fd, (s.getId socket.fd).2, some .onSocketRead, none⟩).insertConnection
            (s.getId socket.fd).2 c) (s.getId socket.fd).2 outs := by
      intro outs houts
      refine ⟨hl, rfl, rfl, Nat.le_succ _, Nat.le_succ _, ?_, cell_insertSocket, fun _ => ?_⟩
      · exact .one (h.entry_eq_none.mpr hin) (.opened (idOf_getId s socket.fd) hopens le_rfl le_rfl
          hstatus hfresh houts) hent
      · exact ⟨_, hent⟩
    exact ⟨hbuilt [] (.inl rfl), rfl, fun _ listenId => hbuilt _ (.inr ⟨listenId, rfl⟩)⟩

/-- Starting a timer and inserting into the maps can be exchanged. -/
theorem addSocketTimer_insert (s : TcpService C) (id : SocketId) (timeoutMs : Int)
    (timerCb : TimerCallback) (now : Timestamp) (x : TcpSocket) (c : TcpConnection C) :
    (do
      let s ← s.addSocketTimer id timeoutMs timerCb now
      .ok ((s.insertSocket x).insertConnection id c)) =
    ((s.insertSocket x).insertConnection id c).addSocketTimer id timeoutMs timerCb now := by
  unfold addSocketTimer
  rw [show ((s.insertSocket x).insertConnection id c).timerHeap = s.timerHeap from rfl]
  cases s.timerHeap.addTimer now timeoutMs timerCb 1 <;> rfl

theorem buildAsyncConnectSocket_spec (h : Linked s) (socket : OpenAnswer) (timeoutMs : Int)
    (now : Timestamp) (hopens : z.opens (s.getId socket.fd).2)
    (hbusy : socket.attached = true → timeoutMs > 0 → s.NextTimerBusy → z.timerLost) :
    Outcome.Ensures (· = .buffer) (fun r => Built z s r.1 r.2 [])
      (s.buildAsyncConnectSocket socket timeoutMs now) := by
  unfold buildAsyncConnectSocket
  by_cases hattached : socket.attached = true
  case neg =>
    rw [Bool.not_eq_true] at hattached
    rw [hattached]
    exact h.built_getId socket.fd
  rw [hattached]
  dsimp only
  rw [if_neg (by simp)]
  refine Outcome.Ensures.bind (newConnection_fresh _ _) fun c ⟨hstatus, hfresh⟩ => ?_
  cases hin : (s.getId socket.fd).1.sockets (s.getId socket.fd).2 with
  | some p => exact h.built_getId socket.fd
  | none =>
    have hconn : (s.getId socket.fd).1.connections (s.getId socket.fd).2 = none := by
      by_contra hne
      obtain ⟨q, hq⟩ := Option.ne_none_iff_exists'.mp hne
      obtain ⟨c, -, hp⟩ := (h.getId socket.fd).objects.connection hq
      rw [hin] at hp
      cases hp
    rw [hconn]
    obtain ⟨hl, hent⟩ := (h.getId socket.fd).insertBoth (c := c)
      (x := ⟨socket.fd, (s.getId socket.fd).2, none, some .onAsyncConnectSocketWrite⟩) hin
      hfresh.socket
    by_cases htimeout : timeoutMs > 0
    · -- with a timer
      have he := (congrFun hent _).trans (Function.update_self ..)
      obtain ⟨heap, b, b', timer, e₁, hl', hent', hstart⟩ :=
        hl.addSocketTimer he rfl timeoutMs (by simp : TimerCallback.onAsyncConnectTimeout ≠ .user) now
      have hrun := (addSocketTimer_insert (s.getId socket.fd).1 (s.getId socket.fd).2 timeoutMs
        .onAsyncConnectTimeout now
        ⟨socket.fd, (s.getId socket.fd).2, none, some .onAsyncConnectSocketWrite⟩ c).trans e₁
      have hbuilt : Built z s ((((s.getId socket.fd).1.insertSocket
          ⟨socket.fd, (s.getId socket.fd).2, none, some .onAsyncConnectSocketWrite⟩).insertConnection
            (s.getId socket.fd).2 c).withTimers heap b b') (s.getId socket.fd).2 [] := by
        have hent₁ := hent'.trans (by rw [hent, Function.update_idem])
        refine ⟨hl', rfl, rfl, Nat.le_succ _, Nat.le_succ _, ?_, cell_insertSocket,
          fun _ => ⟨_, hent₁⟩⟩
        · refine .one (h.entry_eq_none.mpr hin) (.connecting (idOf_getId s socket.fd) hopens le_rfl
            le_rfl hstatus hfresh fun y hy => ?_) hent₁
          obtain rfl := Option.mem_some.mp hy
          exact TimerStarted.timerSet (s := s) (hbusy hattached htimeout) hstart
      cases hadd : (s.getId socket.fd).1.addSocketTimer (s.getId socket.fd).2 timeoutMs
          .onAsyncConnectTimeout now with
      | error f =>
        rw [hadd] at hrun
        cases hrun
      | ok s₁ =>
        rw [hadd, Outcome.ok_bind] at hrun
        rw [if_neg (by simp), if_pos htimeout, Outcome.ok_bind, Outcome.ensures_ok]
        rwa [Except.ok.inj hrun]
    · rw [if_neg (by simp), if_neg htimeout]
      refine ⟨hl, rfl, rfl, Nat.le_succ _, Nat.le_succ _, ?_, cell_insertSocket,
        fun _ => ⟨_, hent⟩⟩
      exact .one (h.entry_eq_none.mpr hin)
        (.connecting (idOf_getId s socket.fd) hopens le_rfl le_rfl hstatus hfresh (by simp)) hent

/-! ## The accept loop -/

/-- The listening socket is disabled and its timer is started. -/
theorem Linked.pause_meets (h : Linked s) (hg : s.entry.Good)
    (hx : s.socketObjects.cell p = some x) (hread : x.readCb = some .onListenSocketRead)
    (hbusy : s.NextTimerBusy → z.timerLost) (timeoutMs : Int) (now : Timestamp) :
    Meets z .handler s (do
      let s ← (s.setSocket p ({ · with readCb := none })).addSocketTimer x.id timeoutMs
        .onListenSocketResumeRead now
      .ok (s, [])) := by
  obtain ⟨e, he, rfl, rfl⟩ := h.entry_of_cell hx
  obtain ⟨hnone, htimer⟩ := (hg _ e he).of_listening hread
  have h₁ := h.setSocket (f := ({ · with readCb := none })) (fun _ => rfl) e.address
  have ht₁ := entry_setSocket h he ({ · with readCb := none })
  have he₁ := (congrFun ht₁ e.socket.id).trans (Function.update_self ..)
  obtain ⟨heap, b, b', timer, e₁, hl, hent, hstart⟩ :=
    h₁.addSocketTimer he₁ htimer timeoutMs (by simp : TimerCallback.onListenSocketResumeRead ≠ .user) now
  rw [e₁, Outcome.ok_bind]
  refine ⟨hl, .one he (.paused hnone hread (TimerStarted.timerSet (s := s) hbusy hstart)) ?_, rfl,
    le_rfl, le_rfl, .quiet rfl (by simp)⟩
  rw [hent, ht₁, Function.update_idem]

/-- The sockets that the accept loop builds, each with the state before it. -/
def acceptBuilds : TcpService C → List AcceptAnswer → List (TcpService C × OpenAnswer)
  | s, .aborted :: answers => acceptBuilds s answers
  | s, .accepted socket :: answers =>
    (s, socket) ::
      match s.buildConnectedSocket socket with
      | .ok (s', socketId) =>
        if socketId = -1 ∨ s'.config.newConnCb = true then [] else acceptBuilds s' answers
      | .error _ => []
  | _, _ => []

/-- The accept loop starts a timer while the next timer id is still in use. -/
def PauseLost (s : TcpService C) (answers : List AcceptAnswer) : Prop :=
  s.config.acceptPauseTimeWhenExceedOpenFileLimit > 0 ∧
    (∃ now, .outOfDescriptors now ∈ answers) ∧ s.NextTimerBusy

theorem onListenSocketRead_meets (h : Linked s) (hg : s.entry.Good) (hframes : s.frames = [])
    (hx : s.socketObjects.cell p = some x) (hread : x.readCb = some .onListenSocketRead)
    (answers : List AcceptAnswer)
    (hopens : ∀ b ∈ acceptBuilds s answers, z.opens (b.1.getId b.2.fd).2)
    (hbusy : s.PauseLost answers → z.timerLost) :
    Meets z .handler s (onListenSocketRead p s answers) := by
  induction answers generalizing s with
  | nil =>
    unfold onListenSocketRead
    rw [socketAt_eq hx, Outcome.ok_bind]
    exact .refl h
  | cons answer answers ih =>
    unfold onListenSocketRead
    rw [socketAt_eq hx, Outcome.ok_bind]
    cases answer with
    | aborted =>
      refine ih h hg hframes hx hopens fun ⟨hpause, ⟨now, hnow⟩, hlost⟩ =>
        hbusy ⟨hpause, ⟨now, List.mem_cons_of_mem _ hnow⟩, hlost⟩
    | failed => exact .refl h
    | outOfDescriptors now =>
      dsimp only
      split
      next hpause =>
        exact h.pause_meets hg hx hread
          (fun hlost => hbusy ⟨hpause, ⟨now, List.mem_cons_self⟩, hlost⟩) _ now
      · exact .refl h
    | accepted socket =>
      have hopen : z.opens (s.getId socket.fd).2 := hopens (s, socket) List.mem_cons_self
      dsimp only
      cases hb : s.buildConnectedSocket socket with
      | error fault => exact (buildConnectedSocket_spec h socket hopen).of_error hb
      | ok r =>
      obtain ⟨s₁, id₁⟩ := r
      obtain ⟨hbuilt, hheap, htold⟩ := (buildConnectedSocket_spec h socket hopen).of_ok hb
      rw [Outcome.ok_bind]
      dsimp only at hbuilt hheap htold ⊢
      by_cases hfail : id₁ = -1
      · rw [if_pos hfail]
        exact hbuilt.done (by simp)
      rw [if_neg hfail]
      have hbuilt' := htold hfail x.id
      by_cases hcb : s₁.config.newConnCb = true
      · rw [if_pos hcb]
        refine ⟨hbuilt'.linked.invoke _, hbuilt'.moves, hbuilt'.config, hbuilt'.socketNext,
          hbuilt'.connectionNext, .inr ⟨.onListenSocketRead p, ?_, .inr ⟨hframes, ?_, ?_⟩, ?_⟩⟩
        · exact congrArg _ hbuilt'.frames
        · exact (ObjectHeap.lt_next hx).trans_le hbuilt'.socketNext
        · intro y hy
          obtain rfl := Option.some.inj ((hbuilt'.old hx).symm.trans hy)
          exact hread
        · intro o ho i hi
          obtain rfl := List.mem_singleton.mp ho
          have hi : i = x.id ∨ i = id₁ := by simpa [TcpOutput.callees] using hi
          rcases hi with rfl | rfl
          · rw [show (s₁.invoke (.onListenSocketRead p)).sockets x.id = some p from
              hbuilt'.linked.objects.socketLive (hbuilt'.old hx)]
            simp
          · exact hbuilt'.sockets_ne hfail
      · rw [if_neg hcb]
        have hd₁ : Done z .handler s s₁ [] := hbuilt.done (by simp)
        have hg₁ := (hbuilt.moves (a := .handler)).good hg
        have hrest := ih hbuilt.linked hg₁ (hbuilt.frames.trans hframes) (hbuilt.old hx) ?_ ?_
        · exact Outcome.Ensures.mono hrest
            (fun r hr => hd₁.trans hbuilt.frames (by simp) hr) fun _ he => he
        · intro b hmem
          refine hopens b (List.mem_cons_of_mem _ ?_)
          rw [hb]
          show b ∈ if id₁ = -1 ∨ s₁.config.newConnCb = true then [] else acceptBuilds s₁ answers
          rwa [if_neg (not_or.mpr ⟨hfail, hcb⟩)]
        · rintro ⟨hpause, ⟨now, hnow⟩, hlost⟩
          refine hbusy ⟨hbuilt.config ▸ hpause, ⟨now, List.mem_cons_of_mem _ hnow⟩, ?_⟩
          unfold NextTimerBusy at hlost ⊢
          rwa [hheap] at hlost

/-! ## Errors -/

/-- An error of a connection is kept, and reported if the user wants to know. -/
theorem Linked.setErrorAndReport_done (h : Linked s) (he : s.entry id = some e)
    (hc : e.connection = some (q, c)) (errorCode : Int) :
    Done z .handler s (s.setErrorAndReport q id errorCode).1
      (s.setErrorAndReport q id errorCode).2 := by
  have h₁ := h.setConnection (f := (·.setError errorCode)) (fun _ => rfl) q
  have ht₁ := entry_setConnection h he hc (·.setError errorCode)
  unfold setErrorAndReport
  by_cases hcb : (s.setConnection q (·.setError errorCode)).config.errorCb = true
  · rw [if_pos hcb]
    refine ⟨h₁.invoke _, .one he (.errored hc (.inr rfl)) ht₁, rfl, le_rfl, le_rfl, .invoke ?_⟩
    intro o ho i hi
    obtain rfl := List.mem_singleton.mp ho
    obtain rfl := List.mem_singleton.mp hi
    exact Linked.present_of_entry ((congrFun ht₁ _).trans (Function.update_self ..))
  · rw [if_neg hcb]
    exact ⟨h₁, .one he (.errored hc (.inl rfl)) ht₁, rfl, le_rfl, le_rfl, .quiet rfl (by simp)⟩

theorem onSocketError_meets (h : Linked s) (hx : s.socketObjects.cell p = some x)
    (socketError : Int) : Meets z .handler s (s.onSocketError p socketError) := by
  obtain ⟨e, he, rfl, rfl⟩ := h.entry_of_cell hx
  unfold onSocketError
  rw [socketAt_eq hx, Outcome.ok_bind]
  cases hq : s.connections e.socket.id with
  | none => exact .refl h
  | some q =>
    obtain ⟨e', c, he', hc, hcell, -⟩ := h.entry_of_connections hq
    obtain rfl := Option.some.inj (he.symm.trans he')
    dsimp only
    rw [connectionAt_eq hcell, Outcome.ok_bind]
    exact h.setErrorAndReport_done he hc socketError

/-! ## Timers -/

/-- What follows the start of a timer handler, when the timer is that of an entry:
it is no longer in the maps. -/
theorem takeTimer_eq_some {s₁ : TcpService C} {t : Int}
    (ht : s.takeTimer t = some (s₁, id)) :
    s.timerToSocketMap t = some id ∧
      s₁ = s.withTimers s.timerHeap (Function.update s.socketToTimerMap id none)
        (Function.update s.timerToSocketMap t none) := by
  obtain ⟨i, hi, heq⟩ := Option.map_eq_some_iff.mp ht
  cases heq
  exact ⟨hi, rfl⟩

/-- A timer has expired and left the heap `s` had; `s₁` is `s` with the heap that is
left. -/
structure Fired (s s₁ : TcpService C) (u : Timer TimerCallback) : Prop where
  /-- The timer of no socket. -/
  unknown : ∀ {z}, s₁.timerToSocketMap u.id = none → Done z .handler s s₁ []
  /-- The timer of a socket, which is now taken out of the maps. -/
  known : ∀ {s₂ id}, s₁.takeTimer u.id = some (s₂, id) → u.timerCb ≠ .user ∧ Linked s₂ ∧
    s₂.config = s.config ∧ s₂.frames = s.frames ∧ s₂.socketObjects = s.socketObjects ∧
    s₂.connectionObjects = s.connectionObjects ∧
    ∃ e, s.entry id = some e ∧ e.timer = some (u.id, some u) ∧
      s₂.entry = Function.update s.entry id (some { e with timer := none })

theorem Linked.fired (h : Linked s) {heap : TimerHeap TimerCallback} (hw : heap.Wf)
    {u : Timer TimerCallback} {v : Option (Timer TimerCallback)}
    (hu : s.timerHeap.find? u.id = some u)
    (hfind : heap.find? = Function.update s.timerHeap.find? u.id v) :
    Fired s { s with timerHeap := heap } u := by
  obtain ⟨hunknown, hknown⟩ := h.fire hw hu hfind
  constructor
  · intro z hnone
    obtain ⟨hl, hent⟩ := hunknown hnone
    exact ⟨hl, hent ▸ .refl _, rfl, le_rfl, le_rfl, .quiet rfl (by simp)⟩
  · intro s₂ id ht
    obtain ⟨hid, rfl⟩ := takeTimer_eq_some ht
    obtain ⟨hcb, e, he, htimer, hl, hent⟩ := hknown id hid
    exact ⟨hcb, hl, rfl, rfl, rfl, rfl, e, he, htimer, hent⟩

section Timers

variable {s₁ : TcpService C} {u : Timer TimerCallback} (hf : Fired s s₁ u) (hg : s.entry.Good)
include hf hg

theorem onListenSocketResumeRead_meets (hcb : u.timerCb = .onListenSocketResumeRead) :
    Meets z .handler s (s₁.onListenSocketResumeRead u.id) := by
  unfold onListenSocketResumeRead
  cases ht : s₁.takeTimer u.id with
  | none =>
    exact hf.unknown (Option.map_eq_none_iff.mp ht)
  | some r =>
    obtain ⟨s₂, id⟩ := r
    obtain ⟨-, hl, hconfig, hframes, hso, hco, e, he, htimer, hent⟩ := hf.known ht
    have he₂ := (congrFun hent id).trans (Function.update_self ..)
    dsimp only
    rw [(entry_eq_some.mp he₂).1]
    dsimp only
    rw [socketAt_entry he₂, Outcome.ok_bind]
    have hnone : e.connection = none := by
      by_contra hne
      obtain ⟨⟨q, c⟩, hc⟩ := Option.ne_none_iff_exists'.mp hne
      rcases ((hg id e he).connection hc).timer u.id u htimer with hcb' | hcb' <;>
        rw [hcb] at hcb' <;> cases hcb'
    have h₃ := hl.setSocket (f := ({ · with readCb := some .onListenSocketRead }))
      (fun _ => rfl) e.address
    have ht₃ := entry_setSocket hl he₂ ({ · with readCb := some .onListenSocketRead })
    refine ⟨h₃, .one he (.resumed hnone) ?_, hconfig, ?_, ?_, .quiet hframes (by simp)⟩
    · rw [ht₃, hent, Function.update_idem]
    · exact le_of_eq (congrArg ObjectHeap.next hso).symm
    · exact le_of_eq (congrArg ObjectHeap.next hco).symm

/-- A timer of a connection has been taken out of the maps. -/
theorem Fired.untimed {s₂ : TcpService C} (ht : s₁.takeTimer u.id = some (s₂, id))
    (hcb : u.timerCb ≠ .onListenSocketResumeRead) :
    Done z .handler s s₂ [] ∧ s₂.frames = s.frames ∧ ∃ e q c, s₂.entry id = some e ∧
      e.connection = some (q, c) := by
  obtain ⟨-, hl, hconfig, hframes, hso, hco, e, he, htimer, hent⟩ := hf.known ht
  have he₂ := (congrFun hent id).trans (Function.update_self ..)
  obtain ⟨⟨q, c⟩, hc⟩ : ∃ y, e.connection = some y := by
    rw [← Option.ne_none_iff_exists']
    intro hnone
    rcases ((hg id e he).listener hnone).readCb with ⟨-, htimer'⟩ | ⟨-, t, v, htimer', hall⟩
    · rw [htimer] at htimer'
      cases htimer'
    · rw [htimer] at htimer'
      cases htimer'
      exact hcb (hall u rfl)
  refine ⟨⟨hl, .one he (.untimed hc) hent, hconfig, ?_, ?_, .quiet hframes (by simp)⟩, hframes,
    _, q, c, he₂, hc⟩
  · exact le_of_eq (congrArg ObjectHeap.next hso).symm
  · exact le_of_eq (congrArg ObjectHeap.next hco).symm

theorem onAsyncConnectTimeout_meets (hcb : u.timerCb = .onAsyncConnectTimeout) :
    Meets z .handler s (s₁.onAsyncConnectTimeout u.id) := by
  unfold onAsyncConnectTimeout
  cases ht : s₁.takeTimer u.id with
  | none =>
    exact hf.unknown (Option.map_eq_none_iff.mp ht)
  | some r =>
    obtain ⟨s₂, id⟩ := r
    obtain ⟨hd, hframes, e, q, c, he, hc⟩ := hf.untimed (z := z) hg ht (by rw [hcb]; simp)
    obtain ⟨hq, hcell, -⟩ := hd.linked.connection_of_entry he hc
    dsimp only
    rw [(entry_eq_some.mp he).1, hq]
    dsimp only
    rw [socketAt_entry he, Outcome.ok_bind, connectionAt_eq hcell, Outcome.ok_bind,
      hd.linked.socket_id he]
    exact hd.trans hframes (by simp) (hd.linked.setErrorAndReport_done he hc ETIMEDOUT)

theorem onSendMessageError_meets (hcb : u.timerCb = .onSendMessageError) :
    Meets z .handler s (s₁.onSendMessageError u.id) := by
  unfold onSendMessageError
  cases ht : s₁.takeTimer u.id with
  | none =>
    exact hf.unknown (Option.map_eq_none_iff.mp ht)
  | some r =>
    obtain ⟨s₂, id⟩ := r
    obtain ⟨hd, hframes, e, q, c, he, hc⟩ := hf.untimed (z := z) hg ht (by rw [hcb]; simp)
    obtain ⟨hq, hcell, -⟩ := hd.linked.connection_of_entry he hc
    dsimp only
    rw [(entry_eq_some.mp he).1, hq]
    dsimp only
    rw [socketAt_entry he, Outcome.ok_bind, connectionAt_eq hcell, Outcome.ok_bind,
      hd.linked.socket_id he]
    by_cases hcb' : s₂.config.errorCb = true
    · rw [if_pos hcb']
      show Done z .handler s _ ([] ++ [_])
      refine hd.trans hframes (by simp) ⟨hd.linked.invoke _, .one he (.reported hc) ?_,
        rfl, le_rfl, le_rfl, .invoke ?_⟩
      · exact (Function.update_eq_self_iff.mpr he.symm).symm
      · intro o ho i hi
        obtain rfl := List.mem_singleton.mp ho
        obtain rfl := List.mem_singleton.mp hi
        exact Linked.present_of_entry he
    · rw [if_neg hcb']
      exact hd

end Timers

/-! ## Connecting -/

theorem onAsyncConnectSocketWrite_meets (h : Linked s) (hg : s.entry.Good)
    (hx : s.socketObjects.cell p = some x)
    (hwrite : x.writeCb = some .onAsyncConnectSocketWrite) (socketError : Int)
    (hlate : socketError = 0 → (∃ q c, s.connections x.id = some q ∧
      s.connectionObjects.cell q = some c ∧ c.status ≠ .connecting) → z.late) :
    Meets z .handler s (s.onAsyncConnectSocketWrite p socketError) := by
  obtain ⟨e, he, rfl, rfl⟩ := h.entry_of_cell hx
  obtain ⟨heap, b, b', e₁, h₁, ht₁, -⟩ := h.removeSocketTimer e.socket.id
  rw [he, Option.map_some] at ht₁
  unfold onAsyncConnectSocketWrite
  rw [socketAt_eq hx, Outcome.ok_bind, e₁, Outcome.ok_bind]
  set s₁ := s.withTimers heap b b' with hs₁
  have he₁ := (congrFun ht₁ e.socket.id).trans (Function.update_self ..)
  cases hq : s₁.connections e.socket.id with
  | none =>
    -- without a connection there is no write callback
    have hnone : e.connection = none := by
      have hq' := (h.connections_eq he).symm.trans hq
      exact Option.map_eq_none_iff.mp hq'
    rw [((hg _ e he).listener hnone).writeCb] at hwrite
    cases hwrite
  | some q =>
    obtain ⟨e', c, he', hc, hcell, -⟩ := h₁.entry_of_connections hq
    obtain rfl := Option.some.inj (he₁.symm.trans he')
    have hc' : e.connection = some (q, c) := hc
    have hd₁ : Done z .handler s s₁ [] :=
      ⟨h₁, .one he (.untimed hc') ht₁, rfl, le_rfl, le_rfl, .quiet rfl (by simp)⟩
    dsimp only
    rw [connectionAt_eq hcell, Outcome.ok_bind]
    by_cases hzero : socketError = 0
    case neg =>
      rw [if_pos hzero]
      exact hd₁.trans rfl (by simp) (h₁.setErrorAndReport_done he₁ hc socketError)
    rw [if_neg (not_not.mpr hzero)]
    have h₂ := h₁.setSocket (f := ({ · with readCb := some .onSocketRead, writeCb := none }))
      (fun _ => rfl) e.address
    have ht₂ := entry_setSocket h₁ he₁ ({ · with readCb := some .onSocketRead, writeCb := none })
    have he₂ := (congrFun ht₂ e.socket.id).trans (Function.update_self ..)
    have h₃ := h₂.setConnection (f := ({ · with status := .connected })) (fun _ => rfl) q
    have ht₃ := entry_setConnection h₂ he₂ hc ({ · with status := .connected })
    have hst : c.status = .connecting ∨ z.late := by
      by_cases hs : c.status = .connecting
      · exact .inl hs
      · exact .inr (hlate hzero ⟨q, c, hq, hcell, hs⟩)
    have hmove : ∀ outs, (outs = [] ∨ outs = [.newConnection e.socket.id q e.socket.id]) →
        Moves s.config z s.socketObjects.next s.connectionObjects.next .handler s.entry outs
          (((s₁.setSocket e.address ({ · with readCb := some .onSocketRead, writeCb := none })
            ).setConnection q ({ · with status := .connected })).entry) := by
      intro outs houts
      refine hd₁.moves.trans (.one he₁ (.established hc hwrite rfl hst houts) ?_)
      rw [ht₃, ht₂, Function.update_idem]
    by_cases hcb : s.config.newConnCb = true
    · refine Eq.mpr (congrArg (Meets z .handler s) (if_pos hcb)) ?_
      refine ⟨h₃.invoke _, hmove _ (.inr rfl), rfl, le_rfl, le_rfl, .invoke ?_⟩
      intro o ho i hi
      obtain rfl := List.mem_singleton.mp ho
      have hi : i = e.socket.id := by simpa [TcpOutput.callees] using hi
      subst hi
      exact Linked.present_of_entry (s := s) he
    · refine Eq.mpr (congrArg (Meets z .handler s) (if_neg hcb)) ?_
      exact ⟨h₃, hmove _ (.inl rfl), rfl, le_rfl, le_rfl, .quiet rfl (by simp)⟩

/-! ## Receiving -/

/-- The receive loop keeps the limit on the read buffer. -/
theorem recvLoop_within (maxSize : Nat) (readBuffer : DynamicBuffer) (dataArrive : Bool)
    (answers : List RecvAnswer) :
    Outcome.Ensures (· = .buffer) (fun r => Within maxSize readBuffer.readableBytes →
      Within maxSize r.1.readableBytes) (recvLoop maxSize readBuffer dataArrive answers) := by
  induction answers generalizing readBuffer dataArrive with
  | nil =>
    unfold recvLoop
    split
    · exact id
    · cases hr : readBuffer.reserveWritableBytes 1 with
      | none => exact rfl
      | some b₁ =>
        intro hwithin
        rwa [← DynamicBuffer.length_readable, DynamicBuffer.readable_reserveWritableBytes hr,
          DynamicBuffer.length_readable]
  | cons answer answers ih =>
    unfold recvLoop
    dsimp only
    split
    · exact id
    next hfits =>
      cases hr : readBuffer.reserveWritableBytes (max 1 answer.available).toNat with
      | none => exact rfl
      | some b₁ =>
        have hkeep : b₁.readableBytes = readBuffer.readableBytes := by
          rw [← DynamicBuffer.length_readable, DynamicBuffer.readable_reserveWritableBytes hr,
            DynamicBuffer.length_readable]
        rw [orFault, Outcome.ok_bind]
        cases answer.result with
        | again => exact fun hwithin => hkeep ▸ hwithin
        | error errno => exact fun hwithin => hkeep ▸ hwithin
        | data bytes =>
          dsimp only
          split
          · cases hcopy : b₁.copyIn (bytes.take (max 1 answer.available).toNat) with
            | none => exact rfl
            | some b₂ =>
              refine Outcome.Ensures.mono (ih (b₂.write _) true) (fun r hr hwithin => hr ?_)
                fun _ he => he
              intro hpos
              have hlen := congrArg List.length (DynamicBuffer.readable_copyIn_write hcopy)
              rw [DynamicBuffer.length_readable, List.length_append,
                DynamicBuffer.length_readable, hkeep, List.length_take] at hlen
              have hle : ¬(max 1 answer.available).toNat + readBuffer.readableBytes > maxSize :=
                fun hgt => hfits ⟨hpos, hgt⟩
              rw [List.length_take]
              omega
          · exact fun hwithin => hkeep ▸ hwithin

/-- The end of a connection on the side of the peer. -/
theorem onPeerClose_meets (h : Linked s) (he : s.entry id = some e)
    (hc : e.connection = some (q, c)) : Meets z .handler s (s.onPeerClose q id) := by
  have h₁ := h.setConnection (f := ({ · with status := .peerClosed })) (fun _ => rfl) q
  have ht₁ := entry_setConnection h he hc ({ · with status := .peerClosed })
  unfold onPeerClose
  rw [h.connectionAt he hc, Outcome.ok_bind]
  by_cases hcb : s.config.peerCloseCb = true
  · refine Eq.mpr (congrArg (Meets z .handler s) (if_pos hcb)) ?_
    refine ⟨h₁.invoke _, .one he (.peerClosed hc (.inr rfl)) ht₁, rfl, le_rfl, le_rfl, .invoke ?_⟩
    intro o ho i hi
    obtain rfl := List.mem_singleton.mp ho
    obtain rfl := List.mem_singleton.mp hi
    exact Linked.present_of_entry (s := s) he
  · refine Eq.mpr (congrArg (Meets z .handler s) (if_neg hcb)) ?_
    exact ⟨h₁, .one he (.peerClosed hc (.inl rfl)) ht₁, rfl, le_rfl, le_rfl, .quiet rfl (by simp)⟩

/-- Behind the receive callback, when the connection has not been replaced by
another one under its id. -/
theorem afterRecvMessage_meets (h : Linked s)
    (hsame : ∀ q', s.connections id = some q' → q' = q) :
    Meets z .handler s (s.afterRecvMessage q id) := by
  unfold afterRecvMessage
  cases hq : s.connections id with
  | none => exact .refl h
  | some q' =>
    obtain rfl := hsame q' hq
    obtain ⟨e, c, he, hc, -⟩ := h.entry_of_connections hq
    exact onPeerClose_meets h he hc

theorem onSocketRead_meets (h : Linked s) (hframes : s.frames = [])
    (hx : s.socketObjects.cell p = some x) (answers : List RecvAnswer) :
    Meets z .handler s (s.onSocketRead p answers) := by
  obtain ⟨e, he, rfl, rfl⟩ := h.entry_of_cell hx
  unfold onSocketRead
  rw [socketAt_eq hx, Outcome.ok_bind]
  cases hq : s.connections e.socket.id with
  | none => exact .refl h
  | some q =>
    obtain ⟨e', c, he', hc, hcell, -⟩ := h.entry_of_connections hq
    obtain rfl := Option.some.inj (he.symm.trans he')
    dsimp only
    rw [connectionAt_eq hcell, Outcome.ok_bind]
    refine Outcome.Ensures.bind
      (recvLoop_within s.config.connReadBufferMaxSize c.readBuffer false answers) ?_
    rintro ⟨readBuffer, dataArrive, recvEnd⟩ hwithin
    dsimp only at hwithin ⊢
    have h₁ := h.setConnection (f := ({ · with readBuffer })) (fun _ => rfl) q
    have ht₁ := entry_setConnection h he hc ({ · with readBuffer })
    have he₁ := (congrFun ht₁ e.socket.id).trans (Function.update_self ..)
    have hd₁ : Done z .handler s (s.setConnection q ({ · with readBuffer })) [] :=
      ⟨h₁, .one he (.received hc hwithin) ht₁, rfl, le_rfl, le_rfl, .quiet rfl (by simp)⟩
    -- the receive callback, with the frame that waits for it
    have htold : ∀ frame, (frame = .finish ∨ s.frames = [] ∧
          FrameOk ((s.setConnection q ({ · with readBuffer })).invoke frame) frame) →
        Done z .handler s ((s.setConnection q ({ · with readBuffer })).invoke frame)
          [.recvMessage q e.socket.id] := by
      intro frame hframe
      show Done z .handler s _ ([] ++ [_])
      refine hd₁.trans rfl (by simp) ⟨h₁.invoke _, .one he₁ (.announced rfl) ?_, rfl,
        le_rfl, le_rfl, .inr ⟨frame, rfl, hframe, ?_⟩⟩
      · exact (Function.update_eq_self_iff.mpr he₁.symm).symm
      · intro o ho i hi
        obtain rfl := List.mem_singleton.mp ho
        obtain rfl := List.mem_singleton.mp hi
        exact Linked.present_of_entry he₁
    cases recvEnd with
    | error errno =>
      exact hd₁.trans rfl (by simp) (h₁.setErrorAndReport_done he₁ rfl errno)
    | again =>
      dsimp only
      split
      · exact htold .finish (.inl rfl)
      · exact hd₁
    | peerClose =>
      have hq₁ : (s.setConnection q ({ · with readBuffer })).connections e.socket.id = some q := hq
      dsimp only
      split
      · split
        · refine htold _ (.inr ⟨hframes, ?_, fun c' hc' => hq₁⟩)
          show q < s.connectionObjects.next
          exact ObjectHeap.lt_next hcell
        · refine Outcome.Ensures.mono (afterRecvMessage_meets (z := z) h₁ fun q' hq' => ?_)
            (fun r hr => hd₁.trans rfl (by simp) hr) fun _ he => he
          exact Option.some.inj (hq'.symm.trans hq₁)
      · exact Outcome.Ensures.mono (onPeerClose_meets (z := z) h₁ he₁ rfl)
          (fun r hr => hd₁.trans rfl (by simp) hr) fun _ he => he

/-! ## Writing -/

theorem onSocketWrite_meets (h : Linked s) (hx : s.socketObjects.cell p = some x)
    (hwrite : x.writeCb = some .onSocketWrite) (hquiet : ∀ id, ¬z.opens id)
    (result : SendResult) :
    Meets z .handler s (s.onSocketWrite p result) := by
  obtain ⟨e, he, rfl, rfl⟩ := h.entry_of_cell hx
  unfold onSocketWrite
  rw [socketAt_eq hx, Outcome.ok_bind]
  cases hq : s.connections e.socket.id with
  | none => exact .refl h
  | some q =>
    obtain ⟨e', c, he', hc, hcell, -⟩ := h.entry_of_connections hq
    obtain rfl := Option.some.inj (he.symm.trans he')
    dsimp only
    rw [connectionAt_eq hcell, Outcome.ok_bind]
    cases result with
    | error errno => exact h.setErrorAndReport_done he hc errno
    | again => exact .refl h
    | accepted k =>
      dsimp only
      set k' := SendResult.writeSize c.writeBuffer.readableBytes (.accepted k) with hk'
      have hread : (c.writeBuffer.read k').readable = c.writeBuffer.readable.drop k' :=
        DynamicBuffer.readable_read ..
      have h₁ := h.setConnection (f := ({ · with writeBuffer := c.writeBuffer.read k' }))
        (fun _ => rfl) q
      have ht₁ := entry_setConnection h he hc ({ · with writeBuffer := c.writeBuffer.read k' })
      have he₁ := (congrFun ht₁ e.socket.id).trans (Function.update_self ..)
      by_cases hempty : (c.writeBuffer.read k').readableBytes = 0
      · rw [if_pos hempty]
        have hnil := DynamicBuffer.readableBytes_eq_zero.mp hempty
        have htake : c.writeBuffer.readable.take k' = c.writeBuffer.readable := by
          rw [List.take_of_length_le]
          rwa [hread, List.drop_eq_nil_iff] at hnil
        have h₂ := h₁.setSocket (f := ({ · with writeCb := none })) (fun _ => rfl) e.address
        have ht₂ := entry_setSocket h₁ he₁ ({ · with writeCb := none })
        have he₂ := (congrFun ht₂ e.socket.id).trans (Function.update_self ..)
        have h₃ := h₂.setConnection (f := ({ · with sendCompleteCb := none })) (fun _ => rfl) q
        have ht₃ := entry_setConnection h₂ he₂ rfl ({ · with sendCompleteCb := none })
        have he₃ := (congrFun ht₃ e.socket.id).trans (Function.update_self ..)
        obtain ⟨s', e₁, hl, hent, hconfig, hn, hm, hcontrol⟩ :=
          h₃.sendComplete (q := q) he₃ c.sendCompleteCb
        rw [e₁, Outcome.ok_bind, htake]
        refine ⟨hl, .one he (.drained hquiet hc hwrite hnil rfl) ?_, hconfig, hn.ge, hm.ge,
          hcontrol.append [_] (by simp [TcpOutput.callees])⟩
        rw [hent, ht₃, ht₂, ht₁, Function.update_idem, Function.update_idem, Function.update_idem]
      · rw [if_neg hempty]
        have hne := mt DynamicBuffer.readableBytes_eq_zero.mpr hempty
        exact ⟨h₁, .one he (.wrote hquiet hc hwrite hread hne) ht₁, rfl, le_rfl, le_rfl,
          .quiet rfl (by simp [TcpOutput.callees])⟩

end TcpService

end Brickred
