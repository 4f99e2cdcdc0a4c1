import Brickred.Service.Callbacks

/-!
# What `closeSocket` leaves behind

A callback may close any socket, also one that a waiting handler goes on with. The
accept loop does not look whether its socket is still there. The receive handler asks
the connection map, and finds another connection if the id has been used again.
-/

namespace Brickred

variable {C : Type}

/-! ## The sockets a step closes -/

/-- The socket that a completion callback has closed. -/
def TcpOutput.closed : TcpOutput C → List SocketId
  | .completed _ id .sendCompleteClose => [id]
  | _ => []

/-- The ids `closeSocket` runs for in a step. -/
def closedBy (move : TcpOp C × List (TcpOutput C)) : List SocketId :=
  (match move.1 with
    | .closeSocket id => [id]
    | _ => []) ++ move.2.flatMap TcpOutput.closed

/-- The ids `closeSocket` has run for. -/
def closedIds (moves : List (TcpOp C × List (TcpOutput C))) : List SocketId :=
  moves.flatMap closedBy

@[simp] theorem closedIds_append (l l' : List (TcpOp C × List (TcpOutput C))) :
    closedIds (l ++ l') = closedIds l ++ closedIds l' := List.flatMap_append

@[simp] theorem closedIds_singleton (move : TcpOp C × List (TcpOutput C)) :
    closedIds [move] = closedBy move := List.flatMap_singleton ..

theorem mem_closedBy {op : TcpOp C} {outs : List (TcpOutput C)} {id : SocketId} :
    id ∈ closedBy (op, outs) ↔
      op = .closeSocket id ∨ ∃ q, .completed q id .sendCompleteClose ∈ outs := by
  unfold closedBy
  rw [List.mem_append, List.mem_flatMap]
  refine or_congr ?_ ⟨?_, ?_⟩
  · cases op <;> simp [eq_comm]
  · rintro ⟨o, ho, hid⟩
    unfold TcpOutput.closed at hid
    split at hid
    next q id' =>
      obtain rfl := List.mem_singleton.mp hid
      exact ⟨q, ho⟩
    · cases hid
  · rintro ⟨q, hq⟩
    exact ⟨_, hq, List.mem_singleton_self _⟩

section Moves

variable {cfg : TcpConfig} {z : TcpHazard} {n m : Nat} {a : TcpActor} {id : SocketId}
  {outs : List (TcpOutput C)} {x y : Option (TcpEntry C)} {T T' : TcpTable C} {e : TcpEntry C}

/-- A completion callback that closes leaves no entry. -/
theorem EntryMove.closed_of_completed (h : EntryMove cfg z n m id a outs x y) {q : Nat}
    {id' : SocketId} (hmem : .completed q id' .sendCompleteClose ∈ outs) :
    id' = id ∧ y = none ∧ ∀ i, ¬z.opens i := by
  cases h with
  | @sent _ e q' c message cb _ hquiet hc hstatus hempty hafter =>
    obtain ⟨rfl, rfl⟩ : cb = some .sendCompleteClose ∧ id' = id := by
      cases cb <;> simp_all
    exact ⟨rfl, hafter, hquiet⟩
  | @drained e q' c writeBuffer _ hquiet hc hwrite hread hafter =>
    have hcb : c.sendCompleteCb = some .sendCompleteClose ∧ id' = id := by
      cases hcb : c.sendCompleteCb <;> simp_all
    rw [hcb.1] at hafter
    exact ⟨hcb.2, hafter, hquiet⟩
  | opened _ _ _ _ _ _ houts => rcases houts with rfl | ⟨_, rfl⟩ <;> simp at hmem
  | failed _ _ _ _ houts | thrown _ _ _ houts =>
    rcases houts with rfl | ⟨-, _, rfl⟩ <;> simp at hmem
  | errored _ houts | established _ _ _ _ houts | peerClosed _ houts =>
    rcases houts with rfl | rfl <;> simp at hmem
  | listening | connecting | closed | context | consumed | refused | started | queued | paused
  | resumed | untimed | reported | received | announced | wrote => simp at hmem

/-- Only a move that opens a socket makes an entry. -/
theorem EntryMove.stays_none (h : EntryMove cfg z n m id a outs none y) (hopens : ¬z.opens id) :
    y = none := by
  cases h with
  | listening _ h | opened _ h | connecting _ h => exact absurd h hopens

/-- An entry keeps its socket and its connection, or it is closed. -/
theorem EntryMove.stays (h : EntryMove cfg z n m id a outs (some e) y) :
    (∃ e', y = some e' ∧ e'.address = e.address ∧
      e'.connection.map Prod.fst = e.connection.map Prod.fst) ∨
    z.closes id ∨ ∃ q, e.connection.map Prod.fst = some q ∧
      .completed q id .sendCompleteClose ∈ outs := by
  cases h with
  | closed hcloses => exact .inr (.inl hcloses)
  | @sent _ _ q c message cb _ hquiet hc hstatus hempty hafter =>
    cases y with
    | some e' =>
      obtain rfl := TcpEntry.afterComplete_eq_some hafter
      exact .inl ⟨_, rfl, rfl, rfl⟩
    | none =>
      refine .inr (.inr ⟨q, by rw [hc]; rfl, ?_⟩)
      unfold TcpEntry.afterComplete at hafter
      split at hafter
      · simp
      · cases hafter
  | @drained _ q c writeBuffer _ hquiet hc hwrite hread hafter =>
    cases y with
    | some e' =>
      obtain rfl := TcpEntry.afterComplete_eq_some hafter
      exact .inl ⟨_, rfl, rfl, by rw [hc]; rfl⟩
    | none =>
      refine .inr (.inr ⟨q, by rw [hc]; rfl, ?_⟩)
      unfold TcpEntry.afterComplete at hafter
      split at hafter
      next hcb => simp [hcb]
      · cases hafter
  | context | refused | thrown | paused | resumed | untimed | reported | announced =>
    exact .inl ⟨_, rfl, rfl, rfl⟩
  | consumed hc | failed _ hc | started _ hc | queued _ hc | errored hc | established hc
  | received hc | peerClosed hc | wrote _ hc => exact .inl ⟨_, rfl, rfl, by rw [hc]; rfl⟩

/-- What a completion callback has closed is not there at the end. -/
theorem Moves.closed (h : Moves cfg z n m a T outs T') {q : Nat}
    (hmem : .completed q id .sendCompleteClose ∈ outs) : T' id = none := by
  refine (h.history (l := []) (I := fun T l => ∀ q id, .completed q id .sendCompleteClose ∈ l →
      T id = none ∧ ∀ i, ¬z.opens i) ?_ ?_ (by simp) q id hmem).1
  · intro T l o hI ho q id hid
    rcases List.mem_append.mp hid with hid | hid
    · exact hI q id hid
    · obtain rfl := List.mem_singleton.mp hid
      cases ho
  · intro T l id' outs x hI hmove q id hid
    rcases List.mem_append.mp hid with hid | hid
    · obtain ⟨hnone, hquiet⟩ := hI q id hid
      refine ⟨?_, hquiet⟩
      by_cases heq : id = id'
      · subst heq
        rw [hnone] at hmove
        rw [Function.update_self]
        exact hmove.stays_none (hquiet id)
      · rw [Function.update_of_ne heq]
        exact hnone
    · obtain ⟨rfl, rfl, hquiet⟩ := hmove.closed_of_completed hid
      exact ⟨Function.update_self .., hquiet⟩

theorem Moves.stays_none (h : Moves cfg z n m a T outs T') (hT : T id = none)
    (hopens : ¬z.opens id) : T' id = none := by
  refine h.invariant (I := fun T => T id = none) (fun {T id' outs x} hI hmove => ?_) hT
  by_cases heq : id = id'
  · subst heq
    rw [hI] at hmove
    rw [Function.update_self]
    exact hmove.stays_none hopens
  · rw [Function.update_of_ne heq]
    exact hI

theorem Moves.stays (h : Moves cfg z n m a T outs T') (hT : T id = some e) :
    (∃ e', T' id = some e' ∧ e'.address = e.address ∧
      e'.connection.map Prod.fst = e.connection.map Prod.fst) ∨
    z.closes id ∨ ∃ q, e.connection.map Prod.fst = some q ∧
      .completed q id .sendCompleteClose ∈ outs := by
  refine h.history (l := []) (I := fun T l => (∃ e', T id = some e' ∧ e'.address = e.address ∧
      e'.connection.map Prod.fst = e.connection.map Prod.fst) ∨
    z.closes id ∨ ∃ q, e.connection.map Prod.fst = some q ∧
      .completed q id .sendCompleteClose ∈ l) ?_ ?_ (.inl ⟨e, hT, rfl, rfl⟩)
  · rintro T l o (hI | hI | ⟨q, hq, hI⟩) -
    · exact .inl hI
    · exact .inr (.inl hI)
    · exact .inr (.inr ⟨q, hq, List.mem_append_left _ hI⟩)
  · rintro T l id' outs x (⟨e', he', haddr, hconn⟩ | hI | ⟨q, hq, hI⟩) hmove
    · by_cases heq : id = id'
      · subst heq
        rw [he'] at hmove
        rcases hmove.stays with ⟨e'', rfl, haddr', hconn'⟩ | hcloses | ⟨q, hq, hmem⟩
        · exact .inl ⟨e'', Function.update_self .., haddr'.trans haddr, hconn'.trans hconn⟩
        · exact .inr (.inl hcloses)
        · exact .inr (.inr ⟨q, hconn ▸ hq, List.mem_append_right _ hmem⟩)
      · exact .inl ⟨e', (Function.update_of_ne heq ..).trans he', haddr, hconn⟩
    · exact .inr (.inl hI)
    · exact .inr (.inr ⟨q, hq, List.mem_append_left _ hI⟩)

end Moves

namespace TcpService

variable {s s' : TcpService C} {id : SocketId} {op : TcpOp C} {outs : List (TcpOutput C)}
  {frame : TcpFrame} {moves : List (TcpOp C × List (TcpOutput C))}

/-! ## The law and where it holds -/

/-- Whatever comes next, no deleted object is used, and so far nobody has been called
back for an id behind a `closeSocket` for it. -/
structure ClosesCleanly (moves : List (TcpOp C × List (TcpOutput C))) (s : TcpService C) :
    Prop where
  alive : ∀ op, s.step op ≠ .error .dangling
  uncalled : Transition.Justified (fun before move => ∀ o ∈ move.2, ∀ id ∈ o.callees,
    id ∉ closedIds (before ++ [move])) moves

/-- A step that does not close the socket of an accept loop that waits for its callback,
and opens no socket under an id `closeSocket` has run for. -/
structure LeavesAcceptLoop (moves : List (TcpOp C × List (TcpOutput C))) (s : TcpService C)
    (op : TcpOp C) : Prop where
  listener : ∀ id p, op = .closeSocket id → s.sockets id = some p →
    .onListenSocketRead p ∉ s.frames
  fresh : ∀ id, (s.hazard op).opens id → id ∉ closedIds moves

/-! ## One step -/

theorem closeSocket_step (h : Linked s) (id : SocketId) :
    ∃ s', s.step (.closeSocket id) = .ok (s', []) ∧ s'.entry = Function.update s.entry id none := by
  obtain ⟨s', e₁, -, hent, -⟩ :=
    h.closeSocket_done (z := s.hazard (.closeSocket id)) (a := .user) id rfl
  refine ⟨s', ?_, hent⟩
  show (s.closeSocket id >>= fun s => .ok (s, [])) = _
  rw [e₁]
  rfl

/-- What `closeSocket` has run for is not there behind the step. -/
theorem Stepped.closed (h : Stepped s op s' outs) (hs : Invariant s)
    (hrun : s.step op = .ok (s', outs)) (hid : id ∈ closedBy (op, outs)) : s'.entry id = none := by
  rcases mem_closedBy.mp hid with rfl | ⟨q, hq⟩
  · obtain ⟨s₁, hstep, hent⟩ := closeSocket_step hs.linked id
    rw [hstep] at hrun
    cases hrun
    rw [hent, Function.update_self]
  · exact h.moves.closed hq

/-- The waiting handlers that will find their objects, and those that will see that they
are gone. -/
def FramesLive (s : TcpService C) (closed : List SocketId) : Prop :=
  ∀ frame ∈ s.frames, frame.Live s ∨ ∃ q id, frame = .onSocketRead q id ∧ id ∈ closed

/-- What a waiting handler relies on, as long as it waits. -/
theorem FramesOk.of_mem {frames : List TcpFrame} (h : FramesOk s frames) (hmem : frame ∈ frames) :
    FrameOk s frame := by
  induction frames with
  | nil => cases hmem
  | cons first frames ih =>
    rcases List.mem_cons.mp hmem with rfl | hrest
    · cases frame with
      | finish => trivial
      | onListenSocketRead p => exact h.1
      | onSocketRead q id => exact h.1
    · cases first with
      | finish => exact ih h hrest
      | onListenSocketRead p | onSocketRead q id =>
        obtain ⟨-, rfl⟩ := h
        cases hrest

/-- A step keeps the object of a waiting handler, or says that it has closed it. -/
theorem Stepped.live (h : Stepped s op s' outs) (hs : Invariant s)
    (hgood : LeavesAcceptLoop moves s op) (hmem : frame ∈ s.frames) (hlive : frame.Live s) :
    frame.Live s' ∨ ∃ q id, frame = .onSocketRead q id ∧ id ∈ closedBy (op, outs) := by
  cases frame with
  | finish => exact .inl trivial
  | onListenSocketRead p =>
    obtain ⟨x, hx⟩ := Option.ne_none_iff_exists'.mp hlive
    obtain ⟨e, he, rfl, rfl⟩ := hs.linked.entry_of_cell hx
    have hread := (hs.frames.of_mem hmem).2 _ hx
    obtain ⟨hnone, -⟩ := (hs.good _ e he).of_listening hread
    rcases h.moves.stays he with ⟨e', he', haddr, -⟩ | hcloses | ⟨q, hq, -⟩
    · left
      have hcell := (entry_eq_some.mp he').2.1
      rw [haddr] at hcell
      exact ne_of_eq_of_ne hcell (by simp)
    · exact absurd hmem (hgood.listener _ _ hcloses (entry_eq_some.mp he).1)
    · rw [hnone] at hq
      cases hq
  | onSocketRead q id =>
    obtain ⟨e, c, he, hc, -⟩ := hs.linked.entry_of_connections hlive
    rcases h.moves.stays he with ⟨e', he', -, hconn⟩ | hcloses | ⟨q', -, hmem'⟩
    · left
      rw [hc] at hconn
      exact (h.invariant.linked.connections_eq he').trans hconn
    · exact .inr ⟨q, id, rfl, mem_closedBy.mpr (.inl hcloses)⟩
    · exact .inr ⟨q, id, rfl, mem_closedBy.mpr (.inr ⟨q', hmem'⟩)⟩

/-! ## Runs -/

/-- The invariant of a run that leaves the accept loops their sockets. -/
structure CleanRun (moves : List (TcpOp C × List (TcpOutput C))) (s : TcpService C) : Prop where
  invariant : Invariant s
  closed : ∀ id ∈ closedIds moves, s.entry id = none
  frames : s.FramesLive (closedIds moves)
  uncalled : Transition.Justified (fun before move => ∀ o ∈ move.2, ∀ id ∈ o.callees,
    id ∉ closedIds (before ++ [move])) moves

theorem cleanRun_init : CleanRun [] (init C) :=
  ⟨invariant_init, List.forall_mem_nil _, List.forall_mem_nil _, Transition.justified_nil⟩

theorem CleanRun.step {move : TcpOp C × List (TcpOutput C)} (h : CleanRun moves s)
    (hgood : LeavesAcceptLoop moves s move.1) (hstep : Steps s move s') :
    CleanRun (moves ++ [move]) s' := by
  obtain ⟨op, outs⟩ := move
  have hspec := h.invariant.step hstep
  have hclosed : ∀ id ∈ closedIds (moves ++ [(op, outs)]), s'.entry id = none := by
    intro id hid
    rw [closedIds_append, closedIds_singleton] at hid
    rcases List.mem_append.mp hid with hid | hid
    · exact hspec.moves.stays_none (h.closed id hid) fun hopens => hgood.fresh id hopens hid
    · exact hspec.closed h.invariant hstep hid
  refine ⟨hspec.invariant, hclosed, ?_, h.uncalled.snoc fun o ho id hid hin => ?_⟩
  · have hold : ∀ frame ∈ s.frames, frame.Live s' ∨
        ∃ q id, frame = .onSocketRead q id ∧ id ∈ closedIds (moves ++ [(op, outs)]) := by
      intro frame hmem
      rw [closedIds_append, closedIds_singleton]
      rcases h.frames frame hmem with hlive | ⟨q, id, rfl, hid⟩
      · rcases hspec.live h.invariant hgood hmem hlive with hlive | ⟨q, id, rfl, hid⟩
        · exact .inl hlive
        · exact .inr ⟨q, id, rfl, List.mem_append_right _ hid⟩
      · exact .inr ⟨q, id, rfl, List.mem_append_left _ hid⟩
    have hwaiting : s.waiting op ⊆ s.frames := by
      unfold waiting
      split
      · exact fun _ => List.mem_of_mem_tail
      · exact List.Subset.refl _
    intro frame hmem
    obtain ⟨-, hframes⟩ := (step_calls s op).of_ok hstep
    rcases hframes with hframes | ⟨first, hframes, hlive⟩
    · exact hold frame (hwaiting (hframes ▸ hmem))
    · rw [hframes] at hmem
      rcases List.mem_cons.mp hmem with rfl | hrest
      · exact .inl hlive
      · exact hold frame (hwaiting hrest)
  · exact hspec.calls ho hid (hspec.invariant.linked.entry_eq_none.mp (hclosed id hin))

/-- In a state with the invariant nothing that is deleted is used. -/
theorem CleanRun.alive (h : CleanRun moves s) (op : TcpOp C) : s.step op ≠ .error .dangling := by
  intro hstep
  rcases (step_spec h.invariant op).of_error hstep with hfault | ⟨-, hdangles⟩
  · cases hfault
  cases op with
  | callbackReturn accepts =>
    unfold Dangles at hdangles
    dsimp only at hdangles
    split at hdangles
    next p frames hframes =>
      rcases h.frames (.onListenSocketRead p) (by rw [hframes]; exact List.mem_cons_self) with
        hlive | ⟨q, id, heq, -⟩
      · exact hlive hdangles
      · cases heq
    next q id frames hframes =>
      obtain ⟨q', hq', hne⟩ := hdangles
      rcases h.frames (.onSocketRead q id) (by rw [hframes]; exact List.mem_cons_self) with
        hlive | ⟨_, _, heq, hid⟩
      · exact hne (Option.some.inj (hq'.symm.trans hlive))
      · cases heq
        obtain ⟨e, c, he, -⟩ := h.invariant.linked.entry_of_connections hq'
        rw [h.closed id hid] at he
        cases he
    · exact hdangles
  | _ => exact hdangles

/-- In every run in which no callback closes the socket whose accept loop has invoked it,
and no id `closeSocket` has run for is used again, nothing that `closeSocket` has
deleted is used and nobody is called back for it. -/
theorem closes_cleanly (hrun : Transition.Run (Transition.Guarded
      (fun x move => LeavesAcceptLoop x.1 x.2 move.1) (Transition.Logged Steps))
      ([], init C) moves (moves, s)) : ClosesCleanly moves s := by
  have h := hrun.logged (fun hx hgood hstep => hx.step hgood hstep) cleanRun_init
  exact ⟨h.alive, h.uncalled⟩

/-- A run in which nothing is closed leaves the accept loops their sockets. -/
theorem leaves_of_closedIds (before : List (TcpOp C × List (TcpOutput C)))
    (hrun : Transition.Run Steps s moves s') (hnone : closedIds (before ++ moves) = []) :
    Transition.Run (Transition.Guarded (fun x move => LeavesAcceptLoop x.1 x.2 move.1)
      (Transition.Logged Steps)) (before, s) moves (before ++ moves, s') := by
  induction hrun generalizing before with
  | nil =>
    rw [List.append_nil]
    exact .nil
  | @cons s move s₁ moves s' hstep _ ih =>
    rw [List.append_cons] at hnone ⊢
    refine .cons ⟨⟨fun id p hop => ?_, fun id _ hid => ?_⟩, rfl, hstep⟩ (ih _ hnone)
    · have hmem : id ∈ closedIds (before ++ [move] ++ moves) := by
        rw [closedIds_append, closedIds_append, closedIds_singleton]
        simp [mem_closedBy.mpr (.inl hop)]
      rw [hnone] at hmem
      cases hmem
    · have hmem : id ∈ closedIds (before ++ [move] ++ moves) := by simp [hid]
      rw [hnone] at hmem
      cases hmem

/-- The callback for a new connection closes the connection. -/
theorem closes_cleanly_accept : ∃ (moves : _) (s : TcpService Unit), ClosesCleanly moves s ∧
    closedIds moves = [2 * 2 ^ 32 + 4] ∧ s.entry (2 * 2 ^ 32 + 4) = none := by
  obtain ⟨s, moves, hexec, hf⟩ := Transition.exists_of_execTest step (init Unit)
    [.set (.newConnectionCallback true), .listen (some ⟨⟨3, by omega⟩, true⟩),
      .readable 0 [.accepted ⟨⟨4, by omega⟩, true⟩] []]
    (fun s moves => closedIds moves = [] ∧ s.sockets (2 * 2 ^ 32 + 4) = some 1 ∧
      s.frames = [.onListenSocketRead 0])
    (by decide +kernel)
  obtain ⟨hnone, hsocket, hframes⟩ := of_decide_eq_true hf
  have hsteps := Transition.exec_run hexec
  have hi : Invariant s := invariant_init.run hsteps
  obtain ⟨s', hstep, hent⟩ := closeSocket_step hi.linked (2 * 2 ^ 32 + 4)
  have hleaves : LeavesAcceptLoop moves s (.closeSocket (2 * 2 ^ 32 + 4)) := by
    refine ⟨fun id p hop hp hmem => ?_, by simp [hnone]⟩
    cases hop
    rw [hsocket] at hp
    cases hp
    rw [hframes] at hmem
    simp at hmem
  have hlast : Transition.Guarded (fun x move => LeavesAcceptLoop x.1 x.2 move.1)
      (Transition.Logged Steps) (moves, s) (.closeSocket (2 * 2 ^ 32 + 4), [])
      (moves ++ [(.closeSocket (2 * 2 ^ 32 + 4), [])], s') := ⟨hleaves, rfl, hstep⟩
  have hrun := (leaves_of_closedIds [] hsteps hnone).append (.cons hlast .nil)
  refine ⟨_, s', closes_cleanly hrun, ?_, ?_⟩
  · rw [closedIds_append, hnone]
    rfl
  · rw [hent, Function.update_self]

/-- The callback for a new connection closes the socket that has accepted it. -/
theorem not_closes_cleanly : ¬∀ (moves : _) (s : TcpService Unit),
    Transition.Run Steps (init Unit) moves s → ClosesCleanly moves s := by
  intro h
  obtain ⟨s, moves, hrun, hf⟩ := exists_of_afterRun (s := init Unit)
    (show (init Unit).afterRun [.set (.newConnectionCallback true),
        .listen (some ⟨⟨3, by omega⟩, true⟩),
        .readable 0 [.accepted ⟨⟨4, by omega⟩, true⟩] [], .closeSocket (2 ^ 32 + 3)]
      (fun s => match s.step (.callbackReturn []) with
        | .error .dangling => true
        | _ => false) = true by decide +kernel)
  refine (h moves s (steps_of_run hrun)).alive (.callbackReturn []) ?_
  split at hf
  · assumption
  · cases hf

end TcpService

end Brickred
