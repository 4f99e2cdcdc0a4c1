import Brickred.Service.Callbacks

/-!
# Socket ids

The counter of `SocketIdAllocator` wraps around; an id is nevertheless unlike those
of all sockets in the map, since it contains the descriptor and a socket is in the
map only as long as its descriptor is open.
-/

namespace Brickred

variable {C : Type}

/-! ## Ids and descriptors -/

/-- An id determines the descriptor. -/
theorem IdOf.fd_inj {id : SocketId} {fd fd' : Descriptor} (h : IdOf id fd) (h' : IdOf id fd') :
    fd = fd' := by
  obtain ⟨v, -, hv⟩ := h
  obtain ⟨v', -, hv'⟩ := h'
  have hinj : ∀ v v' d d' : Nat, d < 2 ^ 31 → d' < 2 ^ 31 →
      (v : Int) * 2 ^ 32 + d = v' * 2 ^ 32 + d' → d = d' := by omega
  exact Fin.ext (hinj v v' fd fd' fd.isLt fd'.isLt (hv.symm.trans hv'))

theorem IdOf.pos {id : SocketId} {fd : Descriptor} (h : IdOf id fd) : 0 < id := by
  obtain ⟨v, hv, rfl⟩ := h
  have hpos : ∀ v d : Nat, 0 < v → (0 : Int) < v * 2 ^ 32 + d := by omega
  exact hpos v fd hv

/-- Every socket has an id made from its descriptor. -/
def TcpTable.IdsMatch (T : TcpTable C) : Prop := ∀ id, ∀ e ∈ T id, IdOf id e.socket.fd

theorem EntryMove.idOf {cfg : TcpConfig} {z : TcpHazard} {n m : Nat} {a : TcpActor}
    {id : SocketId} {outs : List (TcpOutput C)} {x : Option (TcpEntry C)} {e' : TcpEntry C}
    (hx : ∀ e ∈ x, IdOf id e.socket.fd) (h : EntryMove cfg z n m id a outs x (some e')) :
    IdOf id e'.socket.fd := by
  cases h with
  | listening hid | opened hid | connecting hid => exact hid
  | sent _ _ _ _ hafter =>
    obtain rfl := TcpEntry.afterComplete_eq_some hafter
    exact hx _ rfl
  | @drained e _ _ _ _ _ _ _ _ hafter =>
    obtain rfl := TcpEntry.afterComplete_eq_some hafter
    exact hx e rfl
  | refused | thrown | reported | announced => exact hx _ rfl
  | @started _ e | @queued _ e | @failed _ e | @consumed _ e | @context _ e => exact hx e rfl
  | @paused e | @resumed e | @untimed e | @errored e | @established e | @received e
  | @peerClosed e | @wrote e => exact hx e rfl

theorem Moves.idsMatch {cfg : TcpConfig} {z : TcpHazard} {n m : Nat} {a : TcpActor}
    {outs : List (TcpOutput C)} {T T' : TcpTable C} (h : Moves cfg z n m a T outs T')
    (hT : T.IdsMatch) : T'.IdsMatch :=
  h.forall_entry (P := fun id e => IdOf id e.socket.fd) (fun hx hmove => hmove.idOf hx) hT

namespace TcpService

variable {s s' t : TcpService C} {id : SocketId} {op : TcpOp C}
  {moves : List (TcpOp C × List (TcpOutput C))}

theorem Reachable.idsMatch (h : Reachable s) : s.entry.IdsMatch := by
  obtain ⟨moves, hrun⟩ := h
  have hend := hrun.invariant (I := fun s => Invariant s ∧ s.entry.IdsMatch)
    (fun hi hstep => ⟨(hi.1.step hstep).invariant, (hi.1.step hstep).moves.idsMatch hi.2⟩)
    ⟨invariant_init, by simp [TcpTable.IdsMatch, entry_init]⟩
  exact hend.2

/-- An id for a descriptor that no open socket has is not in the maps. -/
theorem Linked.getId_fresh (h : Linked s) (hids : s.entry.IdsMatch) {fd : Descriptor}
    (hkernel : ∀ p x, s.socketObjects.cell p = some x → x.fd ≠ fd) :
    s.sockets (s.getId fd).2 = none ∧ s.connections (s.getId fd).2 = none := by
  have hnone : s.sockets (s.getId fd).2 = none := by
    by_contra hne
    obtain ⟨p, hp⟩ := Option.ne_none_iff_exists'.mp hne
    obtain ⟨e, he, -, hcell, -⟩ := h.entry_of_sockets hp
    exact hkernel p e.socket hcell ((hids _ e he).fd_inj (idOf_getId s fd))
  refine ⟨hnone, ?_⟩
  by_contra hne
  obtain ⟨q, hq⟩ := Option.ne_none_iff_exists'.mp hne
  obtain ⟨c, -, hp⟩ := h.objects.connection hq
  rw [hnone] at hp
  cases hp

/-- The states in which the accept loop builds its sockets. -/
theorem acceptBuilds_linked (h : Linked s) (hids : s.entry.IdsMatch) {answers : List AcceptAnswer}
    {b : TcpService C × OpenAnswer} (hb : b ∈ acceptBuilds s answers) :
    Linked b.1 ∧ b.1.entry.IdsMatch := by
  induction answers generalizing s with
  | nil => cases hb
  | cons answer answers ih =>
    cases answer with
    | aborted => exact ih h hids hb
    | outOfDescriptors now => cases hb
    | failed => cases hb
    | accepted socket =>
      unfold acceptBuilds at hb
      rcases List.mem_cons.mp hb with rfl | hb
      · exact ⟨h, hids⟩
      · cases hr : s.buildConnectedSocket socket with
        | error f =>
          rw [hr] at hb
          cases hb
        | ok r =>
          obtain ⟨hbuilt, -⟩ := (buildConnectedSocket_spec
            (z := ⟨False, False, False, False, fun _ => True, fun _ => False⟩) h socket
            trivial).of_ok hr
          rw [hr] at hb
          dsimp only at hb
          split at hb
          · cases hb
          · exact ih hbuilt.linked ((hbuilt.moves (a := .handler)).idsMatch hids) hb

theorem builds_linked (h : Linked s) (hids : s.entry.IdsMatch) {b : TcpService C × OpenAnswer}
    (hb : b ∈ s.builds op) : Linked b.1 ∧ b.1.entry.IdsMatch := by
  unfold builds at hb
  split at hb
  · obtain rfl := List.mem_singleton.mp hb
    exact ⟨h, hids⟩
  · obtain rfl := List.mem_singleton.mp hb
    exact ⟨h, hids⟩
  · obtain rfl := List.mem_singleton.mp hb
    exact ⟨h, hids⟩
  · obtain rfl := List.mem_singleton.mp hb
    exact ⟨h, hids⟩
  · split at hb
    next frames _ =>
      have hl : Linked { s with frames } := ⟨h.objects, h.timers, h.keys⟩
      exact acceptBuilds_linked hl hids hb
    · cases hb
  · split at hb
    · exact acceptBuilds_linked h hids hb
    · cases hb
  · cases hb

/-! ## The counter -/

/-- If a computation ends, the counter has a value. -/
def Counts {α : Type} (v : Nat) (f : α → TcpService C) (r : Except TcpFault α) : Prop :=
  Outcome.Ensures (fun _ => True) (fun a => (f a).socketIdAllocator = v) r

variable {v p q : Nat} {cb : Option (SendCompleteCallback C)}

theorem buildConnectedSocket_counts (h : s.socketIdAllocator = v) (socket : OpenAnswer) :
    Counts (nextValue v) Prod.fst (s.buildConnectedSocket socket) :=
  Outcome.Ensures.mono (buildConnectedSocket_keeps ⟨h, rfl⟩ socket) (fun _ hr => hr.1.1)
    fun _ hf => hf

/-- A step moves the counter on once for each socket it builds. -/
theorem step_counts (s : TcpService C) (op : TcpOp C) :
    Counts (nextValue^[(s.builds op).length] s.socketIdAllocator) Prod.fst (s.step op) :=
  Outcome.Ensures.mono (step_calls s op) (fun _ hr => hr.1) fun _ hf => hf

/-! ## The ids of a run -/

/-- The id that is returned for a socket. -/
def builtId (b : TcpService C × OpenAnswer) : SocketId := (b.1.getId b.2.fd).2

/-- The ids that are returned in a run, in order. -/
def allocated : TcpService C → List (TcpOp C × List (TcpOutput C)) → List SocketId
  | _, [] => []
  | s, (op, _) :: moves =>
    (s.builds op).map builtId ++
      match s.step op with
      | .ok (s', _) => allocated s' moves
      | .error _ => []

/-- The ids are made from the values of the counter behind `v`. -/
def CountsFrom (v : Nat) (ids : List SocketId) : Prop :=
  ∀ (i : Nat) (id : SocketId), ids[i]? = some id → ∃ fd : Descriptor, id = (nextValue^[i + 1] v : Nat) * 2 ^ 32 + fd

theorem CountsFrom.nil : CountsFrom v [] := fun i id h => by simp at h

theorem CountsFrom.cons (fd : Descriptor) {ids : List SocketId}
    (hid : id = (nextValue v : Nat) * 2 ^ 32 + fd) (h : CountsFrom (nextValue v) ids) :
    CountsFrom v (id :: ids) := by
  intro i id' hi
  cases i with
  | zero =>
    cases hi
    exact ⟨fd, hid⟩
  | succ i => exact h i id' hi

theorem CountsFrom.append {ids ids' : List SocketId} (h : CountsFrom v ids)
    (h' : CountsFrom (nextValue^[ids.length] v) ids') : CountsFrom v (ids ++ ids') := by
  intro i id hi
  by_cases hlt : i < ids.length
  · rw [List.getElem?_append_left hlt] at hi
    exact h i id hi
  · rw [List.getElem?_append_right (Nat.not_lt.mp hlt)] at hi
    obtain ⟨fd, hid⟩ := h' _ id hi
    refine ⟨fd, ?_⟩
    rwa [← Function.iterate_add_apply, show i - ids.length + 1 + ids.length = i + 1 by omega] at hid

theorem acceptBuilds_countsFrom (h : s.socketIdAllocator = v) (answers : List AcceptAnswer) :
    CountsFrom v ((acceptBuilds s answers).map builtId) := by
  induction answers generalizing s v with
  | nil => exact .nil
  | cons answer answers ih =>
    cases answer with
    | aborted => exact ih h
    | outOfDescriptors now => exact .nil
    | failed => exact .nil
    | accepted socket =>
      unfold acceptBuilds
      have hb := buildConnectedSocket_counts h socket
      refine .cons socket.fd (by rw [← h]; rfl) ?_
      cases hr : s.buildConnectedSocket socket with
      | error f => exact .nil
      | ok r =>
        dsimp only
        split
        · exact .nil
        · exact ih (hb.of_ok hr)

theorem builds_countsFrom (s : TcpService C) (op : TcpOp C) :
    CountsFrom s.socketIdAllocator ((s.builds op).map builtId) := by
  have hone : ∀ socket : OpenAnswer, CountsFrom s.socketIdAllocator ([(s, socket)].map builtId) :=
    fun socket => .cons socket.fd rfl .nil
  unfold builds
  split
  · exact hone _
  · exact hone _
  · exact hone _
  · exact hone _
  · split
    next frames _ => exact acceptBuilds_countsFrom (s := { s with frames }) rfl _
    · exact .nil
  · split
    · exact acceptBuilds_countsFrom rfl _
    · exact .nil
  · exact .nil

theorem allocated_countsFrom (s : TcpService C) (moves : List (TcpOp C × List (TcpOutput C))) :
    CountsFrom s.socketIdAllocator (allocated s moves) := by
  induction moves generalizing s with
  | nil => exact .nil
  | cons move moves ih =>
    refine (builds_countsFrom s move.1).append ?_
    cases hr : s.step move.1 with
    | error f => exact .nil
    | ok r =>
      rw [List.length_map, ← (step_counts s move.1).of_ok hr]
      exact ih r.1

theorem nextValue_iterate (k : Nat) : nextValue^[k + 1] 0 = k % (2 ^ 31 - 1) + 1 := by
  induction k with
  | zero => rfl
  | succ k ih =>
    rw [Function.iterate_succ_apply', ih]
    unfold nextValue
    split <;> omega

/-- The counter comes back to a value after `2 ^ 31 - 1` allocations. -/
theorem CountsFrom.spaced {ids : List SocketId} (h : CountsFrom 0 ids) {i j : Nat}
    (hi : ids[i]? = some id) (hj : ids[j]? = some id) (hlt : i < j) : i + (2 ^ 31 - 1) ≤ j := by
  obtain ⟨fd, hid⟩ := h i id hi
  obtain ⟨fd', hid'⟩ := h j id hj
  have hinj : ∀ v v' d d' : Nat, d < 2 ^ 31 → d' < 2 ^ 31 →
      (v : Int) * 2 ^ 32 + d = v' * 2 ^ 32 + d' → v = v' := by omega
  have heq := hinj _ _ fd fd' fd.isLt fd'.isLt (hid.symm.trans hid')
  rw [nextValue_iterate, nextValue_iterate] at heq
  omega

/-! ## Opening a socket -/

/-- Whatever is opened for a descriptor that could be added to the `epoll` set gets
the id. -/
structure Opens (s : TcpService C) (socket : OpenAnswer) : Prop where
  listen : (s.buildListenSocket socket).2 = (s.getId socket.fd).2
  connected : Outcome.Ensures (fun _ => True) (fun r => r.2 = (s.getId socket.fd).2)
    (s.buildConnectedSocket socket)
  asyncConnect : ∀ timeoutMs now, Outcome.Ensures (fun _ => True)
    (fun r => r.2 = (s.getId socket.fd).2) (s.buildAsyncConnectSocket socket timeoutMs now)

theorem opens_of_fresh {socket : OpenAnswer} (hattached : socket.attached = true)
    (hsocket : s.sockets (s.getId socket.fd).2 = none)
    (hconnection : s.connections (s.getId socket.fd).2 = none) : Opens s socket := by
  have hs : (s.getId socket.fd).1.sockets (s.getId socket.fd).2 = none := hsocket
  have hc : (s.getId socket.fd).1.connections (s.getId socket.fd).2 = none := hconnection
  refine ⟨?_, ?_, fun timeoutMs now => ?_⟩
  · unfold buildListenSocket
    dsimp only
    rw [hattached, hs]
    rfl
  · unfold buildConnectedSocket
    dsimp only
    rw [hattached, hs, hc]
    exact .bind_of_forall fun _ => rfl
  · unfold buildAsyncConnectSocket
    dsimp only
    rw [hattached, hs, hc]
    refine .bind_of_forall fun c => ?_
    rw [if_neg (by simp)]
    split
    · exact .bind_of_forall fun _ => rfl
    · exact rfl

/-- In a run of any length: the id returned for a descriptor that no open socket has
is positive and in no map, so that the socket is opened under it; and no id is
returned again before `2 ^ 31 - 1` further ids. -/
theorem socket_ids (hrun : Transition.Run Steps (init C) moves s) :
    (∀ op, ∀ b ∈ s.builds op, 0 < builtId b ∧
      ((∀ p x, b.1.socketObjects.cell p = some x → x.fd ≠ b.2.fd) →
        b.1.sockets (builtId b) = none ∧ b.1.connections (builtId b) = none ∧
        (b.2.attached = true → Opens b.1 b.2))) ∧
    ∀ i j id, (allocated (init C) moves)[i]? = some id →
      (allocated (init C) moves)[j]? = some id → i < j → i + (2 ^ 31 - 1) ≤ j := by
  constructor
  · intro op b hb
    have hs : Reachable s := ⟨moves, hrun⟩
    obtain ⟨hl, hids⟩ := builds_linked hs.invariant.linked hs.idsMatch hb
    refine ⟨(idOf_getId b.1 b.2.fd).pos, fun hkernel => ?_⟩
    obtain ⟨hsocket, hconnection⟩ := hl.getId_fresh hids hkernel
    exact ⟨hsocket, hconnection, fun hattached => opens_of_fresh hattached hsocket hconnection⟩
  · intro i j id hi hj hlt
    exact (allocated_countsFrom (init C) moves).spaced hi hj hlt

/-- After a connect, with the descriptor 3, a descriptor 4. -/
theorem socket_ids_connect : ∃ (s : TcpService Unit) (moves : _),
    Transition.Run Steps (init Unit) moves s ∧ s.connections (2 ^ 32 + 3) = some 0 ∧
    s.sockets (2 * 2 ^ 32 + 4) = none ∧ Opens s ⟨⟨4, by omega⟩, true⟩ ∧
    ∀ i j id, (allocated (init Unit) moves)[i]? = some id →
      (allocated (init Unit) moves)[j]? = some id → i < j → i + (2 ^ 31 - 1) ≤ j := by
  obtain ⟨s, moves, hrun, hf⟩ := exists_of_afterRun (s := init Unit)
    (show (init Unit).afterRun [.connect (some ⟨⟨3, by omega⟩, true⟩)]
      (fun s => s.connections (2 ^ 32 + 3) = some 0 ∧ s.socketIdAllocator = 1 ∧
        s.socketObjects.next = 1 ∧ (s.socketObjects.cell 0).map TcpSocket.fd = some ⟨3, by omega⟩) =
      true by decide +kernel)
  obtain ⟨hq, hvalue, hnext, hfd⟩ := of_decide_eq_true hf
  have hsteps := steps_of_run hrun
  obtain ⟨hids, hspaced⟩ := socket_ids hsteps
  obtain ⟨-, hfresh⟩ := hids (.connect (some ⟨⟨4, by omega⟩, true⟩)) _ (List.mem_singleton_self _)
  have hkernel : ∀ p x, s.socketObjects.cell p = some x → x.fd ≠ (⟨4, by omega⟩ : Descriptor) := by
    intro p x hx
    have hp := ObjectHeap.lt_next hx
    rw [hnext] at hp
    obtain rfl : p = 0 := by omega
    rw [hx] at hfd
    rw [Option.some.inj hfd]
    simp
  obtain ⟨hsocket, -, hopens⟩ := hfresh hkernel
  have hid : builtId (s, ⟨⟨4, by omega⟩, true⟩) = 2 * 2 ^ 32 + 4 := by
    unfold builtId getId
    dsimp only
    rw [hvalue]
    rfl
  exact ⟨s, moves, hsteps, hq, hid ▸ hsocket, hopens rfl, hspaced⟩

end TcpService

end Brickred
