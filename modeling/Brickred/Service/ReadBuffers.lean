import Brickred.Service.Buffers

/-!
# What becomes of the bytes that are read

Over a whole run each connection has a ledger that balances: what `recv` has handed over for
it is what the user has taken out of its read buffer, followed by what the buffer holds.
-/

namespace Brickred

variable {C : Type}

namespace TcpService

/-! ## Sending -/

/-- What the read buffer of a connection holds, while there is the connection. -/
def held (s : TcpService C) (q : Nat) : Option (List UInt8) := s.shows reads q

variable {s s₁ s' : TcpService C} {q : Nat} {id : SocketId}

theorem sendMessageOn_reads (s : TcpService C) (q : Nat) (message : List UInt8)
    (cb : Option (SendCompleteCallback C)) (answer : SendAnswer) :
    Keep reads [] s Prod.fst (s.sendMessageOn q message cb answer) := by
  cases hc : s.connectionObjects.cell q with
  | none =>
    have hat : s.connectionAt q = .error .dangling := by
      unfold connectionAt
      rw [hc]
      rfl
    unfold sendMessageOn
    rw [hat]
    trivial
  | some c =>
    refine sendMessageOn_rule hc message cb answer (.refl s) (fun id errno => ?_) (fun data => ?_)
      fun id => Outcome.Ensures.mono (sendComplete_same s q id cb) (fun _ hs _ => hs) fun _ hf => hf
    · have hset : SameReads s (s.setConnection q (·.setError errno)) :=
        (Same.refl s).setConnection q fun _ => rfl
      exact Outcome.Ensures.mono (Keep.after hset (addSocketTimer_same _ id 0 _ answer.now))
        (fun _ hs => ⟨hs, fun _ => hs⟩) fun _ hf => hf
    · rcases queueMessage_spec (s := s) (q := q) c data cb answer.allocated with
        ⟨e₁, -⟩ | e₁ | ⟨writeBuffer, -, -, e₁⟩ <;> rw [e₁]
      · exact ⟨.refl s, fun _ => .refl s⟩
      · trivial
      · have hset : SameReads s (s.setConnection q ({ · with writeBuffer, sendCompleteCb := cb })) :=
          (Same.refl s).setConnection q fun _ => rfl
        exact ⟨hset, fun p f _ => hset.setSocket p f⟩

theorem sendMessage_reads (s : TcpService C) (id : SocketId) (message : List UInt8)
    (cb : Option (SendCompleteCallback C)) (answer : SendAnswer) :
    Keep reads [] s Prod.fst (s.sendMessage id message cb answer) := by
  unfold sendMessage
  split
  · exact .refl s
  · exact sendMessageOn_reads s _ message cb answer

theorem broadcastMessage_reads (s : TcpService C) (buffer : List UInt8)
    (answers : List (SocketId × SendAnswer)) :
    Keep reads [] s Prod.fst (broadcastMessage buffer s answers) := by
  induction answers generalizing s with
  | nil => exact .refl s
  | cons turn rest ih =>
    obtain ⟨id, answer⟩ := turn
    unfold broadcastMessage
    split
    · exact ih s
    next q _ =>
      refine (sendMessageOn_reads s q buffer none answer).bind fun r => ?_
      dsimp only
      split
      · exact Same.refl r.1
      · exact (ih r.1).bind fun r' => Same.refl r'.1

theorem onSocketWrite_reads (s : TcpService C) (p : Nat) (result : SendResult) :
    Keep reads [] s Prod.fst (s.onSocketWrite p result) := by
  refine .bind_of_forall fun x => ?_
  dsimp only
  split
  · exact .refl s
  next q _ =>
    refine .bind_of_forall fun c => ?_
    split
    · exact (setErrorAndReport_same s q x.id _).toReads
    · exact .refl s
    · have hset : ∀ writeBuffer, SameReads s (s.setConnection q ({ · with writeBuffer })) :=
        fun _ => (Same.refl s).setConnection q fun _ => rfl
      split
      · refine (Keep.after ?_ (sendComplete_same _ q x.id _)).bind fun r => Same.refl r.1
        exact ((hset _).setSocket p _).setConnection q fun _ => rfl
      · exact hset _

end TcpService

/-! ## The receive loop -/

/-- The bytes that `recv` hands over in one run of the loop, from a buffer that holds
`size` bytes. -/
def handedOver (maxSize : Nat) : Nat → List RecvAnswer → List UInt8
  | _, [] => []
  | size, answer :: answers =>
    let bytesToRead := (max 1 answer.available).toNat
    if maxSize > 0 ∧ bytesToRead + size > maxSize then []
    else
      match answer.result with
      | .data bytes =>
        let bytes := bytes.take bytesToRead
        if bytes.length > 0 then bytes ++ handedOver maxSize (size + bytes.length) answers else []
      | _ => []

/-- The loop puts them behind what the buffer holds. -/
theorem recvLoop_handedOver {maxSize : Nat} {b b' : DynamicBuffer} {arrived arrived' : Bool}
    {answers : List RecvAnswer} {e : RecvEnd}
    (h : recvLoop maxSize b arrived answers = .ok (b', arrived', e)) :
    b'.readable = b.readable ++ handedOver maxSize b.readableBytes answers := by
  induction answers generalizing b arrived with
  | nil =>
    rw [handedOver, List.append_nil]
    by_cases hover : Overflows maxSize b []
    · rw [recvLoop_overflow hover] at h
      cases h
      rfl
    · cases hroom : b.reserveWritableBytes (bytesToRead []) with
      | none =>
        rw [recvLoop_noRoom hover hroom] at h
        cases h
      | some b₁ =>
        rw [recvLoop_nil hover hroom] at h
        cases h
        exact DynamicBuffer.readable_reserveWritableBytes hroom
  | cons answer answers ih =>
    unfold recvLoop at h
    unfold handedOver
    dsimp only at h ⊢
    by_cases hover : maxSize > 0 ∧ (max 1 answer.available).toNat + b.readableBytes > maxSize
    · rw [if_pos hover] at h ⊢
      cases h
      rw [List.append_nil]
    rw [if_neg hover] at h ⊢
    cases hroom : b.reserveWritableBytes (max 1 answer.available).toNat with
    | none =>
      rw [hroom] at h
      cases h
    | some b₁ =>
    have hb₁ := DynamicBuffer.readable_reserveWritableBytes hroom
    rw [hroom, orFault, Outcome.ok_bind] at h
    cases hresult : answer.result with
    | again | error errno =>
      rw [hresult] at h
      cases h
      rw [hb₁, List.append_nil]
    | data bytes =>
      rw [hresult] at h
      dsimp only at h ⊢
      by_cases hlen : (bytes.take (max 1 answer.available).toNat).length > 0
      · rw [if_pos hlen] at h ⊢
        generalize bytes.take (max 1 answer.available).toNat = received at h
        cases hcopy : b₁.copyIn received with
        | none =>
          rw [hcopy] at h
          cases h
        | some b₂ =>
          rw [hcopy, orFault, Outcome.ok_bind] at h
          have hread : (b₂.write received.length).readable = b.readable ++ received := by
            rw [DynamicBuffer.readable_copyIn_write hcopy, hb₁]
          have hsize : (b₂.write received.length).readableBytes =
              b.readableBytes + received.length := by
            rw [← DynamicBuffer.length_readable, hread, List.length_append,
              DynamicBuffer.length_readable]
          rw [ih h, hread, hsize, List.append_assoc]
      · rw [if_neg hlen] at h ⊢
        cases h
        rw [hb₁, List.append_nil]

namespace TcpService

/-! ## The ledger -/

/-- The bytes that a step takes from the kernel, and for which connection. -/
def arrives (s : TcpService C) : TcpOp C → Option (Nat × List UInt8)
  | .readable p _ recvs => do
    if s.frames = [] then
      let socket ← s.socketObjects.cell p
      if socket.readCb = some .onSocketRead then
        let q ← s.connections socket.id
        let conn ← s.connectionObjects.cell q
        some (q, handedOver s.config.connReadBufferMaxSize conn.readBuffer.readableBytes recvs)
      else none
    else none
  | _ => none

/-- The bytes that the user takes in a step, and of which connection. -/
def takes (s : TcpService C) : TcpOp C → Option (Nat × List UInt8)
  | .consume socketId size => do
    let q ← s.connections socketId
    let conn ← s.connectionObjects.cell q
    some (q, conn.readBuffer.readable.take size)
  | _ => none

/-- The bytes that are of one connection. -/
def bytesOf (q : Nat) : Option (Nat × List UInt8) → List UInt8
  | none => []
  | some (q', bytes) => if q' = q then bytes else []

/-- A column of the ledger of a connection over calls and events, from a state on. -/
def ledger (entry : TcpService C → TcpOp C → Option (Nat × List UInt8)) (q : Nat)
    (s : TcpService C) : List (TcpOp C) → List UInt8
  | [] => []
  | op :: ops =>
    bytesOf q (entry s op) ++
      match s.step op with
      | .ok (s', _) => ledger entry q s' ops
      | .error _ => []

variable {s s' : TcpService C} {q : Nat} {bytes : List UInt8} {op : TcpOp C}
  {outs : List (TcpOutput C)}

/-- One more step makes one more entry. -/
theorem ledger_snoc (entry : TcpService C → TcpOp C → Option (Nat × List UInt8)) (q : Nat)
    {moves : List (TcpOp C × List (TcpOutput C))} (h : Transition.Run Steps s moves s') (op : TcpOp C)
    (outs : List (TcpOutput C)) : ledger entry q s ((moves ++ [(op, outs)]).map Prod.fst) =
      ledger entry q s (moves.map Prod.fst) ++ bytesOf q (entry s' op) := by
  induction h with
  | nil =>
    simp only [List.nil_append, List.map_cons, List.map_nil, ledger]
    split <;> exact List.append_nil _
  | @cons s move s₁ moves s' hstep _ ih =>
    obtain ⟨op', outs'⟩ := move
    have hop : s.step op' = .ok (s₁, outs') := hstep
    rw [List.cons_append, List.map_cons, List.map_cons, ledger, ledger]
    dsimp only
    rw [hop]
    dsimp only
    rw [ih, List.append_assoc]

/-- What one step does to the ledgers: what a connection held and what arrives is what is
taken and what it holds then. -/
structure Balances (s : TcpService C) (op : TcpOp C) (s' : TcpService C) : Prop where
  next : s.connectionObjects.next ≤ s'.connectionObjects.next
  held : ∀ q bytes, s'.held q = some bytes →
    (∃ before, s.held q = some before ∧
      before ++ bytesOf q (s.arrives op) = bytesOf q (s.takes op) ++ bytes) ∨
    s.connectionObjects.next ≤ q ∧ bytes = []
  arrives : ∀ q, s.connectionObjects.next ≤ q → bytesOf q (s.arrives op) = []
  takes : ∀ q, bytesOf q (s.takes op) <+: (s.held q).getD []

theorem Same.balances (h : SameReads s s') (harrives : s.arrives op = none)
    (htakes : s.takes op = none) : Balances s op s' where
  next := h.next
  held q bytes hq := by
    rw [harrives, htakes]
    rcases h.shows q bytes hq with hq | hq
    · exact .inl ⟨bytes, hq, List.append_nil bytes⟩
    · exact .inr hq
  arrives q _ := by
    rw [harrives]
    rfl
  takes q := by
    rw [htakes]
    exact List.nil_prefix

theorem consume_balances (s : TcpService C) (id : SocketId) (size : Nat) :
    Balances s (.consume id size) (s.consume id size) := by
  unfold consume
  cases hq : s.connections id with
  | none => exact (Same.refl s).balances rfl (by simp [TcpService.takes, hq])
  | some q =>
    cases hc : s.connectionObjects.cell q with
    | none =>
      refine Same.balances ⟨Nat.le_refl _, fun q' bytes h => .inl ?_⟩ rfl
        (by simp [TcpService.takes, hq, hc])
      rw [shows_setConnection] at h
      split at h
      · rw [hc] at h
        cases h
      · exact h
    | some conn =>
      have htakes : s.takes (.consume id size) = some (q, conn.readBuffer.readable.take size) := by
        simp [TcpService.takes, hq, hc]
      refine ⟨Nat.le_refl _, fun q' bytes h => .inl ?_, fun q' _ => rfl, fun q' => ?_⟩
      · rw [TcpService.held, shows_setConnection] at h
        rw [htakes]
        split at h
        next heq =>
          subst heq
          rw [hc] at h
          cases h
          refine ⟨_, congrArg (Option.map _) hc, ?_⟩
          show conn.readBuffer.readable ++ [] =
            bytesOf q' (some (q', conn.readBuffer.readable.take size)) ++
              (conn.readBuffer.read size).readable
          rw [DynamicBuffer.readable_read, bytesOf, if_pos rfl, List.take_append_drop, List.append_nil]
        next hne =>
          refine ⟨bytes, h, ?_⟩
          rw [bytesOf, if_neg (Ne.symm hne)]
          exact List.append_nil _
      · rw [htakes, bytesOf]
        split
        next heq =>
          subst heq
          rw [TcpService.held, shows, hc]
          exact List.take_prefix _ _
        next => exact List.nil_prefix

theorem onSocketRead_balances {p : Nat} {recvs accepts} {socket : TcpSocket}
    (hframes : s.frames = []) (hp : s.socketObjects.cell p = some socket)
    (hread : socket.readCb = some .onSocketRead) (h : s.onSocketRead p recvs = .ok (s', outs)) :
    Balances s (.readable p accepts recvs) s' := by
  have harrives : s.arrives (.readable p accepts recvs) = (s.connections socket.id).bind fun q =>
      (s.connectionObjects.cell q).bind fun conn => some (q,
        handedOver s.config.connReadBufferMaxSize conn.readBuffer.readableBytes recvs) := by
    simp [TcpService.arrives, hframes, hp, hread]
  cases hq : s.connections socket.id with
  | none =>
    rw [hq] at harrives
    unfold onSocketRead at h
    rw [socketAt_eq hp, Outcome.ok_bind, hq] at h
    cases h
    exact (Same.refl _).balances harrives rfl
  | some q =>
    cases hc : s.connectionObjects.cell q with
    | none =>
      unfold onSocketRead socketAt connectionAt at h
      simp only [hp, hq, hc, orFault, Outcome.ok_bind, Outcome.error_bind] at h
      cases h
    | some conn =>
      rw [hq, Option.bind_some, hc, Option.bind_some] at harrives
      cases hloop : recvLoop s.config.connReadBufferMaxSize conn.readBuffer false recvs with
      | error fault =>
        rw [onSocketRead_fault hp hq hc hloop] at h
        cases h
      | ok r =>
        obtain ⟨b, arrived, e⟩ := r
        rw [onSocketRead_eq hp hq hc hloop] at h
        have hsame : SameReads (s.received q b) s' := (Outcome.Ensures.of_ok (behindLoop_same (s.received q b) q socket.id arrived e) h).toReads
        have hbytes := recvLoop_handedOver hloop
        refine ⟨hsame.next, fun q' bytes hq' => ?_, fun q' hle => ?_, fun q' => List.nil_prefix⟩
        · refine (hsame.shows q' bytes hq').imp (fun hheld => ?_) fun hnew => hnew
          rw [received, shows_setConnection] at hheld
          rw [harrives]
          split at hheld
          next heq =>
            subst heq
            rw [hc] at hheld
            cases hheld
            refine ⟨_, congrArg (Option.map _) hc, ?_⟩
            rw [bytesOf, if_pos rfl]
            exact hbytes.symm
          next hne =>
            refine ⟨bytes, hheld, ?_⟩
            rw [bytesOf, if_neg (Ne.symm hne)]
            exact List.append_nil _
        · rw [harrives, bytesOf]
          refine if_neg ?_
          rintro rfl
          exact absurd (ObjectHeap.lt_next hc) (Nat.not_lt_of_le hle)

theorem Keep.balances {r : Except TcpFault (TcpService C × List (TcpOutput C))}
    (hr : Keep reads [] s Prod.fst r) (h : r = .ok (s', outs)) (harrives : s.arrives op = none)
    (htakes : s.takes op = none) : Balances s op s' := by
  subst h
  exact Same.balances hr harrives htakes

/-- Every step balances. -/
theorem step_balances (h : s.step op = .ok (s', outs)) : Balances s op s' := by
  cases op with
  | set setting =>
    cases h
    exact Same.balances (.of_eq rfl) rfl rfl
  | listen socket =>
    cases h
    cases socket with
    | none => exact (Same.refl s).balances rfl rfl
    | some socket => exact (buildListenSocket_same s socket).toReads.balances rfl rfl
  | connect socket =>
    refine Keep.balances ?_ h rfl rfl
    cases socket with
    | none => exact Same.refl s
    | some socket => exact (buildConnectedSocket_same s socket).toReads.bind fun r => Same.refl r.1
  | asyncConnect answer timeoutMs now =>
    refine Keep.balances ?_ h rfl rfl
    exact (asyncConnect_same s answer timeoutMs now).toReads.bind fun r => Same.refl r.1
  | sendMessage id buffer cb answer => exact (sendMessage_reads s id buffer _ answer).balances h rfl rfl
  | sendMessageThenClose id buffer answer =>
    exact (sendMessage_reads s id buffer _ answer).balances h rfl rfl
  | broadcastMessage buffer answers => exact (broadcastMessage_reads s buffer answers).balances h rfl rfl
  | closeSocket id =>
    refine Keep.balances ?_ h rfl rfl
    exact (closeSocket_same s id).bind fun s₁ => Same.refl s₁
  | setContext id context =>
    unfold step setContext at h
    dsimp only at h
    split at h <;> cases h <;> exact Same.balances (.of_eq rfl) rfl rfl
  | consume id size =>
    cases h
    exact consume_balances s id size
  | startTimer timeoutMs callTimes now =>
    refine Keep.balances ?_ h rfl rfl
    exact .bind_of_forall fun _ => Same.of_eq rfl
  | stopTimer timerId =>
    have hstop : Keep reads [] s (fun s => s) (s.stopTimer timerId) := by
      unfold stopTimer
      split
      · exact .bind_of_forall fun _ => Same.of_eq rfl
      · exact Same.refl s
    refine Keep.balances ?_ h rfl rfl
    exact hstop.bind fun s₁ => Same.refl s₁
  | callbackReturn accepts => exact (callbackReturn_same s accepts).toReads.balances h rfl rfl
  | readable p accepts recvs =>
    by_cases hframes : s.frames = []
    · have hevent : s.readable p accepts recvs = .ok (s', outs) := by
        rw [← h]
        unfold step onEvent
        dsimp only
        rw [hframes]
      unfold readable at hevent
      cases hp : s.socketObjects.cell p with
      | none =>
        rw [hp] at hevent
        cases hevent
        exact (Same.refl _).balances (by simp [TcpService.arrives, hp]) rfl
      | some socket =>
        rw [hp, Option.bind_some] at hevent
        cases hread : socket.readCb with
        | none =>
          rw [hread] at hevent
          cases hevent
          exact (Same.refl _).balances (by simp [TcpService.arrives, hp, hread]) rfl
        | some cb =>
          rw [hread] at hevent
          cases cb with
          | onListenSocketRead =>
            exact (onListenSocketRead_same s p accepts).toReads.balances hevent
              (by simp [TcpService.arrives, hp, hread]) rfl
          | onSocketRead => exact onSocketRead_balances hframes hp hread hevent
    · have hsame : s' = s := by
        unfold step onEvent at h
        dsimp only at h
        split at h
        next hnil => exact absurd hnil hframes
        next => exact (congrArg Prod.fst (Except.ok.inj h)).symm
      subst hsame
      exact (Same.refl _).balances (by simp [TcpService.arrives, hframes]) rfl
  | writable p socketError result =>
    refine (onEvent_same ?_).balances h rfl rfl
    unfold writable
    split
    · exact Same.refl s
    · exact (onAsyncConnectSocketWrite_same s p socketError).toReads
    · exact onSocketWrite_reads s p result
  | error p socketError =>
    refine (onEvent_same ?_).toReads.balances h rfl rfl
    unfold error
    split
    · exact Same.refl s
    · exact onSocketError_same s p socketError
  | timeout now => exact (onEvent_same (timeout_same s now)).toReads.balances h rfl rfl

/-! ## Runs -/

/-- The columns of the ledger of a connection so far, in a state. -/
structure Ledger (arrived taken : List UInt8) (q : Nat) (s : TcpService C) : Prop where
  order : taken <+: arrived
  held : ∀ bytes, s.held q = some bytes → arrived = taken ++ bytes
  new : s.connectionObjects.next ≤ q → arrived = []

theorem held_lt_next {bytes : List UInt8} (h : s.held q = some bytes) : q < s.connectionObjects.next := by
  obtain ⟨c, hc, -⟩ := Option.map_eq_some_iff.mp h
  exact ObjectHeap.lt_next hc

theorem Ledger.step {arrived taken : List UInt8} (h : Ledger arrived taken q s) (hb : Balances s op s') :
    Ledger (arrived ++ bytesOf q (s.arrives op)) (taken ++ bytesOf q (s.takes op)) q s' := by
  have htakes := hb.takes q
  refine ⟨?_, fun bytes hq => ?_, fun hle => ?_⟩
  · cases hheld : s.held q with
    | none =>
      rw [hheld, Option.getD_none, List.prefix_nil] at htakes
      rw [htakes, List.append_nil]
      exact h.order.trans (List.prefix_append _ _)
    | some before =>
      rw [hheld, Option.getD_some] at htakes
      rw [h.held before hheld, List.append_assoc]
      exact (List.prefix_append_right_inj taken).mpr (htakes.trans (List.prefix_append _ _))
  · rcases hb.held q bytes hq with ⟨before, hbefore, hbytes⟩ | ⟨hnew, rfl⟩
    · rw [h.held before hbefore, List.append_assoc, hbytes, List.append_assoc]
    · have hnil := h.new hnew
      have htaken : taken = [] := List.prefix_nil.mp (hnil ▸ h.order)
      have hnone : s.held q = none := by
        cases hheld : s.held q with
        | none => rfl
        | some before => exact absurd (held_lt_next hheld) (Nat.not_lt_of_le hnew)
      rw [hnone, Option.getD_none, List.prefix_nil] at htakes
      rw [hnil, htaken, htakes, hb.arrives q hnew]
      rfl
  · have hnew := Nat.le_trans hb.next hle
    rw [h.new hnew, hb.arrives q hnew]
    rfl

theorem Ledger.run {moves : List (TcpOp C × List (TcpOutput C))} {arrived taken : List UInt8}
    (h : Ledger arrived taken q s) (hrun : Transition.Run Steps s moves s') :
    Ledger (arrived ++ ledger TcpService.arrives q s (moves.map Prod.fst))
      (taken ++ ledger TcpService.takes q s (moves.map Prod.fst)) q s' := by
  induction hrun generalizing arrived taken with
  | nil =>
    rw [List.map_nil, ledger, ledger, List.append_nil, List.append_nil]
    exact h
  | @cons s move s₁ moves s' hstep _ ih =>
    obtain ⟨op, outs⟩ := move
    have hop : s.step op = .ok (s₁, outs) := hstep
    rw [List.map_cons]
    unfold ledger
    dsimp only
    rw [hop]
    dsimp only
    rw [← List.append_assoc, ← List.append_assoc]
    exact ih (h.step (step_balances hop))

/-- In every run, whatever the user's callbacks do, what has been taken out of the read buffer
of a connection is a prefix of what the kernel has handed over for it, and the rest is what
the buffer holds, as long as there is the connection. -/
theorem reads_balance {moves : List (TcpOp C × List (TcpOutput C))}
    (h : Transition.Run Steps (init C) moves s) (q : Nat) :
    ledger takes q (init C) (moves.map Prod.fst) <+: ledger arrives q (init C) (moves.map Prod.fst) ∧
      ∀ bytes, s.held q = some bytes → ledger arrives q (init C) (moves.map Prod.fst) =
        ledger takes q (init C) (moves.map Prod.fst) ++ bytes := by
  have hinit : Ledger [] [] q (init C) := by
    refine ⟨List.nil_prefix, fun bytes hq => ?_, fun _ => rfl⟩
    cases hq
  have hrun := hinit.run h
  rw [List.nil_append, List.nil_append] at hrun
  exact ⟨hrun.order, hrun.held⟩

/-- Five bytes arrive, the user takes two and the buffer holds three. -/
theorem reads_balance_five : ∃ (s : TcpService Unit) (moves : List (TcpOp Unit × List (TcpOutput Unit))),
    Transition.Run Steps (init Unit) moves s ∧
      ledger takes 0 (init Unit) (moves.map Prod.fst) = [1, 2] ∧ s.held 0 = some [3, 4, 5] ∧
      ledger arrives 0 (init Unit) (moves.map Prod.fst) = [1, 2] ++ [3, 4, 5] := by
  obtain ⟨s, moves, hexec, hf⟩ := Transition.exists_of_execTest step (init Unit)
    [.connect (some ⟨⟨3, by omega⟩, true⟩), .readable 0 [] [⟨5, .data [1, 2, 3, 4, 5]⟩],
      .consume (2 ^ 32 + 3) 2]
    (fun s moves => decide (s.held 0 = some [3, 4, 5]) &&
      decide (ledger takes 0 (init Unit) (moves.map Prod.fst) = [1, 2]))
    (by decide +kernel)
  simp only [Bool.and_eq_true, decide_eq_true_eq] at hf
  obtain ⟨hheld, htaken⟩ := hf
  have hrun := Transition.exec_run hexec
  have hbalance := (reads_balance hrun 0).2 _ hheld
  rw [htaken] at hbalance
  exact ⟨s, moves, hrun, htaken, hheld, hbalance⟩

end TcpService

end Brickred
