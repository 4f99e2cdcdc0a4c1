import Brickred.Service.Receiving
import Brickred.Service.Traffic

/-!
# The messages of a connection

What the kernel takes of a connection are the accepted messages in order, and a
completion callback is called once, when all of its message has been taken. The first
needs a write buffer that can grow, since `sendMessage` hands bytes to the kernel before
it makes room for the rest. The second needs that no message is queued behind one whose
callback is outstanding, since a connection has room for a single callback.
-/

namespace Brickred

variable {C : Type}

/-! ## Bytes and callbacks -/

/-- The bytes the kernel has taken. -/
def handed (t : List (TcpOutput C)) : List UInt8 :=
  t.flatMap fun
    | .written _ bytes => bytes
    | _ => []

/-- The accepted messages, one behind the other. -/
def messages (t : List (TcpOutput C)) : List UInt8 :=
  t.flatMap fun
    | .accepted _ message _ => message
    | _ => []

/-- The callbacks of the accepted messages. -/
def acceptedCbs (t : List (TcpOutput C)) : List (SendCompleteCallback C) :=
  t.filterMap fun
    | .accepted _ _ cb => cb
    | _ => none

/-- The callbacks that have been called. -/
def completedCbs (t : List (TcpOutput C)) : List (SendCompleteCallback C) :=
  t.filterMap fun
    | .completed _ _ cb => some cb
    | _ => none

/-- What someone knows of the bytes under way who sees the outputs: those that are
accepted and that the kernel has not taken, and those it has taken of a message that
is not yet accepted. -/
structure Outbox where
  pending : List UInt8
  ahead : List UInt8

/-- One more output. While bytes are pending the kernel takes those. -/
def Outbox.see (b : Outbox) : TcpOutput C → Outbox
  | .written _ bytes =>
    if b.pending = [] then { b with ahead := bytes }
    else { b with pending := b.pending.drop bytes.length }
  | .accepted _ message _ => ⟨b.pending ++ message.drop b.ahead.length, []⟩
  | _ => b

def outbox (t : List (TcpOutput C)) : Outbox := t.foldl Outbox.see ⟨[], []⟩

@[simp] theorem handed_nil : handed ([] : List (TcpOutput C)) = [] := rfl

@[simp] theorem messages_nil : messages ([] : List (TcpOutput C)) = [] := rfl

@[simp] theorem acceptedCbs_nil : acceptedCbs ([] : List (TcpOutput C)) = [] := rfl

@[simp] theorem completedCbs_nil : completedCbs ([] : List (TcpOutput C)) = [] := rfl

section

variable (t t' : List (TcpOutput C))

@[simp] theorem handed_append : handed (t ++ t') = handed t ++ handed t' := List.flatMap_append

@[simp] theorem messages_append : messages (t ++ t') = messages t ++ messages t' :=
  List.flatMap_append

@[simp] theorem acceptedCbs_append : acceptedCbs (t ++ t') = acceptedCbs t ++ acceptedCbs t' :=
  List.filterMap_append

@[simp] theorem completedCbs_append :
    completedCbs (t ++ t') = completedCbs t ++ completedCbs t' :=
  List.filterMap_append

@[simp] theorem outbox_nil : outbox ([] : List (TcpOutput C)) = ⟨[], []⟩ := rfl

@[simp] theorem outbox_append : outbox (t ++ t') = t'.foldl Outbox.see (outbox t) :=
  List.foldl_append

@[simp] theorem handed_written (q : Nat) (bytes : List UInt8) :
    handed (.written q bytes :: t) = bytes ++ handed t := rfl

@[simp] theorem handed_accepted (q : Nat) (message : List UInt8)
    (cb : Option (SendCompleteCallback C)) : handed (.accepted q message cb :: t) = handed t := rfl

@[simp] theorem messages_written (q : Nat) (bytes : List UInt8) :
    messages (.written q bytes :: t) = messages t := rfl

@[simp] theorem messages_accepted (q : Nat) (message : List UInt8)
    (cb : Option (SendCompleteCallback C)) :
    messages (.accepted q message cb :: t) = message ++ messages t := rfl

@[simp] theorem acceptedCbs_written (q : Nat) (bytes : List UInt8) :
    acceptedCbs (.written q bytes :: t) = acceptedCbs t := rfl

@[simp] theorem acceptedCbs_accepted (q : Nat) (message : List UInt8)
    (cb : Option (SendCompleteCallback C)) :
    acceptedCbs (.accepted q message cb :: t) = cb.toList ++ acceptedCbs t := by
  cases cb <;> rfl

@[simp] theorem completedCbs_written (q : Nat) (bytes : List UInt8) :
    completedCbs (.written q bytes :: t) = completedCbs t := rfl

@[simp] theorem completedCbs_accepted (q : Nat) (message : List UInt8)
    (cb : Option (SendCompleteCallback C)) :
    completedCbs (.accepted q message cb :: t) = completedCbs t := rfl

variable (q : Nat) (id : SocketId) (cb : Option (SendCompleteCallback C))

@[simp] theorem handed_completed : handed (cb.map (.completed q id)).toList = [] := by
  cases cb <;> rfl

@[simp] theorem messages_completed : messages (cb.map (.completed q id)).toList = [] := by
  cases cb <;> rfl

@[simp] theorem acceptedCbs_completed :
    acceptedCbs (cb.map (.completed q id)).toList = [] := by
  cases cb <;> rfl

@[simp] theorem completedCbs_completed :
    completedCbs (cb.map (.completed q id)).toList = cb.toList := by
  cases cb <;> rfl

@[simp] theorem traffic_completed :
    traffic q (cb.map (.completed q id)).toList = (cb.map (.completed q id)).toList := by
  cases cb <;> simp [traffic, TcpOutput.trafficOf]

end

/-! ## What a move means for sending -/

/-- A move of an entry with the connection `q`, as far as sending is concerned. -/
inductive TcpEntry.Sends (z : TcpHazard) (id : SocketId) (e : TcpEntry C) (q : Nat)
    (c : TcpConnection C) : List (TcpOutput C) → Option (TcpEntry C) → Prop
  | closed : Sends z id e q c [] none
  | quiet {e' : TcpEntry C} {c' : TcpConnection C} (hc' : e'.connection = some (q, c'))
      (hbuffer : c'.writeBuffer = c.writeBuffer) (hcb : c'.sendCompleteCb = c.sendCompleteCb)
      (hstatus : c'.status = .connected → c.status = .connected ∨
        e.socket.writeCb = some .onAsyncConnectSocketWrite)
      (hwrite : e'.socket.writeCb = some .onAsyncConnectSocketWrite →
        e.socket.writeCb = some .onAsyncConnectSocketWrite) :
    Sends z id e q c [] (some e')
  /-- The kernel has taken bytes of a message that is then not accepted. -/
  | ahead {e' : TcpEntry C} {c' : TcpConnection C} {bytes : List UInt8}
      (hempty : c.writeBuffer.readable = []) (hc' : e'.connection = some (q, c'))
      (hbuffer : c'.writeBuffer = c.writeBuffer) (hcb : c'.sendCompleteCb = c.sendCompleteCb)
      (hthrows : z.throws ∨ c.status = .connected ∧ c'.status ≠ .connected)
      (hwrite : e'.socket = e.socket) :
    Sends z id e q c [.written q bytes] (some e')
  | sent {message : List UInt8} {cb : Option (SendCompleteCallback C)} {y : Option (TcpEntry C)}
      (hstatus : c.status = .connected) (hempty : c.writeBuffer.readable = [])
      (hy : y = e.afterComplete cb) :
    Sends z id e q c
      (.written q message :: .accepted q message cb :: (cb.map (.completed q id)).toList) y
  | started {e' : TcpEntry C} {c' : TcpConnection C} {message : List UInt8} {k : Nat}
      {cb : Option (SendCompleteCallback C)} (hstatus : c.status = .connected)
      (hempty : c.writeBuffer.readable = []) (hk : k < message.length)
      (hc' : e'.connection = some (q, c')) (hread : c'.writeBuffer.readable = message.drop k)
      (hcb : c'.sendCompleteCb = cb) (hwrite : e'.socket.writeCb = some .onSocketWrite) :
    Sends z id e q c [.written q (message.take k), .accepted q message cb] (some e')
  | queued {e' : TcpEntry C} {c' : TcpConnection C} {message : List UInt8}
      {cb : Option (SendCompleteCallback C)} (hstatus : c.status = .connected)
      (hne : c.writeBuffer.readable ≠ []) (hc' : e'.connection = some (q, c'))
      (hread : c'.writeBuffer.readable = c.writeBuffer.readable ++ message)
      (hcb : c'.sendCompleteCb = cb) (hover : c.sendCompleteCb = none ∨ z.overwrite)
      (hwrite : e'.socket = e.socket) :
    Sends z id e q c [.accepted q message cb] (some e')
  | wrote {e' : TcpEntry C} {c' : TcpConnection C} {k : Nat}
      (hne : c.writeBuffer.readable ≠ []) (hc' : e'.connection = some (q, c'))
      (hread : c'.writeBuffer.readable = c.writeBuffer.readable.drop k)
      (hcb : c'.sendCompleteCb = c.sendCompleteCb) (hstatus : c'.status = c.status)
      (hwrite : e'.socket.writeCb = some .onSocketWrite) :
    Sends z id e q c [.written q (c.writeBuffer.readable.take k)] (some e')
  | drained {e' : TcpEntry C} {c' : TcpConnection C} {y : Option (TcpEntry C)}
      (hy : y = e'.afterComplete c.sendCompleteCb) (hne : c.writeBuffer.readable ≠ [])
      (hc' : e'.connection = some (q, c')) (hread : c'.writeBuffer.readable = [])
      (hcb : c'.sendCompleteCb = none) (hstatus : c'.status = c.status)
      (hwrite : e'.socket.writeCb = none) :
    Sends z id e q c
      (.written q c.writeBuffer.readable :: (c.sendCompleteCb.map (.completed q id)).toList) y

section Moves

variable {cfg : TcpConfig} {z : TcpHazard} {n m : Nat} {a : TcpActor} {id : SocketId}
  {t outs : List (TcpOutput C)} {y : Option (TcpEntry C)} {e e' : TcpEntry C} {q : Nat}
  {c c' : TcpConnection C}

theorem EntryMove.sends (h : EntryMove cfg z n m id a outs (some e) y) (hg : e.Good)
    (hc : e.connection = some (q, c)) : e.Sends z id q c (traffic q outs) y := by
  have hgood := hg.connection hc
  cases h with
  | closed => exact .closed
  | context | refused | untimed | reported | announced =>
    exact .quiet hc rfl rfl .inl fun h => h
  | paused hnone | resumed hnone =>
    rw [hnone] at hc
    cases hc
  | consumed hc₁ size =>
    rw [hc] at hc₁
    cases hc₁
    exact .quiet rfl rfl rfl .inl fun h => h
  | received hc₁ =>
    rw [hc] at hc₁
    cases hc₁
    exact .quiet rfl rfl rfl .inl fun h => h
  | errored hc₁ houts =>
    rw [hc] at hc₁
    cases hc₁
    rcases houts with rfl | rfl <;> exact .quiet rfl rfl rfl nofun fun h => h
  | peerClosed hc₁ houts =>
    rw [hc] at hc₁
    cases hc₁
    rcases houts with rfl | rfl <;> exact .quiet rfl rfl rfl nofun fun h => h
  | established hc₁ hwrite htimer hlate houts =>
    rw [hc] at hc₁
    cases hc₁
    rcases houts with rfl | rfl <;> exact .quiet rfl rfl rfl (fun _ => .inr hwrite) nofun
  | failed hquiet hc₁ hstatus htimer houts =>
    rw [hc] at hc₁
    cases hc₁
    rcases houts with rfl | ⟨hempty, bytes, rfl⟩
    · exact .quiet rfl rfl rfl nofun fun h => h
    · simp only [traffic_cons, TcpOutput.trafficOf, traffic_nil]
      exact .ahead hempty rfl rfl rfl (.inr ⟨hstatus, nofun⟩) rfl
  | thrown hquiet hc₁ hthrows houts =>
    rw [hc] at hc₁
    cases hc₁
    rcases houts with rfl | ⟨hempty, bytes, rfl⟩
    · exact .quiet hc rfl rfl .inl fun h => h
    · simp only [traffic_cons, TcpOutput.trafficOf, traffic_nil]
      exact .ahead hempty hc rfl rfl (.inl hthrows) rfl
  | sent hquiet hc₁ hstatus hempty hafter =>
    rw [hc] at hc₁
    cases hc₁
    simp only [traffic_cons, TcpOutput.trafficOf, traffic_completed]
    exact .sent hstatus hempty hafter
  | started hquiet hc₁ hstatus hempty hk hread hmax =>
    rw [hc] at hc₁
    cases hc₁
    simp only [traffic_cons, TcpOutput.trafficOf, traffic_nil]
    exact .started hstatus hempty hk rfl hread rfl rfl
  | queued hquiet hc₁ hstatus hne hread hmax hover =>
    rw [hc] at hc₁
    cases hc₁
    simp only [traffic_cons, TcpOutput.trafficOf, traffic_nil]
    exact .queued hstatus hne rfl hread rfl hover rfl
  | wrote hquiet hc₁ hwrite hread hne =>
    rw [hc] at hc₁
    cases hc₁
    simp only [traffic_cons, TcpOutput.trafficOf, traffic_nil]
    exact .wrote (hgood.writeCb.mp hwrite) rfl hread rfl rfl hwrite
  | drained hquiet hc₁ hwrite hread hafter =>
    rw [hc] at hc₁
    cases hc₁
    simp only [traffic_cons, TcpOutput.trafficOf, traffic_completed]
    exact .drained hafter (hgood.writeCb.mp hwrite) rfl hread rfl rfl rfl

end Moves

/-! ## The order of the bytes -/

/-- The bytes a connection has handed over and those in its write buffer are the accepted
messages; as long as an `asyncConnect` waits for it there are none. -/
structure TcpEntry.Ordered (t : List (TcpOutput C)) (e : TcpEntry C) (c : TcpConnection C) :
    Prop where
  good : e.Good
  stream : c.status = .connected → handed t ++ c.writeBuffer.readable = messages t
  waiting : e.socket.writeCb = some .onAsyncConnectSocketWrite → handed t = [] ∧ messages t = []

theorem ordered_accountable {cfg : TcpConfig} {z : TcpHazard} {n m : Nat} {a : TcpActor}
    (hz : ¬z.throws) :
    Accountable (C := C) TcpEntry.Ordered (fun _ => True) cfg z n m a where
  opened {id outs e q c} h hc := by
    have hg : e.Good := h.good (by simp)
    exact ⟨hg, fun _ => (h.connection_new hc).2.2.1, fun _ => ⟨rfl, rfl⟩⟩
  moved {id outs t e q c y} h hc hP _ := by
    refine ⟨trivial, fun e' c' hy hc' => ?_⟩
    subst hy
    have hg' : e'.Good := h.good fun e₀ he₀ => by
      cases he₀
      exact hP.good
    have hgood := hP.good.connection hc
    have hsends := h.sends hP.good hc
    generalize traffic q outs = t' at hsends
    cases hsends with
    | @quiet _ c₁ hc₁ hbuffer _ hstatus hwrite =>
      rw [hc'] at hc₁
      cases hc₁
      rw [List.append_nil]
      refine ⟨hg', fun hs => ?_, fun hw => hP.waiting (hwrite hw)⟩
      rw [hbuffer]
      rcases hstatus hs with hs | hw
      · exact hP.stream hs
      · -- an `asyncConnect` has completed
        obtain ⟨hhanded, hmessages⟩ := hP.waiting hw
        have hempty : c.writeBuffer.readable = [] := by
          by_contra hne
          rw [hgood.writeCb.mpr hne] at hw
          cases hw
        rw [hhanded, hmessages, hempty]
        rfl
    | @ahead _ c₁ bytes hempty hc₁ hbuffer hcb hthrows hwrite =>
      rw [hc'] at hc₁
      cases hc₁
      obtain ⟨hstatus, hbroken⟩ := hthrows.resolve_left hz
      refine ⟨hg', fun hs => absurd hs hbroken, fun hw => ?_⟩
      rw [hwrite] at hw
      exact absurd hstatus (hgood.connecting hw).2
    | @sent message cb _ hstatus hempty hafter =>
      obtain rfl := TcpEntry.afterComplete_eq_some hafter
      rw [hc] at hc'
      cases hc'
      have hstream := hP.stream hstatus
      rw [hempty, List.append_nil] at hstream
      refine ⟨hg', fun _ => ?_, fun hw => absurd hstatus (hgood.connecting hw).2⟩
      simp [hempty, hstream]
    | @started _ _ message k cb hstatus hempty hk hc₁ hread hcb hwrite =>
      rw [hc'] at hc₁
      cases hc₁
      have hstream := hP.stream hstatus
      rw [hempty, List.append_nil] at hstream
      refine ⟨hg', fun _ => ?_, fun hw => by rw [hwrite] at hw; cases hw⟩
      simp [hread, hstream]
    | queued hstatus hne hc₁ hread hcb hover hwrite =>
      rw [hc'] at hc₁
      cases hc₁
      refine ⟨hg', fun _ => ?_, fun hw => ?_⟩
      · simp [hread, ← hP.stream hstatus]
      · rw [hwrite] at hw
        exact absurd hstatus (hgood.connecting hw).2
    | @wrote _ _ k hne hc₁ hread hcb hstatus hwrite =>
      rw [hc'] at hc₁
      cases hc₁
      refine ⟨hg', fun hs => ?_, fun hw => by rw [hwrite] at hw; cases hw⟩
      simp [hread, ← hP.stream (hstatus ▸ hs)]
    | drained hafter hne hc₁ hread hcb hstatus hwrite =>
      obtain rfl := TcpEntry.afterComplete_eq_some hafter
      rw [hc'] at hc₁
      cases hc₁
      refine ⟨hg', fun hs => ?_, fun hw => by rw [hwrite] at hw; cases hw⟩
      simp [hread, ← hP.stream (hstatus ▸ hs)]

namespace TcpService

variable {s : TcpService C} {moves : List (TcpOp C × List (TcpOutput C))}

/-- What the kernel has taken of a connected connection and what it holds for it are the
accepted messages, in order. -/
def InOrder (l : List (TcpOutput C)) (s : TcpService C) : Prop :=
  ∀ id q c, s.connections id = some q → s.connectionObjects.cell q = some c →
    c.status = .connected →
    handed (traffic q l) ++ c.writeBuffer.readable = messages (traffic q l)

/-- In every run in which every write buffer that has to grow can, to no more than a vector
can hold, the bytes are in order. -/
theorem in_order (hrun : Transition.Run
    (Transition.Guarded (fun s move => ¬(s.hazard move.1).throws) Steps) (init C) moves s) :
    InOrder (seen moves) s := by
  have h := accounted_run (g := fun s op => ¬(s.hazard op).throws)
    (fun _ _ hg => ordered_accountable hg) trivial hrun
  intro id q c hq hcell hstatus
  obtain ⟨e, c', he, hc, hcell', -⟩ := h.invariant.linked.entry_of_connections hq
  obtain rfl := Option.some.inj (hcell.symm.trans hcell')
  exact (h.accounts he hc).stream hstatus

/-- A message of which the kernel takes two bytes. -/
def sampleSend : TcpOp Unit :=
  .sendMessage (2 ^ 32 + 3) [1, 2, 3] (some ()) ⟨.accepted 2, .zero, true⟩

/-- It is sent on a new connection. -/
theorem exists_sampleSend (f : TcpService Unit → List (TcpOutput Unit) → Bool)
    (hf : Transition.execTest step (init Unit) [.connect (some ⟨⟨3, by omega⟩, true⟩)]
      (fun s moves => s.connections (2 ^ 32 + 3) = some 0 ∧
        ((s.connectionObjects.cell 0).all fun c => c.writeBuffer.readable = [] ∧
          c.writeBuffer.growthFails (bytesToQueue c [1, 2, 3] (.accepted 2)) true = false) = true ∧
        (match s.step sampleSend with
          | .ok (s', outs) => f s' (seen moves ++ outs)
          | .error _ => false) = true) = true) :
    ∃ s moves, Transition.Run (Transition.Guarded (fun s move =>
      ¬(s.hazard move.1).throws ∧ ¬(s.hazard move.1).overwrite) Steps) (init Unit) moves s ∧
      f s (seen moves) = true := by
  obtain ⟨s, moves, hexec, hf⟩ := Transition.exists_of_execTest _ _ _ _ hf
  obtain ⟨hq, hbuffer, hsend⟩ := of_decide_eq_true hf
  split at hsend
  next s' outs hstep =>
    have hsends : s.sends sampleSend = [⟨s, 0, [1, 2, 3], .accepted 2, true⟩] := by
      unfold sends sampleSend
      dsimp only
      rw [hq]
      rfl
    have hlast : Transition.Guarded (fun s move =>
        ¬(s.hazard move.1).throws ∧ ¬(s.hazard move.1).overwrite) Steps s (sampleSend, outs) s' := by
      refine ⟨⟨?_, ?_⟩, hstep⟩
      · rintro ⟨x, hx, c, hc, -, -, hthrows⟩
        rw [hsends] at hx
        obtain rfl := List.mem_singleton.mp hx
        rw [hc, Option.all_some] at hbuffer
        rw [(of_decide_eq_true hbuffer).2] at hthrows
        cases hthrows
      · rintro ⟨x, hx, c, hc, -, -, hne, -⟩
        rw [hsends] at hx
        obtain rfl := List.mem_singleton.mp hx
        rw [hc, Option.all_some] at hbuffer
        exact hne (of_decide_eq_true hbuffer).1
    have hfirst := Transition.exec_guarded (g := fun s op =>
      ¬(s.hazard op).throws ∧ ¬(s.hazard op).overwrite) hexec (by simp [hazard, sends])
    refine ⟨s', _, hfirst.append (.cons hlast .nil), ?_⟩
    rwa [show seen (moves ++ [(sampleSend, outs)]) = seen moves ++ outs by simp [seen]]
  · cases hsend

/-- The third byte waits in the write buffer. -/
theorem in_order_partial : ∃ (s : TcpService Unit) (t : List (TcpOutput Unit))
    (c : TcpConnection Unit), s.connectionObjects.cell 0 = some c ∧
    handed (traffic 0 t) = [1, 2] ∧ messages (traffic 0 t) = [1, 2, 3] ∧
    handed (traffic 0 t) ++ c.writeBuffer.readable = messages (traffic 0 t) := by
  obtain ⟨s, moves, hrun, hf⟩ := exists_sampleSend
    (fun s t => s.connections (2 ^ 32 + 3) = some 0 ∧
      ((s.connectionObjects.cell 0).any fun c => c.status = .connected) = true ∧
      handed (traffic 0 t) = [1, 2] ∧ messages (traffic 0 t) = [1, 2, 3]) (by decide +kernel)
  obtain ⟨hq, hc, hhanded, hmessages⟩ := of_decide_eq_true hf
  obtain ⟨c, hcell, hstatus⟩ := (Option.any_eq_true _ _).mp hc
  have horder := in_order (hrun.mono fun ⟨hg, hstep⟩ => ⟨hg.1, hstep⟩) _ _ c hq hcell
    (of_decide_eq_true hstatus)
  exact ⟨s, _, c, hcell, hhanded, hmessages, horder⟩

/-- The write buffer of a connection cannot take what the kernel has left of a message. -/
theorem not_in_order : ¬∀ (moves : List (TcpOp Unit × List (TcpOutput Unit))) (s : TcpService Unit),
    Transition.Run Steps (init Unit) moves s → InOrder (seen moves) s := by
  intro h
  obtain ⟨s, moves, hexec, hf⟩ := Transition.exists_of_execTest step (init Unit)
    [.set (.sendBufferExpandSize (2 ^ 63)), .connect (some ⟨⟨3, by omega⟩, true⟩),
      .sendMessage (2 ^ 32 + 3) (List.replicate 2000 7) none ⟨.accepted 1, .zero, true⟩]
    (fun s moves => s.connections (2 ^ 32 + 3) = some 0 ∧
      ((s.connectionObjects.cell 0).any fun c => c.status = .connected) = true ∧
      handed (traffic 0 (seen moves)) = [7] ∧ messages (traffic 0 (seen moves)) = [])
    (by decide +kernel)
  obtain ⟨hq, hc, hhanded, hmessages⟩ := of_decide_eq_true hf
  obtain ⟨c, hcell, hstatus⟩ := (Option.any_eq_true _ _).mp hc
  have horder := h moves s (Transition.exec_run hexec) _ _ c hq hcell (of_decide_eq_true hstatus)
  rw [hhanded, hmessages] at horder
  cases horder

end TcpService

/-! ## The completion callbacks -/

/-- A callback is called only when the kernel has taken all bytes that are accepted, and
it is the next one that has not been called. -/
def CompletionsDue (t : List (TcpOutput C)) : Prop :=
  Transition.Justified (fun before o => ∀ q id cb, o = .completed q id cb →
    (outbox before).pending = [] ∧ completedCbs before ++ [cb] <+: acceptedCbs before) t

section

variable {t : List (TcpOutput C)} {q : Nat}

theorem CompletionsDue.written (h : CompletionsDue t) (bytes : List UInt8) :
    CompletionsDue (t ++ [.written q bytes]) :=
  h.snoc nofun

theorem CompletionsDue.accepted (h : CompletionsDue t) (message : List UInt8)
    (cb : Option (SendCompleteCallback C)) :
    CompletionsDue (t ++ [.accepted q message cb]) :=
  h.snoc nofun

theorem CompletionsDue.completed (h : CompletionsDue t) {cb : Option (SendCompleteCallback C)}
    (id : SocketId)
    (hpending : (outbox t).pending = []) (hnext : acceptedCbs t = completedCbs t ++ cb.toList) :
    CompletionsDue (t ++ (cb.map (.completed q id)).toList) := by
  cases cb with
  | none => rwa [Option.map_none, Option.toList_none, List.append_nil]
  | some cb =>
    refine h.snoc fun _ _ _ heq => ?_
    cases heq
    exact ⟨hpending, hnext ▸ List.prefix_rfl⟩

end

/-- The callback slot of a connection holds the one accepted callback that has not been
called. -/
structure TcpEntry.Owes (t : List (TcpOutput C)) (e : TcpEntry C) (c : TcpConnection C) :
    Prop where
  good : e.Good
  pending : (outbox t).pending = c.writeBuffer.readable
  ahead : c.writeBuffer.readable ≠ [] → (outbox t).ahead = []
  callbacks : acceptedCbs t = completedCbs t ++ c.sendCompleteCb.toList
  open' : .sendCompleteClose ∉ completedCbs t

/-- A completion callback that leaves the entry is not the one that closes. -/
theorem TcpEntry.afterComplete_cb {e e' : TcpEntry C} {cb : Option (SendCompleteCallback C)}
    (h : some e' = e.afterComplete cb) : .sendCompleteClose ∉ cb.toList := by
  intro hmem
  obtain rfl : cb = some .sendCompleteClose := by simpa using hmem
  cases h

theorem owes_accountable {cfg : TcpConfig} {z : TcpHazard} {n m : Nat} {a : TcpActor}
    (hz : ¬z.overwrite) : Accountable (C := C) TcpEntry.Owes CompletionsDue cfg z n m a where
  opened {id outs e q c} h hc := by
    obtain ⟨-, -, hempty, hcb⟩ := h.connection_new hc
    exact ⟨h.good (by simp), hempty.symm, fun _ => rfl, by rw [hcb]; rfl, by simp⟩
  moved {id outs t e q c y} h hc hP hL := by
    have hg' : ∀ e' : TcpEntry C, y = some e' → e'.Good := by
      rintro e' rfl
      refine h.good fun e₀ he₀ => ?_
      cases he₀
      exact hP.good
    have hgood := hP.good.connection hc
    have hslot : c.writeBuffer.readable = [] → c.sendCompleteCb = none := fun hempty => by
      by_contra hne
      exact hgood.callback hne hempty
    have hsends := h.sends hP.good hc
    generalize traffic q outs = t' at hsends
    cases hsends with
    | closed => exact ⟨by rwa [List.append_nil], fun _ _ hy => by cases hy⟩
    | quiet hc₁ hbuffer hcb hstatus hwrite =>
      rw [List.append_nil]
      refine ⟨hL, fun e' c' hy hc' => ?_⟩
      cases hy
      rw [hc'] at hc₁
      cases hc₁
      exact ⟨hg' _ rfl, hbuffer ▸ hP.pending, hbuffer ▸ hP.ahead, hcb ▸ hP.callbacks, hP.open'⟩
    | ahead hempty hc₁ hbuffer hcb hthrows hwrite =>
      refine ⟨hL.written _, fun e' c' hy hc' => ?_⟩
      cases hy
      rw [hc'] at hc₁
      cases hc₁
      have hnil : (outbox t).pending = [] := hP.pending.trans hempty
      refine ⟨hg' _ rfl, ?_, fun hne => absurd (hbuffer ▸ hempty) hne, ?_, ?_⟩
      · simp [Outbox.see, hnil, hbuffer, hempty]
      · simpa [hcb] using hP.callbacks
      · simpa using hP.open'
    | @sent message cb _ hstatus hempty hafter =>
      have hnil : (outbox t).pending = [] := hP.pending.trans hempty
      have hcallbacks : acceptedCbs t = completedCbs t := by
        simpa [hslot hempty] using hP.callbacks
      have hdue : CompletionsDue (t ++ [.written q message] ++ [.accepted q message cb] ++
          (cb.map (.completed q id)).toList) :=
        ((hL.written message).accepted message cb).completed id (by simp [Outbox.see, hnil])
          (by simp [hcallbacks])
      rw [List.append_assoc, List.append_assoc] at hdue
      refine ⟨hdue, fun e' c' hy hc' => ?_⟩
      rw [hy] at hafter
      have hclose := TcpEntry.afterComplete_cb hafter
      obtain rfl := TcpEntry.afterComplete_eq_some hafter
      rw [hc] at hc'
      cases hc'
      refine ⟨hP.good, ?_, fun hne => absurd hempty hne, ?_, ?_⟩
      · cases cb <;> simp [Outbox.see, hnil, hempty]
      · simp [hcallbacks, hslot hempty]
      · simp [hP.open', hclose]
    | @started _ _ message k cb hstatus hempty hk hc₁ hread hcb hwrite =>
      have hdue : CompletionsDue (t ++ [.written q (message.take k)] ++ [.accepted q message cb]) :=
        (hL.written (message.take k)).accepted message cb
      rw [List.append_assoc] at hdue
      refine ⟨hdue, fun e' c' hy hc' => ?_⟩
      cases hy
      rw [hc'] at hc₁
      cases hc₁
      have hnil : (outbox t).pending = [] := hP.pending.trans hempty
      refine ⟨hg' _ rfl, ?_, fun _ => ?_, ?_, ?_⟩
      · simp [Outbox.see, hnil, hread, Nat.min_eq_left hk.le]
      · simp [Outbox.see]
      · simpa [hcb, hslot hempty] using hP.callbacks
      · simpa using hP.open'
    | queued hstatus hne hc₁ hread hcb hover hwrite =>
      refine ⟨hL.accepted _ _, fun e' c' hy hc' => ?_⟩
      cases hy
      rw [hc'] at hc₁
      cases hc₁
      refine ⟨hg' _ rfl, ?_, fun _ => ?_, ?_, ?_⟩
      · simp [Outbox.see, hP.pending, hP.ahead hne, hread]
      · simp [Outbox.see]
      · simpa [hcb, hover.resolve_right hz] using hP.callbacks
      · simpa using hP.open'
    | @wrote _ _ k hne hc₁ hread hcb hstatus hwrite =>
      refine ⟨hL.written _, fun e' c' hy hc' => ?_⟩
      cases hy
      rw [hc'] at hc₁
      cases hc₁
      refine ⟨hg' _ rfl, ?_, fun _ => ?_, ?_, ?_⟩
      · simp [Outbox.see, hP.pending, hne, hread]
      · simp [Outbox.see, hP.pending, hne, hP.ahead hne]
      · simpa [hcb] using hP.callbacks
      · simpa using hP.open'
    | @drained e₁ _ _ hafter hne hc₁ hread hcb hstatus hwrite =>
      have hdue : CompletionsDue (t ++ [.written q c.writeBuffer.readable] ++
          (c.sendCompleteCb.map (.completed q id)).toList) :=
        (hL.written c.writeBuffer.readable).completed id (by simp [Outbox.see, hP.pending, hne])
          (by simpa using hP.callbacks)
      rw [List.append_assoc] at hdue
      refine ⟨hdue, fun e' c' hy hc' => ?_⟩
      rw [hy] at hafter
      have hclose := TcpEntry.afterComplete_cb hafter
      obtain rfl := TcpEntry.afterComplete_eq_some hafter
      rw [hc'] at hc₁
      cases hc₁
      refine ⟨hg' _ hy, ?_, fun hne' => absurd hread hne', ?_, ?_⟩
      · cases c.sendCompleteCb <;> simp [Outbox.see, hP.pending, hne, hread]
      · simpa [hcb] using hP.callbacks
      · simp [hP.open', hclose]

namespace TcpService

variable {s : TcpService C} {moves : List (TcpOp C × List (TcpOutput C))}

/-- The callbacks of all connections are called in order, each behind its message, and
none is outstanding for an open connection with an empty write buffer. -/
structure CompletesOnce (l : List (TcpOutput C)) (s : TcpService C) : Prop where
  due : ∀ q, CompletionsDue (traffic q l)
  complete : ∀ id q c, s.connections id = some q → s.connectionObjects.cell q = some c →
    c.status = .connected → c.writeBuffer.readable = [] →
    completedCbs (traffic q l) = acceptedCbs (traffic q l) ∧
      .sendCompleteClose ∉ acceptedCbs (traffic q l)

/-- In every run in which no message is queued while the callback of an earlier one is
outstanding every callback is called once. -/
theorem completes_once (hrun : Transition.Run
    (Transition.Guarded (fun s move => ¬(s.hazard move.1).overwrite) Steps) (init C) moves s) :
    CompletesOnce (seen moves) s := by
  have h := accounted_run (g := fun s op => ¬(s.hazard op).overwrite)
    (fun _ _ hg => owes_accountable hg) Transition.justified_nil hrun
  refine ⟨h.all, fun id q c hq hcell _ hempty => ?_⟩
  obtain ⟨e, c', he, hc, hcell', -⟩ := h.invariant.linked.entry_of_connections hq
  obtain rfl := Option.some.inj (hcell.symm.trans hcell')
  have howes := h.accounts he hc
  have hslot : c.sendCompleteCb = none := by
    by_contra hne
    exact ((h.invariant.good id e he).connection hc).callback hne hempty
  have hall : acceptedCbs (traffic q (seen moves)) = completedCbs (traffic q (seen moves)) := by
    simpa [hslot] using howes.callbacks
  exact ⟨hall.symm, hall ▸ howes.open'⟩

/-- The kernel takes the third byte, too, and the callback is called. -/
theorem completes_once_drained : ∃ (s : TcpService Unit) (t : List (TcpOutput Unit)),
    CompletesOnce t s ∧ acceptedCbs (traffic 0 t) = [.user ()] ∧
    completedCbs (traffic 0 t) = [.user ()] := by
  obtain ⟨s, moves, hrun, hf⟩ := exists_sampleSend
    (fun s t => returns (s.step (.writable 0 0 (.accepted 1))) fun _ outs =>
      acceptedCbs (traffic 0 (t ++ outs)) = [.user ()] ∧
        completedCbs (traffic 0 (t ++ outs)) = [.user ()]) (by decide +kernel)
  obtain ⟨s', outs, hstep, hf⟩ := exists_of_returns hf
  obtain ⟨haccepted, hcompleted⟩ := of_decide_eq_true hf
  have hlast : Transition.Guarded (fun s move => ¬(s.hazard move.1).overwrite) Steps s
      (.writable 0 0 (.accepted 1), outs) s' := ⟨by simp [hazard, sends], hstep⟩
  have hguarded : Transition.Run (Transition.Guarded
      (fun s move => ¬(s.hazard move.1).overwrite) Steps) (init Unit) moves s :=
    hrun.mono fun h => ⟨h.1.2, h.2⟩
  have honce := completes_once (hguarded.append (.cons hlast .nil))
  rw [show seen (moves ++ [(.writable 0 0 (.accepted 1), outs)]) = seen moves ++ outs by
    simp [seen]] at honce
  exact ⟨s', _, honce, haccepted, hcompleted⟩

/-- A second message, without a callback, is queued behind one with a callback. -/
theorem not_completes_once : ¬∀ (moves : List (TcpOp Unit × List (TcpOutput Unit)))
    (s : TcpService Unit), Transition.Run Steps (init Unit) moves s →
      CompletesOnce (seen moves) s := by
  intro h
  obtain ⟨s, moves, hexec, hf⟩ := Transition.exists_of_execTest step (init Unit)
    [.connect (some ⟨⟨3, by omega⟩, true⟩), sampleSend,
      .broadcastMessage [4] [(2 ^ 32 + 3, ⟨.again, .zero, true⟩)],
      .writable 0 0 (.accepted 2)]
    (fun s moves => s.connections (2 ^ 32 + 3) = some 0 ∧
      ((s.connectionObjects.cell 0).any fun c =>
        c.status = .connected ∧ c.writeBuffer.readable = []) = true ∧
      acceptedCbs (traffic 0 (seen moves)) = [.user ()] ∧
      completedCbs (traffic 0 (seen moves)) = [])
    (by decide +kernel)
  obtain ⟨hq, hc, haccepted, hcompleted⟩ := of_decide_eq_true hf
  obtain ⟨c, hcell, hc⟩ := (Option.any_eq_true _ _).mp hc
  obtain ⟨hstatus, hempty⟩ := of_decide_eq_true hc
  have hall := ((h moves s (Transition.exec_run hexec)).complete _ _ c hq hcell hstatus hempty).1
  rw [haccepted, hcompleted] at hall
  cases hall

end TcpService

end Brickred
