import Brickred.Lib.Outcome
import Brickred.Lib.Transition
import Brickred.Service.TcpService

/-!
# What `onSocketRead` makes of the answers of the kernel

The receive loop as a run: a round takes the bytes of one `recv`, and the loop ends in
the first state without a round. What the handler does then, the end of the connection
and the delivery of what was received, is decided by how that state fails to have one.
-/

namespace Brickred

/-- What `FIONREAD` answers; after the last answer nothing is left. -/
def available : List RecvAnswer → Int
  | [] => 0
  | answer :: _ => answer.available

/-- The size the loop passes to `recv`. -/
def bytesToRead (answers : List RecvAnswer) : Nat := (max 1 (available answers)).toNat

/-- The limit is set, and does not allow as many bytes more. -/
def Overflows (maxSize : Nat) (b : DynamicBuffer) (answers : List RecvAnswer) : Prop :=
  maxSize > 0 ∧ bytesToRead answers + b.readableBytes > maxSize

/-- A round of the loop, labelled with the bytes it receives. -/
inductive RecvRound (maxSize : Nat) :
    DynamicBuffer × List RecvAnswer → List UInt8 → DynamicBuffer × List RecvAnswer → Prop
  | data {b b₁ b₂ : DynamicBuffer} {size : Int} {bytes received : List UInt8}
      {answers : List RecvAnswer} (hfits : ¬ Overflows maxSize b (⟨size, .data bytes⟩ :: answers))
      (hroom : b.reserveWritableBytes (bytesToRead (⟨size, .data bytes⟩ :: answers)) = some b₁)
      (hreceived : received = bytes.take (bytesToRead (⟨size, .data bytes⟩ :: answers)))
      (hne : received ≠ []) (hcopy : b₁.copyIn received = some b₂) :
      RecvRound maxSize (b, ⟨size, .data bytes⟩ :: answers) received
        (b₂.write received.length, answers)

/-- How the loop ends where it does not go on. -/
inductive RecvExit (maxSize : Nat) :
    DynamicBuffer → List RecvAnswer → Except TcpFault RecvEnd → Prop
  | overflow {b answers} (h : Overflows maxSize b answers) : RecvExit maxSize b answers (.ok .peerClose)
  | noRoom {b answers} (hfits : ¬ Overflows maxSize b answers)
      (hroom : b.reserveWritableBytes (bytesToRead answers) = none) :
      RecvExit maxSize b answers (.error .buffer)
  | outside {b b₁ size bytes answers}
      (hfits : ¬ Overflows maxSize b (⟨size, .data bytes⟩ :: answers))
      (hroom : b.reserveWritableBytes (bytesToRead (⟨size, .data bytes⟩ :: answers)) = some b₁)
      (hne : bytes ≠ []) (hcopy : b₁.copyIn (bytes.take (bytesToRead (⟨size, .data bytes⟩ :: answers))) = none) :
      RecvExit maxSize b (⟨size, .data bytes⟩ :: answers) (.error .buffer)
  | nothing {b b₁} (hfits : ¬ Overflows maxSize b [])
      (hroom : b.reserveWritableBytes (bytesToRead []) = some b₁) :
      RecvExit maxSize b [] (.ok .again)
  | again {b b₁ size answers} (hfits : ¬ Overflows maxSize b (⟨size, .again⟩ :: answers))
      (hroom : b.reserveWritableBytes (bytesToRead (⟨size, .again⟩ :: answers)) = some b₁) :
      RecvExit maxSize b (⟨size, .again⟩ :: answers) (.ok .again)
  | error {b b₁ size errno answers}
      (hfits : ¬ Overflows maxSize b (⟨size, .error errno⟩ :: answers))
      (hroom : b.reserveWritableBytes (bytesToRead (⟨size, .error errno⟩ :: answers)) = some b₁) :
      RecvExit maxSize b (⟨size, .error errno⟩ :: answers) (.ok (.error errno))
  | closed {b b₁ size answers} (hfits : ¬ Overflows maxSize b (⟨size, .data []⟩ :: answers))
      (hroom : b.reserveWritableBytes (bytesToRead (⟨size, .data []⟩ :: answers)) = some b₁) :
      RecvExit maxSize b (⟨size, .data []⟩ :: answers) (.ok .peerClose)

variable {maxSize : Nat} {b b' : DynamicBuffer} {answers rest : List RecvAnswer}

theorem bytesToRead_pos (answers : List RecvAnswer) : 0 < bytesToRead answers := by
  unfold bytesToRead
  omega

theorem take_bytesToRead {bytes : List UInt8} (answers : List RecvAnswer)
    (h : bytes.take (bytesToRead answers) = []) : bytes = [] := by
  have hpos := bytesToRead_pos answers
  rcases List.take_eq_nil_iff.mp h with h | h
  · omega
  · exact h

theorem RecvRound.unique {s s₁ s₂ : DynamicBuffer × List RecvAnswer} {x y : List UInt8}
    (h₁ : RecvRound maxSize s x s₁) (h₂ : RecvRound maxSize s y s₂) : x = y ∧ s₁ = s₂ := by
  obtain ⟨-, hroom, rfl, -, hcopy⟩ := h₁
  obtain ⟨-, hroom', rfl, -, hcopy'⟩ := h₂
  obtain rfl := Option.some.inj (hroom.symm.trans hroom')
  obtain rfl := Option.some.inj (hcopy.symm.trans hcopy')
  exact ⟨rfl, rfl⟩

/-- Where the loop ends there is no other round. -/
theorem RecvExit.stuck {r : Except TcpFault RecvEnd} (h : RecvExit maxSize b answers r)
    (x : List UInt8) (s : DynamicBuffer × List RecvAnswer) :
    ¬ RecvRound maxSize (b, answers) x s := by
  rintro ⟨hfits, hroom, rfl, hne, hcopy⟩
  cases h with
  | overflow h => exact hfits h
  | noRoom _ hnone => exact absurd (hnone.symm.trans hroom) nofun
  | outside _ hroom' _ hnone =>
    obtain rfl := Option.some.inj (hroom.symm.trans hroom')
    exact absurd (hnone.symm.trans hcopy) nofun
  | closed _ _ => exact hne List.take_nil

/-- The loop goes on, or ends. -/
theorem recvRound_or_exit (maxSize : Nat) (b : DynamicBuffer) (answers : List RecvAnswer) :
    (∃ x s, RecvRound maxSize (b, answers) x s) ∨ ∃ r, RecvExit maxSize b answers r := by
  by_cases hfits : Overflows maxSize b answers
  · exact .inr ⟨_, .overflow hfits⟩
  cases hroom : b.reserveWritableBytes (bytesToRead answers) with
  | none => exact .inr ⟨_, .noRoom hfits hroom⟩
  | some b₁ =>
    match answers with
    | [] => exact .inr ⟨_, .nothing hfits hroom⟩
    | ⟨_, .again⟩ :: _ => exact .inr ⟨_, .again hfits hroom⟩
    | ⟨_, .error _⟩ :: _ => exact .inr ⟨_, .error hfits hroom⟩
    | ⟨_, .data []⟩ :: _ => exact .inr ⟨_, .closed hfits hroom⟩
    | ⟨size, .data (byte :: bytes)⟩ :: answers =>
      cases hcopy : b₁.copyIn ((byte :: bytes).take
          (bytesToRead (⟨size, .data (byte :: bytes)⟩ :: answers))) with
      | none => exact .inr ⟨_, .outside hfits hroom (List.cons_ne_nil _ _) hcopy⟩
      | some b₂ =>
        refine .inl ⟨_, _, .data hfits hroom rfl (fun hnil => ?_) hcopy⟩
        exact List.cons_ne_nil _ _ (take_bytesToRead _ hnil)

/-- Every run of rounds ends: each takes an answer. -/
theorem exists_recvExit (maxSize : Nat) (b : DynamicBuffer) (answers : List RecvAnswer) :
    ∃ chunks b' rest r, Transition.Run (RecvRound maxSize) (b, answers) chunks (b', rest) ∧
      RecvExit maxSize b' rest r := by
  induction answers generalizing b with
  | nil =>
    rcases recvRound_or_exit maxSize b [] with ⟨x, s, hround⟩ | ⟨r, hexit⟩
    · cases hround
    · exact ⟨[], b, [], r, .nil, hexit⟩
  | cons answer answers ih =>
    rcases recvRound_or_exit maxSize b (answer :: answers) with ⟨x, s, hround⟩ | ⟨r, hexit⟩
    · cases hround with
      | @data _ _ b₂ _ _ _ _ hfits hroom hreceived hne hcopy =>
        obtain ⟨chunks, b', rest, r, hrun, hexit⟩ := ih (b₂.write x.length)
        exact ⟨x :: chunks, b', rest, r, .cons (.data hfits hroom hreceived hne hcopy) hrun, hexit⟩
    · exact ⟨[], b, _, r, .nil, hexit⟩

/-! ## The loop -/

theorem recvLoop_overflow (h : Overflows maxSize b answers) (arrived : Bool) :
    recvLoop maxSize b arrived answers = .ok (b, arrived, .peerClose) := by
  cases answers with
  | nil => exact if_pos h
  | cons answer answers => exact if_pos h

theorem recvLoop_noRoom (hfits : ¬ Overflows maxSize b answers)
    (hroom : b.reserveWritableBytes (bytesToRead answers) = none) (arrived : Bool) :
    recvLoop maxSize b arrived answers = .error .buffer := by
  have hfault := congrArg (orFault TcpFault.buffer) hroom
  cases answers with
  | nil =>
    refine (if_neg hfits).trans ?_
    rw [show bytesToRead [] = 1 from rfl] at hfault
    rw [hfault]
    rfl
  | cons answer answers =>
    refine (if_neg hfits).trans ?_
    rw [show bytesToRead (answer :: answers) = (max 1 answer.available).toNat from rfl] at hfault
    rw [hfault]
    rfl

theorem recvLoop_nil {b₁ : DynamicBuffer} (hfits : ¬ Overflows maxSize b [])
    (hroom : b.reserveWritableBytes (bytesToRead []) = some b₁) (arrived : Bool) :
    recvLoop maxSize b arrived [] = .ok (b₁, arrived, .again) := by
  have hok := congrArg (orFault TcpFault.buffer) hroom
  refine (if_neg hfits).trans ?_
  rw [show bytesToRead [] = 1 from rfl] at hok
  rw [hok]
  rfl

theorem recvLoop_cons {b₁ : DynamicBuffer} {answer : RecvAnswer}
    (hfits : ¬ Overflows maxSize b (answer :: answers))
    (hroom : b.reserveWritableBytes (bytesToRead (answer :: answers)) = some b₁)
    (arrived : Bool) :
    recvLoop maxSize b arrived (answer :: answers) =
      match answer.result with
      | .data bytes =>
        if (bytes.take (bytesToRead (answer :: answers))).length > 0 then do
          let b₂ ← orFault .buffer (b₁.copyIn (bytes.take (bytesToRead (answer :: answers))))
          recvLoop maxSize (b₂.write (bytes.take (bytesToRead (answer :: answers))).length) true
            answers
        else
          .ok (b₁, arrived, .peerClose)
      | .again => .ok (b₁, arrived, .again)
      | .error errno => .ok (b₁, arrived, .error errno) := by
  have hok := congrArg (orFault TcpFault.buffer) hroom
  refine (if_neg hfits).trans ?_
  rw [show bytesToRead (answer :: answers) = (max 1 answer.available).toNat from rfl] at hok ⊢
  rw [hok]
  rfl

theorem recvLoop_round {x : List UInt8} {s : DynamicBuffer × List RecvAnswer}
    (h : RecvRound maxSize (b, answers) x s) (arrived : Bool) :
    recvLoop maxSize b arrived answers = recvLoop maxSize s.1 true s.2 ∧
      s.1.readable = b.readable ++ x := by
  obtain ⟨hfits, hroom, rfl, hne, hcopy⟩ := h
  refine ⟨?_, ?_⟩
  · rw [recvLoop_cons hfits hroom]
    dsimp only
    rw [if_pos (List.length_pos_of_ne_nil hne), hcopy]
    rfl
  · rw [DynamicBuffer.readable_copyIn_write hcopy,
      DynamicBuffer.readable_reserveWritableBytes hroom]

/-- The loop ends as its last state does, and leaves what the buffer holds then. -/
theorem recvLoop_exit {r : Except TcpFault RecvEnd} (h : RecvExit maxSize b answers r)
    (arrived : Bool) :
    ∃ b', recvLoop maxSize b arrived answers = r.map (fun e => (b', arrived, e)) ∧
      b'.readable = b.readable := by
  cases h with
  | overflow h => exact ⟨b, recvLoop_overflow h arrived, rfl⟩
  | noRoom hfits hroom => exact ⟨b, recvLoop_noRoom hfits hroom arrived, rfl⟩
  | outside hfits hroom hne hcopy =>
    refine ⟨b, ?_, rfl⟩
    rw [recvLoop_cons hfits hroom]
    dsimp only
    rw [if_pos (List.length_pos_of_ne_nil fun hnil => hne (take_bytesToRead _ hnil)), hcopy]
    rfl
  | nothing hfits hroom =>
    exact ⟨_, recvLoop_nil hfits hroom arrived, DynamicBuffer.readable_reserveWritableBytes hroom⟩
  | again hfits hroom =>
    exact ⟨_, recvLoop_cons hfits hroom arrived, DynamicBuffer.readable_reserveWritableBytes hroom⟩
  | error hfits hroom =>
    exact ⟨_, recvLoop_cons hfits hroom arrived, DynamicBuffer.readable_reserveWritableBytes hroom⟩
  | closed hfits hroom =>
    refine ⟨_, ?_, DynamicBuffer.readable_reserveWritableBytes hroom⟩
    rw [recvLoop_cons hfits hroom arrived]
    simp only [List.take_nil, List.length_nil]
    rfl

/-- The loop is a run of rounds and an end: the buffer gets the bytes of all rounds behind
those it held. -/
theorem recvLoop_run {chunks : List (List UInt8)} {r : Except TcpFault RecvEnd}
    (hrun : Transition.Run (RecvRound maxSize) (b, answers) chunks (b', rest))
    (hexit : RecvExit maxSize b' rest r) (arrived : Bool) :
    ∃ b'', recvLoop maxSize b arrived answers =
        r.map (fun e => (b'', arrived || !chunks.isEmpty, e)) ∧
      b''.readable = b.readable ++ chunks.flatten := by
  generalize hs : (b, answers) = s at hrun
  generalize hs' : (b', rest) = s' at hrun
  induction hrun generalizing b answers arrived with
  | nil =>
    obtain ⟨rfl, rfl⟩ := Prod.mk.inj (hs.trans hs'.symm)
    obtain ⟨b'', hloop, hread⟩ := recvLoop_exit hexit arrived
    refine ⟨b'', ?_, by rw [hread, List.flatten_nil, List.append_nil]⟩
    rw [hloop, List.isEmpty_nil, Bool.not_true, Bool.or_false]
  | cons e _ ih =>
    subst hs
    obtain ⟨hloop, hread⟩ := recvLoop_round e arrived
    obtain ⟨b'', hrest, hread'⟩ := ih true rfl hs'
    refine ⟨b'', ?_, by rw [hread', hread, List.flatten_cons, List.append_assoc]⟩
    rw [hloop, hrest, Bool.true_or, List.isEmpty_cons, Bool.not_false, Bool.or_true]

/-- The states the loop can be in on its way: after the rounds that receive `chunks`. -/
def Reaches (maxSize : Nat) (b : DynamicBuffer) (answers : List RecvAnswer)
    (chunks : List (List UInt8)) (b' : DynamicBuffer) (rest : List RecvAnswer) : Prop :=
  Transition.Run (RecvRound maxSize) (b, answers) chunks (b', rest)

theorem Reaches.unique {b₁ b₂ : DynamicBuffer} {rest₁ rest₂ : List RecvAnswer}
    {chunks₁ chunks₂ : List (List UInt8)} {r₁ r₂ : Except TcpFault RecvEnd}
    (h₁ : Reaches maxSize b answers chunks₁ b₁ rest₁) (hexit₁ : RecvExit maxSize b₁ rest₁ r₁)
    (h₂ : Reaches maxSize b answers chunks₂ b₂ rest₂) (hexit₂ : RecvExit maxSize b₂ rest₂ r₂) :
    chunks₁ = chunks₂ ∧ b₁ = b₂ ∧ rest₁ = rest₂ := by
  obtain ⟨hchunks, hstate⟩ := Transition.Run.unique h₁ h₂ (fun _ _ _ _ _ => RecvRound.unique)
    hexit₁.stuck hexit₂.stuck
  obtain ⟨hb, hrest⟩ := Prod.mk.inj hstate
  exact ⟨hchunks, hb, hrest⟩

/-! ## The end of the connection -/

/-- `recv` is called, and returns 0. -/
def RecvsZero (maxSize : Nat) (b : DynamicBuffer) (answers : List RecvAnswer) : Prop :=
  ¬ Overflows maxSize b answers ∧ (b.reserveWritableBytes (bytesToRead answers)).isSome ∧
    ∃ size rest, answers = ⟨size, .data []⟩ :: rest

/-- On its way the loop meets a `recv` that returns 0, or bytes that are there and would make
the read buffer exceed the limit. -/
def PeerIsGone (maxSize : Nat) (b : DynamicBuffer) (answers : List RecvAnswer) : Prop :=
  ∃ chunks b' rest, Reaches maxSize b answers chunks b' rest ∧
    (RecvsZero maxSize b' rest ∨
      0 < available rest ∧ (maxSize : Int) < available rest + b'.readableBytes)

/-- On its way the loop finds nothing to read while the read buffer has no room under the
limit. -/
def FullAndDry (maxSize : Nat) (b : DynamicBuffer) (answers : List RecvAnswer) : Prop :=
  ∃ chunks b' rest, Reaches maxSize b answers chunks b' rest ∧
    available rest ≤ 0 ∧ maxSize ≤ b'.readableBytes

/-- The loop takes the peer to have closed only for a reason, unless it runs dry with a full
buffer. -/
theorem peerIsGone_iff (hmax : 0 < maxSize) {b'' : DynamicBuffer} {arrived : Bool} {e : RecvEnd}
    (h : recvLoop maxSize b false answers = .ok (b'', arrived, e)) :
    (e = .peerClose → PeerIsGone maxSize b answers) ↔ ¬ FullAndDry maxSize b answers := by
  have hdry : ∀ {b' rest}, available rest ≤ 0 → maxSize ≤ b'.readableBytes →
      Overflows maxSize b' rest := by
    intro b' rest hle hfull
    refine ⟨hmax, ?_⟩
    unfold bytesToRead
    omega
  have hreal : ∀ {b' : DynamicBuffer} {rest}, 0 < available rest →
      (maxSize : Int) < available rest + b'.readableBytes → Overflows maxSize b' rest := by
    intro b' rest hpos hlt
    refine ⟨hmax, ?_⟩
    unfold bytesToRead
    omega
  obtain ⟨chunks, b₁, rest₁, r, hrun, hexit⟩ := exists_recvExit maxSize b answers
  obtain ⟨b₂, hloop, -⟩ := recvLoop_run hrun hexit false
  constructor
  · rintro hgone ⟨chunks₂, b', rest, hreach, hle, hfull⟩
    have hover := hdry hle hfull
    obtain ⟨b₃, hloop', -⟩ := recvLoop_run hreach (.overflow hover) false
    obtain rfl : RecvEnd.peerClose = e :=
      congrArg (·.2.2) (Except.ok.inj (hloop'.symm.trans h))
    obtain ⟨chunks₃, b₄, rest₄, hreach', hcause⟩ := hgone rfl
    have hsame : ∀ {r}, RecvExit maxSize b₄ rest₄ r → b' = b₄ ∧ rest = rest₄ := fun hexit' =>
      (hreach.unique (.overflow hover) hreach' hexit').2
    rcases hcause with ⟨hfits, hroom, size, rest', rfl⟩ | ⟨hpos, hlt⟩
    · obtain ⟨b₅, hroom⟩ := Option.isSome_iff_exists.mp hroom
      obtain ⟨rfl, rfl⟩ := hsame (.closed hfits hroom)
      exact hfits hover
    · obtain ⟨rfl, rfl⟩ := hsame (.overflow (hreal hpos hlt))
      omega
  · intro hnot he
    subst he
    refine ⟨chunks, b₁, rest₁, hrun, ?_⟩
    have hend : r = .ok .peerClose := by
      rw [hloop] at h
      cases r with
      | error fault => cases h
      | ok e =>
        cases h
        rfl
    subst hend
    by_cases hover : Overflows maxSize b₁ rest₁
    · right
      have hpos : 0 < available rest₁ := by
        by_contra hle
        refine hnot ⟨chunks, b₁, rest₁, hrun, not_lt.mp hle, ?_⟩
        have hgt := hover.2
        unfold bytesToRead at hgt
        omega
      refine ⟨hpos, ?_⟩
      have hgt := hover.2
      unfold bytesToRead at hgt
      omega
    · left
      cases hexit with
      | overflow h => exact absurd h hover
      | closed hfits hroom => exact ⟨hfits, Option.isSome_iff_exists.mpr ⟨_, hroom⟩, _, _, rfl⟩

namespace TcpService

variable {C : Type} {s s' : TcpService C} {p q : Nat} {sock : TcpSocket} {conn : TcpConnection C}
  {outs : List (TcpOutput C)} {arrived : Bool} {e : RecvEnd}

/-- The state of the service once the loop has ended. -/
def received (s : TcpService C) (q : Nat) (readBuffer : DynamicBuffer) : TcpService C :=
  s.setConnection q ({ · with readBuffer })

theorem cell_received (hconn : s.connectionObjects.cell q = some conn)
    (readBuffer : DynamicBuffer) :
    (s.received q readBuffer).connectionObjects.cell q = some { conn with readBuffer } :=
  ObjectHeap.cell_update_self hconn

/-- What the handler does behind the loop, if the connection is still there. -/
def behindLoop (s : TcpService C) (q : Nat) (id : SocketId) (arrived : Bool) :
    RecvEnd → Except TcpFault (TcpService C × List (TcpOutput C))
  | .error errno => .ok (s.setErrorAndReport q id errno)
  | .again =>
    if arrived && s.config.recvMessageCb then
      .ok (s.invoke .finish, [.recvMessage q id])
    else
      .ok (s, [])
  | .peerClose =>
    if arrived then
      if s.config.recvMessageCb then
        .ok (s.invoke (.onSocketRead q id), [.recvMessage q id])
      else
        s.onPeerClose q id
    else
      s.onPeerClose q id

theorem onSocketRead_eq (hsock : s.socketObjects.cell p = some sock)
    (hq : s.connections sock.id = some q) (hconn : s.connectionObjects.cell q = some conn)
    (hloop : recvLoop s.config.connReadBufferMaxSize conn.readBuffer false answers =
      .ok (b, arrived, e)) :
    s.onSocketRead p answers = (s.received q b).behindLoop q sock.id arrived e := by
  unfold onSocketRead socketAt connectionAt
  simp only [hsock, hq, hconn, hloop, orFault, Outcome.ok_bind]
  cases e with
  | again => rfl
  | error errno => rfl
  | peerClose =>
    cases arrived with
    | false => rfl
    | true =>
      have hopen : (s.received q b).afterRecvMessage q sock.id =
          (s.received q b).onPeerClose q sock.id := by
        refine if_neg ?_
        show ¬ (s.connections sock.id).isNone = true
        rw [hq]
        exact nofun
      unfold behindLoop
      rw [← hopen]
      rfl

theorem onSocketRead_fault {fault : TcpFault} (hsock : s.socketObjects.cell p = some sock)
    (hq : s.connections sock.id = some q) (hconn : s.connectionObjects.cell q = some conn)
    (hloop : recvLoop s.config.connReadBufferMaxSize conn.readBuffer false answers = .error fault) :
    s.onSocketRead p answers = .error fault := by
  unfold onSocketRead socketAt connectionAt
  simp only [hsock, hq, hconn, hloop, orFault, Outcome.ok_bind, Outcome.error_bind]

/-- The handler waits behind the receive callback to close the connection, calls the
peer-close callback, or marks the connection. -/
def ClosesPeer (s s' : TcpService C) (q : Nat) (id : SocketId) (outs : List (TcpOutput C)) : Prop :=
  s'.frames = .onSocketRead q id :: s.frames ∨ .peerClose q id ∈ outs ∨
    ∃ c c', s.connectionObjects.cell q = some c ∧ s'.connectionObjects.cell q = some c' ∧
      c.status ≠ .peerClosed ∧ c'.status = .peerClosed

theorem frames_ne (frame : TcpFrame) (frames : List TcpFrame) : frames ≠ frame :: frames := by
  intro h
  have hlen := congrArg List.length h
  rw [List.length_cons] at hlen
  omega

theorem ClosesPeer.of_onPeerClose {s₁ : TcpService C} {id : SocketId}
    (hconn : s.connectionObjects.cell q = some conn)
    (hcell : s₁.connectionObjects.cell q = some { conn with readBuffer := b })
    (hseen : conn.status ≠ .peerClosed ∨ s₁.config.peerCloseCb = true)
    (h : s₁.onPeerClose q id = .ok (s', outs)) : ClosesPeer s s' q id outs := by
  unfold onPeerClose connectionAt at h
  rw [hcell] at h
  simp only [orFault, Outcome.ok_bind] at h
  by_cases hcb : s₁.config.peerCloseCb = true
  · refine .inr (.inl ?_)
    obtain ⟨-, rfl⟩ := Prod.mk.inj (Except.ok.inj ((if_pos hcb).symm.trans h))
    exact List.mem_singleton_self _
  · obtain ⟨rfl, -⟩ := Prod.mk.inj (Except.ok.inj ((if_neg hcb).symm.trans h))
    exact .inr (.inr ⟨_, _, hconn, ObjectHeap.cell_update_self hcell, hseen.resolve_right hcb, rfl⟩)

/-- A handler that calls another callback, or none, and does not mark the connection. -/
theorem not_closesPeer {c : TcpConnection C} {id : SocketId}
    (hconn : s.connectionObjects.cell q = some conn)
    (hframes : s'.frames = s.frames ∨ s'.frames = .finish :: s.frames)
    (houts : .peerClose q id ∉ outs) (hcell : s'.connectionObjects.cell q = some c)
    (hstatus : c.status = conn.status ∨ c.status ≠ .peerClosed) :
    ¬ ClosesPeer s s' q id outs := by
  rintro (hwaits | hcalls | ⟨c₁, c₂, hc₁, hc₂, hne, hmark⟩)
  · rcases hframes with h | h
    · exact frames_ne _ _ (h.symm.trans hwaits)
    · cases List.head_eq_of_cons_eq (h.symm.trans hwaits)
  · exact houts hcalls
  · obtain rfl := Option.some.inj (hconn.symm.trans hc₁)
    obtain rfl := Option.some.inj (hcell.symm.trans hc₂)
    rcases hstatus with h | h
    · exact hne (h.symm.trans hmark)
    · exact h hmark

/-- The handler closes the connection where the loop takes the peer to have closed, as far as
that can be seen. -/
theorem closesPeer_iff (hsock : s.socketObjects.cell p = some sock)
    (hq : s.connections sock.id = some q) (hconn : s.connectionObjects.cell q = some conn)
    (hseen : conn.status ≠ .peerClosed ∨ s.config.peerCloseCb = true)
    (hloop : recvLoop s.config.connReadBufferMaxSize conn.readBuffer false answers =
      .ok (b, arrived, e))
    (h : s.onSocketRead p answers = .ok (s', outs)) :
    ClosesPeer s s' q sock.id outs ↔ e = .peerClose := by
  rw [onSocketRead_eq hsock hq hconn hloop] at h
  have hcell := cell_received hconn b
  cases e with
  | again =>
    refine ⟨fun hcloses => absurd hcloses ?_, nofun⟩
    rw [behindLoop] at h
    split at h
    · cases h
      exact not_closesPeer hconn (.inr rfl) (by simp) hcell (.inl rfl)
    · cases h
      exact not_closesPeer hconn (.inl rfl) (by simp) hcell (.inl rfl)
  | error errno =>
    refine ⟨fun hcloses => absurd hcloses ?_, nofun⟩
    rw [behindLoop, setErrorAndReport] at h
    have hmark : ((s.received q b).setConnection q (·.setError errno)).connectionObjects.cell q =
        some ({ conn with readBuffer := b }.setError errno) := ObjectHeap.cell_update_self hcell
    by_cases hcb : s.config.errorCb = true
    · obtain ⟨rfl, rfl⟩ := Prod.mk.inj ((if_pos hcb).symm.trans (Except.ok.inj h))
      exact not_closesPeer hconn (.inr rfl) (by simp) hmark (.inr nofun)
    · obtain ⟨rfl, rfl⟩ := Prod.mk.inj ((if_neg hcb).symm.trans (Except.ok.inj h))
      exact not_closesPeer hconn (.inl rfl) (by simp) hmark (.inr nofun)
  | peerClose =>
    refine ⟨fun _ => rfl, fun _ => ?_⟩
    rw [behindLoop] at h
    split at h
    · split at h
      · cases h
        exact .inl rfl
      · exact .of_onPeerClose hconn hcell hseen h
    · exact .of_onPeerClose hconn hcell hseen h

/-- For every limit, read buffer and answers of the kernel: the handler closes the connection
on the side of the peer only if `recv` has returned 0 or there are bytes that would exceed the
limit, exactly if the loop does not run dry with a full buffer. -/
theorem closes_only_gone_iff (hsock : s.socketObjects.cell p = some sock)
    (hq : s.connections sock.id = some q) (hconn : s.connectionObjects.cell q = some conn)
    (hmax : 0 < s.config.connReadBufferMaxSize)
    (hseen : conn.status ≠ .peerClosed ∨ s.config.peerCloseCb = true)
    (h : s.onSocketRead p answers = .ok (s', outs)) :
    (ClosesPeer s s' q sock.id outs →
        PeerIsGone s.config.connReadBufferMaxSize conn.readBuffer answers) ↔
      ¬ FullAndDry s.config.connReadBufferMaxSize conn.readBuffer answers := by
  cases hloop : recvLoop s.config.connReadBufferMaxSize conn.readBuffer false answers with
  | error fault =>
    rw [onSocketRead_fault hsock hq hconn hloop] at h
    cases h
  | ok r =>
    obtain ⟨b, arrived, e⟩ := r
    rw [closesPeer_iff hsock hq hconn hseen hloop h]
    exact peerIsGone_iff hmax hloop

/-- A test of what a handler returns. -/
def returns {C : Type} (r : Except TcpFault (TcpService C × List (TcpOutput C)))
    (f : TcpService C → List (TcpOutput C) → Bool) : Bool :=
  match r with
  | .ok (s, outs) => f s outs
  | .error _ => false

theorem exists_of_returns {C : Type} {r : Except TcpFault (TcpService C × List (TcpOutput C))}
    {f : TcpService C → List (TcpOutput C) → Bool} (h : returns r f = true) :
    ∃ s outs, r = .ok (s, outs) ∧ f s outs = true := by
  unfold returns at h
  split at h
  · exact ⟨_, _, rfl, h⟩
  · cases h

/-- A peer that sends three bytes of the four that the limit allows, and then closes. -/
theorem closes_only_gone_iff_partly : ∃ (s s' : TcpService Unit) (conn : TcpConnection Unit)
    (outs : List (TcpOutput Unit)),
    s.onSocketRead 0 [⟨3, .data [1, 2, 3]⟩, ⟨0, .data []⟩] = .ok (s', outs) ∧
    ((ClosesPeer s s' 0 (2 ^ 32 + 3) outs → PeerIsGone s.config.connReadBufferMaxSize
        conn.readBuffer [⟨3, .data [1, 2, 3]⟩, ⟨0, .data []⟩]) ↔
      ¬ FullAndDry s.config.connReadBufferMaxSize conn.readBuffer
        [⟨3, .data [1, 2, 3]⟩, ⟨0, .data []⟩]) := by
  obtain ⟨s, moves, -, hf⟩ := Transition.exists_of_execTest step (init Unit)
    [.set (.recvBufferMaxSize 4), .set (.recvMessageCallback true), .set (.peerCloseCallback true),
      .connect (some ⟨⟨3, by omega⟩, true⟩)]
    (fun s _ => (s.socketObjects.cell 0).any (fun sock => sock.id = 2 ^ 32 + 3) &&
      s.connections (2 ^ 32 + 3) = some 0 && (s.connectionObjects.cell 0).isSome &&
      decide (0 < s.config.connReadBufferMaxSize) && s.config.peerCloseCb &&
      returns (s.onSocketRead 0 [⟨3, .data [1, 2, 3]⟩, ⟨0, .data []⟩]) fun s' outs =>
        s'.frames = [.onSocketRead 0 (2 ^ 32 + 3)] ∧ outs = [.recvMessage 0 (2 ^ 32 + 3)])
    (by decide +kernel)
  simp only [Bool.and_eq_true, decide_eq_true_eq] at hf
  obtain ⟨⟨⟨⟨⟨hsock, hq⟩, hconn⟩, hmax⟩, hcb⟩, hreturns⟩ := hf
  obtain ⟨sock, hsock, hid⟩ := (Option.any_eq_true _ _).mp hsock
  obtain ⟨conn, hconn⟩ := Option.isSome_iff_exists.mp hconn
  obtain ⟨s', outs, h, -⟩ := exists_of_returns hreturns
  rw [← of_decide_eq_true hid] at hq ⊢
  exact ⟨s, s', conn, outs, h, closes_only_gone_iff hsock hq hconn hmax (.inr hcb) h⟩

/-- A peer that has sent as many bytes as the limit allows, and neither closed nor sent
another one. -/
theorem not_closes_only_gone : ∃ (s s' : TcpService Unit) (conn : TcpConnection Unit)
    (moves : List (TcpOp Unit × List (TcpOutput Unit))) (outs : List (TcpOutput Unit)),
    Transition.Run Steps (init Unit) moves s ∧ s.connectionObjects.cell 0 = some conn ∧
    s.onSocketRead 0 [⟨4, .data [1, 2, 3, 4]⟩] = .ok (s', outs) ∧
    ClosesPeer s s' 0 (2 ^ 32 + 3) outs ∧
    ¬ PeerIsGone s.config.connReadBufferMaxSize conn.readBuffer [⟨4, .data [1, 2, 3, 4]⟩] := by
  obtain ⟨s, moves, hexec, hf⟩ := Transition.exists_of_execTest step (init Unit)
    [.set (.recvBufferMaxSize 4), .set (.recvMessageCallback true),
      .connect (some ⟨⟨3, by omega⟩, true⟩)]
    (fun s _ => decide (s.config.connReadBufferMaxSize = 4) && s.frames.isEmpty &&
      (s.connectionObjects.cell 0).any (fun conn => conn.readBuffer.readableBytes = 0) &&
      returns (s.onSocketRead 0 [⟨4, .data [1, 2, 3, 4]⟩]) fun s' _ =>
        s'.frames = [.onSocketRead 0 (2 ^ 32 + 3)])
    (by decide +kernel)
  simp only [Bool.and_eq_true, decide_eq_true_eq] at hf
  obtain ⟨⟨⟨hmax, hframes⟩, hconn⟩, hreturns⟩ := hf
  obtain ⟨conn, hconn, hempty⟩ := (Option.any_eq_true _ _).mp hconn
  obtain ⟨s', outs, h, hwaits⟩ := exists_of_returns hreturns
  refine ⟨s, s', conn, moves, outs, Transition.exec_run hexec, hconn, h, .inl ?_, ?_⟩
  · rw [List.isEmpty_iff.mp hframes, of_decide_eq_true hwaits]
  · rw [hmax]
    have hempty := of_decide_eq_true hempty
    rintro ⟨chunks, b, rest, hreach, hcause⟩
    cases hreach with
    | nil =>
      rcases hcause with ⟨-, -, size, rest', hrest⟩ | ⟨-, hlt⟩
      · cases hrest
      · have hfour : available [⟨4, .data [1, 2, 3, 4]⟩] = 4 := rfl
        omega
    | cons e hrun =>
      cases e with
      | data _ _ _ _ _ =>
        cases hrun with
        | nil =>
          rcases hcause with ⟨-, -, size, rest', hrest⟩ | ⟨hpos, -⟩
          · cases hrest
          · exact absurd hpos (lt_irrefl _)
        | cons e _ => cases e

/-! ## Delivery -/

/-- What the loop receives is delivered: the first callback of the call is the receive
callback, with all of it in the read buffer. -/
def Delivers (s : TcpService C) (p q : Nat) (id : SocketId) (conn : TcpConnection C)
    (answers : List RecvAnswer) : Prop :=
  ∀ chunks b rest r, Reaches s.config.connReadBufferMaxSize conn.readBuffer answers chunks b rest →
    RecvExit s.config.connReadBufferMaxSize b rest r → chunks ≠ [] →
    ∃ s' c, s.onSocketRead p answers = .ok (s', [.recvMessage q id]) ∧
      s'.connectionObjects.cell q = some c ∧
      c.readBuffer.readable = conn.readBuffer.readable ++ chunks.flatten

/-- The end of the loop is an error of `recv`, or an exception. -/
def Failing : Except TcpFault RecvEnd → Prop
  | .ok (.error _) => True
  | .ok .again | .ok .peerClose => False
  | .error _ => True

/-- The loop fails once it has received something. -/
def FailsBehindData (maxSize : Nat) (b : DynamicBuffer) (answers : List RecvAnswer) : Prop :=
  ∃ chunks b' rest r, Reaches maxSize b answers chunks b' rest ∧ RecvExit maxSize b' rest r ∧
    chunks ≠ [] ∧ Failing r

/-- For every state, limit, read buffer and answers of the kernel: what is received in a call
is delivered, before any other callback is called, exactly if the loop does not fail behind
data. -/
theorem delivers_iff (hsock : s.socketObjects.cell p = some sock)
    (hq : s.connections sock.id = some q) (hconn : s.connectionObjects.cell q = some conn)
    (hcb : s.config.recvMessageCb = true) :
    Delivers s p q sock.id conn answers ↔
      ¬ FailsBehindData s.config.connReadBufferMaxSize conn.readBuffer answers := by
  constructor
  · rintro hdelivers ⟨chunks, b, rest, r, hreach, hexit, hne, hfails⟩
    obtain ⟨s', c, h, -⟩ := hdelivers chunks b rest r hreach hexit hne
    obtain ⟨b', hloop, -⟩ := recvLoop_run hreach hexit false
    match r, hfails with
    | .error fault, _ =>
      rw [onSocketRead_fault hsock hq hconn hloop] at h
      cases h
    | .ok (.error errno), _ =>
      rw [onSocketRead_eq hsock hq hconn hloop] at h
      have herror : ((s.received q b').setErrorAndReport q sock.id errno).2 ≠
          [.recvMessage q sock.id] := by
        unfold setErrorAndReport
        dsimp only
        split <;> simp
      exact herror (congrArg Prod.snd (Except.ok.inj h))
  · intro hnot chunks b rest r hreach hexit hne
    obtain ⟨b', hloop, hread⟩ := recvLoop_run hreach hexit false
    have harrived : (false || !chunks.isEmpty) = true := by
      simpa using hne
    rw [harrived] at hloop
    have hcell := cell_received hconn b'
    match r with
    | .error fault => exact absurd ⟨chunks, b, rest, _, hreach, hexit, hne, trivial⟩ hnot
    | .ok (.error errno) => exact absurd ⟨chunks, b, rest, _, hreach, hexit, hne, trivial⟩ hnot
    | .ok .again =>
      refine ⟨(s.received q b').invoke .finish, _, ?_, hcell, hread⟩
      rw [onSocketRead_eq hsock hq hconn hloop, behindLoop, Bool.true_and,
        if_pos (show (s.received q b').config.recvMessageCb = true from hcb)]
    | .ok .peerClose =>
      refine ⟨(s.received q b').invoke (.onSocketRead q sock.id), _, ?_, hcell, hread⟩
      rw [onSocketRead_eq hsock hq hconn hloop, behindLoop, if_pos rfl,
        if_pos (show (s.received q b').config.recvMessageCb = true from hcb)]

/-- Three bytes and then nothing more for the time being. -/
theorem delivers_iff_three : ∃ (s : TcpService Unit) (conn : TcpConnection Unit),
    (Delivers s 0 0 (2 ^ 32 + 3) conn [⟨3, .data [1, 2, 3]⟩] ↔
      ¬ FailsBehindData s.config.connReadBufferMaxSize conn.readBuffer
        [⟨3, .data [1, 2, 3]⟩]) := by
  obtain ⟨s, moves, -, hf⟩ := Transition.exists_of_execTest step (init Unit)
    [.set (.recvMessageCallback true), .connect (some ⟨⟨3, by omega⟩, true⟩)]
    (fun s _ => (s.socketObjects.cell 0).any (fun sock => sock.id = 2 ^ 32 + 3) &&
      s.connections (2 ^ 32 + 3) = some 0 && (s.connectionObjects.cell 0).isSome &&
      s.config.recvMessageCb)
    (by decide +kernel)
  simp only [Bool.and_eq_true, decide_eq_true_eq] at hf
  obtain ⟨⟨⟨hsock, hq⟩, hconn⟩, hcb⟩ := hf
  obtain ⟨sock, hsock, hid⟩ := (Option.any_eq_true _ _).mp hsock
  obtain ⟨conn, hconn⟩ := Option.isSome_iff_exists.mp hconn
  rw [← of_decide_eq_true hid] at hq ⊢
  exact ⟨s, conn, delivers_iff hsock hq hconn hcb⟩

/-- Three bytes, and then a reset: the error callback is called and the bytes stay behind. -/
theorem not_delivers : ∃ (s s' : TcpService Unit) (conn : TcpConnection Unit)
    (moves : List (TcpOp Unit × List (TcpOutput Unit))) (outs : List (TcpOutput Unit)),
    Transition.Run Steps (init Unit) moves s ∧ s.connectionObjects.cell 0 = some conn ∧
    s.config.recvMessageCb = true ∧
    s.onSocketRead 0 [⟨3, .data [1, 2, 3]⟩, ⟨0, .error 104⟩] = .ok (s', outs) ∧
    outs = [.error 0 (2 ^ 32 + 3) 104] ∧
    ¬ Delivers s 0 0 (2 ^ 32 + 3) conn [⟨3, .data [1, 2, 3]⟩, ⟨0, .error 104⟩] := by
  obtain ⟨s, moves, hexec, hf⟩ := Transition.exists_of_execTest step (init Unit)
    [.set (.recvMessageCallback true), .set (.errorCallback true),
      .connect (some ⟨⟨3, by omega⟩, true⟩)]
    (fun s _ => (s.connectionObjects.cell 0).any (fun conn =>
        (recvLoop s.config.connReadBufferMaxSize conn.readBuffer false
          [⟨3, .data [1, 2, 3]⟩, ⟨0, .error 104⟩]).toOption.any fun r => r.2.1) &&
      s.config.recvMessageCb &&
      returns (s.onSocketRead 0 [⟨3, .data [1, 2, 3]⟩, ⟨0, .error 104⟩]) fun _ outs =>
        outs = [.error 0 (2 ^ 32 + 3) 104])
    (by decide +kernel)
  simp only [Bool.and_eq_true] at hf
  obtain ⟨⟨hconn, hcb⟩, hreturns⟩ := hf
  obtain ⟨conn, hconn, harrived⟩ := (Option.any_eq_true _ _).mp hconn
  obtain ⟨s', outs, h, herror⟩ := exists_of_returns hreturns
  have houts : outs = [.error 0 (2 ^ 32 + 3) 104] := of_decide_eq_true herror
  refine ⟨s, s', conn, moves, outs, Transition.exec_run hexec, hconn, hcb, h, houts, ?_⟩
  intro hdelivers
  obtain ⟨chunks, b, rest, r, hreach, hexit⟩ := exists_recvExit s.config.connReadBufferMaxSize
    conn.readBuffer [⟨3, .data [1, 2, 3]⟩, ⟨0, .error 104⟩]
  obtain ⟨b', hloop, -⟩ := recvLoop_run hreach hexit false
  rw [hloop] at harrived
  have hne : chunks ≠ [] := by
    rintro rfl
    cases r <;> cases harrived
  obtain ⟨s₁, c, hrecv, -⟩ := hdelivers chunks b rest r hreach hexit hne
  obtain ⟨-, hsame⟩ := Prod.mk.inj (Except.ok.inj (h.symm.trans hrecv))
  rw [houts] at hsame
  cases hsame

end TcpService

end Brickred
