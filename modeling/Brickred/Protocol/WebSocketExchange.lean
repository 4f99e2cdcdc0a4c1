import Brickred.Protocol.WebSocketPair

/-!
# What two connected objects exchange

Each call and each delivery is a number of turns, so that the invariant of the two
sides holds in every run.
-/

namespace Brickred

open Incremental Transition

namespace WebSocketProtocol

variable {s s' : Pair} {side : Side} {e e' t t' : End} {r g : Option Frame} {fs gs : List Frame}
  {out : List Heard} {limit : Nat} {queue : Side → List Frame}

/-! ## The turns -/

/-- What is heard of a frame that is sent, or of none. -/
def sentOf (o : Nat) (g : Option Frame) : List Heard :=
  g.toList.map fun f => .sent (.frame o f.encode)

/-- A frame of one opcode is sent, or none, and then something is returned. -/
theorem turn_of {o : Nat} {codes : List Heard} (hlike : Like e.object e'.object)
    (hlog : e'.log = e.log ++ (sentOf o g ++ codes))
    (hemitted : e'.emitted = e.emitted ++ payloads g.toList)
    (hcodes : ∀ x ∈ codes, x.output? = none ∧ x.isFrame 9 = false)
    (hretrieved : codes.filterMap Heard.message? = payloads r.toList)
    (hpings : codes.count (.code .pingFrame) = pings r.toList)
    (hg : ∀ f ∈ g, f.opcode.val = o ∧ f.Expected (!e.object.isClient) limit)
    (hunclosed : g ≠ none → e.object.closeFrameSent = false)
    (hclosed : e'.object.closeFrameSent = true ↔
      e.object.closeFrameSent = true ∨ (g ≠ none ∧ o = 8)) :
    Turn limit e e' r g (sentOf o g ++ codes) where
  like := hlike
  log := hlog
  emitted := hemitted
  retrieved := by
    rw [List.filterMap_append, hretrieved]
    cases g <;> rfl
  heardPings := by
    rw [List.count_append, hpings]
    cases g <;> simp [sentOf]
  sentPings := by
    have hnone : codes.countP (Heard.isFrame 9) = 0 :=
      List.countP_eq_zero.mpr fun x hx => by simp [(hcodes x hx).2]
    rw [List.countP_append, hnone]
    cases g with
    | none => rfl
    | some f =>
      obtain ⟨ho, -⟩ := hg f rfl
      simp [sentOf, pings, Heard.isFrame, ho]
  bytes := by
    have hnone : codes.filterMap Heard.output? = [] :=
      List.filterMap_eq_nil_iff.mpr fun x hx => (hcodes x hx).1
    rw [sentBytes, List.filterMap_append, hnone, List.append_nil]
    cases g <;> rfl
  expected f hf := (hg f hf).2
  unclosed := hunclosed
  closing f hf hclose := by
    refine hclosed.mpr (.inr ⟨?_, (hg f hf).1.symm.trans hclose⟩)
    rintro rfl
    cases hf
  closed h := hclosed.mpr (.inl h)

theorem Frame.IsSent.expected {f : Frame} {isClient : Bool} {o : Nat} {data : Bytes}
    (limit : Nat) (h : f.IsSent isClient o data) (ho : o = 2 ∨ o = 8 ∨ o = 9 ∨ o = 10)
    (hdata : o = 2 → data.length ≤ limit ∧ data.length < 2 ^ 63) (hcontrol : o ≠ 2 → data = []) :
    f.opcode.val = o ∧ f.Expected (!isClient) limit := by
  refine ⟨h.opcode, ?_, ?_, ?_, ?_⟩
  · rw [Bool.not_not, h.opcode, h.payload]
    exact h
  · rwa [h.opcode]
  · rwa [h.opcode, h.payload]
  · rwa [h.opcode, h.payload]

theorem put_self (s : Pair) (side : Side) : s.put side (s.ends side) [] = s := by
  unfold Pair.put
  rw [Function.update_eq_self]
  have hnil : s.inFlight side.other ++ sentBytes [] = s.inFlight side.other := List.append_nil _
  rw [hnil, Function.update_eq_self]

/-- A function that is to send a frame, and does or does not. -/
inductive Calls (limit : Nat) (p : WebSocketProtocol) (data : List Bytes) : Call → Prop where
  | skipped : Calls limit p data (p.goOn .sent)
  | sent {f : Frame} {o : Nat} {m : Bytes} {q : WebSocketProtocol} :
      p.status = .connected → p.closeFrameSent = false → Idle q → Like p q →
      (q.closeFrameSent = true ↔ o = 8) → f.IsSent p.isClient o m →
      o = 2 ∨ o = 8 ∨ o = 9 → (o = 2 → m.length ≤ limit ∧ m.length < 2 ^ 63) →
      (o ≠ 2 → m = []) → (data = if o = 2 then [m] else []) →
      Calls limit p data (.output (.frame o f.encode) .sent q)

theorem Inv.call {c : Call} {data : List Bytes} (h : Inv s queue)
    (hc : Calls (s.ends side.other).object.messageSizeMax (s.ends side).object data c) :
    ∃ queue', Inv (s.call side c data) queue' := by
  cases hc with
  | skipped =>
    have hsame : s.call side ((s.ends side).object.goOn .sent) data = s := by
      refine Eq.trans ?_ (put_self s side)
      show s.put side ⟨_, _, (s.ends side).log ++ [], (s.ends side).emitted ++ []⟩ [] = _
      rw [List.append_nil, List.append_nil]
      rfl
    rw [hsame]
    exact ⟨queue, h⟩
  | @sent f o m q hconnected hclose hidle hlike hsent hf ho hdata hcontrol hemits =>
    have hexpected := hf.expected (s.ends side.other).object.messageSizeMax (by omega) hdata hcontrol
    have halive := h.alive side
    have hunread : (s.ends side).unread ≠ none := fun hnone => by
      cases hconnected.symm.trans (halive.ended hnone).1
    have hpayloads : payloads [f] = data := by
      rw [hemits, payloads_singleton, hf.opcode, hf.payload]
    have hclosed : q.closeFrameSent = true ↔
        (s.ends side).object.closeFrameSent = true ∨ (some f ≠ none ∧ o = 8) := by
      simp [hsent, hclose]
    have hturn : Turn (s.ends side.other).object.messageSizeMax (s.ends side)
        ⟨q, (s.ends side).unread, (s.ends side).log ++ [.sent (.frame o f.encode)],
          (s.ends side).emitted ++ data⟩ none (some f) [.sent (.frame o f.encode)] :=
      @turn_of _ _ none (some f) _ o [] hlike rfl (congrArg _ hpayloads.symm) nofun rfl rfl
        (by rintro _ ⟨⟩; exact hexpected) (fun _ => hclose) hclosed
    refine ⟨_, h.put rfl hturn ?_ (h.bytes side) (h.ended side)⟩
    refine halive.turn rfl (fun _ => hidle) (fun hnone => absurd hnone hunread) ?_ ?_ nofun
    · show q.closeFrameSent = true ↔ _
      simp [hsent, hclose, Heard.isFrame]
    · rw [if_neg (by simp [hclose])]
      obtain rfl | rfl | rfl := ho <;> rfl

/-- The checks at the beginning of a function that sends. -/
theorem calls_guarded {limit : Nat} {data : List Bytes} {c c' : Call} (halive : Alive e)
    (hguard : c = if e.object.status ≠ .connected then e.object.goOn .sent
      else if e.object.closeFrameSent then e.object.goOn .sent else c')
    (h : e.object.status = .connected → e.object.closeFrameSent = false → Idle e.object →
      Calls limit e.object data c) :
    Calls limit e.object data c := by
  by_cases hstatus : e.object.status = .connected
  · by_cases hclose : e.object.closeFrameSent = true
    · rw [hguard, if_pos hclose, ite_self]
      exact .skipped
    · have hidle := halive.running fun hnone => by cases hstatus.symm.trans (halive.ended hnone).1
      exact h hstatus (Bool.eq_false_iff.mpr hclose) hidle
  · rw [hguard, if_pos hstatus]
    exact .skipped

theorem calls_sendMessage (limit : Nat) (halive : Alive e) {data : Bytes} (hsize : data.length ≤ limit)
    (hlt : data.length < 2 ^ 63) : Calls limit e.object [data] (e.object.sendMessage data) := by
  refine calls_guarded halive rfl fun hconnected hclose hidle => ?_
  obtain ⟨f, random, hf, hcall⟩ :=
    @sendMessage_eq e.object hconnected hclose hidle.outputCb data (by omega)
  rw [hcall]
  exact .sent hconnected hclose ⟨hidle.1, hidle.2, hidle.3, hidle.4, hidle.5⟩ ⟨rfl, rfl⟩
    (by simp [hclose]) hf (.inl rfl) (fun _ => ⟨hsize, hlt⟩) (absurd rfl) rfl

theorem calls_sendPingFrame (limit : Nat) (halive : Alive e) :
    Calls limit e.object [] e.object.sendPingFrame := by
  refine calls_guarded halive rfl fun hconnected hclose hidle => ?_
  obtain ⟨f, hf, hcall⟩ := sendPingFrame_eq hconnected hclose hidle.outputCb
  rw [hcall]
  exact .sent hconnected hclose hidle ⟨rfl, rfl⟩ (by simp [hclose]) hf (.inr (.inr rfl)) (by simp)
    (fun _ => rfl) rfl

theorem calls_sendCloseFrame (limit : Nat) (halive : Alive e) :
    Calls limit e.object [] (e.object.sendCloseFrame .sent) := by
  refine calls_guarded halive rfl fun hconnected hclose hidle => ?_
  obtain ⟨f, hf, hcall⟩ := sendCloseFrame_eq hconnected hclose hidle.outputCb .sent
  rw [hcall]
  exact .sent hconnected hclose ⟨hidle.1, hidle.2, hidle.3, hidle.4, hidle.5⟩ ⟨rfl, rfl⟩
    (by simp) hf (.inr (.inl rfl)) (by simp) (fun _ => rfl) rfl

/-! ## Reading -/

theorem sentBytes_append (o₁ o₂ : List Heard) :
    sentBytes (o₁ ++ o₂) = sentBytes o₁ ++ sentBytes o₂ := by
  simp [sentBytes]

theorem put_put (s : Pair) (side : Side) (e₁ e₂ : End) (o₁ o₂ : List Heard) :
    (s.put side e₁ o₁).put side e₂ o₂ = s.put side e₂ (o₁ ++ o₂) := by
  unfold Pair.put
  simp only [Function.update_idem, Function.update_self, sentBytes_append, List.append_assoc]

theorem isFrame_sentOf {o o' : Nat} {g : Option Frame} {x : Heard} (hx : x ∈ sentOf o g)
    (h : x.isFrame o' = true) : g ≠ none ∧ o = o' := by
  cases g with
  | none => cases hx
  | some g =>
    obtain rfl := List.mem_singleton.mp hx
    exact ⟨nofun, of_decide_eq_true h⟩

/-- A frame that the receiver goes on after. -/
theorem Inv.goesOn {rest : Bytes} {f : Frame} {q : WebSocketProtocol} {o : Nat}
    {codes : List Heard} (h : Inv s queue) (hqueue : queue side = f :: fs)
    (hrest : rest ++ s.inFlight side = wire fs) (hidle : Idle q)
    (hlike : Like (s.ends side).object q)
    (hclose : q.closeFrameSent = (s.ends side).object.closeFrameSent) (ho : o ≠ 8)
    (hcodes : ∀ x ∈ codes, x.output? = none ∧ ∀ o, x.isFrame o = false)
    (hretrieved : codes.filterMap Heard.message? = payloads [f])
    (hpings : codes.count (.code .pingFrame) = pings [f])
    (hg : ∀ f ∈ g, f.opcode.val = o ∧
      f.Expected (!(s.ends side).object.isClient) (s.ends side.other).object.messageSizeMax)
    (hunclosed : g ≠ none → (s.ends side).object.closeFrameSent = false)
    (hpongs : (sentOf o g ++ codes).countP (Heard.isFrame 10) =
      if (s.ends side).object.closeFrameSent then 0
      else (beforeClose (sentOf o g ++ codes)).count (.code .pingFrame))
    (herror : .code .error ∉ sentOf o g ++ codes) :
    ∃ queue', Inv (s.put side ⟨q, some rest, (s.ends side).log ++ (sentOf o g ++ codes),
      (s.ends side).emitted ++ payloads g.toList⟩ (sentOf o g ++ codes)) queue' := by
  have hturn : Turn (s.ends side.other).object.messageSizeMax (s.ends side)
      ⟨q, some rest, (s.ends side).log ++ (sentOf o g ++ codes),
        (s.ends side).emitted ++ payloads g.toList⟩ (some f) g (sentOf o g ++ codes) :=
    turn_of hlike rfl rfl (fun x hx => ⟨(hcodes x hx).1, (hcodes x hx).2 9⟩) hretrieved hpings hg
      hunclosed (by simp [hclose, ho])
  have hnoclose : ¬ ∃ x ∈ sentOf o g ++ codes, x.isFrame 8 = true := by
    rintro ⟨x, hx, h8⟩
    obtain hx | hx := List.mem_append.mp hx
    · exact ho (isFrame_sentOf hx h8).2
    · cases h8.symm.trans ((hcodes x hx).2 8)
  refine ⟨_, h.put hqueue hturn ?_ ?_ nofun⟩
  · exact (h.alive side).turn rfl (fun _ => hidle) nofun
      (by rw [hclose]; exact (or_iff_left hnoclose).symm) hpongs fun hmem => absurd hmem herror
  · rintro _ ⟨⟩
    exact hrest

/-- The first frame in the queue has been read. -/
theorem Inv.take {rest : Bytes} {f : Frame} (h : Inv s queue)
    (hqueue : queue side = f :: fs) (hrest : rest ++ s.inFlight side = wire fs)
    (hidle : Idle (s.ends side).object) :
    (∃ q out queue',
      WebSocketProtocol.step (s.ends side).object (f.encode ++ rest) = .next q rest out ∧
      Inv (s.put side ⟨q, some rest, (s.ends side).log ++ out, (s.ends side).emitted⟩ out) queue') ∨
    (∃ q out queue',
      WebSocketProtocol.step (s.ends side).object (f.encode ++ rest) = .halt .peerClosed q out ∧
      Inv (s.put side ⟨q, none, (s.ends side).log ++ out, (s.ends side).emitted⟩ out) queue') := by
  have hcarries := h.carries side
  rw [hqueue] at hcarries
  have hexpected := hcarries.expected f List.mem_cons_self
  have hnil : ∀ l : List Bytes, l ++ payloads (none : Option Frame).toList = l := List.append_nil
  obtain hopcode | hopcode | hopcode | hopcode := hexpected.opcode
  · -- a message
    have hstep := peer_data hidle hexpected hopcode
    obtain ⟨queue', hinv⟩ := @Inv.goesOn s side none fs queue rest f _ 2
      [.code .messageReady, .message f.payload] h hqueue hrest hidle ⟨rfl, rfl⟩ rfl (by decide)
      (by simp [Heard.output?, Heard.isFrame]) (by rw [payloads_singleton, if_pos hopcode]; rfl)
      (by rw [pings_singleton, if_neg (by omega)]; rfl) nofun (absurd rfl) (by split <;> rfl)
      (by simp [sentOf])
    rw [hnil] at hinv
    exact .inl ⟨_, _, queue', step_stable.next trivial hstep, hinv⟩
  · -- a close frame, the last frame of all
    obtain ⟨q, g, hstep, hstatus, hlike, hclose, hunclosed, hg⟩ := peer_close hidle hexpected hopcode
    have hfs : fs = [] := by
      cases fs with
      | nil => rfl
      | cons f' fs => exact absurd hopcode (List.rel_of_pairwise_cons hcarries.last List.mem_cons_self)
    obtain ⟨-, hflight⟩ := List.append_eq_nil_iff.mp (hrest.trans (congrArg wire hfs))
    have hsent : q.closeFrameSent = true ↔
        (s.ends side).object.closeFrameSent = true ∨ (g ≠ none ∧ 8 = 8) := by
      rw [hclose, ← hunclosed]
      simp [em]
    have hempty : payloads g.toList = [] := by
      cases g with
      | none => rfl
      | some g => exact (payloads_singleton g).trans (if_neg (by rw [(hg g rfl).opcode]; decide))
    have hturn : Turn (s.ends side.other).object.messageSizeMax (s.ends side)
        ⟨q, none, (s.ends side).log ++ (sentOf 8 g ++ [.code .peerClosed]),
          (s.ends side).emitted⟩ (some f) g (sentOf 8 g ++ [.code .peerClosed]) :=
      turn_of hlike rfl (by rw [hempty, List.append_nil]) (by simp [Heard.output?, Heard.isFrame])
        (by rw [Option.toList_some, payloads_singleton, if_neg (by omega)]; rfl)
        (by rw [Option.toList_some, pings_singleton, if_neg (by omega)]; rfl)
        (fun f hf => (hg f hf).expected _ (by simp) (by simp) (fun _ => rfl))
        (fun hne => by rwa [← Bool.not_eq_true, ← hunclosed]) hsent
    refine .inr ⟨_, _, _, step_stable.halt trivial hstep, h.put hqueue hturn ?_ nofun fun _ =>
      ⟨hfs, hflight, hcarries.closes f List.mem_cons_self hopcode⟩⟩
    refine (h.alive side).turn rfl (absurd rfl) (fun _ => ⟨hstatus, ?_⟩) ?_ ?_ ?_
    · simp
    · rw [hsent]
      cases g with
      | none => simp [Heard.isFrame]
      | some g => simp [Heard.isFrame]
    · cases g with
      | none =>
        rw [if_pos (hunclosed.mp rfl)]
        rfl
      | some g =>
        rw [if_neg fun hsent => nomatch hunclosed.mpr hsent]
        rfl
    · cases g <;> simp
  · -- a ping
    obtain ⟨q, g, hstep, hq, hlike, hclose, hunclosed, hg⟩ := peer_ping hidle hexpected hopcode
    obtain ⟨queue', hinv⟩ := @Inv.goesOn s side g fs queue rest f q 10 [.code .pingFrame] h hqueue
      hrest hq hlike hclose (by decide) (by simp [Heard.output?, Heard.isFrame])
      (by rw [payloads_singleton, if_neg (by omega)]; rfl)
      (by rw [pings_singleton, if_pos hopcode]; rfl) (fun f hf => (hg f hf).expected _ (by simp)
        (by simp) (fun _ => rfl)) (fun hne => by rwa [← Bool.not_eq_true, ← hunclosed])
      (by
        cases g with
        | none =>
          rw [if_pos (hunclosed.mp rfl)]
          rfl
        | some g =>
          rw [if_neg fun hsent => nomatch hunclosed.mpr hsent]
          rfl)
      (by cases g <;> simp [sentOf])
    have hempty : payloads g.toList = [] := by
      cases g with
      | none => rfl
      | some g => exact (payloads_singleton g).trans (if_neg (by rw [(hg g rfl).opcode]; decide))
    rw [hempty, List.append_nil] at hinv
    exact .inl ⟨_, _, queue', step_stable.next trivial hstep, hinv⟩
  · -- a pong
    obtain ⟨q, hstep, hq, hlike, hclose⟩ := peer_pong hidle hexpected hopcode
    obtain ⟨queue', hinv⟩ := @Inv.goesOn s side none fs queue rest f q 10 [.code .pongFrame] h hqueue
      hrest hq hlike hclose (by decide) (by simp [Heard.output?, Heard.isFrame])
      (by rw [payloads_singleton, if_neg (by omega)]; rfl)
      (by rw [pings_singleton, if_neg (by omega)]; rfl) nofun (absurd rfl) (by split <;> rfl)
      (by simp [sentOf])
    rw [hnil] at hinv
    exact .inl ⟨_, _, queue', step_stable.next trivial hstep, hinv⟩

/-- What a side does with what has arrived: it waits, goes on, or has reached the end. -/
theorem Inv.read {x : Bytes} (h : Inv s queue) (hunread : (s.ends side).unread = some x) :
    WebSocketProtocol.step (s.ends side).object x = .wait ∨
    (∃ q rest out queue', WebSocketProtocol.step (s.ends side).object x = .next q rest out ∧
      Inv (s.put side ⟨q, some rest, (s.ends side).log ++ out, (s.ends side).emitted⟩ out) queue') ∨
    (∃ q out queue', WebSocketProtocol.step (s.ends side).object x = .halt .peerClosed q out ∧
      Inv (s.put side ⟨q, none, (s.ends side).log ++ out, (s.ends side).emitted⟩ out) queue') := by
  have hidle := (h.alive side).running (by simp [hunread])
  have hbytes := h.bytes side x hunread
  have htake : ∀ {f fs rest}, queue side = f :: fs → x = f.encode ++ rest →
      rest ++ s.inFlight side = wire fs →
      (∃ q rest out queue', WebSocketProtocol.step (s.ends side).object x = .next q rest out ∧
        Inv (s.put side ⟨q, some rest, (s.ends side).log ++ out, (s.ends side).emitted⟩ out) queue') ∨
      (∃ q out queue', WebSocketProtocol.step (s.ends side).object x = .halt .peerClosed q out ∧
        Inv (s.put side ⟨q, none, (s.ends side).log ++ out, (s.ends side).emitted⟩ out) queue') := by
    rintro f fs rest hqueue rfl hrest
    obtain ⟨q, out, queue', hstep, hinv⟩ | hend := h.take hqueue hrest hidle
    · exact .inl ⟨q, rest, out, queue', hstep, hinv⟩
    · exact .inr hend
  cases hqueue : queue side with
  | nil =>
    rw [hqueue] at hbytes
    obtain ⟨rfl, -⟩ := List.append_eq_nil_iff.mp hbytes
    exact .inl (step_nil _)
  | cons f fs =>
    rw [hqueue, wire_cons] at hbytes
    obtain ⟨z, hz, hflight⟩ | ⟨rest, hx, hrest⟩ := List.append_eq_append_iff.mp hbytes
    · cases z with
      | nil =>
        rw [List.append_nil] at hz
        exact .inr (@htake f fs [] hqueue (hz ▸ (List.append_nil x).symm) hflight)
      | cons c z =>
        have hlegal := ((h.carries side).expected f (hqueue ▸ List.mem_cons_self)).legal hidle
        exact .inl (step_part hlegal hz.symm nofun)
    · exact .inr (htake hqueue hx hrest.symm)

/-- A run of the reader of one side. -/
theorem Inv.runs {x : Bytes} {heard : List Heard} {o : Outcome UInt8 WebSocketProtocol Ended}
    (hruns : Runs WebSocketProtocol.step (s.ends side).object x heard o) (h : Inv s queue)
    (hunread : (s.ends side).unread = some x) :
    ∃ object unread queue', result heard o = some (heard, object, unread) ∧
      Inv (s.put side ⟨object, unread, (s.ends side).log ++ heard, (s.ends side).emitted⟩ heard)
        queue' ∧
      ∀ b, unread = some b → WebSocketProtocol.step object b = .wait := by
  generalize hobject : (s.ends side).object = p at hruns
  induction hruns generalizing s queue with
  | @wait p x e =>
    refine ⟨p, some x, queue, rfl, ?_, ?_⟩
    · rw [List.append_nil, ← hobject, ← hunread, put_self]
      exact h
    · rintro _ ⟨⟩
      exact e
  | @halt p x ended q out e =>
    subst hobject
    obtain hwait | ⟨_, _, _, _, hnext, -⟩ | ⟨_, _, queue', hhalt, hinv⟩ := h.read hunread
    · cases e.symm.trans hwait
    · cases e.symm.trans hnext
    · cases e.symm.trans hhalt
      exact ⟨q, none, queue', rfl, hinv, nofun⟩
  | @next p x q rest out outs o e _ ih =>
    subst hobject
    obtain hwait | ⟨_, _, _, queue₁, hnext, hinv⟩ | ⟨_, _, _, hhalt, -⟩ := h.read hunread
    · cases e.symm.trans hwait
    · cases e.symm.trans hnext
      have hself : (s.put side ⟨q, some rest, (s.ends side).log ++ out,
          (s.ends side).emitted⟩ out).ends side = _ := Function.update_self ..
      obtain ⟨object, unread, queue', hresult, hinv', hwait⟩ :=
        ih hinv (by rw [hself]) (by rw [hself])
      refine ⟨object, unread, queue', ?_, ?_, hwait⟩
      · rw [result_append, hresult]
        rfl
      · rw [hself, put_put, List.append_assoc] at hinv'
        exact hinv'
    · cases e.symm.trans hhalt

/-- What has arrived is put behind what is unread. -/
def Pair.collect (s : Pair) (side : Side) (b : Bytes) (n : Nat) : Pair where
  ends := Function.update s.ends side
    { s.ends side with unread := some (b ++ (s.inFlight side).take n) }
  inFlight := (s.arrive side n).inFlight

theorem ends_collect (s : Pair) (side : Side) (b : Bytes) (n : Nat) :
    (s.collect side b n).ends side =
      { s.ends side with unread := some (b ++ (s.inFlight side).take n) } :=
  Function.update_self ..

theorem ends_collect_other (s : Pair) (side : Side) (b : Bytes) (n : Nat) :
    (s.collect side b n).ends side.other = s.ends side.other :=
  Function.update_of_ne Side.other_ne _ _

/-- Bytes arrive. -/
theorem Inv.collect {b : Bytes} (h : Inv s queue) (hunread : (s.ends side).unread = some b)
    (n : Nat) : Inv (s.collect side b n) queue := by
  have hself := ends_collect s side b n
  have hother := ends_collect_other s side b n
  have hflight : (s.collect side b n).inFlight side = (s.inFlight side).drop n :=
    Function.update_self ..
  have hflight' : (s.collect side b n).inFlight side.other = s.inFlight side.other :=
    Function.update_of_ne Side.other_ne _ _
  have hcarries := h.carries side
  have hcarries' := h.carries side.other
  have hroles := h.roles side
  have hroles' := h.roles side.other
  rw [Side.other_other] at hcarries' hroles'
  constructor
  · intro x
    obtain rfl | rfl := Side.eq_or_eq_other x side
    · have halive := h.alive x
      rw [hself]
      exact ⟨fun _ => halive.running (by simp [hunread]), nofun, halive.closed, halive.pongs,
        halive.errors⟩
    · rw [hother]
      exact h.alive _
  · intro x
    obtain rfl | rfl := Side.eq_or_eq_other x side
    · rw [hself, hother]
      exact hroles
    · rw [Side.other_other, hself, hother]
      exact hroles'
  · intro x
    obtain rfl | rfl := Side.eq_or_eq_other x side
    · rw [hself, hother]
      exact ⟨hcarries.expected, hcarries.messages, hcarries.pings, hcarries.closes, hcarries.last⟩
    · rw [Side.other_other, hself, hother]
      exact ⟨hcarries'.expected, hcarries'.messages, hcarries'.pings, hcarries'.closes,
        hcarries'.last⟩
  · intro x b' hb'
    obtain rfl | rfl := Side.eq_or_eq_other x side
    · rw [hself] at hb'
      cases hb'
      rw [hflight, List.append_assoc, List.take_append_drop]
      exact h.bytes x b hunread
    · rw [hother] at hb'
      rw [hflight']
      exact h.bytes _ b' hb'
  · intro x hx
    obtain rfl | rfl := Side.eq_or_eq_other x side
    · rw [hself] at hx
      cases hx
    · rw [hother] at hx
      rw [hflight', Side.other_other, hself]
      have hover := h.ended _ hx
      rw [Side.other_other] at hover
      exact hover

/-- Between two acts each side waits for more. -/
def Waits (s : Pair) : Prop :=
  ∀ side b, (s.ends side).unread = some b →
    WebSocketProtocol.step (s.ends side).object b = .wait

theorem Waits.put (h : Waits s)
    (he : ∀ b, e'.unread = some b → WebSocketProtocol.step e'.object b = .wait) :
    Waits (s.put side e' out) := by
  intro x b hb
  obtain rfl | rfl := Side.eq_or_eq_other x side
  · have hself : (s.put x e' out).ends x = e' := Function.update_self ..
    rw [hself] at hb ⊢
    exact he b hb
  · have hother : (s.put side e' out).ends side.other = s.ends side.other :=
      Function.update_of_ne Side.other_ne _ _
    rw [hother] at hb ⊢
    exact h _ b hb

theorem Waits.call {c : Call} {data : List Bytes} (hwaits : Waits s) (h : Inv s queue)
    (hc : Calls limit (s.ends side).object data c) : Waits (s.call side c data) := by
  cases hc with
  | skipped => exact hwaits.put fun b hb => hwaits side b hb
  | sent _ _ hidle hlike =>
    refine hwaits.put fun b hb => ?_
    have hp := (h.alive side).running fun hnone => by cases hnone.symm.trans hb
    exact step_wait_congr hlike (hidle.message.trans hp.message.symm) (hwaits side b hb)

/-- A delivery. -/
theorem Inv.deliver (h : Inv s queue) (hwaits : Waits s) (side : Side) (n : Nat) :
    ∃ s' queue', s.deliver side n = some s' ∧ Inv s' queue' ∧ Waits s' := by
  have halive := h.alive side
  unfold Pair.deliver
  cases hunread : (s.ends side).unread with
  | some b =>
    have hidle := halive.running (by simp [hunread])
    obtain ⟨heard, o, hruns, hreceive, -⟩ :=
      @receive_runs (s.ends side).object (b ++ (s.inFlight side).take n) [] hidle.connected _
        (Nat.lt_succ_self _)
    have hself := ends_collect s side b n
    obtain ⟨object, unread, queue', hresult, hinv, hwait⟩ :=
      @Inv.runs _ side queue _ heard o (by rw [hself]; exact hruns) (h.collect hunread n) (by rw [hself])
    rw [hself] at hinv
    have hput : ∀ e', (s.collect side b n).put side e' heard =
        (s.arrive side n).put side e' heard := by
      intro e'
      unfold Pair.put Pair.collect
      rw [Function.update_idem]
      rfl
    rw [hput] at hinv
    refine ⟨_, queue', ?_, hinv, ?_⟩
    · simp only [hunread, Option.bind_eq_bind, hreceive, hresult, Option.bind_some]
    · exact @Waits.put (s.arrive side n) side _ heard hwaits hwait
  | none =>
    obtain ⟨hstatus, hclosed⟩ := halive.ended hunread
    obtain ⟨hqueue, hflight, hother⟩ := h.ended side hunread
    have harrive : s.arrive side n = s := by
      unfold Pair.arrive
      rw [hflight, List.drop_nil, ← hflight, Function.update_eq_self]
    have hrecv := @recvMessage_idle (s.ends side).object ((s.inFlight side).take n) []
      (.inr (.inr (.inl hstatus)))
    have hturn : Turn (s.ends side.other).object.messageSizeMax (s.ends side)
        ⟨(s.ends side).object, (s.ends side).unread, (s.ends side).log ++ [.code .error],
          (s.ends side).emitted⟩ none none [.code .error] :=
      @turn_of _ _ none none _ 0 [.code .error] ⟨rfl, rfl⟩ rfl (List.append_nil _).symm
        (by simp [Heard.output?, Heard.isFrame]) rfl rfl nofun (absurd rfl) (by simp)
    have halive' : Alive ⟨(s.ends side).object, (s.ends side).unread,
        (s.ends side).log ++ [.code .error], (s.ends side).emitted⟩ := by
      refine halive.turn rfl halive.running (fun _ => ⟨hstatus, ?_⟩) (by simp [Heard.isFrame]) ?_
        fun _ => hclosed
      · exact List.mem_append_left _ hclosed
      · split <;> rfl
    have hinv := @Inv.put s side _ none none (queue side) _ queue h rfl hturn halive' (fun b hb => by cases hunread.symm.trans hb)
      fun _ => ⟨hqueue, hflight, hother⟩
    refine ⟨_, _, ?_, hinv, hwaits.put fun b hb => by cases hunread.symm.trans hb⟩
    simp only [hunread, Option.bind_eq_bind, hrecv, Option.bind_some, harrive]
    rfl

/-- Everything between two acts. -/
def Good (s : Pair) : Prop := (∃ queue, Inv s queue) ∧ Waits s

theorem good_step {a : Act} (hs : Good s) (h : Guarded Pair.Sized Pair.Steps s a s') : Good s' := by
  obtain ⟨⟨queue, hinv⟩, hwaits⟩ := hs
  obtain ⟨hsized, hstep⟩ := h
  cases a with
  | sendMessage side data =>
    cases hstep
    obtain ⟨hsize, hlt⟩ := hsized side data rfl
    have hc := calls_sendMessage _ (hinv.alive side) hsize hlt
    exact ⟨hinv.call hc, hwaits.call hinv hc⟩
  | sendPingFrame side =>
    cases hstep
    exact ⟨hinv.call (calls_sendPingFrame _ (hinv.alive side)),
      hwaits.call hinv (calls_sendPingFrame 0 (hinv.alive side))⟩
  | sendCloseFrame side =>
    cases hstep
    exact ⟨hinv.call (calls_sendCloseFrame _ (hinv.alive side)),
      hwaits.call hinv (calls_sendCloseFrame 0 (hinv.alive side))⟩
  | deliver side n =>
    obtain ⟨s₁, queue', hdeliver, hinv', hwaits'⟩ := hinv.deliver hwaits side n
    cases hdeliver.symm.trans hstep
    exact ⟨⟨queue', hinv'⟩, hwaits'⟩

theorem alive_init {p : WebSocketProtocol} (hp : Idle p) (hclose : p.closeFrameSent = false) :
    Alive ⟨p, some [], [], []⟩ :=
  ⟨fun _ => hp, nofun, by simp [hclose], rfl, nofun⟩

theorem good_init {p q : WebSocketProtocol} (hp : Idle p) (hq : Idle q)
    (hclient : p.isClient = true) (hserver : q.isClient = false)
    (hpclose : p.closeFrameSent = false) (hqclose : q.closeFrameSent = false) :
    Good (Pair.init p q) := by
  refine ⟨⟨fun _ => [], ?_, ?_, ?_, ?_, ?_⟩, ?_⟩
  · rintro (_ | _)
    · exact alive_init hp hpclose
    · exact alive_init hq hqclose
  · rintro (_ | _)
    · show q.isClient = !p.isClient
      rw [hclient, hserver]
      rfl
    · show p.isClient = !q.isClient
      rw [hclient, hserver]
      rfl
  · rintro (_ | _)
    · exact ⟨nofun, rfl, rfl, nofun, .nil⟩
    · exact ⟨nofun, rfl, rfl, nofun, .nil⟩
  · rintro (_ | _) b ⟨⟩
    · rfl
    · rfl
  · rintro (_ | _) h <;> cases h
  · rintro (_ | _) b ⟨⟩
    · exact step_nil p
    · exact step_nil q

/-- When nothing is in flight, everything has been read. -/
theorem Inv.drained (h : Inv s queue) (hwaits : Waits s) (hflight : s.inFlight side = []) :
    queue side = [] := by
  cases hunread : (s.ends side).unread with
  | none => exact (h.ended side hunread).1
  | some b =>
    cases hqueue : queue side with
    | nil => rfl
    | cons f fs =>
      have hbytes := h.bytes side b hunread
      rw [hflight, List.append_nil, hqueue, wire_cons] at hbytes
      have hidle := (h.alive side).running (by simp [hunread])
      have hwait := hwaits side b hunread
      rw [hbytes] at hwait
      have hrest : wire fs ++ s.inFlight side = wire fs := by rw [hflight, List.append_nil]
      obtain ⟨_, _, _, hstep, -⟩ | ⟨_, _, _, hstep, -⟩ := h.take hqueue hrest hidle
      · cases hwait.symm.trans hstep
      · cases hwait.symm.trans hstep

/-- Whatever the two sides do: what a side has retrieved is a part of what the other side
has sent, up to some message, and all of it when nothing is in flight; it has answered
each ping with one pong, up to its close frame; it has returned an error only after the
closing by the peer; and what is in flight can be delivered. -/
theorem pair_exchange {p q : WebSocketProtocol} (hp : Idle p) (hq : Idle q)
    (hclient : p.isClient = true) (hserver : q.isClient = false)
    (hpclose : p.closeFrameSent = false) (hqclose : q.closeFrameSent = false) {acts : List Act}
    (h : Run (Guarded Pair.Sized Pair.Steps) (Pair.init p q) acts s) (side : Side) :
    ((s.ends side).retrieved <+: (s.ends side.other).emitted ∧
      (s.inFlight side = [] → (s.ends side).retrieved = (s.ends side.other).emitted)) ∧
    ((s.ends side).pings ≤ (s.ends side.other).log.countP (Heard.isFrame 9) ∧
      (s.inFlight side = [] →
        (s.ends side).pings = (s.ends side.other).log.countP (Heard.isFrame 9))) ∧
    (s.ends side).log.countP (Heard.isFrame 10) =
      (beforeClose (s.ends side).log).count (.code .pingFrame) ∧
    (.code .error ∈ (s.ends side).log → .code .peerClosed ∈ beforeError (s.ends side).log) ∧
    ∀ n, ∃ s', s.deliver side n = some s' := by
  obtain ⟨⟨queue, hinv⟩, hwaits⟩ : Good s :=
    h.invariant good_step (good_init hp hq hclient hserver hpclose hqclose)
  have hcarries := hinv.carries side
  refine ⟨⟨⟨_, hcarries.messages⟩, fun hflight => ?_⟩, ⟨?_, fun hflight => ?_⟩,
    (hinv.alive side).pongs, (hinv.alive side).errors, fun n => ?_⟩
  · rw [← hcarries.messages, hinv.drained hwaits hflight]
    exact (List.append_nil _).symm
  · rw [← hcarries.pings]
    exact Nat.le_add_right _ _
  · rw [← hcarries.pings, hinv.drained hwaits hflight]
    rfl
  · obtain ⟨s', -, hdeliver, -⟩ := hinv.deliver hwaits side n
    exact ⟨s', hdeliver⟩

/-- Each side sends a message, and the client a ping; the message of the client comes in two
pieces. -/
def exchangeActs : List Act :=
  [.sendMessage .client (bytes "Hello"), .deliver .server 3, .sendMessage .server (bytes "Hi"),
    .deliver .server 100, .sendPingFrame .client, .deliver .server 100, .deliver .client 100]

theorem pair_exchange_hello :
    ∃ s : Pair, (s.ends .server).retrieved = [bytes "Hello"] ∧
      (s.ends .client).retrieved = [bytes "Hi"] ∧ (s.ends .server).pings = 1 ∧
      ((s.ends .server).retrieved <+: (s.ends .client).emitted ∧
        (s.inFlight .server = [] → (s.ends .server).retrieved = (s.ends .client).emitted)) ∧
      ((s.ends .server).pings ≤ (s.ends .client).log.countP (Heard.isFrame 9) ∧
        (s.inFlight .server = [] →
          (s.ends .server).pings = (s.ends .client).log.countP (Heard.isFrame 9))) ∧
      (s.ends .server).log.countP (Heard.isFrame 10) =
        (beforeClose (s.ends .server).log).count (.code .pingFrame) ∧
      (.code .error ∈ (s.ends .server).log →
        .code .peerClosed ∈ beforeError (s.ends .server).log) ∧
      ∀ n, ∃ s', s.deliver .server n = some s' := by
  let client : WebSocketProtocol := { construct true with status := .connected, isClient := true }
  let server : WebSocketProtocol := { construct true with status := .connected }
  have hrun : (exchangeActs.foldlM (fun s a => if Pair.Sized s a then s.step a else none)
      (Pair.init client server)).any (fun s => (s.ends .server).retrieved = [bytes "Hello"] ∧
        (s.ends .client).retrieved = [bytes "Hi"] ∧ (s.ends .server).pings = 1) = true := by
    decide +kernel
  obtain ⟨s, hs, hheard⟩ := (Option.any_eq_true _ _).mp hrun
  obtain ⟨hhello, hhi, hpings⟩ := of_decide_eq_true hheard
  exact ⟨s, hhello, hhi, hpings, pair_exchange ⟨rfl, rfl, rfl, rfl, rfl⟩ ⟨rfl, rfl, rfl, rfl, rfl⟩
    rfl rfl rfl rfl (run_of_foldlM Option.ite_none_right_eq_some.mp hs) .server⟩

end WebSocketProtocol

end Brickred
