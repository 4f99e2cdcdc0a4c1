import Mathlib.Logic.Function.Basic
import Brickred.Lib.Transition
import Brickred.Protocol.WebSocketPeer

/-!
# Two connected objects

A client and a server are joined by two channels of bytes. Each may send at any time,
and any part of what is in flight may be delivered next; the receiver then calls
`recvMessage` until it waits, and retrieves every message that is ready.
-/

namespace Brickred

open Incremental Transition

namespace WebSocketProtocol

/-- The two sides of a connection. -/
inductive Side where
  | client
  | server
deriving DecidableEq, Repr

def Side.other : Side → Side
  | .client => .server
  | .server => .client

/-- One side: its object, the bytes it has not read while its connection lasts, what it
has sent, returned and retrieved, and the messages that `sendMessage` has passed to the
output callback. -/
structure End where
  object : WebSocketProtocol
  unread : Option Bytes
  log : List Heard
  emitted : List Bytes

/-- The two sides, and the bytes on their way to each of them. -/
structure Pair where
  ends : Side → End
  inFlight : Side → Bytes

/-- What a user does, or the channel that leads to a side. -/
inductive Act where
  | sendMessage (side : Side) (data : Bytes)
  | sendPingFrame (side : Side)
  | sendCloseFrame (side : Side)
  | deliver (side : Side) (n : Nat)

def Heard.output? : Heard → Option Output
  | .sent o => some o
  | _ => none

def Heard.message? : Heard → Option Bytes
  | .message m => some m
  | _ => none

/-- The bytes that have been sent. -/
def sentBytes (heard : List Heard) : Bytes :=
  ((heard.filterMap Heard.output?).map Output.text).flatten

namespace Pair

def init (client server : WebSocketProtocol) : Pair where
  ends
    | .client => ⟨client, some [], [], []⟩
    | .server => ⟨server, some [], [], []⟩
  inFlight _ := []

/-- A side changes, and what it has sent is on its way to the other side. -/
def put (s : Pair) (side : Side) (e : End) (heard : List Heard) : Pair where
  ends := Function.update s.ends side e
  inFlight := Function.update s.inFlight side.other (s.inFlight side.other ++ sentBytes heard)

/-- A call of a function that sends; `data` is the message that it is to send. -/
def call (s : Pair) (side : Side) (c : Call) (data : List Bytes) : Pair :=
  let (sent, _, object) := c.finish
  let e := s.ends side
  let emitted := e.emitted ++ if sent.isEmpty then [] else data
  s.put side { e with object, log := e.log ++ sent.map .sent, emitted } (sent.map .sent)

/-- What is next in flight arrives. -/
def arrive (s : Pair) (side : Side) (n : Nat) : Pair :=
  { s with inFlight := Function.update s.inFlight side ((s.inFlight side).drop n) }

def deliver (s : Pair) (side : Side) (n : Nat) : Option Pair :=
  let e := s.ends side
  let piece := (s.inFlight side).take n
  match e.unread with
  | some b => do
    let (heard, object, unread) ← receive [] ((b ++ piece).length + 1) e.object (b ++ piece)
    some ((s.arrive side n).put side { e with object, unread, log := e.log ++ heard } heard)
  | none => do
    let (c, _) ← e.object.recvMessage [] piece
    match c.finish with
    | (sent, .code code, object) =>
      let heard := sent.map .sent ++ [.code code]
      some ((s.arrive side n).put side { e with object, log := e.log ++ heard } heard)
    | _ => none

def step (s : Pair) : Act → Option Pair
  | .sendMessage side data => some (s.call side ((s.ends side).object.sendMessage data) [data])
  | .sendPingFrame side => some (s.call side (s.ends side).object.sendPingFrame [])
  | .sendCloseFrame side => some (s.call side ((s.ends side).object.sendCloseFrame .sent) [])
  | .deliver side n => s.deliver side n

/-- One act. -/
def Steps (s : Pair) (a : Act) (s' : Pair) : Prop := s.step a = some s'

/-- A message is within the limit of the other side, and of a size that a vector can
have. -/
def Sized (s : Pair) (a : Act) : Prop :=
  ∀ side data, a = .sendMessage side data →
    data.length ≤ (s.ends side.other).object.messageSizeMax ∧ data.length < 2 ^ 63

instance (s : Pair) : (a : Act) → Decidable (s.Sized a)
  | .sendMessage side data =>
    decidable_of_iff (data.length ≤ (s.ends side.other).object.messageSizeMax ∧ data.length < 2 ^ 63)
      ⟨fun h _ _ ha => by cases ha; exact h, fun h => h side data rfl⟩
  | .sendPingFrame _ | .sendCloseFrame _ | .deliver _ _ => .isTrue nofun

end Pair

/-! ## What has been sent and heard -/

/-- A frame of this opcode has been sent. -/
def Heard.isFrame (opcode : Nat) : Heard → Bool
  | .sent (.frame o _) => o = opcode
  | _ => false

/-- The messages that have been retrieved. -/
def End.retrieved (e : End) : List Bytes := e.log.filterMap Heard.message?

/-- The pings that have been received. -/
def End.pings (e : End) : Nat := e.log.count (.code .pingFrame)

/-- What is done before a close frame is sent. -/
def beforeClose (log : List Heard) : List Heard := log.takeWhile fun h => !h.isFrame 8

/-- What is done before an error is returned. -/
def beforeError (log : List Heard) : List Heard := log.takeWhile fun h => h ≠ .code .error

/-- The messages that frames carry. -/
def payloads (fs : List Frame) : List Bytes :=
  (fs.filter fun f => f.opcode.val = 2).map Frame.payload

/-- The pings among frames. -/
def pings (fs : List Frame) : Nat := fs.countP fun f => f.opcode.val = 9

variable {s s' : Pair} {side : Side} {e e' t t' : End} {r g : Option Frame} {fs gs : List Frame}
  {out : List Heard} {limit : Nat}

@[simp] theorem Side.other_other : side.other.other = side := by
  cases side <;> rfl

theorem Side.other_ne : side.other ≠ side := by
  cases side <;> exact nofun

theorem Side.eq_or_eq_other (x side : Side) : x = side ∨ x = side.other := by
  cases x <;> cases side <;> simp [Side.other]

@[simp] theorem payloads_append : payloads (fs ++ gs) = payloads fs ++ payloads gs := by
  simp [payloads]

@[simp] theorem pings_append : pings (fs ++ gs) = pings fs + pings gs :=
  List.countP_append

theorem payloads_singleton (f : Frame) :
    payloads [f] = if f.opcode.val = 2 then [f.payload] else [] := by
  unfold payloads
  rw [List.filter_cons]
  by_cases h : f.opcode.val = 2
  · rw [if_pos h, if_pos (decide_eq_true h)]
    rfl
  · rw [if_neg h, if_neg (by simpa using h)]
    rfl

theorem pings_singleton (f : Frame) : pings [f] = if f.opcode.val = 9 then 1 else 0 := by
  unfold pings
  rw [List.countP_singleton]
  by_cases h : f.opcode.val = 9
  · rw [if_pos h, if_pos (decide_eq_true h)]
  · rw [if_neg h, if_neg (by simpa using h)]

theorem takeWhile_append_of_mem {α : Type} {p : α → Bool} {l : List α} (m : List α)
    (h : ∃ x ∈ l, p x = false) : (l ++ m).takeWhile p = l.takeWhile p := by
  obtain ⟨x, hx, hp⟩ := h
  induction l with
  | nil => cases hx
  | cons y l ih =>
    rw [List.cons_append, List.takeWhile_cons, List.takeWhile_cons]
    split
    · rename_i hy
      obtain rfl | hx := List.mem_cons.mp hx
      · cases hp.symm.trans hy
      · rw [ih hx]
    · rfl

/-- What one side does at a time: it reads a frame or none, and sends a frame or none. -/
structure Turn (limit : Nat) (e e' : End) (r g : Option Frame) (out : List Heard) : Prop where
  like : Like e.object e'.object
  log : e'.log = e.log ++ out
  emitted : e'.emitted = e.emitted ++ payloads g.toList
  retrieved : out.filterMap Heard.message? = payloads r.toList
  heardPings : out.count (.code .pingFrame) = pings r.toList
  sentPings : out.countP (Heard.isFrame 9) = pings g.toList
  bytes : sentBytes out = wire g.toList
  expected : ∀ f ∈ g, f.Expected (!e.object.isClient) limit
  unclosed : g ≠ none → e.object.closeFrameSent = false
  closing : ∀ f ∈ g, f.opcode.val = 8 → e'.object.closeFrameSent = true
  closed : e.object.closeFrameSent = true → e'.object.closeFrameSent = true

/-- The frames that are on their way from `t` to `e`, and what has been sent and read
before. -/
structure Carries (t e : End) (fs : List Frame) : Prop where
  expected : ∀ f ∈ fs, f.Expected e.object.isClient e.object.messageSizeMax
  messages : e.retrieved ++ payloads fs = t.emitted
  pings : e.pings + pings fs = t.log.countP (Heard.isFrame 9)
  closes : ∀ f ∈ fs, f.opcode.val = 8 → t.object.closeFrameSent = true
  last : fs.Pairwise fun f _ => f.opcode.val ≠ 8

/-- The receiver's turn. -/
theorem Carries.read (h : Carries t e (r.toList ++ fs)) (hturn : Turn limit e e' r g out) :
    Carries t e' fs where
  expected f hf := by
    rw [hturn.like.isClient, hturn.like.messageSizeMax]
    exact h.expected f (List.mem_append_right _ hf)
  messages := by
    rw [← h.messages, End.retrieved, hturn.log, List.filterMap_append, hturn.retrieved,
      payloads_append, List.append_assoc]
    rfl
  pings := by
    rw [← h.pings, End.pings, hturn.log, List.count_append, hturn.heardPings, pings_append,
      Nat.add_assoc]
    rfl
  closes f hf := h.closes f (List.mem_append_right _ hf)
  last := (List.pairwise_append.mp h.last).2.1

/-- The sender's turn. -/
theorem Carries.send (h : Carries t e fs) (hrole : t.object.isClient = !e.object.isClient)
    (hturn : Turn e.object.messageSizeMax t t' r g out) : Carries t' e (fs ++ g.toList) where
  expected f hf := by
    obtain hf | hf := List.mem_append.mp hf
    · exact h.expected f hf
    · have hexpected := hturn.expected f (Option.mem_toList.mp hf)
      rwa [hrole, Bool.not_not] at hexpected
  messages := by
    rw [payloads_append, ← List.append_assoc, h.messages, hturn.emitted]
  pings := by
    rw [pings_append, ← Nat.add_assoc, h.pings, hturn.log, List.countP_append, hturn.sentPings]
  closes f hf hclose := by
    obtain hf | hf := List.mem_append.mp hf
    · exact hturn.closed (h.closes f hf hclose)
    · exact hturn.closing f (Option.mem_toList.mp hf) hclose
  last := by
    rw [List.pairwise_append]
    refine ⟨h.last, ?_, fun f hf x hx hclose => ?_⟩
    · cases g with
      | none => exact .nil
      | some g => exact List.pairwise_singleton _ _
    · have hg : g ≠ none := by
        rintro rfl
        cases hx
      cases (hturn.unclosed hg).symm.trans (h.closes f hf hclose)

/-- What holds of a side by itself. -/
structure Alive (e : End) : Prop where
  running : e.unread ≠ none → Idle e.object
  ended : e.unread = none → e.object.status = .closed ∧ .code .peerClosed ∈ e.log
  closed : e.object.closeFrameSent = true ↔ ∃ x ∈ e.log, x.isFrame 8 = true
  pongs : e.log.countP (Heard.isFrame 10) = (beforeClose e.log).count (.code .pingFrame)
  errors : .code .error ∈ e.log → .code .peerClosed ∈ beforeError e.log

/-- A side stays so through its turns. -/
theorem Alive.turn (h : Alive e) (hlog : e'.log = e.log ++ out)
    (hrunning : e'.unread ≠ none → Idle e'.object)
    (hended : e'.unread = none → e'.object.status = .closed ∧ .code .peerClosed ∈ e'.log)
    (hclosed : e'.object.closeFrameSent = true ↔
      e.object.closeFrameSent = true ∨ ∃ x ∈ out, x.isFrame 8 = true)
    (hpongs : out.countP (Heard.isFrame 10) =
      if e.object.closeFrameSent then 0 else (beforeClose out).count (.code .pingFrame))
    (herrors : .code .error ∈ out → .code .peerClosed ∈ e.log) : Alive e' where
  running := hrunning
  ended := hended
  closed := by
    rw [hclosed, h.closed, hlog]
    simp only [List.mem_append, or_and_right, exists_or]
  pongs := by
    rw [hlog, List.countP_append, h.pongs, hpongs]
    unfold beforeClose
    by_cases hsent : e.object.closeFrameSent = true
    · obtain ⟨x, hx, hclose⟩ := h.closed.mp hsent
      rw [if_pos hsent, takeWhile_append_of_mem out ⟨x, hx, by simp [hclose]⟩]
      rfl
    · have hnone : ∀ x ∈ e.log, (!x.isFrame 8) = true := by
        intro x hx
        rw [Bool.not_eq_true', ← Bool.not_eq_true]
        exact fun hclose => hsent (h.closed.mpr ⟨x, hx, hclose⟩)
      rw [if_neg hsent, List.takeWhile_append_of_pos hnone, List.count_append,
        List.takeWhile_eq_self_iff.mpr hnone]
  errors hmem := by
    rw [hlog] at hmem ⊢
    unfold beforeError
    by_cases herror : .code .error ∈ e.log
    · rw [takeWhile_append_of_mem out ⟨_, herror, by simp⟩]
      exact h.errors herror
    · have hnone : ∀ x ∈ e.log, decide (x ≠ .code .error) = true := by
        intro x hx
        rw [decide_eq_true_eq]
        rintro rfl
        exact herror hx
      rw [List.takeWhile_append_of_pos hnone]
      exact List.mem_append_left _ (herrors ((List.mem_append.mp hmem).resolve_left herror))

/-- What holds of the two sides, with the frames on their way to each of them. -/
structure Inv (s : Pair) (queue : Side → List Frame) : Prop where
  alive : ∀ side, Alive (s.ends side)
  roles : ∀ side, (s.ends side.other).object.isClient = !(s.ends side).object.isClient
  carries : ∀ side, Carries (s.ends side.other) (s.ends side) (queue side)
  bytes : ∀ side b, (s.ends side).unread = some b → b ++ s.inFlight side = wire (queue side)
  ended : ∀ side, (s.ends side).unread = none → queue side = [] ∧ s.inFlight side = [] ∧
    (s.ends side.other).object.closeFrameSent = true

variable {queue : Side → List Frame}

/-- The frames on their way after a turn. -/
def requeue (queue : Side → List Frame) (side : Side) (fs : List Frame) (g : Option Frame) :
    Side → List Frame :=
  Function.update (Function.update queue side fs) side.other (queue side.other ++ g.toList)

/-- A turn of one side. -/
theorem Inv.put (h : Inv s queue) (hqueue : queue side = r.toList ++ fs)
    (hturn : Turn (s.ends side.other).object.messageSizeMax (s.ends side) e' r g out)
    (halive : Alive e') (hbytes : ∀ b, e'.unread = some b → b ++ s.inFlight side = wire fs)
    (hover : e'.unread = none → fs = [] ∧ s.inFlight side = [] ∧
      (s.ends side.other).object.closeFrameSent = true) :
    Inv (s.put side e' out) (requeue queue side fs g) := by
  have hself : (s.put side e' out).ends side = e' := Function.update_self ..
  have hother : (s.put side e' out).ends side.other = s.ends side.other :=
    Function.update_of_ne Side.other_ne _ _
  have hflight : (s.put side e' out).inFlight side = s.inFlight side :=
    Function.update_of_ne Side.other_ne.symm _ _
  have hflight' : (s.put side e' out).inFlight side.other =
      s.inFlight side.other ++ wire g.toList := by
    rw [← hturn.bytes]
    exact Function.update_self ..
  have hqself : requeue queue side fs g side = fs := by
    rw [requeue, Function.update_of_ne Side.other_ne.symm, Function.update_self]
  have hqother : requeue queue side fs g side.other = queue side.other ++ g.toList :=
    Function.update_self ..
  have hcarries := h.carries side
  have hcarries' := h.carries side.other
  rw [Side.other_other] at hcarries'
  have hroles := h.roles side
  have hroles' := h.roles side.other
  rw [Side.other_other] at hroles'
  constructor
  · intro x
    obtain rfl | rfl := Side.eq_or_eq_other x side
    · rw [hself]
      exact halive
    · rw [hother]
      exact h.alive _
  · intro x
    obtain rfl | rfl := Side.eq_or_eq_other x side
    · rw [hself, hother, hturn.like.isClient, hroles]
    · rw [Side.other_other, hself, hother, hturn.like.isClient, hroles']
  · intro x
    obtain rfl | rfl := Side.eq_or_eq_other x side
    · rw [hself, hother, hqself]
      exact (hqueue ▸ hcarries).read hturn
    · rw [Side.other_other, hself, hother, hqother]
      exact hcarries'.send hroles' hturn
  · intro x b hb
    obtain rfl | rfl := Side.eq_or_eq_other x side
    · rw [hself] at hb
      rw [hflight, hqself]
      exact hbytes b hb
    · rw [hother] at hb
      rw [hflight', hqother, wire_append, ← List.append_assoc, h.bytes _ b hb]
  · intro x hx
    obtain rfl | rfl := Side.eq_or_eq_other x side
    · rw [hself] at hx
      rw [hqself, hflight, hother]
      exact hover hx
    · rw [hother] at hx
      obtain ⟨hq, hf, hclose⟩ := h.ended _ hx
      rw [Side.other_other] at hclose
      have hg : g = none := by
        by_contra hg
        cases (hturn.unclosed hg).symm.trans hclose
      rw [hqother, hflight', Side.other_other, hself, hq, hf, hg]
      exact ⟨rfl, rfl, hturn.closed hclose⟩

end WebSocketProtocol

end Brickred
