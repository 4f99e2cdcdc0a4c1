import Mathlib.Logic.Equiv.Basic
import Brickred.Buffer.DynamicBuffer

/-!
# A `DynamicBuffer` is a byte queue

`Queue.step` is what the operations mean for a queue of bytes. A run works on
any number of buffers, since `swap` exchanges two of them; it keeps every
buffer's readable bytes equal to the queue that the same run makes of it, and
gives the same results.
-/

namespace Brickred

open DynamicBuffer (encodeInt decodeInt)

/-- The operations on one buffer. `fill size data` stands for
`reserveWritableBytes(size)` followed by writing `data` through `writeBegin()` and
`write()`; integers are given by their width in bytes. -/
inductive BufferOp where
  | fill (size : Nat) (data : List UInt8)
  | writeBytes (data : List UInt8)
  | writeInt (width v : Nat) (littleEndian : Bool)
  | read (size : Nat)
  | readBytes (count : Nat)
  | readInt (width : Nat) (littleEndian : Bool)
  | peekInt (width offset : Nat) (littleEndian : Bool)
  | reserveWritableBytes (size : Nat)
  | clear

/-- An operation on one of the buffers, or `swap` of two. -/
inductive BuffersOp where
  | on (i : Nat) (op : BufferOp)
  | swap (i j : Nat)

/-- What an operation returns; `.int none` is a read outside the readable bytes. -/
inductive BufferResult where
  | void
  | bytes (data : List UInt8)
  | int (v : Option (Option Nat))

namespace Queue

/-- The integer at an offset of a byte queue, with the comparison the buffer
makes. -/
def peekInt (q : List UInt8) (width offset : Nat) (littleEndian : Bool) : Option (Option Nat) :=
  if q.length < (offset + width) % 2 ^ 64 then
    some none
  else
    (slice q offset width).map fun bytes => some (decodeInt littleEndian bytes)

/-- An operation on a byte queue. -/
def step (q : List UInt8) : BufferOp → List UInt8 × BufferResult
  | .fill _ data => (q ++ data, .void)
  | .writeBytes data => (q ++ data, .void)
  | .writeInt width v littleEndian => (q ++ encodeInt width littleEndian v, .void)
  | .read size => (q.drop size, .void)
  | .readBytes count => (q.drop count, .bytes (q.take count))
  | .readInt width littleEndian =>
    if q.length < width then (q, .int (some none))
    else (q.drop width, .int (some (some (decodeInt littleEndian (q.take width)))))
  | .peekInt width offset littleEndian => (q, .int (peekInt q width offset littleEndian))
  | .reserveWritableBytes _ => (q, .void)
  | .clear => ([], .void)

/-- A run on a family of byte queues. -/
def run (qs : Nat → List UInt8) : List BuffersOp → (Nat → List UInt8) × List BufferResult
  | [] => (qs, [])
  | .swap i j :: ops => run (qs ∘ Equiv.swap i j) ops
  | .on i op :: ops =>
    let r := run (Function.update qs i (step (qs i) op).1) ops
    (r.1, (step (qs i) op).2 :: r.2)

end Queue

namespace DynamicBuffer

/-- An operation on a buffer. -/
def step (b : DynamicBuffer) : BufferOp → Option (DynamicBuffer × BufferResult)
  | .fill size data => do some (← b.fill size data, .void)
  | .writeBytes data => do some (← b.writeBytes data, .void)
  | .writeInt width v littleEndian => do some (← b.writeInt width v littleEndian, .void)
  | .read size => some (b.read size, .void)
  | .readBytes count => some ((b.readBytes count).2, .bytes (b.readBytes count).1)
  | .readInt width littleEndian => do
    let (v, b) ← b.readInt width littleEndian
    some (b, .int (some v))
  | .peekInt width offset littleEndian => some (b, .int (b.peekInt width offset littleEndian))
  | .reserveWritableBytes size => do some (← b.reserveWritableBytes size, .void)
  | .clear => some (b.clear, .void)

/-- A run on a family of buffers. -/
def run (bs : Nat → DynamicBuffer) :
    List BuffersOp → Option ((Nat → DynamicBuffer) × List BufferResult)
  | [] => some (bs, [])
  | .swap i j :: ops => run (bs ∘ Equiv.swap i j) ops
  | .on i op :: ops => do
    let (b, result) ← (bs i).step op
    let (bs, results) ← run (Function.update bs i b) ops
    some (bs, result :: results)

/-- The operation asks for no capacity of `2 ^ 63` bytes or more, writes no more
through `writeBegin()` than it has reserved, and is about an integer of one of the
four widths. -/
def OpFits (b : DynamicBuffer) : BufferOp → Prop
  | .fill size data => b.Fits size ∧ data.length ≤ size
  | .writeBytes data => b.Fits data.length
  | .writeInt width _ _ => width ∈ [1, 2, 4, 8] ∧ b.Fits width
  | .readInt width _ => width ∈ [1, 2, 4, 8]
  | .peekInt width _ _ => width ∈ [1, 2, 4, 8]
  | .reserveWritableBytes size => b.Fits size
  | .read _ | .readBytes _ | .clear => True

/-- Every operation of a run fits the buffer it meets. -/
def RunFits (bs : Nat → DynamicBuffer) : List BuffersOp → Prop
  | [] => True
  | .swap i j :: ops => RunFits (bs ∘ Equiv.swap i j) ops
  | .on i op :: ops => (bs i).OpFits op ∧
      ∀ b result, (bs i).step op = some (b, result) → RunFits (Function.update bs i b) ops

variable {b : DynamicBuffer} {width : Nat}

@[simp] theorem length_encodeInt (littleEndian : Bool) (v : Nat) :
    (encodeInt width littleEndian v).length = width := by
  unfold encodeInt
  dsimp only
  split <;> simp

theorem readInt_eq (b : DynamicBuffer) (hw : width ∈ [1, 2, 4, 8]) (littleEndian : Bool) :
    b.readInt width littleEndian =
      if b.readable.length < width then some (none, b)
      else some (some (decodeInt littleEndian (b.readable.take width)), b.read width) := by
  have hmod : (0 + width) % 2 ^ 64 = width := by
    rw [Nat.zero_add]
    refine Nat.mod_eq_of_lt ?_
    simp at hw
    omega
  unfold readInt peekInt
  rw [hmod, length_readable]
  by_cases hlt : b.readableBytes < width
  · rw [if_pos hlt, if_pos hlt]
    rfl
  · rw [if_neg hlt, if_neg hlt, slice, if_pos (by rw [length_readable]; omega)]
    rfl

/-- An operation that fits is the one on the queue of readable bytes. -/
theorem step_spec {op : BufferOp} (hfit : b.OpFits op) :
    ∃ b', b.step op = some (b', (Queue.step b.readable op).2) ∧
      b'.readable = (Queue.step b.readable op).1 := by
  cases op with
  | fill size data =>
    obtain ⟨b', e, hread⟩ := fill_spec hfit.1 hfit.2
    exact ⟨b', by simp [step, e, Queue.step], hread⟩
  | writeBytes data =>
    obtain ⟨b', e, hread⟩ := fill_spec hfit (Nat.le_refl _)
    exact ⟨b', by simp [step, writeBytes, e, Queue.step], hread⟩
  | writeInt width v littleEndian =>
    obtain ⟨b', e, hread⟩ := fill_spec hfit.2
      (show (encodeInt width littleEndian v).length ≤ width by simp)
    exact ⟨b', by simp [step, writeInt, e, Queue.step], hread⟩
  | read size => exact ⟨_, rfl, readable_read b size⟩
  | readBytes count =>
    refine ⟨_, ?_, readable_read b count⟩
    have hmin : b.readable.take (min count b.readableBytes) = b.readable.take count := by
      rw [← length_readable, List.take_eq_take_iff]
      omega
    simp only [step, readBytes, hmin, Queue.step]
  | readInt width littleEndian =>
    rw [step, readInt_eq b hfit littleEndian, Queue.step]
    by_cases hlt : b.readable.length < width
    · rw [if_pos hlt, if_pos hlt]
      exact ⟨b, rfl, rfl⟩
    · rw [if_neg hlt, if_neg hlt]
      exact ⟨_, rfl, readable_read b width⟩
  | peekInt width offset littleEndian =>
    refine ⟨b, ?_, rfl⟩
    rw [step, peekInt, Queue.step, Queue.peekInt, length_readable]
  | reserveWritableBytes size =>
    obtain ⟨b', e, hread, -, -⟩ := reserveWritableBytes_spec hfit
    exact ⟨b', by simp [step, e, Queue.step], hread⟩
  | clear => exact ⟨_, rfl, readable_clear⟩

/-- A run of operations that fit is the run on the queues of readable bytes. -/
theorem run_spec {ops : List BuffersOp} : ∀ {bs : Nat → DynamicBuffer}, RunFits bs ops →
    ∃ bs', run bs ops = some (bs', (Queue.run (fun i => (bs i).readable) ops).2) ∧
      (fun i => (bs' i).readable) = (Queue.run (fun i => (bs i).readable) ops).1 := by
  induction ops with
  | nil => exact fun {bs} _ => ⟨bs, rfl, rfl⟩
  | cons op ops ih =>
    intro bs hfit
    cases op with
    | swap i j => exact ih hfit
    | on i op =>
      obtain ⟨b, e, hread⟩ := step_spec hfit.1
      obtain ⟨bs', e', hreads⟩ := ih (hfit.2 b _ e)
      have hupdate : (fun k => (Function.update bs i b k).readable) =
          Function.update (fun k => (bs k).readable) i
            (Queue.step (bs i).readable op).1 := by
        funext k
        by_cases hk : k = i
        · subst hk
          rw [Function.update_self, Function.update_self, hread]
        · rw [Function.update_of_ne hk, Function.update_of_ne hk]
      rw [hupdate] at e' hreads
      refine ⟨bs', ?_, hreads⟩
      simp only [run, e, Option.bind_eq_bind, Option.bind_some, e', Queue.run]

end DynamicBuffer

/-- Buffers of any initial and expand sizes, after any run of operations whose
capacities stay below `2 ^ 63`: the readable bytes are the queue of the bytes
written and not yet read, the results are those of the queue, the indices are in
order, and reserving room keeps the readable bytes, makes the room and does not
shrink the capacity. -/
theorem buffer_is_queue {p : Nat → Nat × Nat} {bs : Nat → DynamicBuffer}
    (hnew : ∀ i, DynamicBuffer.construct (p i).1 (p i).2 = some (bs i))
    {ops : List BuffersOp} (hfit : DynamicBuffer.RunFits bs ops) :
    ∃ bs', DynamicBuffer.run bs ops = some (bs', (Queue.run (fun _ => []) ops).2) ∧
      (∀ i, (bs' i).readable = (Queue.run (fun _ => []) ops).1 i) ∧
      (∀ i, (bs' i).readIndex ≤ (bs' i).writeIndex ∧ (bs' i).writeIndex ≤ (bs' i).capacity) ∧
      ∀ i size, (bs' i).Fits size → ∃ b, (bs' i).reserveWritableBytes size = some b ∧
        b.readable = (bs' i).readable ∧ size ≤ b.writableBytes ∧
        (bs' i).capacity ≤ b.capacity := by
  obtain ⟨bs', e, hreads⟩ := DynamicBuffer.run_spec hfit
  have hnil : (fun i => (bs i).readable) = fun _ => [] :=
    funext fun i => DynamicBuffer.readable_construct (hnew i)
  rw [hnil] at e hreads
  exact ⟨bs', e, fun i => congrFun hreads i, fun i => ⟨(bs' i).read_le, (bs' i).write_le⟩,
    fun i size hfits => DynamicBuffer.reserveWritableBytes_spec hfits⟩

/-- A byte written to a buffer of one byte is read from the buffer that got its
contents by `swap`. -/
theorem buffer_is_queue_swap :
    ∃ bs bs' : Nat → DynamicBuffer, (∀ i, DynamicBuffer.construct 1 1 = some (bs i)) ∧
      DynamicBuffer.run bs [.on 0 (.writeBytes [7]), .swap 0 1, .on 1 (.readBytes 1)] =
        some (bs', [.void, .bytes [7]]) ∧ (bs' 1).readable = [] := by
  have hfit : DynamicBuffer.RunFits
      (fun _ => (DynamicBuffer.construct 1 1).get (by decide))
      [.on 0 (.writeBytes [7]), .swap 0 1, .on 1 (.readBytes 1)] :=
    ⟨.inl (by decide), fun b result h => ⟨trivial, fun _ _ _ => trivial⟩⟩
  have hnew : ∀ i : Nat, DynamicBuffer.construct 1 1 =
      some ((fun _ => (DynamicBuffer.construct 1 1).get (by decide)) i) :=
    fun i => (Option.some_get _).symm
  obtain ⟨bs', e, hreads, -⟩ := buffer_is_queue (p := fun _ => (1, 1)) hnew hfit
  exact ⟨_, bs', hnew, e, hreads 1⟩

end Brickred
