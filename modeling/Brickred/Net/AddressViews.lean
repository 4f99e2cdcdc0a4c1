import Brickred.Lib.Machine
import Brickred.Net.SocketAddress

/-!
# What an address says (`socket_address.cc`)

Seen from outside an address is what has been set last, and both ways to read it are read
off that. The members of `SocketAddress` are a cache of it that is filled on demand: every
sequence of calls, with copies and failed translations, gets the same answers from both.
-/

namespace Brickred

open NativeAddress (saFamily sinPort sinAddr sin6Addr sockaddrIn sockaddrIn6)

/-- The size of the native addresses of a protocol. -/
def Protocol.size : Protocol → Nat
  | .unknown => 0
  | .ipV4 => 16
  | .ipV6 => 28

/-- A native address of a known protocol. -/
structure Native where
  protocol : Protocol
  address : NativeAddress
  known : protocol ≠ .unknown

/-- What has been set last. -/
inductive Meaning
  | nothing
  | text (ip : Bytes) (port : UInt16)
  | native (n : Native)

namespace Native

def bytes (n : Native) : Bytes := n.address.toList.take n.protocol.size

/-- The native address that a pointer is to. -/
def ofSockaddr (a : NativeAddress) : Option Native :=
  if saFamily a = 2 then some ⟨.ipV4, a, by simp⟩
  else if saFamily a = 10 then some ⟨.ipV6, a, by simp⟩
  else none

/-- The native address that a text says. -/
def ofText (inet : Inet) (ip : Bytes) (port : UInt16) : Option Native :=
  if ':'.toUInt8 ∈ ip then
    (inet.pton6 (cstr ip)).map fun addr => ⟨.ipV6, sockaddrIn6 addr port, by simp⟩
  else if '.'.toUInt8 ∈ ip then
    (inet.pton4 (cstr ip)).map fun addr => ⟨.ipV4, sockaddrIn addr port, by simp⟩
  else
    none

/-- The text of a native address. -/
def text (inet : Inet) (n : Native) : Option (Bytes × UInt16) :=
  (match n.protocol with
    | .ipV4 => inet.ntop4 (sinAddr n.address)
    | .ipV6 => inet.ntop6 (sin6Addr n.address)
    | .unknown => none).map fun ip => (ip, sinPort n.address)

end Native

namespace Meaning

/-- The text and the port. -/
def asText (inet : Inet) : Meaning → Bytes × UInt16
  | .nothing => ([], 0)
  | .text ip port => (ip, port)
  | .native n => (n.text inet).getD ([], 0)

def asNative (inet : Inet) : Meaning → Option Native
  | .nothing => none
  | .text ip port => Native.ofText inet ip port
  | .native n => some n

end Meaning

/-! ## Objects and calls -/

/-- A call for the address with a number. `getAddressByDomain` puts the addresses that it
finds in a row. -/
inductive AddressOp
  | construct (i : Nat) (memory : NativeAddress)
  | constructText (i : Nat) (memory : NativeAddress) (ip : Bytes) (port : UInt16)
  | copyConstruct (i j : Nat)
  | copyAssign (i j : Nat)
  | setAddress (i : Nat) (ip : Bytes) (port : UInt16)
  | setNativeAddress (i : Nat) (nativeAddr : NativeAddress)
  | getIp (i : Nat)
  | getPort (i : Nat)
  | getProtocol (i : Nat)
  | getNativeAddress (i : Nat)
  | getNativeAddressSize (i : Nat)
  | getAddressByDomain (i : Nat) (memory : NativeAddress) (res : Option (List NativeAddress))

inductive AddressAnswer
  | done
  | succeeded (ok : Bool)
  | ip (ip : Bytes)
  | port (port : UInt16)
  | protocol (protocol : Protocol)
  | native (native : Option Bytes)
  | size (size : Nat)
  deriving DecidableEq

open Function (update)

/-- A call that answers, and leaves the object with its caches filled. -/
def SocketAddress.read (w : Nat → SocketAddress) (i : Nat) {α : Type} (answer : α → AddressAnswer)
    (get : SocketAddress → α × SocketAddress) : (Nat → SocketAddress) × AddressAnswer :=
  let (x, a) := get (w i)
  (update w i a, answer x)

def SocketAddress.step (inet : Inet) (w : Nat → SocketAddress) :
    AddressOp → (Nat → SocketAddress) × AddressAnswer
  | .construct i memory => (update w i (construct memory), .done)
  | .constructText i memory ip port => (update w i (constructText memory ip port), .done)
  | .copyConstruct i j => (update w i (w j), .done)
  | .copyAssign i j => (if i = j then w else update w i (w j), .done)
  | .setAddress i ip port => (update w i ((w i).setAddress ip port), .done)
  | .setNativeAddress i nativeAddr =>
    read w i .succeeded (·.setNativeAddress nativeAddr)
  | .getIp i => read w i .ip (getIp inet)
  | .getPort i => read w i .port (getPort inet)
  | .getProtocol i => read w i .protocol (getProtocol inet)
  | .getNativeAddress i => read w i .native (getNativeAddress inet)
  | .getNativeAddressSize i => read w i .size (getNativeAddressSize inet)
  | .getAddressByDomain i memory res =>
    let (ok, addrList) := getAddressByDomain memory res []
    (Machine.place i addrList w, .succeeded ok)

/-- The calls as they are meant. -/
def Meaning.step (inet : Inet) (w : Nat → Meaning) : AddressOp → (Nat → Meaning) × AddressAnswer
  | .construct i _ => (update w i .nothing, .done)
  | .constructText i _ ip port => (update w i (.text ip port), .done)
  | .copyConstruct i j => (update w i (w j), .done)
  | .copyAssign i j => (update w i (w j), .done)
  | .setAddress i ip port => (update w i (.text ip port), .done)
  | .setNativeAddress i nativeAddr =>
    match Native.ofSockaddr nativeAddr with
    | some n => (update w i (.native n), .succeeded true)
    | none => (w, .succeeded false)
  | .getIp i => (w, .ip ((w i).asText inet).1)
  | .getPort i => (w, .port ((w i).asText inet).2)
  | .getProtocol i => (w, .protocol (((w i).asNative inet).elim .unknown Native.protocol))
  | .getNativeAddress i => (w, .native (((w i).asNative inet).map Native.bytes))
  | .getNativeAddressSize i => (w, .size (((w i).asNative inet).elim 0 (·.protocol.size)))
  | .getAddressByDomain _ _ none => (w, .succeeded false)
  | .getAddressByDomain i _ (some res) =>
    (Machine.place i ((res.filterMap Native.ofSockaddr).map .native) w, .succeeded true)

/-! ## The cache -/

variable {inet : Inet} {a : SocketAddress} {m : Meaning} {n : Native}

/-- The native members hold a native address; behind its end is anything. -/
structure Stores (a : SocketAddress) (n : Native) : Prop where
  protocol : a.protocol = n.protocol
  size : a.nativeAddrSize = n.protocol.size
  bytes : ∀ i (h : i < 28), i < n.protocol.size → a.nativeAddr[i] = n.address[i]

/-- Nothing is in the native members. -/
structure Blank (a : SocketAddress) : Prop where
  protocol : a.protocol = .unknown
  size : a.nativeAddrSize = 0

/-- A cache of what has been set: a member that is said to be there holds what it should. -/
inductive Represents (inet : Inet) (a : SocketAddress) : Meaning → Prop
  | nothing (hasAddr : a.hasAddr = false) (hasNativeAddr : a.hasNativeAddr = false)
      (text : (a.ip, a.port) = ([], 0)) (blank : Blank a) : Represents inet a .nothing
  | text (hasAddr : a.hasAddr = true) (hasNativeAddr : a.hasNativeAddr = false) :
      Represents inet a (.text a.ip a.port)
  | native {n : Native} (hasAddr : a.hasAddr = false) (hasNativeAddr : a.hasNativeAddr = true)
      (stores : Stores a n) : Represents inet a (.native n)
  | both {m : Meaning} {n : Native} (hasAddr : a.hasAddr = true)
      (hasNativeAddr : a.hasNativeAddr = true) (text : m.asText inet = (a.ip, a.port))
      (native : m.asNative inet = some n) (stores : Stores a n) : Represents inet a m

theorem Stores.sinPort (h : Stores a n) : sinPort a.nativeAddr = sinPort n.address := by
  have hsize : 4 ≤ n.protocol.size := by
    have := n.known
    cases hp : n.protocol <;> simp_all [Protocol.size]
  unfold NativeAddress.sinPort
  rw [h.bytes 2 (by omega) (by omega), h.bytes 3 (by omega) (by omega)]

theorem Stores.sinAddr (h : Stores a n) (hp : n.protocol = .ipV4) :
    sinAddr a.nativeAddr = sinAddr n.address := by
  have hsize : n.protocol.size = 16 := by rw [hp]; rfl
  refine Vector.ext fun i hi => ?_
  rw [NativeAddress.sinAddr, NativeAddress.sinAddr, Vector.getElem_ofFn, Vector.getElem_ofFn]
  exact h.bytes _ _ (by omega)

theorem Stores.sin6Addr (h : Stores a n) (hp : n.protocol = .ipV6) :
    sin6Addr a.nativeAddr = sin6Addr n.address := by
  have hsize : n.protocol.size = 28 := by rw [hp]; rfl
  refine Vector.ext fun i hi => ?_
  rw [NativeAddress.sin6Addr, NativeAddress.sin6Addr, Vector.getElem_ofFn, Vector.getElem_ofFn]
  exact h.bytes _ _ (by omega)

/-- What `getNativeAddress` points to is the native address. -/
theorem Stores.toList_take (h : Stores a n) :
    a.nativeAddr.toList.take n.protocol.size = n.bytes := by
  refine List.ext_getElem ?_ fun i hi hi' => ?_
  · simp [Native.bytes]
  · rw [List.length_take] at hi
    simp only [Native.bytes, List.getElem_take, Vector.getElem_toList]
    exact h.bytes i _ (by omega)

theorem translateNativeAddressToAddress_eq (h : Stores a n) :
    a.translateNativeAddressToAddress inet = (n.text inet).elim { a with ip := [], port := 0 }
      fun text => { a with ip := text.1, port := text.2, hasAddr := true } := by
  unfold SocketAddress.translateNativeAddressToAddress Native.text
  dsimp only
  rw [h.protocol, h.sinPort]
  cases hp : n.protocol with
  | unknown => exact absurd hp n.known
  | ipV4 =>
    dsimp only
    rw [h.sinAddr hp]
    cases inet.ntop4 (sinAddr n.address) <;> rfl
  | ipV6 =>
    dsimp only
    rw [h.sin6Addr hp]
    cases inet.ntop6 (sin6Addr n.address) <;> rfl

/-- The text that is made of a native address. If there is none, it is tried again. -/
theorem translateNativeAddressToAddress_spec (hasAddr : a.hasAddr = false)
    (hasNativeAddr : a.hasNativeAddr = true) (h : Stores a n) :
    Represents inet (a.translateNativeAddressToAddress inet) (.native n) ∧
      Meaning.asText inet (.native n) = ((a.translateNativeAddressToAddress inet).ip,
        (a.translateNativeAddressToAddress inet).port) := by
  rw [translateNativeAddressToAddress_eq h]
  have htext : Meaning.asText inet (.native n) = (n.text inet).getD ([], 0) := rfl
  cases hn : n.text inet with
  | none =>
    rw [htext, hn]
    exact ⟨.native hasAddr hasNativeAddr ⟨h.protocol, h.size, h.bytes⟩, rfl⟩
  | some text =>
    rw [hn] at htext
    exact ⟨.both rfl hasNativeAddr htext rfl ⟨h.protocol, h.size, h.bytes⟩, htext⟩

/-- The native members hold this much. -/
def Has (a : SocketAddress) : Option Native → Prop
  | none => Blank a
  | some n => Stores a n

/-- The native address that is made of a text. If there is none, it is tried again. -/
theorem translateAddressToNativeAddress_spec (hasAddr : a.hasAddr = true)
    (hasNativeAddr : a.hasNativeAddr = false) :
    Represents inet (a.translateAddressToNativeAddress inet) (.text a.ip a.port) ∧
      Has (a.translateAddressToNativeAddress inet) (Native.ofText inet a.ip a.port) := by
  unfold SocketAddress.translateAddressToNativeAddress
  dsimp only
  by_cases hcolon : ':'.toUInt8 ∈ a.ip
  · rw [if_pos hcolon]
    have hof : Native.ofText inet a.ip a.port = _ := if_pos hcolon
    cases haddr : inet.pton6 (cstr a.ip) with
    | none =>
      rw [hof, haddr]
      exact ⟨.text hasAddr hasNativeAddr, rfl, rfl⟩
    | some addr =>
      rw [haddr, Option.map_some] at hof
      rw [hof]
      exact ⟨.both hasAddr rfl rfl hof ⟨rfl, rfl, fun _ _ _ => rfl⟩, rfl, rfl, fun _ _ _ => rfl⟩
  rw [if_neg hcolon]
  by_cases hdot : '.'.toUInt8 ∈ a.ip
  · rw [if_pos hdot]
    have hof : Native.ofText inet a.ip a.port = _ := (if_neg hcolon).trans (if_pos hdot)
    cases haddr : inet.pton4 (cstr a.ip) with
    | none =>
      rw [hof, haddr]
      exact ⟨.text hasAddr hasNativeAddr, rfl, rfl⟩
    | some addr =>
      rw [haddr, Option.map_some] at hof
      rw [hof]
      exact ⟨.both hasAddr rfl rfl hof ⟨rfl, rfl, fun _ _ _ => rfl⟩, rfl, rfl, fun _ _ _ => rfl⟩
  · rw [if_neg hdot]
    have hof : Native.ofText inet a.ip a.port = none := (if_neg hcolon).trans (if_neg hdot)
    rw [hof]
    exact ⟨.text hasAddr hasNativeAddr, rfl, rfl⟩

/-! ## One call -/

theorem Represents.needAddr (h : Represents inet a m) :
    Represents inet (a.needAddr inet) m ∧
      m.asText inet = ((a.needAddr inet).ip, (a.needAddr inet).port) := by
  unfold SocketAddress.needAddr
  cases h with
  | nothing hasAddr hasNativeAddr text blank =>
    rw [hasAddr, hasNativeAddr]
    exact ⟨.nothing hasAddr hasNativeAddr text blank, text.symm⟩
  | text hasAddr hasNativeAddr =>
    rw [hasAddr]
    exact ⟨.text hasAddr hasNativeAddr, rfl⟩
  | native hasAddr hasNativeAddr stores =>
    rw [hasAddr, hasNativeAddr]
    exact translateNativeAddressToAddress_spec hasAddr hasNativeAddr stores
  | both hasAddr hasNativeAddr text native stores =>
    rw [hasAddr]
    exact ⟨.both hasAddr hasNativeAddr text native stores, text⟩

theorem Represents.needNativeAddr (h : Represents inet a m) :
    Represents inet (a.needNativeAddr inet) m ∧ Has (a.needNativeAddr inet) (m.asNative inet) := by
  unfold SocketAddress.needNativeAddr
  cases h with
  | nothing hasAddr hasNativeAddr text blank =>
    rw [hasAddr, hasNativeAddr]
    exact ⟨.nothing hasAddr hasNativeAddr text blank, blank⟩
  | text hasAddr hasNativeAddr =>
    rw [hasAddr, hasNativeAddr]
    exact translateAddressToNativeAddress_spec hasAddr hasNativeAddr
  | native hasAddr hasNativeAddr stores =>
    rw [hasNativeAddr]
    exact ⟨.native hasAddr hasNativeAddr stores, stores⟩
  | both hasAddr hasNativeAddr text native stores =>
    rw [hasNativeAddr, native]
    exact ⟨.both hasAddr hasNativeAddr text native stores, stores⟩

theorem Has.getProtocol {o : Option Native} (h : Has a o) :
    a.protocol = o.elim .unknown Native.protocol := by
  cases o with
  | none => exact h.protocol
  | some n => exact h.protocol

theorem Has.getNativeAddressSize {o : Option Native} (h : Has a o) :
    a.nativeAddrSize = o.elim 0 (·.protocol.size) := by
  cases o with
  | none => exact h.size
  | some n => exact h.size

theorem Represents.getNativeAddress (h : Represents inet a m) :
    (a.getNativeAddress inet).1 = (m.asNative inet).map Native.bytes ∧
      Represents inet (a.getNativeAddress inet).2 m := by
  obtain ⟨hnext, hhas⟩ := h.needNativeAddr
  unfold SocketAddress.getNativeAddress
  dsimp only
  cases ho : m.asNative inet with
  | none =>
    rw [ho] at hhas
    rw [hhas.protocol]
    exact ⟨rfl, hnext⟩
  | some n =>
    rw [ho] at hhas
    have hbytes := Stores.toList_take hhas
    rw [Stores.protocol hhas]
    cases hp : n.protocol with
    | unknown => exact absurd hp n.known
    | ipV4 | ipV6 =>
      rw [hp] at hbytes
      exact ⟨congrArg some hbytes, hnext⟩

theorem setNativeAddress_some {p : NativeAddress} (hn : Native.ofSockaddr p = some n)
    (a : SocketAddress) : (a.setNativeAddress p).1 = true ∧
      Represents inet (a.setNativeAddress p).2 (.native n) := by
  unfold Native.ofSockaddr at hn
  unfold SocketAddress.setNativeAddress
  split at hn
  next hp =>
    obtain rfl := Option.some.inj hn
    rw [if_pos hp]
    refine ⟨rfl, .native rfl rfl ⟨rfl, rfl, fun i h hlt => ?_⟩⟩
    rw [NativeAddress.memcpy, Vector.getElem_ofFn]
    exact if_pos hlt
  next hp =>
    rw [if_neg hp]
    split at hn
    next hp =>
      obtain rfl := Option.some.inj hn
      rw [if_pos hp]
      refine ⟨rfl, .native rfl rfl ⟨rfl, rfl, fun i h hlt => ?_⟩⟩
      rw [NativeAddress.memcpy, Vector.getElem_ofFn]
      exact if_pos hlt
    · cases hn

/-- A pointer to an address of another family changes nothing. -/
theorem setNativeAddress_none {p : NativeAddress} (hn : Native.ofSockaddr p = none)
    (a : SocketAddress) : a.setNativeAddress p = (false, a) := by
  unfold Native.ofSockaddr at hn
  split at hn
  · cases hn
  next h4 =>
    split at hn
    · cases hn
    next h6 => rw [SocketAddress.setNativeAddress, if_neg h4, if_neg h6]

theorem represents_construct (memory : NativeAddress) :
    Represents inet (.construct memory) .nothing := .nothing rfl rfl rfl ⟨rfl, rfl⟩

theorem domainLoop_represents (memory : NativeAddress) (res : List NativeAddress)
    {addrList : List SocketAddress} {meant : List Meaning}
    (h : List.Forall₂ (Represents inet) addrList meant) :
    List.Forall₂ (Represents inet) (SocketAddress.domainLoop memory res addrList)
      (meant ++ (res.filterMap Native.ofSockaddr).map .native) := by
  induction res generalizing addrList meant with
  | nil => simpa [SocketAddress.domainLoop] using h
  | cons p res ih =>
    unfold SocketAddress.domainLoop
    dsimp only
    cases hp : Native.ofSockaddr p with
    | none =>
      rw [setNativeAddress_none hp, List.filterMap_cons_none hp]
      exact ih h
    | some n =>
      obtain ⟨hok, hset⟩ : _ ∧ Represents inet _ _ := setNativeAddress_some hp (.construct memory)
      rw [hok, List.filterMap_cons_some hp, List.map_cons, List.append_cons meant]
      exact ih (List.rel_append h (.cons hset .nil))

/-! ## Calls -/

open Machine (Agrees Each)

variable {w : Nat → SocketAddress} {v : Nat → Meaning}

/-- A call that fills a cache of an address, and answers what the address says. -/
theorem agrees_read (h : Each (Represents inet) w v) (i : Nat) {α : Type} {answer : α → AddressAnswer}
    {get : SocketAddress → α × SocketAddress} {x : α}
    (hget : (get (w i)).1 = x ∧ Represents inet (get (w i)).2 (v i)) :
    Agrees (Each (Represents inet)) (SocketAddress.read w i answer get) (v, answer x) := by
  obtain ⟨hx, hnext⟩ := hget
  refine ⟨?_, congrArg answer hx⟩
  have heach := h.update i hnext
  rwa [Function.update_eq_self] at heach

theorem agrees_step (h : Each (Represents inet) w v) (op : AddressOp) :
    Agrees (Each (Represents inet)) (SocketAddress.step inet w op) (Meaning.step inet v op) := by
  cases op with
  | construct i memory => exact ⟨h.update i (represents_construct memory), rfl⟩
  | constructText i memory ip port => exact ⟨h.update i (.text rfl rfl), rfl⟩
  | copyConstruct i j => exact ⟨h.update i (h j), rfl⟩
  | copyAssign i j =>
    refine ⟨?_, rfl⟩
    show Each _ (if i = j then w else Function.update w i (w j)) (Function.update v i (v j))
    split
    next heq =>
      subst heq
      rw [Function.update_eq_self]
      exact h
    next => exact h.update i (h j)
  | setAddress i ip port => exact ⟨h.update i (.text rfl rfl), rfl⟩
  | setNativeAddress i nativeAddr =>
    unfold SocketAddress.step SocketAddress.read Meaning.step
    dsimp only
    cases hn : Native.ofSockaddr nativeAddr with
    | none =>
      rw [setNativeAddress_none hn, Function.update_eq_self]
      exact ⟨h, rfl⟩
    | some n =>
      obtain ⟨hok, hset⟩ := setNativeAddress_some hn (w i)
      rw [hok]
      exact ⟨h.update i hset, rfl⟩
  | getIp i =>
    obtain ⟨hnext, htext⟩ := (h i).needAddr
    exact agrees_read h i ⟨(congrArg Prod.fst htext).symm, hnext⟩
  | getPort i =>
    obtain ⟨hnext, htext⟩ := (h i).needAddr
    exact agrees_read h i ⟨(congrArg Prod.snd htext).symm, hnext⟩
  | getProtocol i =>
    obtain ⟨hnext, hhas⟩ := (h i).needNativeAddr
    exact agrees_read h i ⟨hhas.getProtocol, hnext⟩
  | getNativeAddress i => exact agrees_read h i (h i).getNativeAddress
  | getNativeAddressSize i =>
    obtain ⟨hnext, hhas⟩ := (h i).needNativeAddr
    exact agrees_read h i ⟨hhas.getNativeAddressSize, hnext⟩
  | getAddressByDomain i memory res =>
    cases res with
    | none => exact ⟨h, rfl⟩
    | some res => exact ⟨h.place i (domainLoop_represents memory res .nil), rfl⟩

/-- No sequence of calls, with any addresses and any copies of them, tells the cache from
what has been set. -/
theorem answers_meant (inet : Inet) (memory : Nat → NativeAddress) (ops : List AddressOp) :
    Machine.answers (SocketAddress.step inet) (fun i => .construct (memory i)) ops =
      Machine.answers (Meaning.step inet) (fun _ => .nothing) ops :=
  Machine.answers_eq agrees_step (fun i => represents_construct (memory i)) ops

/-! ## Through the text and back -/

/-- The bytes of a native address that its text does not show. -/
def Native.silent : Protocol → Nat → Bool
  | .ipV4, i => 8 ≤ i
  | .ipV6, i => 4 ≤ i && i < 8 || 24 ≤ i
  | .unknown, _ => false

/-- The native address without what its text does not show. -/
def Native.cleared (n : Native) : Native :=
  { n with address := .ofFn fun i => if Native.silent n.protocol i then 0 else n.address.get i }

/-- The text of a native address is read as the address that it is the text of; a text with
a colon is read as one of IPv6. -/
structure Readable (inet : Inet) (n : Native) (ip : Bytes) : Prop where
  ipV4 : n.protocol = .ipV4 → inet.ntop4 (sinAddr n.address) = some ip ∧
    inet.pton4 (cstr ip) = some (sinAddr n.address) ∧ ':'.toUInt8 ∉ ip ∧ '.'.toUInt8 ∈ ip
  ipV6 : n.protocol = .ipV6 → inet.ntop6 (sin6Addr n.address) = some ip ∧
    inet.pton6 (cstr ip) = some (sin6Addr n.address) ∧ ':'.toUInt8 ∈ ip

/-- The first two bytes say the family. -/
theorem family_eq {p : NativeAddress} {family : Nat} (h : saFamily p = family)
    (hlt : family < 256) : p[0] = UInt8.ofNat family ∧ p[1] = 0 := by
  unfold saFamily at h
  have h0 := p[0].toNat_lt
  constructor
  · apply UInt8.toNat_inj.mp
    rw [UInt8.toNat_ofNat']
    omega
  · apply UInt8.toNat_inj.mp
    rw [UInt8.toNat_zero]
    omega

theorem getElem_put {k : Nat} (a : NativeAddress) (offset : Nat) (field : Vector UInt8 k) {i : Nat}
    (h : i < 28) : (a.put offset field)[i] =
      if h : offset ≤ i ∧ i < offset + k then field[i - offset] else a[i] := by
  rw [NativeAddress.put, Vector.getElem_ofFn]
  rfl

/-- What is stored of an address in memory that was all zero. -/
theorem getElem_sockaddr {p : NativeAddress} {family : Nat} (hp : saFamily p = family)
    (hlt : family < 256) {k : Nat} (offset : Nat) (field : Vector UInt8 k)
    (hfield : ∀ j (hj : j < k) (h : offset + j < 28), field[j] = p[offset + j])
    {i : Nat} (h : i < 28) :
    (((NativeAddress.put .zero offset field).put 0 #v[UInt8.ofNat family, 0]).put 2
      (NativeAddress.htons (sinPort p)))[i] =
        if i < 4 ∨ offset ≤ i ∧ i < offset + k then p[i] else 0 := by
  obtain ⟨h0, h1⟩ := family_eq hp hlt
  rw [getElem_put, getElem_put, getElem_put]
  simp only [NativeAddress.htons_sinPort]
  obtain rfl | rfl | rfl | rfl | hi : i = 0 ∨ i = 1 ∨ i = 2 ∨ i = 3 ∨ 4 ≤ i := by omega
  · exact h0.symm
  · exact h1.symm
  · rfl
  · rfl
  rw [dif_neg (by omega), dif_neg (by omega)]
  by_cases hin : offset ≤ i ∧ i < offset + k
  · rw [dif_pos hin, if_pos (.inr hin), hfield _ (by omega) (by omega)]
    simp only [Nat.add_sub_cancel' hin.1]
  · rw [dif_neg hin, if_neg (by omega)]
    exact Vector.getElem_replicate ..

theorem getElem_cleared (n : Native) {i : Nat} (h : i < 28) :
    n.cleared.address[i] = if Native.silent n.protocol i then 0 else n.address[i] := by
  rw [Native.cleared, Vector.getElem_ofFn]
  rfl

theorem mk_eq_cleared {address : NativeAddress} (h : address = n.cleared.address) :
    (⟨n.protocol, address, n.known⟩ : Native) = n.cleared := by
  subst h
  rfl

theorem sockaddrIn_eq {p : NativeAddress} (hp : saFamily p = 2) {hknown : Protocol.ipV4 ≠ .unknown} :
    sockaddrIn (sinAddr p) (sinPort p) = (Native.mk .ipV4 p hknown).cleared.address := by
  refine Vector.ext fun i hi => ?_
  rw [getElem_cleared]
  refine (getElem_sockaddr hp (by omega) 4 (sinAddr p)
    (fun j hj _ => Vector.getElem_ofFn ..) hi).trans ?_
  by_cases hsilent : Native.silent .ipV4 i
  · rw [if_pos hsilent, if_neg (by simp only [Native.silent, decide_eq_true_eq] at hsilent; omega)]
  · rw [if_neg hsilent, if_pos (by simp only [Native.silent, decide_eq_true_eq] at hsilent; omega)]

theorem sockaddrIn6_eq {p : NativeAddress} (hp : saFamily p = 10)
    {hknown : Protocol.ipV6 ≠ .unknown} :
    sockaddrIn6 (sin6Addr p) (sinPort p) = (Native.mk .ipV6 p hknown).cleared.address := by
  refine Vector.ext fun i hi => ?_
  rw [getElem_cleared]
  refine (getElem_sockaddr hp (by omega) 8 (sin6Addr p)
    (fun j hj _ => Vector.getElem_ofFn ..) hi).trans ?_
  by_cases hsilent : Native.silent .ipV6 i
  · rw [if_pos hsilent, if_neg (by simp only [Native.silent, Bool.or_eq_true, Bool.and_eq_true, decide_eq_true_eq] at hsilent; omega)]
  · rw [if_neg hsilent, if_pos (by simp only [Native.silent, Bool.or_eq_true, Bool.and_eq_true, decide_eq_true_eq] at hsilent; omega)]

/-- The text of a native address says what is not silent in it. -/
theorem ofText_text {p : NativeAddress} {ip : Bytes} (hn : Native.ofSockaddr p = some n)
    (h : Readable inet n ip) :
    n.text inet = some (ip, sinPort p) ∧ Native.ofText inet ip (sinPort p) = some n.cleared := by
  unfold Native.ofSockaddr at hn
  split at hn
  next hp =>
    obtain rfl := Option.some.inj hn
    obtain ⟨htext, haddr, hcolon, hdot⟩ := h.ipV4 rfl
    refine ⟨congrArg (Option.map _) htext, ?_⟩
    rw [Native.ofText, if_neg hcolon, if_pos hdot, haddr, Option.map_some]
    exact congrArg some (mk_eq_cleared (sockaddrIn_eq hp))
  next hp =>
    split at hn
    next hp =>
      obtain rfl := Option.some.inj hn
      obtain ⟨htext, haddr, hcolon⟩ := h.ipV6 rfl
      refine ⟨congrArg (Option.map _) htext, ?_⟩
      rw [Native.ofText, if_pos hcolon, haddr, Option.map_some]
      exact congrArg some (mk_eq_cleared (sockaddrIn6_eq hp))
    · cases hn

theorem getElem?_bytes (n : Native) {i : Nat} (h : i < 28) (hlt : i < n.protocol.size) :
    n.bytes[i]? = some n.address[i] := by
  rw [Native.bytes, List.getElem?_take_of_lt hlt,
    List.getElem?_eq_getElem (by rwa [Vector.length_toList]), Vector.getElem_toList]

theorem length_bytes (n : Native) : n.bytes.length = min n.protocol.size 28 := by
  rw [Native.bytes, List.length_take, Vector.length_toList]

theorem protocol_cleared (n : Native) : n.cleared.protocol = n.protocol := by
  unfold Native.cleared
  rfl

theorem bytes_cleared_iff (n : Native) : n.cleared.bytes = n.bytes ↔
    ∀ i (h : i < 28), i < n.protocol.size → Native.silent n.protocol i → n.address[i] = 0 := by
  have hcleared : ∀ i (h : i < 28), i < n.protocol.size → n.cleared.bytes[i]? =
      some (if Native.silent n.protocol i then 0 else n.address[i]) := by
    intro i h hlt
    rw [getElem?_bytes n.cleared h (by rwa [protocol_cleared]), getElem_cleared]
  constructor
  · intro heq i h hlt hsilent
    have hi := hcleared i h hlt
    rw [heq, getElem?_bytes n h hlt, if_pos hsilent] at hi
    exact Option.some.inj hi
  · intro hall
    refine List.ext_getElem? fun i => ?_
    by_cases hlt : i < 28 ∧ i < n.protocol.size
    · rw [hcleared i hlt.1 hlt.2, getElem?_bytes n hlt.1 hlt.2]
      split
      next hsilent => rw [hall i hlt.1 hlt.2 hsilent]
      next => rfl
    · rw [List.getElem?_eq_none (by rw [length_bytes, protocol_cleared]; omega),
        List.getElem?_eq_none (by rw [length_bytes]; omega)]

/-- What a user does who hands an address on as a text. -/
def handOn (inet : Inet) (a b : SocketAddress) : SocketAddress :=
  b.setAddress (a.getIp inet).1 (a.getPort inet).1

/-- An address that is handed on as a text is the same, but for the bytes that the text does
not show: the flow information and the scope of IPv6, the padding of IPv4. -/
theorem handOn_getNativeAddress {p : NativeAddress} {ip : Bytes} (a b : SocketAddress)
    (hn : Native.ofSockaddr p = some n) (h : Readable inet n ip) :
    ((handOn inet (a.setNativeAddress p).2 b).getProtocol inet).1 = n.protocol ∧
      ((handOn inet (a.setNativeAddress p).2 b).getNativeAddress inet).1 = some n.cleared.bytes ∧
      (((handOn inet (a.setNativeAddress p).2 b).getNativeAddress inet).1 =
          ((a.setNativeAddress p).2.getNativeAddress inet).1 ↔
        ∀ i (h : i < 28), i < n.protocol.size → Native.silent n.protocol i → p[i] = 0) := by
  obtain ⟨htext, hofText⟩ := ofText_text hn h
  obtain ⟨-, hset⟩ : _ ∧ Represents inet _ _ := setNativeAddress_some hn a
  have hread : Meaning.asText inet (.native n) = (ip, sinPort p) := by
    rw [Meaning.asText, htext]
    rfl
  obtain ⟨hip, hport⟩ := Prod.mk.inj (hread.symm.trans hset.needAddr.2)
  have hb : Represents inet (handOn inet (a.setNativeAddress p).2 b) (.text ip (sinPort p)) := by
    rw [hip, hport]
    exact .text rfl rfl
  have hnative := hb.getNativeAddress.1
  have hmeans : Meaning.asNative inet (.text ip (sinPort p)) = some n.cleared := hofText
  rw [hmeans] at hnative
  have haddress : n.address = p := by
    unfold Native.ofSockaddr at hn
    split at hn
    · rw [← Option.some.inj hn]
    · split at hn
      · rw [← Option.some.inj hn]
      · cases hn
  refine ⟨?_, hnative, ?_⟩
  · have hprotocol := hb.needNativeAddr.2.getProtocol
    rw [hmeans, Option.elim_some, protocol_cleared] at hprotocol
    exact hprotocol
  · rw [hnative, hset.getNativeAddress.1, Meaning.asNative, Option.map_some, Option.map_some,
      Option.some_inj, bytes_cleared_iff, haddress]

/-- The address of a local server, with a library that knows only this one. -/
theorem handOn_getNativeAddress_loopback :
    ∃ inet : Inet, inet.ntop4 #v[127, 0, 0, 1] = some (bytes "127.0.0.1") ∧
      ((handOn inet
        ((SocketAddress.construct .zero).setNativeAddress (sockaddrIn #v[127, 0, 0, 1] 80)).2
        (.construct .zero)).getNativeAddress inet).1 =
          some [2, 0, 0, 80, 127, 0, 0, 1, 0, 0, 0, 0, 0, 0, 0, 0] := by
  let inet : Inet :=
    { pton4 := fun ip => if ip = bytes "127.0.0.1" then some #v[127, 0, 0, 1] else none
      pton6 := fun _ => none
      ntop4 := fun addr => if addr = #v[127, 0, 0, 1] then some (bytes "127.0.0.1") else none
      ntop6 := fun _ => none }
  have hreadable : Readable inet ⟨.ipV4, sockaddrIn #v[127, 0, 0, 1] 80, by decide⟩
      (bytes "127.0.0.1") := ⟨fun _ => by decide, fun h => by cases h⟩
  refine ⟨inet, by decide, ?_⟩
  refine (handOn_getNativeAddress _ _ (if_pos (by decide)) hreadable).2.1.trans ?_
  decide

end Brickred
