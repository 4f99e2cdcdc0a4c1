import Brickred.Lib.Transition
import Brickred.Text.StringUtil

/-!
# Socket addresses (`socket_address.h`, `socket_address.cc`)

An address is set as a text with a port or as a native address, and each is made from the
other when it is asked for first. The translations of the C library are parameters.

The native addresses are laid out as Linux does it on a little-endian machine. Of a
`sockaddr_in` only the first 16 of the bytes are there.
-/

namespace Brickred

/-- `union native_address_tag`, or what a pointer to a `sockaddr` points to. -/
abbrev NativeAddress := Vector UInt8 28

/-- `inet_pton` and `inet_ntop` for both families. -/
structure Inet where
  pton4 : Bytes → Option (Vector UInt8 4)
  pton6 : Bytes → Option (Vector UInt8 16)
  ntop4 : Vector UInt8 4 → Option Bytes
  ntop6 : Vector UInt8 16 → Option Bytes

/-- `SocketAddress::Protocol` -/
inductive Protocol
  | unknown
  | ipV4
  | ipV6
  deriving DecidableEq

namespace NativeAddress

/-- `sa_family` -/
def saFamily (a : NativeAddress) : Nat := a[0].toNat + 256 * a[1].toNat

/-- `ntohs(sin_port)`; `sin6_port` is at the same place. -/
def sinPort (a : NativeAddress) : UInt16 := .ofNat (256 * a[2].toNat + a[3].toNat)

def sinAddr (a : NativeAddress) : Vector UInt8 4 := .ofFn fun i => a[4 + i.val]

def sin6Addr (a : NativeAddress) : Vector UInt8 16 := .ofFn fun i => a[8 + i.val]

/-- `htons` -/
def htons (port : UInt16) : Vector UInt8 2 := #v[.ofNat (port.toNat / 256), .ofNat port.toNat]

theorem htons_sinPort (p : NativeAddress) :
    htons (sinPort p) = #v[p[2], p[3]] := by
  have hport : (sinPort p).toNat = 256 * p[2].toNat + p[3].toNat := by
    have h2 := p[2].toNat_lt
    have h3 := p[3].toNat_lt
    rw [sinPort, UInt16.toNat_ofNat']
    omega
  have hhigh : UInt8.ofNat ((256 * p[2].toNat + p[3].toNat) / 256) = p[2] := by
    rw [Nat.mul_add_div (by omega), Nat.div_eq_of_lt p[3].toNat_lt, Nat.add_zero,
      UInt8.ofNat_toNat]
  have hlow : UInt8.ofNat (256 * p[2].toNat + p[3].toNat) = p[3] := by
    apply UInt8.toNat_inj.mp
    have h3 := p[3].toNat_lt
    rw [UInt8.toNat_ofNat']
    omega
  rw [htons, hport, hhigh, hlow]

/-- Store a field of the union. -/
def put {k : Nat} (a : NativeAddress) (offset : Nat) (field : Vector UInt8 k) : NativeAddress :=
  .ofFn fun i => if h : offset ≤ i ∧ i < offset + k then field[i.val - offset] else a[i]

/-- `memset` to 0. -/
def zero : NativeAddress := .replicate 28 0

/-- A `sockaddr_in` in memory that was all zero. -/
def sockaddrIn (sinAddr : Vector UInt8 4) (port : UInt16) : NativeAddress :=
  ((put zero 4 sinAddr).put 0 #v[2, 0]).put 2 (htons port)

/-- A `sockaddr_in6` in memory that was all zero. -/
def sockaddrIn6 (sin6Addr : Vector UInt8 16) (port : UInt16) : NativeAddress :=
  ((put zero 8 sin6Addr).put 0 #v[10, 0]).put 2 (htons port)

/-- `memcpy` of the first bytes. -/
def memcpy (dest src : NativeAddress) (size : Nat) : NativeAddress :=
  .ofFn fun i => if i < size then src[i] else dest[i]

end NativeAddress

open NativeAddress (saFamily sinPort sinAddr sin6Addr sockaddrIn sockaddrIn6)

/-- `SocketAddress`, with the members of its `Impl`. -/
structure SocketAddress where
  hasAddr : Bool
  ip : Bytes
  port : UInt16
  hasNativeAddr : Bool
  protocol : Protocol
  nativeAddr : NativeAddress
  nativeAddrSize : Nat

namespace SocketAddress

/-! ## The class -/

/-- `SocketAddress()`; nothing initializes the native address. -/
def construct (memory : NativeAddress) : SocketAddress where
  hasAddr := false
  ip := []
  port := 0
  hasNativeAddr := false
  protocol := .unknown
  nativeAddr := memory
  nativeAddrSize := 0

/-- `SocketAddress(ip, port)` -/
def constructText (memory : NativeAddress) (ip : Bytes) (port : UInt16) : SocketAddress :=
  { construct memory with hasAddr := true, ip, port }

def translateNativeAddressToAddress (inet : Inet) (a : SocketAddress) : SocketAddress :=
  let a := { a with ip := [], port := 0 }
  match a.protocol with
  | .ipV4 =>
    match inet.ntop4 (sinAddr a.nativeAddr) with
    | none => a
    | some ip => { a with ip, port := sinPort a.nativeAddr, hasAddr := true }
  | .ipV6 =>
    match inet.ntop6 (sin6Addr a.nativeAddr) with
    | none => a
    | some ip => { a with ip, port := sinPort a.nativeAddr, hasAddr := true }
  | .unknown => a

def translateAddressToNativeAddress (inet : Inet) (a : SocketAddress) : SocketAddress :=
  let a := { a with nativeAddr := .zero, protocol := .unknown, nativeAddrSize := 0 }
  if ':'.toUInt8 ∈ a.ip then
    -- try ipv6 convert
    match inet.pton6 (cstr a.ip) with
    | none => a
    | some addr =>
      { a with
        nativeAddr := sockaddrIn6 addr a.port
        protocol := .ipV6
        nativeAddrSize := 28
        hasNativeAddr := true }
  else if '.'.toUInt8 ∈ a.ip then
    -- try ipv4 convert
    match inet.pton4 (cstr a.ip) with
    | none => a
    | some addr =>
      { a with
        nativeAddr := sockaddrIn addr a.port
        protocol := .ipV4
        nativeAddrSize := 16
        hasNativeAddr := true }
  else
    a

/-- What `getIp` and `getPort` do first. -/
def needAddr (inet : Inet) (a : SocketAddress) : SocketAddress :=
  if !a.hasAddr && a.hasNativeAddr then a.translateNativeAddressToAddress inet else a

/-- What `getProtocol`, `getNativeAddress` and `getNativeAddressSize` do first. -/
def needNativeAddr (inet : Inet) (a : SocketAddress) : SocketAddress :=
  if !a.hasNativeAddr && a.hasAddr then a.translateAddressToNativeAddress inet else a

def getIp (inet : Inet) (a : SocketAddress) : Bytes × SocketAddress :=
  let a := a.needAddr inet
  (a.ip, a)

def getPort (inet : Inet) (a : SocketAddress) : UInt16 × SocketAddress :=
  let a := a.needAddr inet
  (a.port, a)

def getProtocol (inet : Inet) (a : SocketAddress) : Protocol × SocketAddress :=
  let a := a.needNativeAddr inet
  (a.protocol, a)

def setAddress (a : SocketAddress) (ip : Bytes) (port : UInt16) : SocketAddress :=
  { a with ip, port, hasAddr := true, hasNativeAddr := false }

/-- The bytes of the member of the union that the pointer is to, `none` for `nullptr`. -/
def getNativeAddress (inet : Inet) (a : SocketAddress) : Option Bytes × SocketAddress :=
  let a := a.needNativeAddr inet
  match a.protocol with
  | .ipV4 => (some (a.nativeAddr.toList.take 16), a)
  | .ipV6 => (some (a.nativeAddr.toList.take 28), a)
  | .unknown => (none, a)

def getNativeAddressSize (inet : Inet) (a : SocketAddress) : Nat × SocketAddress :=
  let a := a.needNativeAddr inet
  (a.nativeAddrSize, a)

def setNativeAddress (a : SocketAddress) (nativeAddr : NativeAddress) : Bool × SocketAddress :=
  if saFamily nativeAddr = 2 then
    (true,
      { a with
        protocol := .ipV4
        nativeAddrSize := 16
        nativeAddr := a.nativeAddr.memcpy nativeAddr 16
        hasAddr := false
        hasNativeAddr := true })
  else if saFamily nativeAddr = 10 then
    (true,
      { a with
        protocol := .ipV6
        nativeAddrSize := 28
        nativeAddr := a.nativeAddr.memcpy nativeAddr 28
        hasAddr := false
        hasNativeAddr := true })
  else
    (false, a)

/-- The loop of `getAddressByDomain` over what the resolver has found; `memory` is where
the local address is made. -/
def domainLoop (memory : NativeAddress) : List NativeAddress → List SocketAddress → List SocketAddress
  | [], addrList => addrList
  | p :: res, addrList =>
    let (ok, addr) := (construct memory).setNativeAddress p
    domainLoop memory res (if ok then addrList ++ [addr] else addrList)

/-- `getAddressByDomain`, from what `getaddrinfo` has found. -/
def getAddressByDomain (memory : NativeAddress) (res : Option (List NativeAddress))
    (addrList : List SocketAddress) : Bool × List SocketAddress :=
  match res with
  | none => (false, addrList)
  | some res => (true, domainLoop memory res addrList)

end SocketAddress

end Brickred
