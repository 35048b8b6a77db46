import Mathlib.Algebra.GroupWithZero.Nat

/-! `IsBlockedIP` of `packages/ssrf/ssrf.go`, with the methods of `net.IP` it calls. -/

namespace IbexHarness.Ssrf.Go

abbrev IP := List UInt8

namespace IP

def v4InV6Prefix : List UInt8 := [0, 0, 0, 0, 0, 0, 0, 0, 0, 0, 0xff, 0xff]

def ipv4 (a b c d : UInt8) : IP := v4InV6Prefix ++ [a, b, c, d]

def ipv4zero : IP := ipv4 0 0 0 0
def ipv6unspecified : IP := List.replicate 16 0
def ipv6loopback : IP := List.replicate 15 0 ++ [1]

def byte (ip : IP) (i : Nat) : UInt8 := ip.getD i 0

def isZeros (p : List UInt8) : Bool := p.all (· == 0)

def to4 (ip : IP) : Option IP :=
  if ip.length = 4 then some ip
  else if ip.length = 16 ∧ isZeros (ip.take 10) ∧ ip.byte 10 = 0xff ∧ ip.byte 11 = 0xff then some (ip.drop 12)
  else none

def equal (ip x : IP) : Bool :=
  if ip.length = x.length then ip == x
  else if ip.length = 4 ∧ x.length = 16 then x.take 12 == v4InV6Prefix && ip == x.drop 12
  else if ip.length = 16 ∧ x.length = 4 then ip.take 12 == v4InV6Prefix && ip.drop 12 == x
  else false

def isPrivate (ip : IP) : Bool :=
  match ip.to4 with
  | some ip4 => ip4.byte 0 == 10 || ip4.byte 0 == 172 && ip4.byte 1 &&& 0xf0 == 16 || ip4.byte 0 == 192 && ip4.byte 1 ==
    168
  | none => ip.length == 16 && ip.byte 0 &&& 0xfe == 0xfc

def isLoopback (ip : IP) : Bool :=
  match ip.to4 with
  | some ip4 => ip4.byte 0 == 127
  | none => ip.equal ipv6loopback

def isLinkLocalUnicast (ip : IP) : Bool :=
  match ip.to4 with
  | some ip4 => ip4.byte 0 == 169 && ip4.byte 1 == 254
  | none => ip.length == 16 && ip.byte 0 == 0xfe && ip.byte 1 &&& 0xc0 == 0x80

def isLinkLocalMulticast (ip : IP) : Bool :=
  match ip.to4 with
  | some ip4 => ip4.byte 0 == 224 && ip4.byte 1 == 0 && ip4.byte 2 == 0
  | none => ip.length == 16 && ip.byte 0 == 0xff && ip.byte 1 &&& 0x0f == 0x02

def isMulticast (ip : IP) : Bool :=
  match ip.to4 with
  | some ip4 => ip4.byte 0 &&& 0xf0 == 0xe0
  | none => ip.length == 16 && ip.byte 0 == 0xff

def isUnspecified (ip : IP) : Bool := ip.equal ipv4zero || ip.equal ipv6unspecified

end IP

def isNetBlocked (ip : IP) : Bool :=
  ip.isPrivate || ip.isLoopback || ip.isLinkLocalUnicast || ip.isLinkLocalMulticast || ip.isMulticast ||
    ip.isUnspecified

def isCGNAT (ip : IP) : Bool := ip.to4.any fun ip4 => ip4.byte 0 == 100 && (64 ≤ ip4.byte 1 && ip4.byte 1 ≤ 127)

def matchIPv4Prefix24 (ip4 : IP) (a b c : UInt8) : Bool := ip4.byte 0 == a && ip4.byte 1 == b && ip4.byte 2 == c

def isDocumentation (ip : IP) : Bool :=
  ip.to4.any fun ip4 => matchIPv4Prefix24 ip4 192 0 2 || matchIPv4Prefix24 ip4 198 51 100 || matchIPv4Prefix24 ip4 203 0
    113

def isBenchmarking (ip : IP) : Bool := ip.to4.any fun ip4 => ip4.byte 0 == 198 && (ip4.byte 1 == 18 || ip4.byte 1 == 19)

def isBroadcast (ip : IP) : Bool :=
  ip.to4.any fun ip4 => ip4.byte 0 == 255 && ip4.byte 1 == 255 && ip4.byte 2 == 255 && ip4.byte 3 == 255

def isSpecialUseIPv4 (ip : IP) : Bool := [isCGNAT, isDocumentation, isBenchmarking, isBroadcast].any (· ip)

def isIPv6Documentation (ip : IP) : Bool :=
  ip.to4.isNone && ip.length == 16 && (ip.byte 0 == 0x20 && ip.byte 1 == 0x01 && ip.byte 2 == 0x0d && ip.byte 3 == 0xb8)

def isBlockedIPv4 (ip : IP) : Bool := isNetBlocked ip || isSpecialUseIPv4 ip

def isBlockedIPv6 (ip : IP) : Bool := isNetBlocked ip || isIPv6Documentation ip

def isBlockedIP (ip : Option IP) : Bool :=
  match ip with
  | none => true
  | some ip =>
    match ip.to4 with
    | some ip4 => isBlockedIPv4 ip4
    | none => isBlockedIPv6 ip

end IbexHarness.Ssrf.Go

/-! `is_blocked_addr` of `services/api/app/services/provider_validate_net.py`, with the tables and properties of
`ipaddress` in Python 3.12.8 and later. -/

namespace IbexHarness.Ssrf

inductive Addr where
  | v4 (ip : Fin (2 ^ 32))
  | v6 (ip : Fin (2 ^ 128))

namespace Py

structure Network where
  address : Nat
  prefixlen : Nat

def Network.contains (width : Nat) (net : Network) (ip : Nat) : Bool :=
  ip / 2 ^ (width - net.prefixlen) == net.address / 2 ^ (width - net.prefixlen)

def network4 (a b c d prefixlen : Nat) : Network := ⟨((a * 256 + b) * 256 + c) * 256 + d, prefixlen⟩

def network6 (a b c prefixlen : Nat) : Network := ⟨((a * 65536 + b) * 65536 + c) * 65536 ^ 5, prefixlen⟩

/-! ## IPv4 -/

def linklocalNetwork4 : Network := network4 169 254 0 0 16
def loopbackNetwork4 : Network := network4 127 0 0 0 8
def multicastNetwork4 : Network := network4 224 0 0 0 4
def reservedNetwork4 : Network := network4 240 0 0 0 4

def privateNetworks4 : List Network :=
  [network4 0 0 0 0 8, network4 10 0 0 0 8, network4 127 0 0 0 8, network4 169 254 0 0 16, network4 172 16 0 0 12,
    network4 192 0 0 0 24, network4 192 0 0 170 31, network4 192 0 2 0 24, network4 192 168 0 0 16,
    network4 198 18 0 0 15, network4 198 51 100 0 24, network4 203 0 113 0 24, network4 240 0 0 0 4,
    network4 255 255 255 255 32]

def privateNetworksExceptions4 : List Network := [network4 192 0 0 9 32, network4 192 0 0 10 32]

def isPrivate4 (ip : Nat) : Bool :=
  privateNetworks4.any (·.contains 32 ip) && privateNetworksExceptions4.all fun net => !net.contains 32 ip

/-! ## IPv6 -/

def linklocalNetwork6 : Network := network6 0xfe80 0 0 10
def multicastNetwork6 : Network := network6 0xff00 0 0 8

/-- The releases differ in `3fff::/20`, the block of RFC 9637. -/
def privateNetworks6 (rfc9637 : Bool) : List Network :=
  [⟨1, 128⟩, ⟨0, 128⟩, ⟨0xffff * 2 ^ 32, 96⟩, network6 0x64 0xff9b 1 48, network6 0x100 0 0 64, network6 0x2001 0 0 23,
    network6 0x2001 0xdb8 0 32, network6 0x2002 0 0 16, network6 0xfc00 0 0 7, network6 0xfe80 0 0 10] ++
    if rfc9637 then [network6 0x3fff 0 0 20] else []

def privateNetworksExceptions6 : List Network :=
  [⟨(network6 0x2001 1 0 128).address + 1, 128⟩, ⟨(network6 0x2001 1 0 128).address + 2, 128⟩, network6 0x2001 3 0 32,
    network6 0x2001 4 0x112 48, network6 0x2001 0x20 0 28, network6 0x2001 0x30 0 28]

def reservedNetworks6 : List Network :=
  [network6 0 0 0 8, network6 0x100 0 0 8, network6 0x200 0 0 7, network6 0x400 0 0 6, network6 0x800 0 0 5,
    network6 0x1000 0 0 4, network6 0x4000 0 0 3, network6 0x6000 0 0 3, network6 0x8000 0 0 3, network6 0xa000 0 0 3,
    network6 0xc000 0 0 3, network6 0xe000 0 0 4, network6 0xf000 0 0 5, network6 0xf800 0 0 6, network6 0xfe00 0 0 9]

def ipv4Mapped (ip : Nat) : Option Nat := if ip / 2 ^ 32 = 0xffff then some (ip % 2 ^ 32) else none

def isPrivate6 (rfc9637 : Bool) (ip : Nat) : Bool :=
  (privateNetworks6 rfc9637).any (·.contains 128 ip) && privateNetworksExceptions6.all fun net => !net.contains 128 ip

/-! ## The filter -/

/-- A property of an address, which an IPv4-mapped one takes from the address in it. -/
def property (p4 p6 : Nat → Bool) : Addr → Bool
  | .v4 ip => p4 ip
  | .v6 ip =>
    match ipv4Mapped ip with
    | some ip4 => p4 ip4
    | none => p6 ip

def isPrivate (rfc9637 : Bool) : Addr → Bool := property isPrivate4 (isPrivate6 rfc9637)
def isLoopback : Addr → Bool := property (loopbackNetwork4.contains 32) (· == 1)
def isLinkLocal : Addr → Bool := property (linklocalNetwork4.contains 32) (linklocalNetwork6.contains 128)
def isReserved : Addr → Bool :=
  property (reservedNetwork4.contains 32) fun ip => reservedNetworks6.any (·.contains 128 ip)
def isMulticast : Addr → Bool := property (multicastNetwork4.contains 32) (multicastNetwork6.contains 128)
def isUnspecified : Addr → Bool := property (· == 0) (· == 0)

def isBlockedAddr (rfc9637 : Bool) (addr : Addr) : Bool :=
  isPrivate rfc9637 addr || isLoopback addr || isLinkLocal addr || isReserved addr || isMulticast addr ||
    isUnspecified addr

end Py

end IbexHarness.Ssrf
