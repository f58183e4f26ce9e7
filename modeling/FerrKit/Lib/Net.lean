/-
Internet addresses and URLs as programs see them through `std::net` and the
`url` crate: the address types, their classifications as the standard
library documents them, and the parts of a parsed URL.
-/

namespace Net

/-- `Ipv4Addr`, by its octets. -/
structure Ipv4Addr where
  o0 : BitVec 8
  o1 : BitVec 8
  o2 : BitVec 8
  o3 : BitVec 8
  deriving DecidableEq

/-- `Ipv6Addr`, by its segments. -/
structure Ipv6Addr where
  s0 : BitVec 16
  s1 : BitVec 16
  s2 : BitVec 16
  s3 : BitVec 16
  s4 : BitVec 16
  s5 : BitVec 16
  s6 : BitVec 16
  s7 : BitVec 16
  deriving DecidableEq

inductive IpAddr
  | v4 (ip : Ipv4Addr)
  | v6 (ip : Ipv6Addr)
  deriving DecidableEq

structure SocketAddr where
  ip : IpAddr
  port : UInt16
  deriving DecidableEq

/-! ## `Ipv4Addr` -/

namespace Ipv4Addr

def isUnspecified (ip : Ipv4Addr) : Bool := ip == ⟨0, 0, 0, 0⟩

/-- 127.0.0.0/8 -/
def isLoopback (ip : Ipv4Addr) : Bool := ip.o0 == 127

/-- 10.0.0.0/8, 172.16.0.0/12 and 192.168.0.0/16 -/
def isPrivate (ip : Ipv4Addr) : Bool :=
  ip.o0 == 10 || (ip.o0 == 172 && decide (16 ≤ ip.o1) && decide (ip.o1 ≤ 31)) || (ip.o0 == 192 && ip.o1 == 168)

/-- 169.254.0.0/16 -/
def isLinkLocal (ip : Ipv4Addr) : Bool := ip.o0 == 169 && ip.o1 == 254

/-- 224.0.0.0/4 -/
def isMulticast (ip : Ipv4Addr) : Bool := decide (224 ≤ ip.o0) && decide (ip.o0 ≤ 239)

def isBroadcast (ip : Ipv4Addr) : Bool := ip == ⟨255, 255, 255, 255⟩

/-- 192.0.2.0/24, 198.51.100.0/24 and 203.0.113.0/24 -/
def isDocumentation (ip : Ipv4Addr) : Bool :=
  (ip.o0 == 192 && ip.o1 == 0 && ip.o2 == 2) || (ip.o0 == 198 && ip.o1 == 51 && ip.o2 == 100) ||
    (ip.o0 == 203 && ip.o1 == 0 && ip.o2 == 113)

end Ipv4Addr

/-! ## `Ipv6Addr` -/

/-- The first octet of a segment. -/
def hi (s : BitVec 16) : BitVec 8 := s.extractLsb' 8 8

/-- The second octet of a segment. -/
def lo (s : BitVec 16) : BitVec 8 := s.extractLsb' 0 8

namespace Ipv6Addr

def isUnspecified (ip : Ipv6Addr) : Bool := ip == ⟨0, 0, 0, 0, 0, 0, 0, 0⟩

def isLoopback (ip : Ipv6Addr) : Bool := ip == ⟨0, 0, 0, 0, 0, 0, 0, 1⟩

/-- ff00::/8 -/
def isMulticast (ip : Ipv6Addr) : Bool := ip.s0 &&& 0xff00 == 0xff00

/-- `to_ipv4`: of an IPv4-compatible (`::a.b.c.d`) or IPv4-mapped
(`::ffff:a.b.c.d`) address. -/
def toIpv4 (ip : Ipv6Addr) : Option Ipv4Addr :=
  if ip.s0 = 0 ∧ ip.s1 = 0 ∧ ip.s2 = 0 ∧ ip.s3 = 0 ∧ ip.s4 = 0 ∧ (ip.s5 = 0 ∨ ip.s5 = 0xffff) then
    some ⟨hi ip.s6, lo ip.s6, hi ip.s7, lo ip.s7⟩
  else none

end Ipv6Addr

/-! ## URLs -/

/-- `url::Host`. -/
inductive Host
  | domain (name : String)
  | ipv4 (ip : Ipv4Addr)
  | ipv6 (ip : Ipv6Addr)
  deriving DecidableEq

/-- A parsed `Url`: its accessors. `port` is `port_or_known_default`. -/
structure Url where
  scheme : String
  host : Option Host
  hostStr : Option String
  port : Option UInt16
  query : Option String := none
  fragment : Option String := none
  asStr : String
  deriving DecidableEq

end Net
