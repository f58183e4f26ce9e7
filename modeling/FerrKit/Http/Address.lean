/-
The address allowlist of the outbound HTTP client (`crates/http/src/lib.rs`,
`is_public_unicast`).
-/
import FerrKit.Lib.Net

namespace FerrKit.Http

open Net

def isPublicUnicastV4 (ip : Ipv4Addr) : Bool :=
  if ip.isUnspecified || ip.isLoopback || ip.isPrivate || ip.isLinkLocal || ip.isMulticast || ip.isBroadcast ||
      ip.isDocumentation then false
  else if ip.o0 == 0 then false
  else if ip.o0 == 100 && (decide (64 ≤ ip.o1) && decide (ip.o1 ≤ 127)) then false
  else if ip.o0 == 192 && ip.o1 == 0 && ip.o2 == 0 then false
  else if ip.o0 == 192 && ip.o1 == 0 && ip.o2 == 2 then false
  else if ip.o0 == 192 && ip.o1 == 88 && ip.o2 == 99 then false
  else if ip.o0 == 198 && (ip.o1 == 18 || ip.o1 == 19) then false
  else if 240 ≤ ip.o0 then false
  else true

/-- The IPv4 address an IPv6 address carries: mapped or compatible, NAT64
(64:ff9b::/96) or 6to4 (2002::/16). -/
def embeddedV4 (ip : Ipv6Addr) : Option Ipv4Addr :=
  match ip.toIpv4 with
  | some v4 => some v4
  | none =>
    if ip.s0 == 0x64 && ip.s1 == 0xff9b && (ip.s2 == 0 && ip.s3 == 0 && ip.s4 == 0 && ip.s5 == 0) then
      some ⟨hi ip.s6, lo ip.s6, hi ip.s7, lo ip.s7⟩
    else if ip.s0 == 0x2002 then some ⟨hi ip.s1, lo ip.s1, hi ip.s2, lo ip.s2⟩
    else none

def isPublicUnicastV6 (ip : Ipv6Addr) : Bool :=
  if ip.isUnspecified || ip.isLoopback || ip.isMulticast then false
  else if ip.s0 &&& 0xfe00 == 0xfc00 || ip.s0 &&& 0xffc0 == 0xfe80 || ip.s0 &&& 0xffc0 == 0xfec0 then false
  else if ip.s0 == 0x2001 && (ip.s1 &&& 0xfe00 == 0 || ip.s1 == 0xdb8) then false
  else if ip.s0 == 0x3fff && ip.s1 &&& 0xf000 == 0 then false
  else if ip.s0 == 0x0100 && ip.s1 == 0 && ip.s2 == 0 && ip.s3 == 0 then false
  else if ip.s0 == 0x64 && ip.s1 == 0xff9b && ip.s2 == 1 then false
  else
    match embeddedV4 ip with
    | some v4 => isPublicUnicastV4 v4
    | none => true

def isPublicUnicast : IpAddr → Bool
  | .v4 ip => isPublicUnicastV4 ip
  | .v6 ip => isPublicUnicastV6 ip

-- the metadata service of the cloud providers, plain and IPv4-mapped
example : isPublicUnicast (.v4 ⟨169, 254, 169, 254⟩) = false ∧
    isPublicUnicast (.v6 ⟨0, 0, 0, 0, 0, 0xffff, 0xa9fe, 0xa9fe⟩) = false := by decide

end FerrKit.Http
