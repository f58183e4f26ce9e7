/-
The IPv6 half of the address check, in terms of address blocks. The code
refuses eleven blocks (`denied`), asks the IPv4 check about an address that
carries an IPv4 address (`embeddedV4_eq_some`), and accepts the rest. So an
IPv4 address gets the same verdict in each of its four wrappings. But the
rest is not all public space: outside 2000::/3 most of IPv6 is reserved, and
what no block names there is accepted, `::ffff:0:127.0.0.1` included.
-/
import FerrKit.Http.Address
import FerrKit.Lib.Cidr

namespace FerrKit.Http

open Net

/-! ## The blocks -/

/-- 2000::/3 -/
def globalUnicast : Block := ⟨⟨0x2000, 0, 0, 0, 0, 0, 0, 0⟩, 3⟩

/-- ::/96 -/
def ipv4Compatible : Block := ⟨⟨0, 0, 0, 0, 0, 0, 0, 0⟩, 96⟩

/-- ::ffff:0:0/96 -/
def ipv4Mapped : Block := ⟨⟨0, 0, 0, 0, 0, 0xffff, 0, 0⟩, 96⟩

/-- 64:ff9b::/96 -/
def nat64 : Block := ⟨⟨0x64, 0xff9b, 0, 0, 0, 0, 0, 0⟩, 96⟩

/-- ff00::/8 -/
def multicast : Block := ⟨⟨0xff00, 0, 0, 0, 0, 0, 0, 0⟩, 8⟩

/-- fc00::/7 -/
def uniqueLocal : Block := ⟨⟨0xfc00, 0, 0, 0, 0, 0, 0, 0⟩, 7⟩

/-- fe80::/10 -/
def linkLocal : Block := ⟨⟨0xfe80, 0, 0, 0, 0, 0, 0, 0⟩, 10⟩

/-- fec0::/10 -/
def siteLocal : Block := ⟨⟨0xfec0, 0, 0, 0, 0, 0, 0, 0⟩, 10⟩

/-- 100::/64 -/
def discard : Block := ⟨⟨0x0100, 0, 0, 0, 0, 0, 0, 0⟩, 64⟩

/-- 64:ff9b:1::/48 -/
def localNat64 : Block := ⟨⟨0x64, 0xff9b, 1, 0, 0, 0, 0, 0⟩, 48⟩

/-- 2001::/23 -/
def ietfAssignments : Block := ⟨⟨0x2001, 0, 0, 0, 0, 0, 0, 0⟩, 23⟩

/-- 2001:db8::/32 -/
def documentation : Block := ⟨⟨0x2001, 0xdb8, 0, 0, 0, 0, 0, 0⟩, 32⟩

/-- 3fff::/20 -/
def documentation2 : Block := ⟨⟨0x3fff, 0, 0, 0, 0, 0, 0, 0⟩, 20⟩

/-- What `is_public_unicast_v6` refuses outright, :: and ::1 first. -/
def denied : List Block :=
  [⟨⟨0, 0, 0, 0, 0, 0, 0, 0⟩, 128⟩, ⟨⟨0, 0, 0, 0, 0, 0, 0, 1⟩, 128⟩, multicast, uniqueLocal, linkLocal, siteLocal,
    ietfAssignments, documentation, documentation2, discard, localNat64]

/-- The address is not in a refused block. -/
def notDenied (ip : Ipv6Addr) : Bool := denied.all fun b => !decide (b.Contains ip)

/-! ## What the tests of the code say -/

section Tests

variable (ip : Ipv6Addr)

@[simp] theorem contains_host (net : Ipv6Addr) : (⟨net, 128⟩ : Block).Contains ip ↔ ip = net := by
  cases ip
  cases net
  simp [Block.Contains, Ipv6Addr.segments, agree_segment]

@[simp] theorem contains_multicast : multicast.Contains ip ↔ ip.isMulticast = true :=
  agree_masked ip.s0 (by decide) (by decide) (by decide) _ _

@[simp] theorem contains_uniqueLocal : uniqueLocal.Contains ip ↔ (ip.s0 &&& 0xfe00 == 0xfc00) = true :=
  agree_masked ip.s0 (by decide) (by decide) (by decide) _ _

@[simp] theorem contains_linkLocal : linkLocal.Contains ip ↔ (ip.s0 &&& 0xffc0 == 0xfe80) = true :=
  agree_masked ip.s0 (by decide) (by decide) (by decide) _ _

@[simp] theorem contains_siteLocal : siteLocal.Contains ip ↔ (ip.s0 &&& 0xffc0 == 0xfec0) = true :=
  agree_masked ip.s0 (by decide) (by decide) (by decide) _ _

@[simp] theorem contains_ietfAssignments : ietfAssignments.Contains ip ↔
    (ip.s0 == 0x2001 && ip.s1 &&& 0xfe00 == 0) = true := by
  rw [Bool.and_eq_true, beq_iff_eq]
  exact and_congr Iff.rfl (agree_masked ip.s1 (by decide) (by decide) (by decide) _ _)

@[simp] theorem contains_documentation : documentation.Contains ip ↔
    (ip.s0 == 0x2001 && ip.s1 == 0xdb8) = true := by
  simp [documentation, Block.Contains, Ipv6Addr.segments, agree_segment]

@[simp] theorem contains_documentation2 : documentation2.Contains ip ↔
    (ip.s0 == 0x3fff && ip.s1 &&& 0xf000 == 0) = true := by
  rw [Bool.and_eq_true, beq_iff_eq]
  exact and_congr Iff.rfl (agree_masked ip.s1 (by decide) (by decide) (by decide) _ _)

@[simp] theorem contains_discard : discard.Contains ip ↔
    (ip.s0 == 0x0100 && ip.s1 == 0 && ip.s2 == 0 && ip.s3 == 0) = true := by
  simp [discard, Block.Contains, Ipv6Addr.segments, agree_segment, and_assoc]

@[simp] theorem contains_localNat64 : localNat64.Contains ip ↔ (ip.s0 == 0x64 && ip.s1 == 0xff9b && ip.s2 == 1) = true := by
  simp [localNat64, Block.Contains, Ipv6Addr.segments, agree_segment, and_assoc]

end Tests

/-- The check is a list of refused blocks and a question about IPv4. -/
theorem isPublicUnicastV6_eq (ip : Ipv6Addr) :
    isPublicUnicastV6 ip = (notDenied ip && (embeddedV4 ip).all isPublicUnicastV4) := by
  simp only [notDenied, denied, List.all_cons, List.all_nil, contains_host, contains_multicast, contains_uniqueLocal,
    contains_linkLocal, contains_siteLocal, contains_ietfAssignments, contains_documentation, contains_documentation2,
    contains_discard, contains_localNat64, Bool.decide_eq_true]
  unfold isPublicUnicastV6
  cases embeddedV4 ip <;>
  · simp only [Ipv6Addr.isUnspecified, Ipv6Addr.isLoopback, Bool.if_false_left, Bool.decide_eq_true,
      Bool.and_or_distrib_left, Bool.not_or, Bool.and_assoc, Bool.true_and]
    rfl

/-! ## Embedded IPv4 addresses -/

/-- `64:ff9b::a.b.c.d`. -/
def toNat64 (v4 : Ipv4Addr) : Ipv6Addr := ⟨0x64, 0xff9b, 0, 0, 0, 0, seg v4.o0 v4.o1, seg v4.o2 v4.o3⟩

/-- The forms of an IPv4 address in IPv6 that the code knows. -/
inductive Embeds (v4 : Ipv4Addr) : Ipv6Addr → Prop
  | mapped : Embeds v4 v4.toIpv6Mapped
  | compatible : Embeds v4 v4.toIpv6Compatible
  | nat64 : Embeds v4 (toNat64 v4)
  /-- 6to4: any address of 2002:aabb:ccdd::/48. -/
  | sixToFour (s3 s4 s5 s6 s7) : Embeds v4 ⟨0x2002, seg v4.o0 v4.o1, seg v4.o2 v4.o3, s3, s4, s5, s6, s7⟩

/-- A /96 block is one wrapping of all IPv4 addresses. -/
theorem contains_wrapping (n0 n1 n2 n3 n4 n5 : BitVec 16) (ip : Ipv6Addr) :
    (⟨⟨n0, n1, n2, n3, n4, n5, 0, 0⟩, 96⟩ : Block).Contains ip ↔
      ∃ v4 : Ipv4Addr, ip = ⟨n0, n1, n2, n3, n4, n5, seg v4.o0 v4.o1, seg v4.o2 v4.o3⟩ := by
  obtain ⟨s0, s1, s2, s3, s4, s5, s6, s7⟩ := ip
  simp only [Block.Contains, Ipv6Addr.segments, agree_segment, Nat.reduceLeDiff, Nat.reduceSub, agree_zero, and_true]
  constructor
  · rintro ⟨rfl, rfl, rfl, rfl, rfl, rfl⟩
    exact ⟨⟨hi s6, lo s6, hi s7, lo s7⟩, by simp⟩
  · rintro ⟨v4, hv4⟩
    cases hv4
    simp

theorem contains_compatible (ip : Ipv6Addr) : ipv4Compatible.Contains ip ↔ ∃ v4 : Ipv4Addr, ip = v4.toIpv6Compatible :=
  contains_wrapping 0 0 0 0 0 0 ip

theorem contains_mapped (ip : Ipv6Addr) : ipv4Mapped.Contains ip ↔ ∃ v4 : Ipv4Addr, ip = v4.toIpv6Mapped :=
  contains_wrapping 0 0 0 0 0 0xffff ip

theorem contains_nat64 (ip : Ipv6Addr) : nat64.Contains ip ↔ ∃ v4, ip = toNat64 v4 :=
  contains_wrapping 0x64 0xff9b 0 0 0 0 ip

theorem embeddedV4_of_embeds {v4 : Ipv4Addr} {ip : Ipv6Addr} (h : Embeds v4 ip) : embeddedV4 ip = some v4 := by
  cases h with
  | mapped => simp [embeddedV4, Ipv6Addr.toIpv4, Ipv4Addr.toIpv6Mapped]
  | compatible => simp [embeddedV4, Ipv6Addr.toIpv4, Ipv4Addr.toIpv6Compatible]
  | nat64 => simp [embeddedV4, Ipv6Addr.toIpv4, toNat64]
  | sixToFour => simp [embeddedV4, Ipv6Addr.toIpv4]

theorem embeds_of_embeddedV4 {v4 : Ipv4Addr} {ip : Ipv6Addr} (h : embeddedV4 ip = some v4) : Embeds v4 ip := by
  obtain ⟨s0, s1, s2, s3, s4, s5, s6, s7⟩ := ip
  simp only [embeddedV4, Ipv6Addr.toIpv4] at h
  split at h
  · next v hv =>
    split at hv
    · next hz =>
      obtain ⟨rfl, rfl, rfl, rfl, rfl, rfl | rfl⟩ := hz
      · cases hv
        cases h
        simpa [Ipv4Addr.toIpv6Compatible] using (Embeds.compatible : Embeds ⟨hi s6, lo s6, hi s7, lo s7⟩ _)
      · cases hv
        cases h
        simpa [Ipv4Addr.toIpv6Mapped] using (Embeds.mapped : Embeds ⟨hi s6, lo s6, hi s7, lo s7⟩ _)
    · cases hv
  · split at h
    · next hn =>
      simp only [Bool.and_eq_true, beq_iff_eq] at hn
      obtain ⟨⟨rfl, rfl⟩, ⟨⟨rfl, rfl⟩, rfl⟩, rfl⟩ := hn
      cases h
      simpa [toNat64] using (Embeds.nat64 : Embeds ⟨hi s6, lo s6, hi s7, lo s7⟩ _)
    · split at h
      · next hs =>
        obtain rfl := beq_iff_eq.1 hs
        cases h
        simpa using (Embeds.sixToFour s3 s4 s5 s6 s7 : Embeds ⟨hi s1, lo s1, hi s2, lo s2⟩ _)
      · cases h

theorem embeddedV4_eq_some {v4 : Ipv4Addr} {ip : Ipv6Addr} : embeddedV4 ip = some v4 ↔ Embeds v4 ip :=
  ⟨embeds_of_embeddedV4, embeddedV4_of_embeds⟩

theorem octet_zero_of_seg {a b : BitVec 8} (h : seg a b = 0) : a = 0 := by
  rw [← hi_seg a b, h]
  rfl

/-- Of the wrappings only :: and ::1 are in a refused block. -/
theorem first_octet_of_denied {v4 : Ipv4Addr} {ip : Ipv6Addr} (h : Embeds v4 ip) (hden : notDenied ip = false) :
    v4.o0 = 0 := by
  cases h with
  | mapped => simp [notDenied, denied, Ipv4Addr.toIpv6Mapped, Ipv6Addr.isMulticast] at hden
  | compatible =>
    simp [notDenied, denied, Ipv4Addr.toIpv6Compatible, Ipv6Addr.isMulticast] at hden
    by_cases hseg : seg v4.o0 v4.o1 = 0
    · exact octet_zero_of_seg hseg
    · exact octet_zero_of_seg (hden (.inl hseg)).1
  | nat64 => simp [notDenied, denied, toNat64, Ipv6Addr.isMulticast] at hden
  | sixToFour => simp [notDenied, denied, Ipv6Addr.isMulticast] at hden

theorem isPublicUnicastV4_zero {v4 : Ipv4Addr} (h : v4.o0 = 0) : isPublicUnicastV4 v4 = false := by
  simp [isPublicUnicastV4, h]

/-- **Wrapping an IPv4 address in IPv6 never changes the verdict**, in any of
the forms the code takes apart. -/
theorem wrapped_verdict {v4 : Ipv4Addr} {ip : Ipv6Addr} (h : Embeds v4 ip) :
    isPublicUnicast (.v6 ip) = isPublicUnicastV4 v4 := by
  show isPublicUnicastV6 ip = isPublicUnicastV4 v4
  rw [isPublicUnicastV6_eq, embeddedV4_of_embeds h, Option.all_some]
  cases hden : notDenied ip with
  | true => rw [Bool.true_and]
  | false => rw [isPublicUnicastV4_zero (first_octet_of_denied h hden), Bool.and_false]

/-- The metadata service behind 6to4. -/
theorem wrapped_verdict_metadata :
    isPublicUnicast (.v6 ⟨0x2002, 0xa9fe, 0xa9fe, 1, 2, 3, 4, 5⟩) = isPublicUnicastV4 ⟨169, 254, 169, 254⟩ := by
  have h : Embeds ⟨169, 254, 169, 254⟩ ⟨0x2002, 0xa9fe, 0xa9fe, 1, 2, 3, 4, 5⟩ := Embeds.sixToFour 1 2 3 4 5
  exact wrapped_verdict h

/-! ## What is accepted -/

/-- The address carries a public IPv4 address, other than by 6to4 (which is in
2000::/3). -/
def EmbedsPublic (ip : Ipv6Addr) : Prop :=
  ∃ v4 : Ipv4Addr, (ip = v4.toIpv6Mapped ∨ ip = v4.toIpv6Compatible ∨ ip = toNat64 v4) ∧ isPublicUnicastV4 v4 = true

/-- 2000::/3, the three /96 wrappings, and the refused blocks outside these. -/
def settled : List Block :=
  [globalUnicast, ipv4Mapped, ipv4Compatible, nat64, multicast, uniqueLocal, linkLocal, siteLocal, discard, localNat64]

theorem settled_of_denied {ip : Ipv6Addr} {b : Block} (hb : b ∈ denied) (h : b.Contains ip) :
    ∃ b' ∈ settled, b'.Contains ip := by
  have hwide : ∀ b ∈ denied, ∃ b' ∈ settled, b'.len ≤ b.len ∧ b'.Contains b.net := by decide
  obtain ⟨b', hb', hlen, hnet⟩ := hwide b hb
  exact ⟨b', hb', h.widen hlen hnet⟩

theorem settled_of_embeds {v4 : Ipv4Addr} {ip : Ipv6Addr} (h : Embeds v4 ip) : ∃ b ∈ settled, b.Contains ip := by
  cases h with
  | mapped => exact ⟨ipv4Mapped, by simp [settled], (contains_mapped _).2 ⟨v4, rfl⟩⟩
  | compatible => exact ⟨ipv4Compatible, by simp [settled], (contains_compatible _).2 ⟨v4, rfl⟩⟩
  | nat64 => exact ⟨nat64, by simp [settled], (contains_nat64 _).2 ⟨v4, rfl⟩⟩
  | sixToFour => exact ⟨globalUnicast, by simp [settled], by simp [globalUnicast, Block.Contains, Ipv6Addr.segments, agree]⟩

theorem accepted_of_unsettled {ip : Ipv6Addr} (h : ¬ ∃ b ∈ settled, b.Contains ip) : isPublicUnicastV6 ip = true := by
  have hembed : embeddedV4 ip = none := by
    cases hv4 : embeddedV4 ip with
    | none => rfl
    | some v4 => exact absurd (settled_of_embeds (embeds_of_embeddedV4 hv4)) h
  have hden : notDenied ip = true := by
    refine List.all_eq_true.2 fun b hb => ?_
    simpa using fun hc => h (settled_of_denied hb hc)
  rw [isPublicUnicastV6_eq, hembed, hden]
  rfl

theorem refused_of_denied {ip : Ipv6Addr} {b : Block} (hb : b ∈ denied) (h : b.Contains ip) :
    isPublicUnicastV6 ip = false := by
  have hden : notDenied ip = false := List.all_eq_false.2 ⟨b, hb, by simpa using h⟩
  rw [isPublicUnicastV6_eq, hden, Bool.false_and]

theorem public_of_accepted {v4 : Ipv4Addr} {ip : Ipv6Addr} (h : Embeds v4 ip) (hacc : isPublicUnicastV6 ip = true) :
    isPublicUnicastV4 v4 = true := by
  rw [isPublicUnicastV6_eq, embeddedV4_of_embeds h, Bool.and_eq_true] at hacc
  exact hacc.2

theorem public_of_settled {ip : Ipv6Addr} (h : ∃ b ∈ settled, b.Contains ip) (hacc : isPublicUnicastV6 ip = true) :
    globalUnicast.Contains ip ∨ EmbedsPublic ip := by
  obtain ⟨b, hb, hc⟩ := h
  have hsplit : ∀ b ∈ settled, b = globalUnicast ∨ b = ipv4Mapped ∨ b = ipv4Compatible ∨ b = nat64 ∨ b ∈ denied := by
    decide
  obtain rfl | rfl | rfl | rfl | hden := hsplit b hb
  · exact .inl hc
  · obtain ⟨v4, rfl⟩ := (contains_mapped ip).1 hc
    exact .inr ⟨v4, .inl rfl, public_of_accepted .mapped hacc⟩
  · obtain ⟨v4, rfl⟩ := (contains_compatible ip).1 hc
    exact .inr ⟨v4, .inr (.inl rfl), public_of_accepted .compatible hacc⟩
  · obtain ⟨v4, rfl⟩ := (contains_nat64 ip).1 hc
    exact .inr ⟨v4, .inr (.inr rfl), public_of_accepted .nat64 hacc⟩
  · rw [refused_of_denied hden hc] at hacc
    cases hacc

theorem settled_of_public {ip : Ipv6Addr} (h : globalUnicast.Contains ip ∨ EmbedsPublic ip) :
    ∃ b ∈ settled, b.Contains ip := by
  obtain hg | ⟨v4, rfl | rfl | rfl, -⟩ := h
  · exact ⟨globalUnicast, by simp [settled], hg⟩
  · exact settled_of_embeds .mapped
  · exact settled_of_embeds .compatible
  · exact settled_of_embeds .nat64

/-- **When an accepted address is public.** That an accepted IPv6 address is in
2000::/3 or carries a public IPv4 address holds for the addresses of the
settled blocks and for no others: everything else is accepted. -/
theorem accepted_public_iff (ip : Ipv6Addr) :
    (isPublicUnicast (.v6 ip) = true → globalUnicast.Contains ip ∨ EmbedsPublic ip) ↔ ∃ b ∈ settled, b.Contains ip := by
  constructor
  · intro h
    by_cases hin : ∃ b ∈ settled, b.Contains ip
    · exact hin
    · exact settled_of_public (h (accepted_of_unsettled hin))
  · intro h hacc
    exact public_of_settled h hacc

/-- `::ffff:0:127.0.0.1`, the IPv4-translated form of the loopback address, is
accepted. -/
theorem translated_loopback_accepted : ∃ ip : Ipv6Addr, ip = ⟨0, 0, 0, 0, 0xffff, 0, 0x7f00, 1⟩ ∧
    isPublicUnicast (.v6 ip) = true ∧ ¬ (globalUnicast.Contains ip ∨ EmbedsPublic ip) := by
  refine ⟨_, rfl, by decide, fun h => ?_⟩
  exact absurd (settled_of_public h) (by decide)

end FerrKit.Http
