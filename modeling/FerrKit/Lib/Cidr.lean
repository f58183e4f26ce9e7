/-
Blocks of IPv6 addresses in CIDR form: the addresses that share their first
`len` bits with `net`. Programs write membership as tests of whole segments
and, where a block ends inside a segment, as a mask (`agree_masked`).
-/
import FerrKit.Lib.Net

namespace Net

/-! ## Octets and segments -/

/-- Two octets as a segment. -/
def seg (a b : BitVec 8) : BitVec 16 := a ++ b

@[simp] theorem hi_seg (a b : BitVec 8) : hi (seg a b) = a := BitVec.extractLsb'_append_eq_left

@[simp] theorem lo_seg (a b : BitVec 8) : lo (seg a b) = b := BitVec.extractLsb'_append_eq_right

@[simp] theorem seg_hi_lo (s : BitVec 16) : seg (hi s) (lo s) = s := by
  refine BitVec.eq_of_getLsbD_eq fun i hi => ?_
  show (Net.hi s ++ lo s : BitVec (8 + 8)).getLsbD i = s.getLsbD i
  rw [BitVec.getLsbD_append, Net.hi, lo, BitVec.getLsbD_extractLsb', BitVec.getLsbD_extractLsb']
  by_cases h8 : i < 8
  · simp [h8]
  · simp [h8, show i - 8 < 8 by omega, show 8 + (i - 8) = i by omega]

/-- `to_ipv6_compatible`: `::a.b.c.d`. -/
def Ipv4Addr.toIpv6Compatible (ip : Ipv4Addr) : Ipv6Addr := ⟨0, 0, 0, 0, 0, 0, seg ip.o0 ip.o1, seg ip.o2 ip.o3⟩

/-- `to_ipv6_mapped`: `::ffff:a.b.c.d`. -/
def Ipv4Addr.toIpv6Mapped (ip : Ipv4Addr) : Ipv6Addr := ⟨0, 0, 0, 0, 0, 0xffff, seg ip.o0 ip.o1, seg ip.o2 ip.o3⟩

/-! ## Blocks -/

def Ipv6Addr.segments (ip : Ipv6Addr) : List (BitVec 16) := [ip.s0, ip.s1, ip.s2, ip.s3, ip.s4, ip.s5, ip.s6, ip.s7]

/-- The first `n` bits are the same. -/
def agree (n : Nat) : List (BitVec 16) → List (BitVec 16) → Prop
  | s :: ss, t :: ts => if n < 16 then s >>> (16 - n) = t >>> (16 - n) else s = t ∧ agree (n - 16) ss ts
  | _, _ => True

/-- `net/len`. -/
structure Block where
  net : Ipv6Addr
  len : Nat
  deriving DecidableEq

def Block.Contains (b : Block) (ip : Ipv6Addr) : Prop := agree b.len ip.segments b.net.segments

instance agree.decidable : ∀ n ss ts, Decidable (agree n ss ts)
  | n, s :: ss, t :: ts =>
    haveI : Decidable (agree (n - 16) ss ts) := agree.decidable (n - 16) ss ts
    inferInstanceAs (Decidable (if n < 16 then s >>> (16 - n) = t >>> (16 - n) else s = t ∧ agree (n - 16) ss ts))
  | _, [], _ => isTrue trivial
  | _, _ :: _, [] => isTrue trivial

instance (b : Block) (ip : Ipv6Addr) : Decidable (b.Contains ip) :=
  inferInstanceAs (Decidable (agree b.len ip.segments b.net.segments))

@[simp] theorem agree_zero (ss ts : List (BitVec 16)) : agree 0 ss ts := by
  unfold agree
  split
  · next s _ t _ =>
    rw [if_pos (by decide), BitVec.ushiftRight_eq_zero (Nat.le_refl 16), BitVec.ushiftRight_eq_zero (Nat.le_refl 16)]
  · trivial

theorem agree_segment {n : Nat} (h : 16 ≤ n) (s t : BitVec 16) (ss ts : List (BitVec 16)) :
    agree n (s :: ss) (t :: ts) ↔ s = t ∧ agree (n - 16) ss ts := by
  rw [agree, if_neg (by omega)]

theorem agree_trans : ∀ {n : Nat} {rs ss ts : List (BitVec 16)}, rs.length = ss.length → agree n rs ss → agree n ss ts →
    agree n rs ts
  | _, [], [], _, _, _, _ => trivial
  | _, r :: rs, s :: ss, [], _, _, _ => trivial
  | n, r :: rs, s :: ss, t :: ts, hl, h₁, h₂ => by
    unfold agree at h₁ h₂ ⊢
    split at h₁
    · next hn =>
      rw [if_pos hn] at h₂ ⊢
      exact h₁.trans h₂
    · next hn =>
      rw [if_neg hn] at h₂ ⊢
      exact ⟨h₁.1.trans h₂.1, agree_trans (by simpa using hl) h₁.2 h₂.2⟩

/-- Fewer bits. -/
theorem agree_mono : ∀ {m n : Nat} {ss ts : List (BitVec 16)}, n ≤ m → agree m ss ts → agree n ss ts
  | _, _, [], _, _, _ => trivial
  | _, _, _ :: _, [], _, _ => trivial
  | m, n, s :: ss, t :: ts, hle, h => by
    unfold agree at h ⊢
    by_cases hm : m < 16
    · rw [if_pos hm] at h
      rw [if_pos (by omega), show 16 - n = 16 - m + (m - n) by omega, BitVec.shiftRight_add,
        BitVec.shiftRight_add, h]
    · rw [if_neg hm] at h
      by_cases hn : n < 16
      · rw [if_pos hn, h.1]
      · rw [if_neg hn]
        exact ⟨h.1, agree_mono (by omega) h.2⟩

/-- A block inside a wider one. -/
theorem Block.Contains.widen {b b' : Block} {ip : Ipv6Addr} (h : b.Contains ip) (hlen : b'.len ≤ b.len)
    (hnet : b'.Contains b.net) : b'.Contains ip := by
  have hshort : agree b'.len ip.segments b.net.segments := agree_mono hlen h
  exact agree_trans (by rfl) hshort hnet

theorem masked_eq_iff (s t : BitVec 16) (k : Nat) :
    s &&& (BitVec.allOnes 16 <<< k) = t &&& (BitVec.allOnes 16 <<< k) ↔ s >>> k = t >>> k := by
  rw [← BitVec.shiftLeft_ushiftRight, ← BitVec.shiftLeft_ushiftRight]
  constructor
  · intro h
    refine BitVec.eq_of_getLsbD_eq fun i hi => ?_
    have hbit := congrArg (fun x : BitVec 16 => x.getLsbD (k + i)) h
    simp only [BitVec.getLsbD_shiftLeft, BitVec.getLsbD_ushiftRight] at hbit ⊢
    by_cases hk : k + i < 16
    · simpa [hk, show ¬ k + i < k by omega] using hbit
    · rw [BitVec.getLsbD_of_ge s _ (by omega), BitVec.getLsbD_of_ge t _ (by omega)]
  · intro h
    rw [h]

/-- A test of the first bits of a segment. -/
theorem agree_masked {n : Nat} {m v : BitVec 16} (s : BitVec 16) (hn : n < 16)
    (hm : m = BitVec.allOnes 16 <<< (16 - n)) (hv : v &&& m = v) (ss ts : List (BitVec 16)) :
    agree n (s :: ss) (v :: ts) ↔ (s &&& m == v) = true := by
  have h := masked_eq_iff s v (16 - n)
  rw [← hm, hv] at h
  rw [agree, if_pos hn, beq_iff_eq, h]

end Net
