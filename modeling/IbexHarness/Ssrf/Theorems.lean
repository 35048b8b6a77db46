import IbexHarness.Lib.Bytes
import IbexHarness.Lib.Region
import IbexHarness.Ssrf.Filters
import Mathlib.Tactic.Tauto

/-! The checks of bytes as blocks of numbers. -/

namespace IbexHarness.Ssrf

section

open Lib Go Go.IP Bytes

theorem byte_beq (x c : UInt8) : (x == c) = decide (x.toNat = c.toNat) := by
  rw [beq_eq_decide, decide_eq_decide, UInt8.toNat_inj]

theorem forall_uint8 {p : UInt8 → Prop} (h : ∀ i : Fin 256, p (.ofFin i)) (x : UInt8) : p x := h x.toFin

theorem and_f0 (x : UInt8) : (x &&& 0xf0).toNat = x.toNat / 16 * 16 :=
  forall_uint8 (p := fun x => (x &&& 0xf0).toNat = x.toNat / 16 * 16) (by decide +kernel) x

theorem and_fe (x : UInt8) : (x &&& 0xfe).toNat = x.toNat / 2 * 2 :=
  forall_uint8 (p := fun x => (x &&& 0xfe).toNat = x.toNat / 2 * 2) (by decide +kernel) x

theorem and_c0 (x : UInt8) : (x &&& 0xc0).toNat = x.toNat / 64 * 64 :=
  forall_uint8 (p := fun x => (x &&& 0xc0).toNat = x.toNat / 64 * 64) (by decide +kernel) x

def ip4 (a b c d : Nat) : Nat := ((a * 256 + b) * 256 + c) * 256 + d

def proxyBlocked4 : Region :=
  .any [.block 24 (ip4 10 0 0 0), .block 20 (ip4 172 16 0 0), .block 16 (ip4 192 168 0 0), .block 24 (ip4 127 0 0 0),
    .block 16 (ip4 169 254 0 0), .block 28 (ip4 224 0 0 0), .single 0, .block 22 (ip4 100 64 0 0),
    .block 8 (ip4 192 0 2 0), .block 8 (ip4 198 51 100 0), .block 8 (ip4 203 0 113 0), .block 17 (ip4 198 18 0 0),
    .single (ip4 255 255 255 255)]

variable (a b c d : UInt8)

theorem to4_four : to4 [a, b, c, d] = some [a, b, c, d] := rfl

theorem isUnspecified_four :
    isUnspecified [a, b, c, d] = decide (a.toNat = 0 ∧ b.toNat = 0 ∧ c.toNat = 0 ∧ d.toNat = 0) := by
  have hzero : equal [a, b, c, d] ipv4zero = ([a, b, c, d] == [0, 0, 0, 0]) := rfl
  have hno : equal [a, b, c, d] ipv6unspecified = false := rfl
  rw [isUnspecified, hzero, hno, Bool.or_false, beq_eq_decide, decide_eq_decide]
  simp [← UInt8.toNat_inj]

theorem isNetBlocked_four : isNetBlocked [a, b, c, d] = true ↔
    a.toNat = 10 ∨ a.toNat = 172 ∧ b.toNat / 16 = 1 ∨ a.toNat = 192 ∧ b.toNat = 168 ∨ a.toNat = 127 ∨
      a.toNat = 169 ∧ b.toNat = 254 ∨ a.toNat / 16 = 14 ∨
      a.toNat = 0 ∧ b.toNat = 0 ∧ c.toNat = 0 ∧ d.toNat = 0 := by
  simp only [isNetBlocked, isPrivate, isLoopback, isLinkLocalUnicast, isLinkLocalMulticast, isMulticast,
    isUnspecified_four, to4_four, byte, List.getD_cons_zero, List.getD_cons_succ, byte_beq, and_f0, Bool.or_eq_true,
    Bool.and_eq_true, decide_eq_true_eq, UInt8.reduceToNat]
  constructor
  · rintro (((((((h | h) | h) | h) | h) | h) | h) | h) <;> omega
  · rintro (h | h | h | h | h | h | h) <;> omega

theorem isSpecialUseIPv4_four : isSpecialUseIPv4 [a, b, c, d] = true ↔
    a.toNat = 100 ∧ 64 ≤ b.toNat ∧ b.toNat ≤ 127 ∨ a.toNat = 192 ∧ b.toNat = 0 ∧ c.toNat = 2 ∨
      a.toNat = 198 ∧ b.toNat = 51 ∧ c.toNat = 100 ∨ a.toNat = 203 ∧ b.toNat = 0 ∧ c.toNat = 113 ∨
      a.toNat = 198 ∧ (b.toNat = 18 ∨ b.toNat = 19) ∨
      a.toNat = 255 ∧ b.toNat = 255 ∧ c.toNat = 255 ∧ d.toNat = 255 := by
  simp only [isSpecialUseIPv4, isCGNAT, isDocumentation, isBenchmarking, isBroadcast, matchIPv4Prefix24, to4_four,
    List.any_cons, List.any_nil, Option.any_some, byte, List.getD_cons_zero, List.getD_cons_succ, byte_beq,
    UInt8.le_iff_toNat_le, Bool.or_eq_true, Bool.and_eq_true, decide_eq_true_eq, Bool.false_eq_true, or_false, or_assoc,
    and_assoc, UInt8.reduceToNat]

theorem isBlockedIPv4_four : isBlockedIPv4 [a, b, c, d] = proxyBlocked4.mem (ip4 a.toNat b.toNat c.toNat d.toNat) := by
  have ha := a.toNat_lt
  have hb := b.toNat_lt
  have hc := c.toNat_lt
  have hd := d.toNat_lt
  rw [isBlockedIPv4, Bool.eq_iff_iff, Bool.or_eq_true, isNetBlocked_four, isSpecialUseIPv4_four, proxyBlocked4,
    Region.mem_any]
  simp only [List.any_cons, List.any_nil, Region.mem_block, Region.mem_single, ip4, Bool.or_eq_true, decide_eq_true_eq,
    Bool.false_eq_true, or_false, or_assoc]
  -- the blocks come in the order of the checks
  refine or_congr ?_ <| or_congr ?_ <| or_congr ?_ <| or_congr ?_ <| or_congr ?_ <| or_congr ?_ <| or_congr ?_ <|
    or_congr ?_ <| or_congr ?_ <| or_congr ?_ <| or_congr ?_ <| or_congr ?_ ?_
  all_goals omega

theorem isBlockedIPv4_ofNat (n : Nat) : isBlockedIPv4 (Bytes.ofNat 4 n) = proxyBlocked4.mem (n % 2 ^ 32) := by
  have hbytes : ofNat 4 n =
      [UInt8.ofNat (n / 256 / 256 / 256), UInt8.ofNat (n / 256 / 256), UInt8.ofNat (n / 256), UInt8.ofNat n] := rfl
  rw [hbytes, isBlockedIPv4_four]
  simp only [ip4, UInt8.toNat_ofNat']
  congr 1
  omega

theorem isZeros_ofNat {width m : Nat} (hm : m < 256 ^ width) : isZeros (Bytes.ofNat width m) = true ↔ m = 0 := by
  have hzero : ofNat width 0 = List.replicate width 0 := by
    clear hm
    induction width with
    | zero => rfl
    | succ width ih => rw [ofNat, Nat.zero_div, ih, List.replicate_succ']; rfl
  rw [← ofNat_inj hm (Nat.pow_pos (by decide)), hzero, List.eq_replicate_iff]
  simp [isZeros]

theorem byte_ofNat {i : Nat} (hi : i < 16) (n : Nat) : byte (Bytes.ofNat 16 n) i = UInt8.ofNat (n / 256 ^ (15 - i)) :=
  getD_ofNat hi n

theorem to4_ofNat {n : Nat} (hn : n < 2 ^ 128) :
    to4 (Bytes.ofNat 16 n) = if n / 2 ^ 32 = 0xffff then some (Bytes.ofNat 4 n) else none := by
  have hfront : (ofNat 16 n).take 10 = ofNat 10 (n / 256 ^ 6) := take_ofNat 10 6 n
  have hback : (ofNat 16 n).drop 12 = ofNat 4 n := drop_ofNat 12 4 n
  have hmapped : (isZeros ((ofNat 16 n).take 10) = true ∧ byte (ofNat 16 n) 10 = 0xff ∧
      byte (ofNat 16 n) 11 = 0xff) ↔ n / 2 ^ 32 = 0xffff := by
    rw [hfront, isZeros_ofNat (by omega), byte_ofNat (by decide), byte_ofNat (by decide), ← UInt8.toNat_inj,
      ← UInt8.toNat_inj, UInt8.toNat_ofNat', UInt8.toNat_ofNat']
    simp only [UInt8.reduceToNat]
    omega
  simp only [to4, length_ofNat, hmapped, hback]
  simp

theorem regroup {P L K M X Z D : Prop} : (((((P ∨ L) ∨ K) ∨ M ∧ X) ∨ M) ∨ Z) ∨ D ↔ P ∨ L ∨ K ∨ M ∨ Z ∨ D := by
  tauto

def proxyBlocked6 : Region :=
  .any [.block 121 (0xfc00 * 2 ^ 112), .single 1, .block 118 (0xfe80 * 2 ^ 112), .block 120 (0xff00 * 2 ^ 112),
    .single 0, .block 96 (0x20010db8 * 2 ^ 96)]

theorem isBlockedIPv6_ofNat {n : Nat} (hn : n < 2 ^ 128) (hmapped : n / 2 ^ 32 ≠ 0xffff) :
    isBlockedIPv6 (Bytes.ofNat 16 n) = proxyBlocked6.mem n := by
  have hto4 : to4 (ofNat 16 n) = none := by rw [to4_ofNat hn, if_neg hmapped]
  have hequal (m : Nat) (hm : m < 2 ^ 128) : equal (ofNat 16 n) (ofNat 16 m) = decide (n = m) := by
    rw [equal, if_pos (by simp), beq_eq_decide, decide_eq_decide]
    exact ofNat_inj hn hm
  have hloop : ipv6loopback = ofNat 16 1 := by decide
  have hzero6 : ipv6unspecified = ofNat 16 0 := by decide
  have hzero4 : ipv4zero = ofNat 16 (0xffff * 2 ^ 32) := by decide
  have h₀ : byte (ofNat 16 n) 0 = UInt8.ofNat (n / 256 ^ 15) := byte_ofNat (by decide) n
  have h₁ : byte (ofNat 16 n) 1 = UInt8.ofNat (n / 256 ^ 14) := byte_ofNat (by decide) n
  have h₂ : byte (ofNat 16 n) 2 = UInt8.ofNat (n / 256 ^ 13) := byte_ofNat (by decide) n
  have h₃ : byte (ofNat 16 n) 3 = UInt8.ofNat (n / 256 ^ 12) := byte_ofNat (by decide) n
  have hpriv : n / 256 ^ 15 % 2 ^ 8 / 2 * 2 = 252 ↔ n / 2 ^ 121 = 0xfc00 * 2 ^ 112 / 2 ^ 121 := by omega
  have hlink : n / 256 ^ 15 % 2 ^ 8 = 254 ∧ n / 256 ^ 14 % 2 ^ 8 / 64 * 64 = 128 ↔
      n / 2 ^ 118 = 0xfe80 * 2 ^ 112 / 2 ^ 118 := by omega
  have hmulti : n / 256 ^ 15 % 2 ^ 8 = 255 ↔ n / 2 ^ 120 = 0xff00 * 2 ^ 112 / 2 ^ 120 := by omega
  have hdoc : ((n / 256 ^ 15 % 2 ^ 8 = 32 ∧ n / 256 ^ 14 % 2 ^ 8 = 1) ∧ n / 256 ^ 13 % 2 ^ 8 = 13) ∧
      n / 256 ^ 12 % 2 ^ 8 = 184 ↔ n / 2 ^ 96 = 0x20010db8 * 2 ^ 96 / 2 ^ 96 := by omega
  have hne : n ≠ 0xffff * 2 ^ 32 := by omega
  rw [Bool.eq_iff_iff, proxyBlocked6, Region.mem_any]
  simp only [isBlockedIPv6, isNetBlocked, isPrivate, isLoopback, isLinkLocalUnicast, isLinkLocalMulticast, isMulticast,
    isUnspecified, isIPv6Documentation, hto4, hloop, hzero4, hzero6, hequal _ (by decide : 1 < 2 ^ 128),
    hequal _ (by decide : 0 < 2 ^ 128), hequal _ (by decide : 0xffff * 2 ^ 32 < 2 ^ 128), length_ofNat, h₀, h₁, h₂,
    h₃, byte_beq, and_fe, and_c0, UInt8.toNat_ofNat', Option.isNone_none, beq_self_eq_true,
    Bool.true_and, Bool.or_eq_true, Bool.and_eq_true, decide_eq_true_eq, UInt8.reduceToNat, List.any_cons, List.any_nil,
    Region.mem_block, Region.mem_single, Bool.false_eq_true, or_false, hne, false_or]
  rw [← hpriv, ← hlink, ← hmulti, ← hdoc]
  exact regroup

end

/-! Each filter is a region of addresses, and two regions are compared at the ends of their ranges. -/

open Lib

/-! ## The API's filter as a region -/

namespace Py

def Network.region (width : Nat) (net : Network) : Region := .block (width - net.prefixlen) net.address

theorem Network.contains_eq (width : Nat) (net : Network) (n : Nat) :
    net.contains width n = (net.region width).mem n := by
  rw [region, Region.mem_block, contains, beq_eq_decide]

def regions (width : Nat) (nets : List Network) : Region := .any (nets.map (Network.region width))

theorem any_contains (width : Nat) (nets : List Network) (n : Nat) :
    nets.any (·.contains width n) = (regions width nets).mem n := by
  rw [regions, Region.mem_any, List.any_map]
  exact congrArg nets.any (funext fun net => net.contains_eq width n)

theorem any_and_all_not (width : Nat) (nets exceptions : List Network) (n : Nat) :
    (nets.any (·.contains width n) && exceptions.all fun net => !net.contains width n) =
      (Region.diff (regions width nets) (regions width exceptions)).mem n := by
  rw [Region.mem_diff, ← any_contains, ← any_contains, List.not_any_eq_all_not]

def apiBlocked4 : Region :=
  .any [.diff (regions 32 privateNetworks4) (regions 32 privateNetworksExceptions4), loopbackNetwork4.region 32,
    linklocalNetwork4.region 32, reservedNetwork4.region 32, multicastNetwork4.region 32, .single 0]

def apiBlocked6 (rfc9637 : Bool) : Region :=
  .any [.diff (regions 128 (privateNetworks6 rfc9637)) (regions 128 privateNetworksExceptions6), .single 1,
    linklocalNetwork6.region 128, regions 128 reservedNetworks6, multicastNetwork6.region 128, .single 0]

theorem property_v6 (p q : Nat → Bool) (ip : Fin (2 ^ 128)) :
    property p q (.v6 ip) = if ip.val / 2 ^ 32 = 0xffff then p (ip.val % 2 ^ 32) else q ip := by
  simp only [property, ipv4Mapped]
  split_ifs <;> rfl

theorem property_or (p q p' q' : Nat → Bool) (a : Addr) :
    (property p q a || property p' q' a) = property (fun n => p n || p' n) (fun n => q n || q' n) a := by
  cases a with
  | v4 ip => rfl
  | v6 ip =>
    simp only [property_v6]
    split_ifs <;> rfl

theorem isBlockedAddr_eq (rfc9637 : Bool) :
    isBlockedAddr rfc9637 = property apiBlocked4.mem (apiBlocked6 rfc9637).mem := by
  funext a
  simp only [isBlockedAddr, isPrivate, isLoopback, isLinkLocal, isReserved, isMulticast, isUnspecified, property_or]
  congr 1
  · funext n
    rw [isPrivate4, any_and_all_not, apiBlocked4, Region.mem_any]
    simp only [Network.contains_eq, List.any_cons, List.any_nil, Region.mem_single, beq_eq_decide, Bool.or_assoc,
      Bool.or_false]
  · funext n
    rw [isPrivate6, any_and_all_not, any_contains, apiBlocked6, Region.mem_any]
    simp only [Network.contains_eq, List.any_cons, List.any_nil, Region.mem_single, beq_eq_decide, Bool.or_assoc,
      Bool.or_false]

end Py

/-! ## The difference -/

/-- An address as a `net.IP`; Go has an IPv4 address in four bytes and in sixteen. -/
def Addr.netIP (long : Bool) : Addr → Go.IP
  | .v4 ip => if long then Go.IP.v4InV6Prefix ++ Bytes.ofNat 4 ip else Bytes.ofNat 4 ip
  | .v6 ip => Bytes.ofNat 16 ip

/-- `0.0.0.0/8` without `0.0.0.0`, `100.64.0.0/10`, `192.0.0.0/24` without `.9` and `.10`, and `240.0.0.0/4` without the
broadcast address. -/
def differing4 : Region :=
  .any [.range 1 (ip4 1 0 0 0), .block 22 (ip4 100 64 0 0),
    .diff (.block 8 (ip4 192 0 0 0)) (.range (ip4 192 0 0 9) (ip4 192 0 0 11)),
    .range (ip4 240 0 0 0) (ip4 255 255 255 255)]

/-- `::/3` without `::` and `::1`, `2001::/23` without the global blocks in it, `2002::/16`, the reserved blocks from
`4000::/3` to `f800::/6`, `fe00::/9`, and the block of RFC 9637. -/
def differing6 (rfc9637 : Bool) : Region :=
  .any ([.range 2 (2 ^ 125), .diff (.block 105 (0x2001 * 2 ^ 112)) (Py.regions 128 Py.privateNetworksExceptions6),
    .block 112 (0x2002 * 2 ^ 112), .range (2 ^ 126) (0xfc00 * 2 ^ 112), .block 119 (0xfe00 * 2 ^ 112)] ++
    if rfc9637 then [.block 108 (0x3fff * 2 ^ 112)] else [])

/-- The addresses one filter rejects and the other does not. -/
def differ (rfc9637 : Bool) : Addr → Bool := Py.property differing4.mem (differing6 rfc9637).mem

theorem bne_region (r s : Region) (n : Nat) : (r.mem n != s.mem n) = (Region.union (.diff r s) (.diff s r)).mem n := by
  simp only [Region.mem_union, Region.mem_diff]
  cases r.mem n <;> cases s.mem n <;> rfl

theorem differing4_eq {n : Nat} (hn : n < 2 ^ 32) :
    (proxyBlocked4.mem n != Py.apiBlocked4.mem n) = differing4.mem n := by
  rw [bne_region]
  exact Region.mem_eq_of_ends (by decide +kernel) hn

theorem differing6_eq (rfc9637 : Bool) {n : Nat} (hn : n < 2 ^ 128) :
    (proxyBlocked6.mem n != (Py.apiBlocked6 rfc9637).mem n) = (differing6 rfc9637).mem n := by
  rw [bne_region]
  cases rfc9637 <;> exact Region.mem_eq_of_ends (by decide +kernel) hn

theorem isBlockedIP_eq (long : Bool) (a : Addr) :
    Go.isBlockedIP (some (a.netIP long)) = Py.property proxyBlocked4.mem proxyBlocked6.mem a := by
  cases a with
  | v4 ip =>
    -- `To4` finds the four bytes in either form
    have hto4 : Go.IP.to4 (Addr.netIP long (.v4 ip)) = some (Bytes.ofNat 4 ip) := by cases long <;> rfl
    rw [Go.isBlockedIP, hto4]
    exact (isBlockedIPv4_ofNat ip).trans (by rw [Nat.mod_eq_of_lt ip.isLt, Py.property])
  | v6 ip =>
    have hto4 := to4_ofNat ip.isLt
    rw [Go.isBlockedIP, Addr.netIP, Py.property_v6]
    split_ifs at hto4 ⊢ with hmapped
    · rw [hto4]
      exact isBlockedIPv4_ofNat ip
    · rw [hto4]
      exact isBlockedIPv6_ofNat ip.isLt hmapped

theorem bne_eq_differ (rfc9637 long : Bool) (a : Addr) :
    (Go.isBlockedIP (some (a.netIP long)) != Py.isBlockedAddr rfc9637 a) = differ rfc9637 a := by
  rw [isBlockedIP_eq, Py.isBlockedAddr_eq]
  cases a with
  | v4 ip => exact differing4_eq ip.isLt
  | v6 ip =>
    simp only [differ, Py.property_v6]
    split_ifs
    · exact differing4_eq (Nat.mod_lt _ (by decide))
    · exact differing6_eq rfc9637 ip.isLt

/-- The two filters agree on an address exactly outside of the differing blocks. -/
theorem filters_agree_iff (rfc9637 long : Bool) (a : Addr) :
    Go.isBlockedIP (some (a.netIP long)) = Py.isBlockedAddr rfc9637 a ↔ differ rfc9637 a = false := by
  rw [← bne_eq_differ rfc9637 long a, bne_eq_false_iff_eq]

/-- `100.64.0.1` and `::ffff:100.64.0.1` only the proxy rejects; `0.0.0.1`, `192.0.0.1`, `240.0.0.1`, `2002::` and
`::ffff:240.0.0.1` only the API. -/
theorem filters_differ :
    (∀ a ∈ [Addr.v4 1681915905, .v6 0xffff64400001],
      Go.isBlockedIP (some (a.netIP false)) = true ∧ ∀ rfc9637, Py.isBlockedAddr rfc9637 a = false) ∧
    ∀ a ∈ [Addr.v4 1, .v4 3221225473, .v4 4026531841, .v6 0x20020000000000000000000000000000, .v6 0xfffff0000001],
      Go.isBlockedIP (some (a.netIP false)) = false ∧ ∀ rfc9637, Py.isBlockedAddr rfc9637 a = true := by
  decide +kernel

end IbexHarness.Ssrf
