import Libnetwork.Support.ClassicBpf
import Libnetwork.Support.U32Match

/-!
# Matching the VXLAN network id of a packet

The overlay driver writes the test "this UDP datagram carries VXLAN network
id `vni`" twice: as a classic BPF program for the `bpf` match of `iptables`
(`vniMatchBPF`) and as an expression of the `u32` match (`matchVXLANWithU32`).
Both take the IPv4 header length from the low four bits of the packet's
first byte, skip the header to the UDP header, and read the word twelve bytes
into it, whose top 24 bits are the network id of the VXLAN header.

Both tests agree with that reading on every packet: they match exactly when
the packet holds the word and its top 24 bits are `vni`.  A packet too short
for the word matches neither.
-/

namespace Libnetwork.Overlay

open ClassicBpf

/-! ## The two tests -/

/-- `vniMatchBPF`: the raw program, `none` for the panic on a program that
does not assemble. -/
def vniMatchBPF (vni : UInt32) : Option (List RawInstruction) :=
  match Assemble [.LoadMemShift 0, .LoadIndirect 12 4, .ALUOpConstant .And 0xffffff00,
      .JumpIf .JumpEqual (vni <<< 8) 1 0, .RetConstant 0, .RetConstant 0xffffffff] with
  | .ok prog => some prog
  | .error _ => none

/-- `matchVXLANWithU32`: the arguments of the `iptables` rule.  Go's `int`
has 64 bits, so `int(vni) << 8` is `vni * 256`. -/
def matchVXLANWithU32 (port vni : UInt32) : List String :=
  let dport := toString port.toNat
  let vniMatch := "0>>22&0x3C@12&0xFFFFFF00=" ++ toString (vni.toNat <<< 8)
  ["-p", "udp", "--dport", dport, "-m", "u32", "--u32", vniMatch]

/-! ## What they test -/

/-- Where the UDP header starts: four times the header length field of the
IPv4 header. -/
def udpOffset (pkt : List UInt8) : ℕ :=
  4 * ((pkt.getD 0 0).toNat % 16)

/-- The 24-bit network id of the VXLAN header, twelve bytes into the UDP
header, when the packet holds the whole VXLAN header (which ends with the
byte after the id, sixteen bytes into the UDP header). -/
def vxlanVni (pkt : List UInt8) : Option ℕ :=
  if udpOffset pkt + 16 ≤ pkt.length then
    some (BigEndian.ofBytes ((pkt.drop (udpOffset pkt + 12)).take 3))
  else none

/-! ## The word at the network id -/

/-- The word at `pos`, as both machines load it. -/
def wordAt (pkt : List UInt8) (pos : ℕ) : UInt32 :=
  UInt32.ofNat (BigEndian.ofBytes ((pkt.drop pos).take 4))

theorem and_high_mask {n : ℕ} (hn : n < 2 ^ 32) : n &&& 0xFFFFFF00 = n >>> 8 <<< 8 := by
  apply Nat.eq_of_testBit_eq
  intro i
  have hmask : (0xFFFFFF00 : ℕ) = (2 ^ 24 - 1) <<< 8 := by decide
  rw [Nat.testBit_and, hmask, Nat.testBit_shiftLeft, Nat.testBit_shiftLeft,
    Nat.testBit_two_pow_sub_one, Nat.testBit_shiftRight]
  by_cases h8 : 8 ≤ i
  · have hi : 8 + (i - 8) = i := by omega
    rw [hi]
    by_cases h32 : i < 32
    · have hlt : i - 8 < 24 := by omega
      simp [h8, hlt]
    · have hbit : n.testBit i = false :=
        Nat.testBit_lt_two_pow (Nat.lt_of_lt_of_le hn (Nat.pow_le_pow_right (by decide) (by omega)))
      simp [hbit]
  · simp [h8]

theorem wordAt_and_eq_iff {pkt : List UInt8} {pos : ℕ} (hpos : pos + 4 ≤ pkt.length)
    {vni : UInt32} (hvni : vni.toNat < 2 ^ 24) :
    wordAt pkt pos &&& (0xffffff00 : UInt32) = vni <<< 8 ↔
      BigEndian.ofBytes ((pkt.drop pos).take 3) = vni.toNat := by
  obtain ⟨b, hb⟩ : ∃ b, (pkt.drop pos).take 4 = (pkt.drop pos).take 3 ++ [b] := by
    have hlen : 3 < (pkt.drop pos).length := by
      rw [List.length_drop]
      omega
    exact ⟨(pkt.drop pos)[3], by rw [List.take_add_one, List.getElem?_eq_getElem hlen]; rfl⟩
  have hid := BigEndian.ofBytes_lt ((pkt.drop pos).take 3)
  have hlen3 : ((pkt.drop pos).take 3).length = 3 := by
    rw [List.length_take, List.length_drop]
    omega
  rw [hlen3] at hid
  have hbyte : BigEndian.ofBytes [b] = b.toNat := by simp [BigEndian.ofBytes]
  have hb8 := b.toNat_lt
  have hword : (wordAt pkt pos).toNat = 256 * BigEndian.ofBytes ((pkt.drop pos).take 3) + b.toNat := by
    rw [wordAt, UInt32.toNat_ofNat', hb, BigEndian.ofBytes_append, hbyte, List.length_singleton,
      Nat.pow_one]
    omega
  have hvni8 : (vni <<< 8).toNat = vni.toNat * 256 := by
    rw [UInt32.toNat_shiftLeft, Nat.shiftLeft_eq]
    simp only [UInt32.reduceToNat, Nat.reduceMod, Nat.reducePow]
    omega
  have hmask : (0xffffff00 : UInt32).toNat = 0xFFFFFF00 := rfl
  have hlt : 256 * BigEndian.ofBytes ((pkt.drop pos).take 3) + b.toNat < 2 ^ 32 := by omega
  rw [← UInt32.toNat_inj, UInt32.toNat_and, hvni8, hword, hmask, and_high_mask hlt,
    Nat.shiftLeft_eq, Nat.shiftRight_eq_div_pow]
  omega

/-! ## The header length -/

set_option maxRecDepth 4000 in
theorem and_sixty : ∀ a < 256, ∀ r < 4, (4 * a + r) &&& 60 = 4 * (a % 16) := by
  decide

theorem loadMemShift_zero {b : UInt8} {t : List UInt8} :
    loadMemShift (b :: t) 0 = some ((b &&& 0x0f).toUInt32 * 4) ∧
      ((b &&& 0x0f).toUInt32 * 4).toNat = udpOffset (b :: t) := by
  refine ⟨by simp [loadMemShift], ?_⟩
  have h15 : (b &&& 0x0f).toNat = b.toNat % 16 := by
    rw [UInt8.toNat_and]
    exact Nat.and_two_pow_sub_one_eq_mod b.toNat 4
  rw [UInt32.toNat_mul, UInt8.toNat_toUInt32, h15]
  simp only [udpOffset, List.getD_cons_zero]
  have : b.toNat % 16 < 16 := Nat.mod_lt _ (by decide)
  simp only [UInt32.reduceToNat]
  omega

theorem wordAt_zero_header {b : UInt8} {t : List UInt8} (ht : 3 ≤ t.length) :
    ((wordAt (b :: t) 0 >>> 22) &&& (0x3C : UInt32)).toNat = udpOffset (b :: t) := by
  have hrest := BigEndian.ofBytes_lt (t.take 3)
  have hlen3 : (t.take 3).length = 3 := by
    rw [List.length_take]
    omega
  rw [hlen3] at hrest
  have hb := b.toNat_lt
  have hword : (wordAt (b :: t) 0).toNat = 256 ^ 3 * b.toNat + BigEndian.ofBytes (t.take 3) := by
    have hsplit : ((b :: t).drop 0).take 4 = [b] ++ t.take 3 := rfl
    have hbyte : BigEndian.ofBytes [b] = b.toNat := by simp [BigEndian.ofBytes]
    rw [wordAt, UInt32.toNat_ofNat', hsplit, BigEndian.ofBytes_append, hbyte, hlen3]
    omega
  have hshift : (wordAt (b :: t) 0 >>> 22).toNat = 4 * b.toNat + BigEndian.ofBytes (t.take 3) / 2 ^ 22 := by
    rw [UInt32.toNat_shiftRight, hword, Nat.shiftRight_eq_div_pow]
    simp only [UInt32.reduceToNat, Nat.reduceMod]
    omega
  have hsixty : (0x3C : UInt32).toNat = 60 := rfl
  rw [UInt32.toNat_and, hshift, hsixty, and_sixty _ hb _ (by omega)]
  rfl

/-! ## The BPF program -/

theorem vniMatchBPF_eq (vni : UInt32) :
    vniMatchBPF vni = some [⟨0xb1, 0, 0, 0⟩, ⟨0x40, 0, 0, 12⟩, ⟨0x54, 0, 0, 0xffffff00⟩,
      ⟨0x15, 1, 0, vni <<< 8⟩, ⟨0x06, 0, 0, 0⟩, ⟨0x06, 0, 0, 0xffffffff⟩] := rfl

/-- The program as the machine runs it. -/
def vniMatchProgram (vni : UInt32) : List Instruction :=
  [.LoadMemShift 0, .LoadIndirect 12 4, .ALUOpConstant .And 0xffffff00,
    .JumpIf .JumpEqual (vni <<< 8) 1 0, .RetConstant 0, .RetConstant 0xffffffff]

theorem disassemble_vniMatchBPF (vni : UInt32) :
    ([⟨0xb1, 0, 0, 0⟩, ⟨0x40, 0, 0, 12⟩, ⟨0x54, 0, 0, 0xffffff00⟩, ⟨0x15, 1, 0, vni <<< 8⟩,
        ⟨0x06, 0, 0, 0⟩, ⟨0x06, 0, 0, 0xffffffff⟩] : List RawInstruction).map
        RawInstruction.Disassemble = vniMatchProgram vni := by
  simp only [List.map_cons, List.map_nil, RawInstruction.Disassemble, opClsLoadA, opClsLoadX,
    opClsALU, opClsJump, opClsReturn]
  rfl

/-- The jump of the program is taken exactly when the masked word is the
shifted id. -/
theorem jumpIfCommon_equal (a v : UInt32) :
    jumpIfCommon .JumpEqual 1 0 a v = if a = v then 1 else 0 := by
  by_cases h : a = v <;> simp [jumpIfCommon, h]

theorem run_vniMatch {vni : UInt32} (hvni : vni.toNat < 2 ^ 24) (pkt : List UInt8) :
    run (vniMatchProgram vni) pkt =
      .ok (if vxlanVni pkt = some vni.toNat then 0xffffffff else 0) := by
  cases pkt with
  | nil => rfl
  | cons b t =>
      obtain ⟨hload, hX⟩ := loadMemShift_zero (b := b) (t := t)
      have hzero : (0 : UInt32).toNat = 0 := rfl
      have htwelve : (12 : UInt32).toNat = 12 := rfl
      rw [run, show (vniMatchProgram vni).length = 5 + 1 from rfl,
        runLoop_LoadMemShift rfl, hzero, hload]
      dsimp only
      rw [runLoop_LoadIndirect rfl, htwelve, hX]
      by_cases hlen : udpOffset (b :: t) + 16 ≤ (b :: t).length
      · -- the word is in the packet: the jump decides
        have hword : loadCommon (b :: t) (12 + udpOffset (b :: t)) 4 =
            some (some (wordAt (b :: t) (udpOffset (b :: t) + 12))) := by
          rw [loadCommon_four (by omega), Nat.add_comm]
          rfl
        have hand (w : UInt32) : aluOpCommon .And w 0xffffff00 = w &&& 0xffffff00 := rfl
        rw [hword]
        dsimp only
        rw [runLoop_ALUOpConstant rfl, runLoop_JumpIf rfl, hand, jumpIfCommon_equal]
        have hiff := wordAt_and_eq_iff
          (show udpOffset (b :: t) + 12 + 4 ≤ (b :: t).length by omega) hvni
        simp only [vxlanVni, hlen, if_true, Option.some.injEq]
        by_cases hid : BigEndian.ofBytes (((b :: t).drop (udpOffset (b :: t) + 12)).take 3) = vni.toNat
        · rw [if_pos (hiff.mpr hid), if_pos hid, runLoop_RetConstant rfl]
          rfl
        · rw [if_neg (mt hiff.mp hid), if_neg hid, runLoop_RetConstant rfl]
          rfl
      · -- too short: the load ends the run
        rw [loadCommon_four_out (by omega), vxlanVni, if_neg hlen]
        rfl

/-! ## The `u32` expression -/

/-- The test the `u32` expression stands for. -/
def vniMatchTest (vni : UInt32) : U32Match.Test :=
  ⟨0, [(.RightShift, 22), (.And, 0x3C), (.At, 12), (.And, 0xFFFFFF00)], [(vni <<< 8, vni <<< 8)]⟩

theorem word_eq_wordAt (pkt : List UInt8) (pos : ℕ) :
    U32Match.word pkt pos = if pos + 4 ≤ pkt.length then some (wordAt pkt pos) else none := rfl

/-- The value of the test: the masked word at the network id, when the
packet holds it. -/
theorem value_vniMatchTest (vni : UInt32) (pkt : List UInt8) :
    (vniMatchTest vni).value pkt =
      if udpOffset pkt + 16 ≤ pkt.length then
        some (wordAt pkt (udpOffset pkt + 12) &&& 0xFFFFFF00)
      else none := by
  have hoff : udpOffset pkt < 64 := by
    have := Nat.mod_lt (pkt.getD 0 0).toNat (show 0 < 16 by decide)
    rw [udpOffset]
    omega
  have hfirst : (vniMatchTest vni).first.toNat = 0 := rfl
  rw [U32Match.Test.value, word_eq_wordAt, hfirst]
  by_cases h4 : 0 + 4 ≤ pkt.length
  · obtain ⟨b, t, rfl⟩ : ∃ b t, pkt = b :: t := by
      cases pkt with
      | nil => simp at h4
      | cons b t => exact ⟨b, t, rfl⟩
    have ht : 3 ≤ t.length := by
      rw [List.length_cons] at h4
      omega
    have htwelve : (12 : UInt32).toNat = 12 := rfl
    rw [if_pos h4]
    simp only [vniMatchTest, U32Match.evalOps, Nat.zero_add, wordAt_zero_header ht]
    rw [if_neg (by omega), htwelve, word_eq_wordAt]
    by_cases hlen : udpOffset (b :: t) + 16 ≤ (b :: t).length
    · rw [if_pos (by omega), if_pos hlen]
    · rw [if_neg (by omega), if_neg hlen]
  · rw [if_neg h4, if_neg (by omega)]

theorem matches_vniMatchTest {vni : UInt32} (hvni : vni.toNat < 2 ^ 24) (pkt : List UInt8) :
    (vniMatchTest vni).Matches pkt = decide (vxlanVni pkt = some vni.toNat) := by
  rw [U32Match.Test.Matches, value_vniMatchTest]
  by_cases hlen : udpOffset pkt + 16 ≤ pkt.length
  · have hiff := wordAt_and_eq_iff (show udpOffset pkt + 12 + 4 ≤ pkt.length by omega) hvni
    simp only [if_pos hlen, vxlanVni, Option.some.injEq]
    simp only [vniMatchTest, List.any_cons, List.any_nil, Bool.or_false]
    rw [Bool.eq_iff_iff, Bool.and_eq_true, decide_eq_true_eq, decide_eq_true_eq,
      decide_eq_true_eq, ← hiff]
    -- the range is the single value `vni <<< 8`
    constructor
    · rintro ⟨h1, h2⟩
      exact UInt32.le_antisymm h2 h1
    · intro h
      rw [h]
      exact ⟨UInt32.le_refl _, UInt32.le_refl _⟩
  · simp [if_neg hlen, vxlanVni]

/-- The reader's turns up to the `=`: the first number and the four
operators. -/
theorem parseLoop_vniMatch_prefix (m : ℕ) (ds : List Char) :
    U32Match.parseLoop (m + 6) [] U32Match.Reading.empty
        ("0>>22&0x3C@12&0xFFFFFF00=".toList ++ ds) =
      U32Match.parseLoop m []
        ⟨some 0, [(.RightShift, 22), (.And, 0x3C), (.At, 12), (.And, 0xFFFFFF00)], [], true⟩ ds := by
  have hlit : "0>>22&0x3C@12&0xFFFFFF00=".toList = ['0', '>', '>', '2', '2', '&', '0', 'x', '3',
      'C', '@', '1', '2', '&', '0', 'x', 'F', 'F', 'F', 'F', 'F', 'F', '0', '0', '='] := by
    decide
  rw [hlit]
  set_option maxRecDepth 4000 in rfl

/-- `iptables` reads the expression, the last argument of the rule, as the
test. -/
theorem parse_matchVXLANWithU32 (port : UInt32) {vni : UInt32} (hvni : vni.toNat < 2 ^ 24) :
    (matchVXLANWithU32 port vni).getLast?.map (fun e => U32Match.parse e.toList) =
      some (some [vniMatchTest vni]) := by
  have hn : vni.toNat <<< 8 < 2 ^ 32 := by
    rw [Nat.shiftLeft_eq]
    omega
  -- the printed number is Go's `int(vni) << 8`, the same as the 32-bit shift
  have hv : UInt32.ofNat (vni.toNat <<< 8) = vni <<< 8 := by
    have h8 : (8 : UInt32).toNat % 32 = 8 := rfl
    rw [← UInt32.toNat_inj, UInt32.toNat_ofNat', UInt32.toNat_shiftLeft, h8, Nat.mod_eq_of_lt hn]
  obtain ⟨c, cs, hcs⟩ :=
    List.exists_cons_of_ne_nil (Nat.toDigits_ne_nil (b := 10) (n := vni.toNat <<< 8))
  have hc : c.isDigit = true :=
    Nat.isDigit_of_mem_toDigits (by decide) (by decide) (hcs ▸ List.mem_cons_self ..)
  have hread : U32Match.readNumber (c :: cs) = some (UInt32.ofNat (vni.toNat <<< 8), []) :=
    hcs ▸ U32Match.readNumber_toDigits hn
  have hlen : ("0>>22&0x3C@12&0xFFFFFF00=".toList ++ c :: cs).length + 1 = cs.length + 21 + 6 := by
    simp only [List.length_append, List.length_cons,
      show "0>>22&0x3C@12&0xFFFFFF00=".toList.length = 25 from rfl]
    omega
  have hrepr : (toString (vni.toNat <<< 8)).toList = c :: cs := by
    rw [show toString (vni.toNat <<< 8) = Nat.repr (vni.toNat <<< 8) from rfl, Nat.toList_repr, hcs]
  rw [show (matchVXLANWithU32 port vni).getLast? =
      some ("0>>22&0x3C@12&0xFFFFFF00=" ++ toString (vni.toNat <<< 8)) from rfl,
    Option.map_some, U32Match.parse, String.toList_append, hrepr, hlen,
    parseLoop_vniMatch_prefix, show cs.length + 21 = cs.length + 19 + 2 from rfl,
    U32Match.parseLoop_single_value rfl rfl rfl (by decide) hc hread, hv]
  rfl

/-! ## The two tests agree -/

theorem accepts_vniMatchBPF {vni : UInt32} (hvni : vni.toNat < 2 ^ 24) (pkt : List UInt8) :
    Accepts [⟨0xb1, 0, 0, 0⟩, ⟨0x40, 0, 0, 12⟩, ⟨0x54, 0, 0, 0xffffff00⟩, ⟨0x15, 1, 0, vni <<< 8⟩,
        ⟨0x06, 0, 0, 0⟩, ⟨0x06, 0, 0, 0xffffffff⟩] pkt =
      decide (vxlanVni pkt = some vni.toNat) := by
  rw [Accepts, disassemble_vniMatchBPF, run_vniMatch hvni]
  by_cases hid : vxlanVni pkt = some vni.toNat <;> simp [hid]

/-- For every network id of 24 bits, the program of `vniMatchBPF` assembles,
`iptables` reads the expression of `matchVXLANWithU32` as a list of tests,
and on every packet the two agree, each matching exactly when the packet
holds the VXLAN header and its network id is the one asked for. -/
theorem vni_matchers_agree (port vni : UInt32) (hvni : vni.toNat < 2 ^ 24) :
    ∃ prog tests, vniMatchBPF vni = some prog ∧
      (matchVXLANWithU32 port vni).getLast?.map (fun e => U32Match.parse e.toList) =
        some (some tests) ∧
      ∀ pkt, U32Match.Matches tests pkt = Accepts prog pkt ∧
        Accepts prog pkt = decide (vxlanVni pkt = some vni.toNat) := by
  refine ⟨_, [vniMatchTest vni], vniMatchBPF_eq vni, parse_matchVXLANWithU32 port hvni,
    fun pkt => ⟨?_, accepts_vniMatchBPF hvni pkt⟩⟩
  rw [accepts_vniMatchBPF hvni, U32Match.Matches, List.all_cons, List.all_nil, Bool.and_true,
    matches_vniMatchTest hvni]

/-- The agreement at the largest network id, on the port VXLAN is given. -/
theorem vni_matchers_agree_largest_id : (0xffffff : UInt32).toNat < 2 ^ 24 ∧
    ∃ prog tests, vniMatchBPF 0xffffff = some prog ∧
      (matchVXLANWithU32 4789 0xffffff).getLast?.map (fun e => U32Match.parse e.toList) =
        some (some tests) ∧
      ∀ pkt, U32Match.Matches tests pkt = Accepts prog pkt ∧
        Accepts prog pkt = decide (vxlanVni pkt = some (0xffffff : UInt32).toNat) :=
  ⟨by decide, vni_matchers_agree 4789 0xffffff (by decide)⟩

end Libnetwork.Overlay
