import Libnetwork.Support.GoNet

/-!
# CIDR blocks

The networks `ParseCIDR` gives: an address of 4 or 16 bytes under a mask
of as many bytes that is leading ones, then zeros.  `Contains` compares an
address with the network number under the mask after bringing both to their
short form, so a network written in the IPv4-mapped IPv6 form holds the same
addresses as its 4-byte form.

Two masks of leading ones of one length are ordered, the shorter one under
the longer.  Hence two blocks share an address exactly when one of them
contains the network address of the other, which is what a test of the two
network addresses decides.
-/

namespace GoNet

/-- The form `Contains` reads an address in: the 4-byte form of an IPv4
address, any other address as it is. -/
def shortForm (ip : IP) : IP := if (To4 ip).isEmpty then ip else To4 ip

/-! ## Masks of leading ones -/

/-- The byte of a mask of leading ones that has `n` ones left for it. -/
def maskByte (n : ℕ) : UInt8 := if n ≥ 8 then 0xff else partialMaskByte n

@[simp]
theorem length_cidrMaskBytes (l n : ℕ) : (cidrMaskBytes l n).length = l := by
  induction l generalizing n with
  | zero => rfl
  | succ l ih =>
      rw [cidrMaskBytes]
      split <;> simp [ih]

theorem getD_cidrMaskBytes {l n i : ℕ} (hi : i < l) :
    (cidrMaskBytes l n).getD i 0 = maskByte (n - 8 * i) := by
  induction l generalizing n i with
  | zero => omega
  | succ l ih =>
      rw [cidrMaskBytes]
      cases i with
      | zero =>
          split <;> next h => simp [maskByte, h]
      | succ i =>
          have hi' : i < l := by omega
          split <;>
          · rw [List.getD_cons_succ, ih hi']
            congr 1
            omega

/-- The bytes from the `j`-th on of a mask of leading ones are the mask of
the ones left for them. -/
theorem drop_cidrMaskBytes (j l n : ℕ) :
    (cidrMaskBytes (j + l) n).drop j = cidrMaskBytes l (n - 8 * j) := by
  induction j generalizing n with
  | zero => simp
  | succ j ih =>
      rw [Nat.add_right_comm, cidrMaskBytes]
      split <;>
      · rw [List.drop_succ_cons, ih]
        congr 1
        omega

set_option maxRecDepth 2000 in
theorem maskByte_and_of_le {a b : ℕ} (h : a ≤ b) : maskByte a &&& maskByte b = maskByte a := by
  have hpart : ∀ a < 8, ∀ b < 8, a ≤ b →
      partialMaskByte a &&& partialMaskByte b = partialMaskByte a := by decide
  have hff : ∀ a < 8, partialMaskByte a &&& 0xff = partialMaskByte a := by decide
  by_cases ha : a ≥ 8
  · simp [maskByte, ha, Nat.le_trans ha h]
  · by_cases hb : b ≥ 8
    · simp only [maskByte, ha, hb, if_true, if_false]
      exact hff a (by omega)
    · simp only [maskByte, ha, hb, if_false]
      exact hpart a (by omega) b (by omega) h

/-! ## The networks of CIDR blocks -/

/-- A network of a CIDR block: an address of 4 or 16 bytes under a mask of
as many bytes, leading ones then zeros. -/
structure IPNet.IsCIDR (n : IPNet) : Prop where
  length : n.IP.length = IPv4len ∨ n.IP.length = IPv6len
  ones : ∃ k, n.Mask = cidrMaskBytes n.IP.length k

/-- The network number and mask of a CIDR block: the short form of its
address, under a mask of leading ones as long as it. -/
theorem IPNet.IsCIDR.networkNumberAndMask {n : IPNet} (h : n.IsCIDR) :
    ∃ k, networkNumberAndMask n = some (shortForm n.IP, cidrMaskBytes (shortForm n.IP).length k) ∧
      ((shortForm n.IP).length = IPv4len ∨ (shortForm n.IP).length = IPv6len) := by
  obtain ⟨k, hk⟩ := h.ones
  rcases h.length with h4 | h16
  · -- a 4-byte address is its own short form
    have hto4 : To4 n.IP = n.IP := by simp [To4, h4]
    have hne : n.IP ≠ [] := by
      intro hnil
      simp [hnil, IPv4len] at h4
    have hshort : shortForm n.IP = n.IP := by simp [shortForm, hto4, hne]
    refine ⟨k, ?_, .inl (by rw [hshort]; exact h4)⟩
    simp [GoNet.networkNumberAndMask, hto4, hshort, hk, h4, hne, IPv4len]
  · by_cases hmapped : n.IP.take 12 = v4InV6Prefix
    · -- an IPv4-mapped address: the last four bytes under the mask's last four
      have hto4 : To4 n.IP = n.IP.drop 12 := by simp [To4, h16, hmapped, IPv4len, IPv6len]
      have hlen : (n.IP.drop 12).length = IPv4len := by
        rw [List.length_drop, h16]
        rfl
      have hne : n.IP.drop 12 ≠ [] := by
        intro hnil
        simp [hnil, IPv4len] at hlen
      have hshort : shortForm n.IP = n.IP.drop 12 := by simp [shortForm, hto4, hne]
      refine ⟨k - 8 * 12, ?_, .inl (by rw [hshort]; exact hlen)⟩
      have hmask : n.Mask.drop 12 = cidrMaskBytes 4 (k - 8 * 12) := by
        rw [hk, h16]
        exact drop_cidrMaskBytes 12 4 k
      simp [GoNet.networkNumberAndMask, hto4, hshort, hne, hk, h16, hlen, IPv4len, IPv6len,
        ← hmask]
    · -- any other 16-byte address is its own short form
      have hto4 : To4 n.IP = [] := by simp [To4, h16, hmapped, IPv4len, IPv6len]
      have hshort : shortForm n.IP = n.IP := by simp [shortForm, hto4]
      refine ⟨k, ?_, .inr (by rw [hshort]; exact h16)⟩
      simp [GoNet.networkNumberAndMask, hto4, hshort, hk, h16, IPv4len, IPv6len]

/-! ## The addresses the parsers give -/

theorem parseIPv4_eq {s : List Char} {ip : IP} (h : parseIPv4 s = some ip) :
    ∃ a b c d, ip = IPv4 a b c d := by
  unfold parseIPv4 at h
  split at h
  · next a b c d _ =>
      cases h
      exact ⟨a, b, c, d, rfl⟩
  · cases h

/-- What the groups loop of `parseIPv6` keeps: an even number of bytes, at
most sixteen, and an ellipsis at a position already written. -/
structure IPv6Scan.Fits (st : IPv6Scan) : Prop where
  even : st.bytes.length % 2 = 0
  le : st.bytes.length ≤ IPv6len
  ellipsis : ∀ e, st.ellipsis = some e → e ≤ st.bytes.length

theorem IPv6Scan.Fits.push_two {st : IPv6Scan} (hst : st.Fits) (hlt : ¬ st.bytes.length ≥ IPv6len)
    (b₁ b₂ : UInt8) {e : Option ℕ} (he : e = st.ellipsis ∨ e = some (st.bytes ++ [b₁, b₂]).length)
    (rest : List Char) : (⟨st.bytes ++ [b₁, b₂], e, rest⟩ : IPv6Scan).Fits := by
  have heven := hst.even
  have hle := hst.le
  simp only [IPv6len] at hlt hle
  refine ⟨?_, ?_, ?_⟩
  · simp only [List.length_append, List.length_cons, List.length_nil]
    omega
  · simp only [List.length_append, List.length_cons, List.length_nil, IPv6len]
    omega
  · intro e' he'
    rcases he with rfl | rfl
    · have := hst.ellipsis e' he'
      simp only [List.length_append, List.length_cons, List.length_nil]
      omega
    · cases he'
      exact Nat.le_refl _

theorem IPv6Scan.Fits.push_four {st : IPv6Scan} (hst : st.Fits)
    (hlt : ¬ st.bytes.length + IPv4len > IPv6len) {s : List Char} {ip4 : IP}
    (h4 : parseIPv4 s = some ip4) : (⟨st.bytes ++ ip4.drop 12, st.ellipsis, []⟩ : IPv6Scan).Fits := by
  obtain ⟨a, b, c, d, rfl⟩ := parseIPv4_eq h4
  have heven := hst.even
  have hlen : (IPv4 a b c d).drop 12 = [a, b, c, d] := rfl
  simp only [IPv4len, IPv6len] at hlt
  refine ⟨?_, ?_, fun e he => ?_⟩
  · simp only [hlen, List.length_append, List.length_cons, List.length_nil]
    omega
  · simp only [hlen, List.length_append, List.length_cons, List.length_nil, IPv6len]
    omega
  · have := hst.ellipsis e he
    simp only [hlen, List.length_append, List.length_cons, List.length_nil]
    omega

theorem IPv6Scan.Fits.parseIPv6Loop : ∀ {fuel : ℕ} {st st' : IPv6Scan}, st.Fits →
    GoNet.parseIPv6Loop fuel st = some st' → st'.Fits
  | 0, st, st', hst, h => by
      cases h
      exact hst
  | fuel + 1, st, st', hst, h => by
      rw [GoNet.parseIPv6Loop] at h
      by_cases hfull : st.bytes.length ≥ IPv6len
      · rw [if_pos hfull] at h
        cases h
        exact hst
      rw [if_neg hfull] at h
      rcases hx : xtoi st.rest with ⟨n, c, ok⟩
      simp only [hx] at h
      split at h
      · cases h
      split at h
      · -- an IPv4 tail
        split at h
        · cases h
        split at h
        · cases h
        next hfit =>
          split at h
          · cases h
          · next ip4 h4 =>
              cases h
              exact hst.push_four hfit h4
      · -- a group and what follows it
        split at h
        · cases h
          exact hst.push_two hfull _ _ (.inl rfl) []
        · split at h
          · split at h
            · cases h
            split at h
            · cases h
              exact hst.push_two hfull _ _ (.inr rfl) []
            · exact IPv6Scan.Fits.parseIPv6Loop (hst.push_two hfull _ _ (.inr rfl) _) h
          · exact IPv6Scan.Fits.parseIPv6Loop (hst.push_two hfull _ _ (.inl rfl) _) h
        · cases h

theorem IPv6Scan.fits_start {e : Option ℕ} (he : e = none ∨ e = some 0) (rest : List Char) :
    (⟨[], e, rest⟩ : IPv6Scan).Fits := by
  refine ⟨rfl, Nat.zero_le _, fun e' he' => ?_⟩
  rcases he with rfl | rfl
  · cases he'
  · cases he'
    exact Nat.le_refl 0

theorem length_parseIPv6 {s : List Char} {ip : IP} (h : parseIPv6 s = some ip) :
    ip.length = IPv6len := by
  unfold parseIPv6 at h
  split at h <;>
  · dsimp only at h
    split at h
    · cases h
      exact List.length_replicate
    split at h
    · cases h
    next bytes ellipsis rest hloop =>
      have hfits := (IPv6Scan.fits_start (by simp) _).parseIPv6Loop hloop
      split at h
      · cases h
      split at h
      · -- the ellipsis stands for the zero groups not written
        split at h
        · cases h
        · next _ e =>
            cases h
            have hle := hfits.ellipsis e rfl
            dsimp only at hle
            simp only [List.length_append, List.length_take, List.length_replicate,
              List.length_drop]
            omega
      · split at h
        · cases h
        · cases h
          have := hfits.le
          dsimp only at this
          omega

theorem CIDRMask_eq {ones l : ℕ} (hl : l = IPv4len ∨ l = IPv6len) (h : ones ≤ 8 * l) :
    CIDRMask ones (8 * l) = cidrMaskBytes l ones := by
  rcases hl with rfl | rfl
  · have hle : ¬ 32 < ones := by simp only [IPv4len] at h; omega
    simp [CIDRMask, hle, IPv4len, IPv6len]
  · have hle : ¬ 128 < ones := by simp only [IPv6len] at h; omega
    simp [CIDRMask, hle, IPv4len, IPv6len]

theorem Mask_IPv4 (a b c d : UInt8) {m : IPMask} (hm : m.length = IPv4len) :
    Mask (IPv4 a b c d) m = List.zipWith (· &&& ·) [a, b, c, d] m := by
  simp [Mask, hm, IPv4, v4InV6Prefix, IPv4len, IPv6len]

theorem Mask_of_length_sixteen {ip : IP} {m : IPMask} (hip : ip.length = IPv6len)
    (hm : m.length = IPv6len) : Mask ip m = List.zipWith (· &&& ·) ip m := by
  simp [Mask, hm, hip, IPv4len, IPv6len]

theorem isCIDR_of_ParseCIDR {s : String} {ip : IP} {n : IPNet} (h : ParseCIDR s = some (ip, n)) :
    n.IsCIDR := by
  unfold ParseCIDR at h
  dsimp only at h
  split at h
  · cases h
  next k _ =>
    cases hv4 : parseIPv4 (List.take k s.toList) with
    | some ip4 =>
        simp only [hv4] at h
        split at h
        · cases h
        next hok =>
          obtain ⟨-, rfl⟩ := Prod.mk.inj (Option.some.inj h)
          simp only [Bool.or_eq_true, Bool.not_eq_true', bne_iff_ne, ne_eq, decide_eq_true_eq,
            not_or, Nat.not_lt] at hok
          obtain ⟨a, b, c, d, rfl⟩ := parseIPv4_eq hv4
          rw [CIDRMask_eq (.inl rfl) hok.2, Mask_IPv4 a b c d (length_cidrMaskBytes _ _)]
          refine ⟨.inl (by simp [IPv4len]), (dtoi (List.drop (k + 1) s.toList)).fst, ?_⟩
          simp [IPv4len]
    | none =>
        simp only [hv4] at h
        cases h6 : parseIPv6 (List.take k s.toList) with
        | none =>
            simp only [h6] at h
            cases h
        | some ip6 =>
            simp only [h6] at h
            split at h
            · cases h
            next hok =>
              obtain ⟨-, rfl⟩ := Prod.mk.inj (Option.some.inj h)
              simp only [Bool.or_eq_true, Bool.not_eq_true', bne_iff_ne, ne_eq,
                decide_eq_true_eq, not_or, Nat.not_lt] at hok
              have hlen := length_parseIPv6 h6
              rw [CIDRMask_eq (.inr rfl) hok.2,
                Mask_of_length_sixteen hlen (length_cidrMaskBytes _ _)]
              refine ⟨.inr (by simp [hlen, IPv6len]), (dtoi (List.drop (k + 1) s.toList)).fst, ?_⟩
              simp [hlen, IPv6len]

/-! ## What a network contains -/

/-- A test of all the triples of three lists of one length is a test of
their bytes at each index. -/
theorem all_zip_zip_iff {p : (UInt8 × UInt8) × UInt8 → Bool} {nn m c : List UInt8}
    (hm : m.length = nn.length) (hc : c.length = nn.length) :
    ((nn.zip m).zip c).all p = true ↔
      ∀ i < nn.length, p ((nn.getD i 0, m.getD i 0), c.getD i 0) = true := by
  induction nn generalizing m c with
  | nil => simp
  | cons a nn ih =>
      cases m with
      | nil => simp at hm
      | cons k m =>
          cases c with
          | nil => simp at hc
          | cons b c =>
              simp only [List.length_cons, Nat.add_right_cancel_iff] at hm hc
              rw [List.zip_cons_cons, List.zip_cons_cons, List.all_cons, Bool.and_eq_true,
                ih hm hc, List.length_cons, Nat.forall_lt_succ_left]
              simp

/-- `Contains` compares the short form of the address with the network
number under the mask, byte by byte. -/
theorem contains_iff {n : IPNet} {nn m : IP} (h : networkNumberAndMask n = some (nn, m))
    (hm : m.length = nn.length) (ip : IP) :
    n.Contains ip = true ↔ (shortForm ip).length = nn.length ∧
      ∀ i < nn.length, nn.getD i 0 &&& m.getD i 0 = (shortForm ip).getD i 0 &&& m.getD i 0 := by
  unfold IPNet.Contains
  rw [h]
  simp only [Option.getD_some, Bool.and_eq_true, beq_iff_eq]
  rw [show (if (To4 ip).isEmpty = true then ip else To4 ip) = shortForm ip from rfl]
  refine and_congr_right fun hc => ?_
  rw [all_zip_zip_iff hm hc]
  simp

/-! ## Two blocks that share an address -/

theorem IPNet.IsCIDR.contains_self {n : IPNet} (h : n.IsCIDR) : n.Contains n.IP = true := by
  obtain ⟨k, hnm, -⟩ := h.networkNumberAndMask
  rw [contains_iff hnm (length_cidrMaskBytes _ _)]
  exact ⟨rfl, fun _ _ => rfl⟩

/-- An address in two blocks puts the network address of the one with more
ones into the other: under the shorter mask, the two network numbers agree
with the address, hence with each other. -/
theorem contains_of_shared {n₁ n₂ : IPNet} {k₁ k₂ : ℕ}
    (hnm₁ : networkNumberAndMask n₁ =
      some (shortForm n₁.IP, cidrMaskBytes (shortForm n₁.IP).length k₁))
    (hnm₂ : networkNumberAndMask n₂ =
      some (shortForm n₂.IP, cidrMaskBytes (shortForm n₂.IP).length k₂))
    (hk : k₁ ≤ k₂) {ip : IP} (hc₁ : n₁.Contains ip = true) (hc₂ : n₂.Contains ip = true) :
    n₁.Contains n₂.IP = true := by
  rw [contains_iff hnm₁ (length_cidrMaskBytes _ _)] at hc₁ ⊢
  rw [contains_iff hnm₂ (length_cidrMaskBytes _ _)] at hc₂
  obtain ⟨hl₁, ha₁⟩ := hc₁
  obtain ⟨hl₂, ha₂⟩ := hc₂
  refine ⟨by omega, fun i hi => ?_⟩
  have hi₂ : i < (shortForm n₂.IP).length := by omega
  have e₁ := ha₁ i hi
  have e₂ := ha₂ i hi₂
  rw [getD_cidrMaskBytes hi] at e₁ ⊢
  rw [getD_cidrMaskBytes hi₂] at e₂
  have hmask : maskByte (k₂ - 8 * i) &&& maskByte (k₁ - 8 * i) = maskByte (k₁ - 8 * i) := by
    rw [UInt8.and_comm]
    exact maskByte_and_of_le (by omega)
  calc (shortForm n₁.IP).getD i 0 &&& maskByte (k₁ - 8 * i)
      = (shortForm ip).getD i 0 &&& maskByte (k₁ - 8 * i) := e₁
    _ = ((shortForm ip).getD i 0 &&& maskByte (k₂ - 8 * i)) &&& maskByte (k₁ - 8 * i) := by
        rw [UInt8.and_assoc, hmask]
    _ = ((shortForm n₂.IP).getD i 0 &&& maskByte (k₂ - 8 * i)) &&& maskByte (k₁ - 8 * i) := by
        rw [e₂]
    _ = (shortForm n₂.IP).getD i 0 &&& maskByte (k₁ - 8 * i) := by
        rw [UInt8.and_assoc, hmask]

/-- Two CIDR blocks share an address exactly when one contains the network
address of the other. -/
theorem IPNet.IsCIDR.overlap_iff {n₁ n₂ : IPNet} (h₁ : n₁.IsCIDR) (h₂ : n₂.IsCIDR) :
    (∃ ip, n₁.Contains ip = true ∧ n₂.Contains ip = true) ↔
      n₁.Contains n₂.IP = true ∨ n₂.Contains n₁.IP = true := by
  obtain ⟨k₁, hnm₁, -⟩ := h₁.networkNumberAndMask
  obtain ⟨k₂, hnm₂, -⟩ := h₂.networkNumberAndMask
  constructor
  · rintro ⟨ip, hc₁, hc₂⟩
    rcases Nat.le_total k₁ k₂ with hk | hk
    · exact .inl (contains_of_shared hnm₁ hnm₂ hk hc₁ hc₂)
    · exact .inr (contains_of_shared hnm₂ hnm₁ hk hc₂ hc₁)
  · rintro (h | h)
    · exact ⟨n₂.IP, h, h₂.contains_self⟩
    · exact ⟨n₁.IP, h₁.contains_self, h⟩

end GoNet
