/-
  File:      Mh1903/Verify/Checksum.lean
  Subject:   THE FIRMWARE CHECKSUM IS CRC-32. The table of `rt_fota_crc.c` does eight bits at once
             of the register with feedback; so the checksum does not depend on the pieces it is
             computed in, and it sees every burst of up to 32 bits.
-/
import Mh1903.Library.Feedback
import Mh1903.Verify.Exact

namespace Mh1903

open Library

/-! ## 1. The table -/

/-- CRC-32 bit by bit: reflected polynomial, register preset to ones, complemented at the end. -/
def crc32Bitwise (buf : List Byte) : BitVec 32 :=
  feed polynomial.reverse (BitVec.allOnes 32) (bitsOf buf) ^^^ BitVec.allOnes 32

theorem bitrev_polynomial : bitrev polynomial 32 = polynomial.reverse := by decide +kernel

theorem polynomial_msb : polynomial.reverse.msb = true := by decide +kernel

/-- One shift of the table is one zero bit. -/
theorem crc32InitShift_eq (poly : BitVec 32) (n : Nat) (c : BitVec 32) :
    crc32InitShift poly n c = shifts poly n c := by
  induction n generalizing c with
  | zero => rfl
  | succ n ih =>
      have hbit : c &&& 1 ≠ 0 ↔ c.getLsbD 0 = true := by
        have hand : c &&& 1 = _ := BitVec.and_one_eq_setWidth_ofBool_getLsbD (x := c)
        rw [hand]
        cases c.getLsbD 0 <;> decide
      rw [crc32InitShift, shifts, ih, feedBit, Bool.xor_false, BitVec.xor_comm poly]
      by_cases h : c &&& 1 ≠ 0
      · rw [if_pos h, if_pos (hbit.mp h)]
      · rw [if_neg h, if_neg fun hc => h (hbit.mpr hc)]

/-- **One table lookup is eight bits.** -/
theorem crc32Byte_eq (crc : BitVec 32) (b : Byte) :
    crc32Byte crc b = feed polynomial.reverse crc (lsbFirst b) := by
  rw [feed_lsbFirst _ _ (by decide)]
  generalize hx : crc ^^^ b.setWidth 32 = x
  -- the low byte goes through the table, the rest only moves
  have hlow : ∀ i < 8, (x ^^^ (x.setWidth 8).setWidth 32).getLsbD i = false := by
    intro i hi
    rw [BitVec.getLsbD_xor, BitVec.getLsbD_setWidth, BitVec.getLsbD_setWidth]
    simp [hi, show i < 32 by omega]
  have hshift : (x ^^^ (x.setWidth 8).setWidth 32) >>> 8 = crc >>> 8 := by
    refine BitVec.eq_of_getLsbD_eq fun i hi => ?_
    rw [← hx]
    simp only [BitVec.getLsbD_ushiftRight, BitVec.getLsbD_xor, BitVec.getLsbD_setWidth]
    simp
  have hsplit : x = (x ^^^ (x.setWidth 8).setWidth 32) ^^^ (x.setWidth 8).setWidth 32 := by
    rw [BitVec.xor_assoc, BitVec.xor_self, BitVec.xor_zero]
  have hrun : shifts polynomial.reverse 8 x =
      (crc >>> 8) ^^^ shifts polynomial.reverse 8 ((x.setWidth 8).setWidth 32) := by
    conv_lhs => rw [hsplit]
    rw [shifts_xor, shifts_of_low _ hlow, hshift]
  rw [hrun]
  unfold crc32Byte crcTab crc32Init
  rw [hx, crc32InitShift_eq, bitrev_polynomial]

theorem crc32_eq (crc : BitVec 32) (buf : List Byte) :
    crc32 crc buf = feed polynomial.reverse crc (bitsOf buf) := by
  induction buf generalizing crc with
  | nil => rfl
  | cons b buf ih =>
      rw [bitsOf_cons, feed_append, ← crc32Byte_eq, ← ih]
      rfl

/-! ## 2. The checksum and its pieces -/

theorem rtFotaCrc_eq (buf : List Byte) : rtFotaCrc buf = crc32Bitwise buf := by
  have hones : (0xffffffff : BitVec 32) = BitVec.allOnes 32 := by decide
  unfold rtFotaCrc crc32Bitwise
  rw [crc32_eq, hones]

/-- Feeding pieces is feeding what they make up. -/
theorem foldl_rtFotaStepCrc (crc : BitVec 32) (pieces : List (List Byte)) :
    pieces.foldl rtFotaStepCrc crc = rtFotaStepCrc crc pieces.flatten := by
  induction pieces generalizing crc with
  | nil => rfl
  | cons p pieces ih => rw [List.foldl_cons, ih, List.flatten_cons, rtFotaStepCrc_append]

/-- **The checksum is CRC-32 bit by bit, and the same in pieces of any lengths.** -/
theorem crc_bitwise_and_piecewise (buf : List Byte) :
    rtFotaCrc buf = crc32Bitwise buf ∧
    ∀ pieces : List (List Byte), pieces.flatten = buf →
      pieces.foldl rtFotaStepCrc 0xffffffff ^^^ 0xffffffff = crc32Bitwise buf := by
  refine ⟨rtFotaCrc_eq buf, fun pieces hpieces => ?_⟩
  rw [foldl_rtFotaStepCrc, hpieces]
  exact rtFotaCrc_eq buf

/-! ## 3. Bursts -/

/-- `b` is `a` with a burst error: their bits differ within 32 places in the order of
    transmission. -/
structure Burst (a b : List Byte) : Prop where
  length : a.length = b.length
  ne : a ≠ b
  window : ∃ k, ∀ i, (bitsOf a)[i]? ≠ (bitsOf b)[i]? → k ≤ i ∧ i < k + 32

theorem Burst.rtFotaCrc_ne {a b : List Byte} (h : Burst a b) : rtFotaCrc a ≠ rtFotaCrc b := by
  obtain ⟨k, hk⟩ := h.window
  have hbits : (bitsOf a).length = (bitsOf b).length := by
    rw [length_bitsOf, length_bitsOf, h.length]
  have hfeed := feed_ne_of_window polynomial_msb (BitVec.allOnes 32) hbits
    (fun heq => h.ne (bitsOf_injective h.length heq)) hk
  intro heq
  rw [rtFotaCrc_eq, rtFotaCrc_eq] at heq
  exact hfeed ((BitVec.xor_left_inj _).mp heq)

/-- **A burst of up to 32 bits changes the checksum, and an image with such a body is refused.** -/
theorem burst_detected {a b : List Byte} (h : Burst a b) :
    rtFotaCrc a ≠ rtFotaCrc b ∧
    ∀ (env : Env) (name : List Byte) (part : FalPartition) (flash : Flash) (w : World), part.Ok →
      falPartitionFind env name = some part → ValidImage env flash part →
      readFlash flash (part.bodyAddr 0) (headAt flash part).comSize = a →
      headAt w.flash part = headAt flash part →
      readFlash w.flash (part.bodyAddr 0) (headAt flash part).comSize = b →
      ∃ r w', rtFotaPartFwVerify env (some name) w = .ok r w' ∧ r ≠ rtFotaNoErr := by
  refine ⟨h.rtFotaCrc_ne, fun env name part flash w hp hfind hv ha hhead hb => ?_⟩
  obtain ⟨r, w', hrun, -, -, hout, -⟩ := rtFotaPartFwVerify_spec env (some name) w
  refine ⟨r, w', hrun, ?_⟩
  rcases hout with ⟨-, -, n, q, hn, hacc⟩ | ⟨hne, -⟩
  · -- accepted: both bodies have the checksum of the one header
    cases hn
    have hq : q = part := Option.some.inj (hacc.find.symm.trans hfind)
    subst hq
    rw [hacc.headAt_eq hp] at hacc
    have hv' := ((accepted_iff hp hfind).mp hacc).1
    have hcrc := hv'.codeCrc
    rw [hhead, hb, ← hv.codeCrc, ha] at hcrc
    exact absurd (BitVec.eq_of_toNat_eq hcrc).symm h.rtFotaCrc_ne
  · exact hne

/-- An image of six bytes 0. -/
def zeroImage : HeadFields :=
  { oneByteImage with codeCrc := rtFotaCrc (List.replicate 6 0), rawSize := 6, comSize := 6 }

/-- All 32 bits from the fifth on are flipped: half of the first byte, three bytes, and half of the
    next one. -/
theorem burst_detected_download :
    rtFotaCrc (List.replicate 6 0) ≠ rtFotaCrc [0xf0, 0xff, 0xff, 0xff, 0x0f, 0] ∧
    ∃ r w', rtFotaPartFwVerify Env.board (some downloadPart.name)
      (.powerOn (imageAt downloadPart zeroImage [0xf0, 0xff, 0xff, 0xff, 0x0f, 0] fun _ => 0xff)) =
        .ok r w' ∧ r ≠ rtFotaNoErr := by
  have hp : downloadPart.Ok := falPartTable_ok _ (by decide)
  have hburst : Burst (List.replicate 6 0) [0xf0, 0xff, 0xff, 0xff, 0x0f, 0] := by
    refine ⟨rfl, by decide, 4, fun i hi => ?_⟩
    have hflipped : ∀ i < 48, (bitsOf (List.replicate 6 0))[i]? ≠
        (bitsOf [0xf0, 0xff, 0xff, 0xff, 0x0f, 0])[i]? → 4 ≤ i ∧ i < 36 := by decide
    refine hflipped i (Nat.lt_of_not_le fun hge => hi ?_) hi
    rw [List.getElem?_eq_none (by rw [length_bitsOf]; exact hge),
      List.getElem?_eq_none (by rw [length_bitsOf]; exact hge)]
  have hhead : ∀ body : List Byte, body.length = 6 →
      headAt (imageAt downloadPart zeroImage body fun _ => 0xff) downloadPart =
        packHead zeroImage := fun body hb =>
    headAt_imageAt hp (by rw [hb]; decide)
  have hcom : (packHead zeroImage).comSize = 6 := packHead_comSize zeroImage
  obtain ⟨hne, hrefuse⟩ := burst_detected hburst
  refine ⟨hne, hrefuse Env.board downloadPart.name downloadPart
    (imageAt downloadPart zeroImage (List.replicate 6 0) fun _ => 0xff) _ hp
    (Env.board_onBoard.find_name (by decide))
    (validImage_imageAt hp (by decide) rfl rfl (by decide)) ?_ ?_ ?_⟩
  · rw [hhead _ rfl, hcom]
    exact readFlash_body_imageAt hp (by decide)
  · rw [World.powerOn_flash, hhead _ rfl, hhead _ rfl]
  · rw [World.powerOn_flash, hhead _ rfl, hcom]
    exact readFlash_body_imageAt hp (by decide)

end Mh1903
