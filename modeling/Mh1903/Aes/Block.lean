/-
  File:      Mh1903/Aes/Block.lean
  Subject:   A BLOCK AND A STREAM OF BLOCKS. With the keys the source sets, a block is encrypted and
             decrypted as the standard says, so each undoes the other; and the chaining modes give
             back what they were given, in whatever pieces.
-/
import Mh1903.Aes.Keys
import Mh1903.Copy.Stream

namespace Mh1903.Aes

open Library

/-! ## 1. One block -/

theorem roundKey_columns (buf : List Ulong) (i : Nat) :
    roundKey (columns buf) i = (quadAt buf (4 * i)).state :=
  state_ext rfl rfl rfl rfl

theorem middleKeys_columns (buf : List Ulong) (nr : Nat) :
    middleKeys (columns buf) nr = (quadsFrom buf 4 (nr - 1)).map Quad.state := by
  rw [quadsFrom_eq_map, List.map_map]
  refine List.map_congr_left fun i _ => ?_
  rw [roundKey_columns, Nat.mul_succ, Nat.add_comm]
  rfl

/-- The keys the source sets, and what a block becomes with them. -/
theorem tinyAes_block {keysize nk nr : Nat} (h : KeySize keysize nk nr) (key : Nat → Byte) :
    ∃ e d, tinyAesSetkeyEnc key keysize = some e ∧ tinyAesSetkeyDec key keysize = some d ∧
      e.buf.length ≤ 68 ∧ d.buf.length ≤ 68 ∧
      Expands tableSBox nk key (4 * (nr + 1)) (columns e.buf) ∧
      ∀ input, stateOf (tinyAesCryptEcb e .encrypt input) =
          cipher tableSBox nr (columns e.buf) (stateOf input) ∧
        stateOf (tinyAesCryptEcb d .decrypt input) =
          invCipher tableSBox nr (columns e.buf) (stateOf input) := by
  obtain ⟨n, hn, hle⟩ : ∃ n, nr = 2 * n + 2 ∧ n ≤ 6 := by
    cases h with
    | bits128 => exact ⟨4, rfl, by decide⟩
    | bits192 => exact ⟨5, rfl, by decide⟩
    | bits256 => exact ⟨6, rfl, by decide⟩
  obtain ⟨e, he, henr, hefit, hexp⟩ := tinyAesSetkeyEnc_expands h key
  obtain ⟨d, hd, hdnr, hdlen, hfirst, hmid, hlast⟩ := tinyAesSetkeyDec_quads he (by omega)
  subst henr
  refine ⟨e, d, he, hd, hefit, by omega, hexp, fun input => ⟨?_, ?_⟩⟩
  · rw [stateOf_encrypt hn, cipher, middleKeys_columns, roundKey_columns, roundKey_columns]
  · have hmixed : ((quadsFrom e.buf 4 (e.nr - 1)).reverse.map unmixQuad).map Quad.state =
        ((quadsFrom e.buf 4 (e.nr - 1)).map Quad.state).reverse.map invMixColumns := by
      rw [← List.map_reverse, List.map_map, List.map_map]
      exact List.map_congr_left fun q _ => state_unmixQuad q
    rw [stateOf_decrypt (by rw [hdnr]; exact hn), hdnr, hfirst, hmid, hlast, hmixed, invCipher,
      middleKeys_columns, roundKey_columns, roundKey_columns]

section Undo

variable {nr : Nat} {w : Nat → Column} {e d : TinyAesContext}
variable (hblock : ∀ input, stateOf (tinyAesCryptEcb e .encrypt input) =
    cipher tableSBox nr w (stateOf input) ∧
  stateOf (tinyAesCryptEcb d .decrypt input) = invCipher tableSBox nr w (stateOf input))
include hblock

/-- What computes the cipher and the inverse cipher under one schedule undoes each other. -/
theorem undo_of_standard {input : List Byte} (hlen : input.length = 16) :
    tinyAesCryptEcb d .decrypt (tinyAesCryptEcb e .encrypt input) = input ∧
      tinyAesCryptEcb e .encrypt (tinyAesCryptEcb d .decrypt input) = input := by
  constructor
  · refine stateOf_inj (length_tinyAesCryptEcb ..) hlen ?_
    rw [(hblock _).2, (hblock _).1, invCipher_cipher]
  · refine stateOf_inj (length_tinyAesCryptEcb ..) hlen ?_
    rw [(hblock _).1, (hblock _).2, cipher_invCipher]

end Undo

/-- **The source is the cipher of the standard**, for every key of its three sizes: the words in the
    context are the schedule, a block is encrypted and decrypted with them, and each undoes the
    other. -/
theorem tinyAes_standard {keysize nk nr : Nat} (h : KeySize keysize nk nr) (key : Nat → Byte) :
    ∃ e d, tinyAesSetkeyEnc key keysize = some e ∧ tinyAesSetkeyDec key keysize = some d ∧
      e.buf.length ≤ 68 ∧ d.buf.length ≤ 68 ∧
      Expands tableSBox nk key (4 * (nr + 1)) (columns e.buf) ∧
      ∀ input, stateOf (tinyAesCryptEcb e .encrypt input) =
          cipher tableSBox nr (columns e.buf) (stateOf input) ∧
        stateOf (tinyAesCryptEcb d .decrypt input) =
          invCipher tableSBox nr (columns e.buf) (stateOf input) ∧
        (input.length = 16 →
          tinyAesCryptEcb d .decrypt (tinyAesCryptEcb e .encrypt input) = input ∧
            tinyAesCryptEcb e .encrypt (tinyAesCryptEcb d .decrypt input) = input) := by
  obtain ⟨e, d, he, hd, hefit, hdfit, hexp, hblock⟩ := tinyAes_block h key
  exact ⟨e, d, he, hd, hefit, hdfit, hexp, fun input =>
    ⟨(hblock input).1, (hblock input).2, undo_of_standard hblock⟩⟩

/-- A key of 256 bits whose bytes are all zero, and a block of zeros. -/
theorem tinyAes_standard_zero : ∃ e d, tinyAesSetkeyEnc (fun _ => 0) 256 = some e ∧
    tinyAesSetkeyDec (fun _ => 0) 256 = some d ∧
    tinyAesCryptEcb d .decrypt (tinyAesCryptEcb e .encrypt (List.replicate 16 0)) =
      List.replicate 16 0 := by
  obtain ⟨e, d, he, hd, -, -, -, hblock⟩ := tinyAes_standard .bits256 fun _ => 0
  exact ⟨e, d, he, hd, ((hblock _).2.2 List.length_replicate).1⟩

/-! ## 2. Chaining -/

/-- `tiny_aes_crypt_ecb` as the loop of `tiny_aes_crypt_cbc` calls it to decrypt. -/
def ecbBytes (ctx : TinyAesContext) (input : List Byte) (i : Fin 16) : Byte :=
  (tinyAesCryptEcb ctx .decrypt input).getD i.val 0

/-- `tiny_aes_crypt_cbc` for a buffer of whole blocks. -/
def tinyAesCryptCbc (ctx : TinyAesContext) (mode : Mode) (iv input : List Byte) :
    List Byte × List Byte :=
  match mode with
  | .encrypt => tinyAesCryptCbcEncrypt (tinyAesCryptEcb ctx .encrypt) (input.length / 16) iv input
  | .decrypt => Mh1903.tinyAesCryptCbc (ecbBytes ctx) (input.length / 16) iv input

theorem ofFn_ecbBytes (ctx : TinyAesContext) (input : List Byte) :
    List.ofFn (ecbBytes ctx input) = tinyAesCryptEcb ctx .decrypt input := by
  refine List.ext_getElem ?_ fun i h₁ h₂ => ?_
  · rw [List.length_ofFn, length_tinyAesCryptEcb]
  · rw [List.getElem_ofFn, ecbBytes, List.getD_eq_getElem _ _ h₂]

section Cbc

variable {enc : List Byte → List Byte} {dec : List Byte → Fin 16 → Byte}

theorem tinyAesCryptCbcEncrypt_add (n m : Nat) (iv input : List Byte) :
    tinyAesCryptCbcEncrypt enc (n + m) iv input =
      ((tinyAesCryptCbcEncrypt enc m (tinyAesCryptCbcEncrypt enc n iv input).1
          (input.drop (16 * n))).1,
        (tinyAesCryptCbcEncrypt enc n iv input).2 ++
          (tinyAesCryptCbcEncrypt enc m (tinyAesCryptCbcEncrypt enc n iv input).1
            (input.drop (16 * n))).2) := by
  induction n generalizing iv input with
  | zero => rw [Nat.zero_add]; rfl
  | succ n ih =>
      have hdrop : (input.drop 16).drop (16 * n) = input.drop (16 * (n + 1)) := by
        rw [List.drop_drop, Nat.mul_succ, Nat.add_comm]
      rw [Nat.succ_add]
      simp only [tinyAesCryptCbcEncrypt]
      rw [ih, hdrop, List.append_assoc]

/-- Only the blocks that are encrypted matter. -/
theorem tinyAesCryptCbcEncrypt_append {n : Nat} {input : List Byte} (h : input.length = 16 * n)
    (iv rest : List Byte) :
    tinyAesCryptCbcEncrypt enc n iv (input ++ rest) = tinyAesCryptCbcEncrypt enc n iv input := by
  induction n generalizing iv input with
  | zero => rfl
  | succ n ih =>
      simp only [tinyAesCryptCbcEncrypt]
      rw [List.take_append_of_le_length (by omega), List.drop_append_of_le_length (by omega),
        ih (by rw [List.length_drop]; omega)]

theorem zipWith_xor_cancel {a b : List Byte} (h : a.length = b.length) :
    List.zipWith (· ^^^ ·) (List.zipWith (· ^^^ ·) a b) b = a := by
  induction a generalizing b with
  | nil => rfl
  | cons x a ih =>
      cases b with
      | nil => cases h
      | cons y b =>
          simp only [List.zipWith_cons_cons, ih (Nat.succ.inj h)]
          rw [BitVec.xor_assoc, BitVec.xor_self, BitVec.xor_zero]

/-- **CBC** gives back what it was given, and leaves the same vector. -/
theorem cbc_undo (henc : ∀ b, (enc b).length = 16)
    (hdec : ∀ b : List Byte, b.length = 16 → List.ofFn (dec (enc b)) = b) {n : Nat}
    {iv input : List Byte} (hiv : iv.length = 16) (hin : input.length = 16 * n) :
    Mh1903.tinyAesCryptCbc dec n iv (tinyAesCryptCbcEncrypt enc n iv input).2 =
      ((tinyAesCryptCbcEncrypt enc n iv input).1, input) := by
  induction n generalizing iv input with
  | zero => rw [List.length_eq_zero_iff.mp hin]; rfl
  | succ n ih =>
      have htake : (input.take 16).length = 16 := by rw [List.length_take]; omega
      have hblock : (List.zipWith (· ^^^ ·) (input.take 16) iv).length = 16 := by
        rw [List.length_zipWith, htake, hiv, Nat.min_self]
      have hrest := ih (henc (List.zipWith (· ^^^ ·) (input.take 16) iv))
        (show (input.drop 16).length = 16 * n by rw [List.length_drop]; omega)
      simp only [tinyAesCryptCbcEncrypt, Mh1903.tinyAesCryptCbc]
      rw [List.take_left' (henc _), List.drop_left' (henc _), hrest, hdec _ hblock,
        zipWith_xor_cancel (htake.trans hiv.symm), List.take_append_drop]

theorem length_tinyAesCryptCbcEncrypt (henc : ∀ b, (enc b).length = 16) (n : Nat)
    (iv input : List Byte) : (tinyAesCryptCbcEncrypt enc n iv input).2.length = 16 * n := by
  induction n generalizing iv input with
  | zero => rfl
  | succ n ih =>
      simp only [tinyAesCryptCbcEncrypt, List.length_append]
      rw [henc, ih]
      omega

end Cbc

/-- **CFB** gives back what it was given, byte for byte. -/
theorem cfb_undo (ecb : List Byte → List Byte) (s : Cfb) (input : List Byte) :
    tinyAesCryptCfb128 ecb .decrypt s (tinyAesCryptCfb128 ecb .encrypt s input).2 =
      ((tinyAesCryptCfb128 ecb .encrypt s input).1, input) := by
  induction input generalizing s with
  | nil => rfl
  | cons b input ih =>
      have hbyte : cfbByte ecb .decrypt s (cfbByte ecb .encrypt s b).2 =
          ((cfbByte ecb .encrypt s b).1, b) := by
        simp only [cfbByte, xor_cancel]
      simp only [tinyAesCryptCfb128, hbyte, ih]

/-! ## 3. Pieces -/

theorem cfb_append (ecb : List Byte → List Byte) (mode : Mode) (s : Cfb) (p q : List Byte) :
    tinyAesCryptCfb128 ecb mode s (p ++ q) =
      ((tinyAesCryptCfb128 ecb mode (tinyAesCryptCfb128 ecb mode s p).1 q).1,
        (tinyAesCryptCfb128 ecb mode s p).2 ++
          (tinyAesCryptCfb128 ecb mode (tinyAesCryptCfb128 ecb mode s p).1 q).2) := by
  induction p generalizing s with
  | nil => rfl
  | cons b p ih => simp only [List.cons_append, tinyAesCryptCfb128, ih]

theorem cbc_append (ctx : TinyAesContext) (mode : Mode) (iv p q : List Byte)
    (hp : p.length % 16 = 0) :
    tinyAesCryptCbc ctx mode iv (p ++ q) =
      ((tinyAesCryptCbc ctx mode (tinyAesCryptCbc ctx mode iv p).1 q).1,
        (tinyAesCryptCbc ctx mode iv p).2 ++
          (tinyAesCryptCbc ctx mode (tinyAesCryptCbc ctx mode iv p).1 q).2) := by
  have hblocks : (p ++ q).length / 16 = p.length / 16 + q.length / 16 := by
    rw [List.length_append]
    omega
  have hwhole : p.length = 16 * (p.length / 16) := by omega
  cases mode with
  | encrypt =>
      simp only [tinyAesCryptCbc]
      rw [hblocks, tinyAesCryptCbcEncrypt_add, tinyAesCryptCbcEncrypt_append hwhole, ← hwhole,
        List.drop_left]
  | decrypt =>
      simp only [tinyAesCryptCbc]
      rw [hblocks, tinyAesCryptCbc_add, tinyAesCryptCbc_take _ _ _ _ _ hwhole.ge, ← hwhole,
        List.drop_left]

theorem cbc_pieces (ctx : TinyAesContext) (mode : Mode) (iv : List Byte) {ps : List (List Byte)}
    (hps : ∀ p ∈ ps, p.length % 16 = 0) :
    inPieces (tinyAesCryptCbc ctx mode) iv ps = tinyAesCryptCbc ctx mode iv ps.flatten :=
  @inPieces_eq _ _ _ _ (fun p : List Byte => p.length % 16 = 0) (fun _ => by cases mode <;> rfl)
    (cbc_append ctx mode) iv _ hps

theorem cfb_pieces (ecb : List Byte → List Byte) (mode : Mode) (s : Cfb) (ps : List (List Byte)) :
    inPieces (tinyAesCryptCfb128 ecb mode) s ps = tinyAesCryptCfb128 ecb mode s ps.flatten :=
  inPieces_eq (f := tinyAesCryptCfb128 ecb mode) (fun _ => rfl)
    (fun s p q (_ : True) => cfb_append ecb mode s p q) s fun _ _ => trivial

theorem length_flatten_mod {ps : List (List Byte)} (h : ∀ p ∈ ps, p.length % 16 = 0) :
    ps.flatten.length % 16 = 0 := by
  induction ps with
  | nil => rfl
  | cons p ps ih =>
      have hp := h p (List.mem_cons_self ..)
      have hrest := ih fun q hq => h q (List.mem_cons_of_mem _ hq)
      rw [List.flatten_cons, List.length_append]
      omega

/-- CBC with the keys of the source, at one go. -/
theorem tinyAesCryptCbc_undo {e d : TinyAesContext}
    (hblock : ∀ input : List Byte, input.length = 16 →
      tinyAesCryptEcb d .decrypt (tinyAesCryptEcb e .encrypt input) = input)
    {iv input : List Byte} (hiv : iv.length = 16) (hin : input.length % 16 = 0) :
    tinyAesCryptCbc d .decrypt iv (tinyAesCryptCbc e .encrypt iv input).2 =
      ((tinyAesCryptCbc e .encrypt iv input).1, input) := by
  have henc := length_tinyAesCryptEcb e .encrypt
  have hlen := length_tinyAesCryptCbcEncrypt henc (input.length / 16) iv input
  simp only [tinyAesCryptCbc]
  rw [hlen, Nat.mul_div_cancel_left _ (by decide)]
  exact cbc_undo henc (fun b hb => (ofFn_ecbBytes d _).trans (hblock b hb)) hiv (by omega)

/-- **Streams**: what is encrypted in pieces, with the vector left in place between them, is
    decrypted in any other pieces to what was there, and leaves the same vector. -/
theorem tinyAes_streams {keysize nk nr : Nat} (h : KeySize keysize nk nr) (key : Nat → Byte) :
    ∃ e d, tinyAesSetkeyEnc key keysize = some e ∧ tinyAesSetkeyDec key keysize = some d ∧
      (∀ (iv : List Byte) (ps qs : List (List Byte)), iv.length = 16 →
        (∀ p ∈ ps, p.length % 16 = 0) → (∀ q ∈ qs, q.length % 16 = 0) →
        qs.flatten = (inPieces (tinyAesCryptCbc e .encrypt) iv ps).2 →
        inPieces (tinyAesCryptCbc d .decrypt) iv qs =
          ((inPieces (tinyAesCryptCbc e .encrypt) iv ps).1, ps.flatten)) ∧
      ∀ (s : Cfb) (ps qs : List (List Byte)),
        qs.flatten =
          (inPieces (tinyAesCryptCfb128 (tinyAesCryptEcb e .encrypt) .encrypt) s ps).2 →
        inPieces (tinyAesCryptCfb128 (tinyAesCryptEcb e .encrypt) .decrypt) s qs =
          ((inPieces (tinyAesCryptCfb128 (tinyAesCryptEcb e .encrypt) .encrypt) s ps).1,
            ps.flatten) := by
  obtain ⟨e, d, he, hd, -, -, -, hblock⟩ := tinyAes_block h key
  refine ⟨e, d, he, hd, fun iv ps qs hiv hps hqs heq => ?_, fun s ps qs heq => ?_⟩
  · rw [cbc_pieces d .decrypt iv hqs, heq, cbc_pieces e .encrypt iv hps]
    exact tinyAesCryptCbc_undo (fun b hb => (undo_of_standard hblock hb).1) hiv
      (length_flatten_mod hps)
  · rw [cfb_pieces, heq, cfb_pieces, cfb_undo]

/-- Two blocks encrypted at one go and decrypted one after the other, and twenty bytes encrypted from
    offset 5 in two pieces and decrypted at one go. -/
theorem tinyAes_streams_zero : ∃ e d, tinyAesSetkeyEnc (fun _ => 0) 128 = some e ∧
    tinyAesSetkeyDec (fun _ => 0) 128 = some d ∧
    (∃ c, (tinyAesCryptCbc e .encrypt (List.replicate 16 0) (List.replicate 32 7)).2 = c ∧
      (inPieces (tinyAesCryptCbc d .decrypt) (List.replicate 16 0) [c.take 16, c.drop 16]).2 =
        List.replicate 32 7) ∧
    ∃ c, (inPieces (tinyAesCryptCfb128 (tinyAesCryptEcb e .encrypt) .encrypt)
        ⟨5, List.replicate 16 0⟩ [List.replicate 17 7, List.replicate 3 8]).2 = c ∧
      (inPieces (tinyAesCryptCfb128 (tinyAesCryptEcb e .encrypt) .decrypt)
        ⟨5, List.replicate 16 0⟩ [c]).2 = List.replicate 17 7 ++ List.replicate 3 8 := by
  obtain ⟨e, d, he, hd, hcbc, hcfb⟩ := tinyAes_streams .bits128 fun _ => 0
  refine ⟨e, d, he, hd, ⟨_, rfl, ?_⟩, ⟨_, rfl, ?_⟩⟩
  · have hlen : (tinyAesCryptCbc e .encrypt (List.replicate 16 0) (List.replicate 32 7)).2.length =
        32 := by
      show (tinyAesCryptCbcEncrypt _ ((List.replicate 32 7).length / 16) _ _).2.length = 32
      rw [length_tinyAesCryptCbcEncrypt (length_tinyAesCryptEcb e .encrypt), List.length_replicate]
    generalize hc : (tinyAesCryptCbc e .encrypt (List.replicate 16 0) (List.replicate 32 7)).2 = c
      at hlen
    have hblocks : ∀ q ∈ [c.take 16, c.drop 16], q.length % 16 = 0 := by
      intro q hq
      rcases List.mem_pair.mp hq with rfl | rfl
      · rw [List.length_take, hlen]
        rfl
      · rw [List.length_drop, hlen]
    have hrun := hcbc (List.replicate 16 0) [List.replicate 32 7] [c.take 16, c.drop 16]
      List.length_replicate
      (fun p hp => by rw [List.mem_singleton.mp hp, List.length_replicate]) hblocks
      (by
        rw [List.flatten_cons, List.flatten_singleton, List.take_append_drop, ← hc]
        exact (List.append_nil _).symm)
    rw [hrun, List.flatten_singleton]
  · have hrun := hcfb ⟨5, List.replicate 16 0⟩ [List.replicate 17 7, List.replicate 3 8] [_]
      List.flatten_singleton
    rw [hrun, List.flatten_cons, List.flatten_singleton]

end Mh1903.Aes
