/-
  File:      Mh1903/Copy/Stream.lean
  Subject:   THE BODY AS ONE STREAM. The vector stays in place from chunk to chunk, so decrypting a
             body chunk by chunk is decrypting it at once; what lies behind the last chunk that
             counts does not matter.
-/
import Mh1903.Copy.Chunk
import Mh1903.Verify.Exact

namespace Mh1903

open Library

/-! ## 1. Decryption over an append -/

/-- The cipher takes as many bytes as it has blocks. -/
theorem tinyAesCryptCbc_take (ecb : List Byte → Fin 16 → Byte) (n : Nat) (iv input rest : List Byte)
    (h : 16 * n ≤ input.length) :
    tinyAesCryptCbc ecb n iv (input ++ rest) = tinyAesCryptCbc ecb n iv input := by
  induction n generalizing iv input with
  | zero => rfl
  | succ n ih =>
      have htake : (input ++ rest).take 16 = input.take 16 :=
        List.take_append_of_le_length (by omega)
      have hdrop : (input ++ rest).drop 16 = input.drop 16 ++ rest :=
        List.drop_append_of_le_length (by omega)
      simp only [tinyAesCryptCbc]
      rw [htake, hdrop, ih _ _ (by rw [List.length_drop]; omega)]

/-- The blocks behind the first `n` start with the vector these leave. -/
theorem tinyAesCryptCbc_add (ecb : List Byte → Fin 16 → Byte) (n m : Nat) (iv input : List Byte) :
    tinyAesCryptCbc ecb (n + m) iv input =
      ((tinyAesCryptCbc ecb m (tinyAesCryptCbc ecb n iv input).1 (input.drop (16 * n))).1,
        (tinyAesCryptCbc ecb n iv input).2 ++
          (tinyAesCryptCbc ecb m (tinyAesCryptCbc ecb n iv input).1 (input.drop (16 * n))).2) := by
  induction n generalizing iv input with
  | zero => simp [tinyAesCryptCbc]
  | succ n ih =>
      have hadd : n + 1 + m = n + m + 1 := by omega
      have hdrop : (input.drop 16).drop (16 * n) = input.drop (16 * (n + 1)) := by
        rw [List.drop_drop]
        congr 1
        omega
      rw [hadd]
      simp only [tinyAesCryptCbc]
      rw [ih, hdrop, List.append_assoc]

/-- **Decrypting on**: the rest of the bytes under the vector the first ones leave. -/
theorem decodeChunk_append (env : Env) (aesIv : Option (List Byte)) {bs : List Byte}
    (h : bs.length % 16 = 0) (cs : List Byte) :
    decodeChunk env aesIv (bs ++ cs) =
      ((decodeChunk env (decodeChunk env aesIv bs).1 cs).1,
        (decodeChunk env aesIv bs).2 ++ (decodeChunk env (decodeChunk env aesIv bs).1 cs).2) := by
  cases aesIv with
  | none => rfl
  | some iv =>
      have hblocks : (bs ++ cs).length / 16 = bs.length / 16 + cs.length / 16 := by
        rw [List.length_append]
        omega
      have hbs : 16 * (bs.length / 16) = bs.length := by omega
      have hfront := tinyAesCryptCbc_take env.tinyAesCryptEcb (bs.length / 16) iv bs cs (by omega)
      simp only [decodeChunk]
      rw [hblocks, tinyAesCryptCbc_add, hfront, hbs, List.drop_left]

/-! ## 2. The decrypted body -/

/-- Vector and bytes after the first `n` bytes of the body. -/
def decodedBody (env : Env) (flash : Flash) (part : FalPartition) (aesIv : Option (List Byte))
    (n : Nat) : Option (List Byte) × List Byte :=
  decodeChunk env aesIv (readFlash flash (part.bodyAddr 0) n)

section Body

variable {env : Env} {flash : Flash} {part : FalPartition} {aesIv : Option (List Byte)}

theorem decodedBody_zero : decodedBody env flash part aesIv 0 = (aesIv, []) := by
  cases aesIv with
  | none => rfl
  | some iv => simp [decodedBody, decodeChunk, tinyAesCryptCbc]

/-- The body read on. -/
theorem decodedBody_add {n : Nat} (hn : n % 16 = 0) (m : Nat) :
    decodedBody env flash part aesIv (n + m) =
      ((decodeChunk env (decodedBody env flash part aesIv n).1
          (readFlash flash (part.bodyAddr n) m)).1,
        (decodedBody env flash part aesIv n).2 ++
          (decodeChunk env (decodedBody env flash part aesIv n).1
            (readFlash flash (part.bodyAddr n) m)).2) := by
  have hsplit : readFlash flash (part.bodyAddr 0) (n + m) =
      readFlash flash (part.bodyAddr 0) n ++ readFlash flash (part.bodyAddr n) m := by
    rw [← readFlash_append, ← part.bodyAddr_add, Nat.zero_add]
  unfold decodedBody
  rw [hsplit]
  exact decodeChunk_append env aesIv (by rw [length_readFlash]; exact hn) _

theorem decodedBody_length (hiv : IvOk aesIv) {n : Nat} (hn : aesIv = none ∨ n % 16 = 0) :
    IvOk (decodedBody env flash part aesIv n).1 ∧
      (decodedBody env flash part aesIv n).2.length = n := by
  cases aesIv with
  | none => exact ⟨(fun _ h => by cases h), length_readFlash _ _ _⟩
  | some iv =>
      have hn : n % 16 = 0 := hn.resolve_left (by simp)
      have hlen := length_readFlash flash (part.bodyAddr 0) n
      unfold decodedBody
      generalize readFlash flash (part.bodyAddr 0) n = bs at hlen
      have hblocks : 16 * (bs.length / 16) = n := by omega
      obtain ⟨h₁, h₂⟩ := tinyAesCryptCbc_length env.tinyAesCryptEcb (hiv iv rfl)
        (hblocks.trans hlen.symm).le
      refine ⟨fun iv' h => ?_, ?_⟩
      · cases h
        exact h₁
      · exact h₂.trans hblocks

/-- Reading further does not change what was read. -/
theorem decodedBody_take (hiv : IvOk aesIv) {n : Nat} (hn : aesIv = none ∨ n % 16 = 0) {m : Nat}
    (h : n ≤ m) :
    (decodedBody env flash part aesIv m).2.take n = (decodedBody env flash part aesIv n).2 := by
  obtain ⟨k, rfl⟩ := Nat.exists_eq_add_of_le h
  cases aesIv with
  | none =>
      show (readFlash flash (part.bodyAddr 0) (n + k)).take n = _
      exact take_readFlash h
  | some iv =>
      have hn : n % 16 = 0 := hn.resolve_left (by simp)
      have hlen := (@decodedBody_length env flash part (some iv) hiv n (.inr hn)).2
      rw [decodedBody_add hn, List.take_left' hlen]

/-- The body depends on the flash of its partition only. -/
theorem readFlash_body_congr {f g : Flash} (hp : part.Ok)
    (hfg : ∀ a, part.Covers a → f a = g a) {n m : Nat} (h : sizeofPartHead + n + m ≤ part.len) :
    readFlash f (part.bodyAddr n) m = readFlash g (part.bodyAddr n) m := by
  have hbase := hp.base_lt
  simp only [FalPartition.bodyAddr, sizeofPartHead] at h ⊢
  exact readFlash_congr (by omega) fun a h₁ h₂ => hfg a ⟨by omega, by omega⟩

end Body

end Mh1903
