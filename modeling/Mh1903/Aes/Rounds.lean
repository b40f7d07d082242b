/-
  File:      Mh1903/Aes/Rounds.lean
  Subject:   ROUNDS BY TABLE LOOKUP. A round of the source is a round of the standard on the state
             that four words are; so a block passes the rounds of the standard, over the quads of
             round keys that lie in the context.
-/
import Mh1903.Aes.Tables

namespace Mh1903.Aes

open Library

/-! ## 1. Four words as a state -/

def Quad.get (q : Quad) (j : Fin 4) : Ulong := [q.x0, q.x1, q.x2, q.x3].getD j.val 0

def Quad.state (q : Quad) : State := fun j => column (q.get j)

/-- Two states that agree column for column. -/
theorem state_ext {s t : State} (h0 : s 0 = t 0) (h1 : s 1 = t 1) (h2 : s 2 = t 2)
    (h3 : s 3 = t 3) : s = t := by
  funext j
  match j with
  | 0 => exact h0
  | 1 => exact h1
  | 2 => exact h2
  | 3 => exact h3

theorem Quad.state_xor (x k : Quad) : (x.xor k).state = addRoundKey k.state x.state := by
  have hcol : ∀ a b : Ulong, column (a ^^^ b) = addColumn (column b) (column a) := fun a b => by
    rw [BitVec.xor_comm, column_xor]
  exact state_ext (hcol _ _) (hcol _ _) (hcol _ _) (hcol _ _)

/-! ## 2. One round -/

/-- A column behind the move of the rows: one byte of each of four columns. -/
theorem shiftRows_column (sub : Byte → Byte) (q : Quad) (j : Fin 4) :
    (fun r => sub (q.state (j + r) r)) = fun r => sub ([byteOf 0 (q.get j),
      byteOf 1 (q.get (j + 1)), byteOf 2 (q.get (j + 2)), byteOf 3 (q.get (j + 3))].getD r.val 0) := by
  funext r
  match r with
  | 0 => rw [Fin.add_zero]; rfl
  | 1 => rfl
  | 2 => rfl
  | 3 => rfl

theorem invShiftRows_column (sub : Byte → Byte) (q : Quad) (j : Fin 4) :
    (fun r => sub (q.state (j - r) r)) = fun r => sub ([byteOf 0 (q.get j),
      byteOf 1 (q.get (j - 1)), byteOf 2 (q.get (j - 2)), byteOf 3 (q.get (j - 3))].getD r.val 0) := by
  funext r
  match r with
  | 0 => rw [(by decide : ∀ j : Fin 4, j - 0 = j) j]; rfl
  | 1 => rfl
  | 2 => rfl
  | 3 => rfl

theorem fround_column (k : Ulong) (b0 b1 b2 b3 : Byte) :
    column (k ^^^ fT0 b0 ^^^ fT1 b1 ^^^ fT2 b2 ^^^ fT3 b3) =
      addColumn (column k) (mixColumn fun r => fSb ([b0, b1, b2, b3].getD r.val 0)) := by
  rw [← column_fT, ← column_xor]
  congr 1
  ac_rfl

theorem rround_column (k : Ulong) (b0 b1 b2 b3 : Byte) :
    column (k ^^^ rT0 b0 ^^^ rT1 b1 ^^^ rT2 b2 ^^^ rT3 b3) =
      addColumn (column k) (invMixColumn fun r => rSb ([b0, b1, b2, b3].getD r.val 0)) := by
  rw [← column_rT, ← column_xor]
  congr 1
  ac_rfl

theorem last_column (sub : Byte → Byte) (k : Ulong) (b0 b1 b2 b3 : Byte) :
    column (k ^^^ word (sub b0) (sub b1) (sub b2) (sub b3)) =
      addColumn (column k) fun r => sub ([b0, b1, b2, b3].getD r.val 0) := by
  rw [column_xor]
  congr 1
  funext r
  rw [column_word]
  match r with
  | 0 => rfl
  | 1 => rfl
  | 2 => rfl
  | 3 => rfl

/-- `AES_FROUND` -/
theorem state_aesFround (rk y : Quad) :
    (aesFround rk y).state = (forward tableSBox).round y.state rk.state := by
  have hcol : ∀ j, addColumn (rk.state j) (mixColumn fun r => fSb ([byteOf 0 (y.get j),
      byteOf 1 (y.get (j + 1)), byteOf 2 (y.get (j + 2)), byteOf 3 (y.get (j + 3))].getD r.val 0)) =
      (forward tableSBox).round y.state rk.state j := fun j => by
    rw [← shiftRows_column]
    rfl
  exact state_ext ((fround_column ..).trans (hcol 0)) ((fround_column ..).trans (hcol 1))
    ((fround_column ..).trans (hcol 2)) ((fround_column ..).trans (hcol 3))

/-- `AES_RROUND` -/
theorem state_aesRround (rk y : Quad) :
    (aesRround rk y).state = (backward tableSBox).round y.state rk.state := by
  have hcol : ∀ j, addColumn (rk.state j) (invMixColumn fun r => rSb ([byteOf 0 (y.get j),
      byteOf 1 (y.get (j - 1)), byteOf 2 (y.get (j - 2)), byteOf 3 (y.get (j - 3))].getD r.val 0)) =
      (backward tableSBox).round y.state rk.state j := fun j => by
    rw [← invShiftRows_column]
    rfl
  exact state_ext ((rround_column ..).trans (hcol 0)) ((rround_column ..).trans (hcol 1))
    ((rround_column ..).trans (hcol 2)) ((rround_column ..).trans (hcol 3))

theorem state_lastFround (rk y : Quad) : (lastFround rk y).state =
    addRoundKey rk.state (shiftRows (subBytes tableSBox y.state)) := by
  have hcol : ∀ j, addColumn (rk.state j) (fun r => fSb ([byteOf 0 (y.get j),
      byteOf 1 (y.get (j + 1)), byteOf 2 (y.get (j + 2)), byteOf 3 (y.get (j + 3))].getD r.val 0)) =
      addRoundKey rk.state (shiftRows (subBytes tableSBox y.state)) j := fun j => by
    rw [← shiftRows_column]
    rfl
  exact state_ext ((last_column fSb ..).trans (hcol 0)) ((last_column fSb ..).trans (hcol 1))
    ((last_column fSb ..).trans (hcol 2)) ((last_column fSb ..).trans (hcol 3))

theorem state_lastRround (rk y : Quad) : (lastRround rk y).state =
    addRoundKey rk.state (invShiftRows (invSubBytes tableSBox y.state)) := by
  have hcol : ∀ j, addColumn (rk.state j) (fun r => rSb ([byteOf 0 (y.get j),
      byteOf 1 (y.get (j - 1)), byteOf 2 (y.get (j - 2)), byteOf 3 (y.get (j - 3))].getD r.val 0)) =
      addRoundKey rk.state (invShiftRows (invSubBytes tableSBox y.state)) j := fun j => by
    rw [← invShiftRows_column]
    rfl
  exact state_ext ((last_column rSb ..).trans (hcol 0)) ((last_column rSb ..).trans (hcol 1))
    ((last_column rSb ..).trans (hcol 2)) ((last_column rSb ..).trans (hcol 3))

/-! ## 3. All rounds -/

/-- `n` quads of `buf`, from `rk` on. -/
def quadsFrom (buf : List Ulong) : Nat → Nat → List Quad
  | _, 0 => []
  | rk, n + 1 => quadAt buf rk :: quadsFrom buf (rk + 4) n

theorem quadsFrom_succ (buf : List Ulong) (rk n : Nat) :
    quadsFrom buf rk (n + 1) = quadsFrom buf rk n ++ [quadAt buf (rk + 4 * n)] := by
  induction n generalizing rk with
  | zero => rfl
  | succ n ih =>
      rw [quadsFrom, ih, quadsFrom, List.cons_append, show rk + 4 * (n + 1) = rk + 4 + 4 * n by omega]

theorem quadsFrom_eq_map (buf : List Ulong) (rk n : Nat) :
    quadsFrom buf rk n = (List.range n).map fun i => quadAt buf (rk + 4 * i) := by
  induction n with
  | zero => rfl
  | succ n ih => rw [quadsFrom_succ, ih, List.range_succ, List.map_append]; rfl

/-- The passes of two rounds take the quads one behind the other. -/
theorem roundPairs_eq (round : Quad → Quad → Quad) (buf : List Ulong) (i rk : Nat) (x : Quad) :
    roundPairs round buf i rk x =
      (rk + 8 * i, (quadsFrom buf rk (2 * i)).foldl (fun y k => round k y) x) := by
  induction i generalizing rk x with
  | zero => rfl
  | succ i ih =>
      show roundPairs round buf i (rk + 8) _ = _
      rw [ih, show rk + 8 + 8 * i = rk + 8 * (i + 1) by omega]
      rfl

/-- What takes rounds to rounds takes many to many. -/
theorem state_foldl {round : Quad → Quad → Quad} {L : Layers State}
    (h : ∀ k y, (round k y).state = L.round y.state k.state) (ks : List Quad) (x : Quad) :
    (ks.foldl (fun y k => round k y) x).state =
      (ks.map Quad.state).foldl L.round x.state := by
  induction ks generalizing x with
  | nil => rfl
  | cons k ks ih => rw [List.foldl_cons, ih, h, List.map_cons, List.foldl_cons]

/-! ## 4. Blocks -/

/-- The input of the standard: column for column. -/
def stateOf (bytes : List Byte) : State := fun j r => bytes.getD (4 * j.val + r.val) 0

theorem state_getBlock (input : List Byte) : (getBlock input).state = stateOf input := by
  have hcol : ∀ i, (column (word (input.getD i 0) (input.getD (i + 1) 0) (input.getD (i + 2) 0)
      (input.getD (i + 3) 0))) = fun r : Fin 4 => input.getD (i + r.val) 0 := fun i => by
    funext r
    rw [column_word]
    match r with
    | 0 => rfl
    | 1 => rfl
    | 2 => rfl
    | 3 => rfl
  exact state_ext (hcol 0) (hcol 4) (hcol 8) (hcol 12)

theorem length_putBlock (q : Quad) : (putBlock q).length = 16 := rfl

theorem stateOf_putBlock (q : Quad) : stateOf (putBlock q) = q.state := by
  funext j r
  match j, r with
  | 0, 0 => rfl
  | 0, 1 => rfl
  | 0, 2 => rfl
  | 0, 3 => rfl
  | 1, 0 => rfl
  | 1, 1 => rfl
  | 1, 2 => rfl
  | 1, 3 => rfl
  | 2, 0 => rfl
  | 2, 1 => rfl
  | 2, 2 => rfl
  | 2, 3 => rfl
  | 3, 0 => rfl
  | 3, 1 => rfl
  | 3, 2 => rfl
  | 3, 3 => rfl

/-- Blocks with one state are one block. -/
theorem stateOf_inj {a b : List Byte} (ha : a.length = 16) (hb : b.length = 16)
    (h : stateOf a = stateOf b) : a = b := by
  refine List.ext_getElem (ha.trans hb.symm) fun i h₁ h₂ => ?_
  have hi : 4 * (i / 4) + i % 4 = i := Nat.div_add_mod i 4
  have hbyte := congrFun (congrFun h ⟨i / 4, by omega⟩) ⟨i % 4, Nat.mod_lt _ (by decide)⟩
  simp only [stateOf, hi] at hbyte
  rwa [List.getD_eq_getElem _ _ h₁, List.getD_eq_getElem _ _ h₂] at hbyte

/-- **Encryption of a block**, over `2 * n + 2` rounds. -/
theorem stateOf_encrypt {ctx : TinyAesContext} {n : Nat} (hnr : ctx.nr = 2 * n + 2)
    (input : List Byte) :
    stateOf (tinyAesCryptEcb ctx .encrypt input) = (forward tableSBox).run
      (quadAt ctx.buf 0).state ((quadsFrom ctx.buf 4 (ctx.nr - 1)).map Quad.state)
      (quadAt ctx.buf (4 * ctx.nr)).state (stateOf input) := by
  have hpairs : (ctx.nr >>> 1) - 1 = n := by rw [Nat.shiftRight_eq_div_pow]; omega
  unfold tinyAesCryptEcb
  simp only [hpairs, roundPairs_eq]
  rw [stateOf_putBlock, state_lastFround, state_aesFround, state_foldl state_aesFround,
    Quad.state_xor, state_getBlock, show ctx.nr - 1 = 2 * n + 1 by omega, quadsFrom_succ,
    List.map_append, Layers.run, List.foldl_append, show 4 + 8 * n = 4 + 4 * (2 * n) by omega,
    show 4 * ctx.nr = 4 + 4 * (2 * n) + 4 by omega]
  rfl

/-- **Decryption of a block**. -/
theorem stateOf_decrypt {ctx : TinyAesContext} {n : Nat} (hnr : ctx.nr = 2 * n + 2)
    (input : List Byte) :
    stateOf (tinyAesCryptEcb ctx .decrypt input) = (backward tableSBox).run
      (quadAt ctx.buf 0).state ((quadsFrom ctx.buf 4 (ctx.nr - 1)).map Quad.state)
      (quadAt ctx.buf (4 * ctx.nr)).state (stateOf input) := by
  have hpairs : (ctx.nr >>> 1) - 1 = n := by rw [Nat.shiftRight_eq_div_pow]; omega
  unfold tinyAesCryptEcb
  simp only [hpairs, roundPairs_eq]
  rw [stateOf_putBlock, state_lastRround, state_aesRround, state_foldl state_aesRround,
    Quad.state_xor, state_getBlock, show ctx.nr - 1 = 2 * n + 1 by omega, quadsFrom_succ,
    List.map_append, Layers.run, List.foldl_append, show 4 + 8 * n = 4 + 4 * (2 * n) by omega,
    show 4 * ctx.nr = 4 + 4 * (2 * n) + 4 by omega]
  rfl

theorem length_tinyAesCryptEcb (ctx : TinyAesContext) (mode : Mode) (input : List Byte) :
    (tinyAesCryptEcb ctx mode input).length = 16 := by
  unfold tinyAesCryptEcb
  cases mode with
  | decrypt => exact length_putBlock _
  | encrypt => exact length_putBlock _

/-! ## 5. The keys of a decryption -/

theorem quadAt_words (q : Quad) (rest : List Ulong) : quadAt (q.words ++ rest) 0 = q := rfl

theorem quadAt_add (q : Quad) (rest : List Ulong) (rk : Nat) :
    quadAt (q.words ++ rest) (rk + 4) = quadAt rest rk := by
  have hget : ∀ k, (q.words ++ rest).getD (k + 4) 0 = rest.getD k 0 := fun k => by
    rw [List.getD_append_right _ _ _ _ (by show 4 ≤ k + 4; omega)]
    rfl
  simp only [quadAt, show rk + 4 + 1 = rk + 1 + 4 by omega, show rk + 4 + 2 = rk + 2 + 4 by omega,
    show rk + 4 + 3 = rk + 3 + 4 by omega, hget]

theorem quadsFrom_add (q : Quad) (rest : List Ulong) (rk n : Nat) :
    quadsFrom (q.words ++ rest) (rk + 4) n = quadsFrom rest rk n := by
  induction n generalizing rk with
  | zero => rfl
  | succ n ih => rw [quadsFrom, quadsFrom, quadAt_add, ih]

theorem quadsFrom_flatMap (qs : List Quad) (rest : List Ulong) :
    quadsFrom (qs.flatMap Quad.words ++ rest) 0 qs.length = qs ∧
      quadAt (qs.flatMap Quad.words ++ rest) (4 * qs.length) = quadAt rest 0 := by
  induction qs with
  | nil => exact ⟨rfl, rfl⟩
  | cons q qs ih =>
      rw [List.flatMap_cons, List.append_assoc, List.length_cons, quadsFrom, quadAt_words,
        quadsFrom_add, ih.1, Nat.mul_succ, quadAt_add, ih.2]
      exact ⟨rfl, rfl⟩

/-- The loop of `tiny_aes_setkey_dec` goes from quad `i` down to quad 1. -/
theorem unmixKeys_eq (buf : List Ulong) (i : Nat) :
    unmixKeys buf i (4 * i) = ((quadsFrom buf 4 i).reverse.map unmixQuad).flatMap Quad.words := by
  induction i with
  | zero => rfl
  | succ i ih =>
      rw [unmixKeys, show 4 * (i + 1) - 4 = 4 * i by omega, ih, quadsFrom_succ, List.reverse_append,
        show 4 * (i + 1) = 4 + 4 * i by omega]
      rfl

theorem state_unmixQuad (q : Quad) : (unmixQuad q).state = invMixColumns q.state := by
  have hcol : ∀ w, column (unmixWord w) = invMixColumn (column w) := fun w => by
    rw [unmixWord, column_rT]
    congr 1
    funext r
    match r with
    | 0 => exact rSb_fSb _
    | 1 => exact rSb_fSb _
    | 2 => exact rSb_fSb _
    | 3 => exact rSb_fSb _
  exact state_ext (hcol _) (hcol _) (hcol _) (hcol _)

end Mh1903.Aes
