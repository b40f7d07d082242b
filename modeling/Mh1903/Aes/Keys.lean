/-
  File:      Mh1903/Aes/Keys.lean
  Subject:   THE SCHEDULE OF ROUND KEYS. Each pass of `tiny_aes_setkey_enc` puts `nk` words more, as
             the standard does one at a time; `tiny_aes_setkey_dec` leaves the same quads in reverse
             order, mixed between the first and the last.
-/
import Mh1903.Aes.Rounds

namespace Mh1903.Aes

/-! ## 1. One word at a time -/

/-- The words as columns. -/
def columns (buf : List Ulong) (i : Nat) : Column := column (buf.getD i 0)

/-- What is added to the word `nk` back. -/
def scheduleWord (nk i : Nat) (before : Ulong) : Ulong :=
  if i % nk = 0 then subRotWord before ^^^ rcon (i / nk - 1)
  else if nk > 6 ∧ i % nk = 4 then subWord before
  else before

/-- One word more. -/
def grow (nk : Nat) (buf : List Ulong) : List Ulong :=
  buf ++ [buf.getD (buf.length - nk) 0 ^^^
    scheduleWord nk buf.length (buf.getD (buf.length - 1) 0)]

theorem length_grow (nk : Nat) (buf : List Ulong) : (grow nk buf).length = buf.length + 1 := by
  rw [grow, List.length_append, List.length_singleton]

theorem columns_append {buf ws : List Ulong} {i : Nat} (h : i < buf.length) :
    columns (buf ++ ws) i = columns buf i := by
  unfold columns
  rw [List.getD_append _ _ _ _ h]

theorem column_rcon {i : Nat} (h : i < 10) : column (rcon i) = roundConstant (i + 1) := by
  have hall : ∀ i < 10, ∀ r : Fin 4, column (rcon i) r = roundConstant (i + 1) r := by
    decide +kernel
  exact funext (hall i h)

theorem column_scheduleWord {nk i : Nat} (h1 : nk ≤ i) (h0 : 0 < nk) (h10 : i < 11 * nk)
    (w : Ulong) : column (scheduleWord nk i w) = schedule tableSBox nk i (column w) := by
  unfold scheduleWord schedule
  split
  · have hdiv : 1 ≤ i / nk := (Nat.one_le_div_iff h0).mpr h1
    have hten : i / nk < 11 := Nat.div_lt_of_lt_mul (by rw [Nat.mul_comm]; exact h10)
    rw [column_xor, column_rcon (by omega), Nat.sub_add_cancel hdiv]
    congr 1
    funext r
    rw [subRotWord, column_word]
    match r with
    | 0 => rfl
    | 1 => rfl
    | 2 => rfl
    | 3 => rfl
  · split
    · funext r
      rw [subWord, column_word]
      match r with
      | 0 => rfl
      | 1 => rfl
      | 2 => rfl
      | 3 => rfl
    · rfl

section Expand

variable {nk : Nat} {key : Nat → Byte} {buf : List Ulong}

theorem expands_keyWords (key : Nat → Byte) (nk : Nat) :
    Expands tableSBox nk key nk (columns (keyWords key nk)) where
  key i hi := by
    funext r
    unfold columns keyWords
    rw [List.getD_eq_getElem _ _ (by rw [List.length_map, List.length_range]; exact hi),
      List.getElem_map, List.getElem_range, column_word]
    match r with
    | 0 => rfl
    | 1 => rfl
    | 2 => rfl
    | 3 => rfl
  next i h1 h2 := absurd h2 (not_lt.mpr h1)

/-- Growing keeps to the schedule. -/
theorem Expands.grow (h : Expands tableSBox nk key buf.length (columns buf)) (h0 : 0 < nk)
    (h1 : nk ≤ buf.length) (h10 : buf.length < 11 * nk) :
    Expands tableSBox nk key (grow nk buf).length (columns (grow nk buf)) where
  key i hi := by
    rw [Aes.grow, columns_append (by omega)]
    exact h.key i hi
  next i hle hlt := by
    rw [length_grow] at hlt
    rw [Aes.grow]
    by_cases hi : i < buf.length
    · rw [columns_append hi, columns_append (by omega), columns_append (by omega)]
      exact h.next i hle hi
    · obtain rfl : i = buf.length := by omega
      rw [columns_append (show buf.length - nk < buf.length by omega),
        columns_append (show buf.length - 1 < buf.length by omega)]
      unfold columns
      rw [List.getD_append_right _ _ _ _ (Nat.le_refl _), Nat.sub_self, List.getD_cons_zero,
        column_xor, column_scheduleWord h1 h0 h10]

/-- Growing many times. -/
theorem Expands.growMany (h : Expands tableSBox nk key buf.length (columns buf)) (h0 : 0 < nk)
    (h1 : nk ≤ buf.length) (n : Nat) (h10 : buf.length + n ≤ 11 * nk) :
    (Nat.iterate (Aes.grow nk) n buf).length = buf.length + n ∧
      Expands tableSBox nk key (buf.length + n) (columns (Nat.iterate (Aes.grow nk) n buf)) := by
  induction n with
  | zero => exact ⟨rfl, h⟩
  | succ n ih =>
      obtain ⟨hlen, hn⟩ := ih (by omega)
      rw [← hlen] at hn
      have hstep := hn.grow h0 (by omega) (by omega)
      rw [Function.iterate_succ_apply']
      rw [length_grow, hlen] at hstep
      exact ⟨by rw [length_grow, hlen]; rfl, hstep⟩

end Expand

/-! ## 2. The passes -/

/-- `n` words of a pass, from the word `t` of it on. -/
def chain (nk : Nat) (rk : Nat → Ulong) : Nat → Nat → Ulong → List Ulong
  | 0, _, _ => []
  | n + 1, t, before =>
      let w := rk t ^^^ (if nk > 6 ∧ t = 4 then subWord before else before)
      w :: chain nk rk n (t + 1) w

section Pass

variable {nk i : Nat} {buf : List Ulong} (h : buf.length = nk * i + nk)
include h

theorem grow_first (h0 : 0 < nk) : grow nk buf = buf ++ [buf.getD (nk * i) 0 ^^^
    (subRotWord (buf.getD (nk * i + (nk - 1)) 0) ^^^ rcon i)] := by
  have hmod : (nk * i + nk) % nk = 0 := by rw [Nat.add_mod_right, Nat.mul_mod_right]
  have hdiv : (nk * i + nk) / nk - 1 = i := by
    rw [Nat.add_div_right _ h0, Nat.mul_div_cancel_left _ h0, Nat.succ_sub_one]
  unfold grow scheduleWord
  rw [h, if_pos hmod, hdiv, Nat.add_sub_cancel, Nat.add_sub_assoc h0]

theorem grow_more (ws : List Ulong) (before : Ulong) (ht : ws.length + 1 < nk) :
    grow nk (buf ++ (ws ++ [before])) = buf ++ (ws ++ [before] ++
      [buf.getD (nk * i + (ws.length + 1)) 0 ^^^
        (if nk > 6 ∧ ws.length + 1 = 4 then subWord before else before)]) := by
  have hlen : (buf ++ (ws ++ [before])).length = nk * i + nk + (ws.length + 1) := by
    rw [List.length_append, List.length_append, h, List.length_singleton]
  have hmod : (nk * i + nk + (ws.length + 1)) % nk = ws.length + 1 := by
    rw [Nat.add_right_comm, Nat.add_mod_right, Nat.mul_add_mod, Nat.mod_eq_of_lt ht]
  have hback : (buf ++ (ws ++ [before])).getD (nk * i + nk + (ws.length + 1) - nk) 0 =
      buf.getD (nk * i + (ws.length + 1)) 0 := by
    rw [show nk * i + nk + (ws.length + 1) - nk = nk * i + (ws.length + 1) by omega]
    exact List.getD_append _ _ _ _ (by omega)
  have hlast : (buf ++ (ws ++ [before])).getD (nk * i + nk + (ws.length + 1) - 1) 0 = before := by
    rw [List.getD_append_right _ _ _ _ (by omega), h,
      show nk * i + nk + (ws.length + 1) - 1 - (nk * i + nk) = ws.length by omega,
      List.getD_append_right _ _ _ _ (Nat.le_refl _), Nat.sub_self]
    rfl
  unfold grow
  rw [hlen, hback, hlast, scheduleWord, hmod, if_neg (Nat.succ_ne_zero _), List.append_assoc]

theorem growMany_eq (n : Nat) (ws : List Ulong) (before : Ulong) (ht : ws.length + 1 + n ≤ nk) :
    Nat.iterate (grow nk) n (buf ++ (ws ++ [before])) = buf ++ (ws ++ [before] ++
      chain nk (fun k => buf.getD (nk * i + k) 0) n (ws.length + 1) before) := by
  induction n generalizing ws before with
  | zero => rw [chain, List.append_nil]; rfl
  | succ n ih =>
      have hlen : (ws ++ [before]).length = ws.length + 1 := List.length_append
      rw [Function.iterate_succ_apply, grow_more h ws before (by omega), ih _ _ (by omega), hlen,
        List.append_assoc (ws ++ [before])]
      rfl

/-- A whole pass. -/
theorem pass_eq (h0 : 0 < nk) {first : Ulong}
    (hfirst : first = buf.getD (nk * i) 0 ^^^
      (subRotWord (buf.getD (nk * i + (nk - 1)) 0) ^^^ rcon i)) :
    Nat.iterate (grow nk) nk buf =
      buf ++ (first :: chain nk (fun k => buf.getD (nk * i + k) 0) (nk - 1) 1 first) := by
  obtain ⟨n, rfl⟩ : ∃ n, nk = n + 1 := ⟨nk - 1, by omega⟩
  rw [Function.iterate_succ_apply, grow_first h h0, ← hfirst]
  exact growMany_eq h n [] first (by rw [List.length_nil]; omega)

end Pass

theorem first_comm (a b c : Ulong) : a ^^^ b ^^^ c = a ^^^ (c ^^^ b) := by ac_rfl

theorem expandPass10_eq {buf : List Ulong} {i : Nat} (h : buf.length = 4 * i + 4) :
    expandPass10 buf i = Nat.iterate (grow 4) 4 buf :=
  (pass_eq h (by decide) (first_comm _ _ _)).symm

theorem expandPass12_eq {buf : List Ulong} {i : Nat} (h : buf.length = 6 * i + 6) :
    expandPass12 buf i = Nat.iterate (grow 6) 6 buf :=
  (pass_eq h (by decide) (first_comm _ _ _)).symm

theorem expandPass14_eq {buf : List Ulong} {i : Nat} (h : buf.length = 8 * i + 8) :
    expandPass14 buf i = Nat.iterate (grow 8) 8 buf :=
  (pass_eq h (by decide) (first_comm _ _ _)).symm

/-- **All passes** keep to the schedule. -/
theorem passes_expand {nk : Nat} {pass : List Ulong → Nat → List Ulong} (key : Nat → Byte)
    (h0 : 0 < nk) (hpass : ∀ (buf : List Ulong) (i : Nat), buf.length = nk * i + nk →
      pass buf i = Nat.iterate (grow nk) nk buf) (n : Nat) (hn : n ≤ 10) :
    ((List.range n).foldl pass (keyWords key nk)).length = nk * n + nk ∧
      Expands tableSBox nk key (nk * n + nk)
        (columns ((List.range n).foldl pass (keyWords key nk))) := by
  induction n with
  | zero =>
      rw [Nat.mul_zero, Nat.zero_add]
      exact ⟨(List.length_map ..).trans List.length_range, expands_keyWords key nk⟩
  | succ n ih =>
      obtain ⟨hlen, hexp⟩ := ih (by omega)
      have hroom : nk * n + nk + nk ≤ 11 * nk := by
        have hmul := Nat.mul_le_mul_left nk (show n ≤ 9 by omega)
        omega
      rw [List.range_succ, List.foldl_append, List.foldl_cons, List.foldl_nil, hpass _ _ hlen]
      rw [← hlen] at hexp
      have hmany := hexp.growMany h0 (by rw [hlen]; omega) nk (by rw [hlen]; exact hroom)
      rw [hlen] at hmany
      rwa [Nat.mul_succ]

/-! ## 3. Both schedules -/

/-- The sizes of a key, in bits and in words, and the rounds that go with it. -/
inductive KeySize : Nat → Nat → Nat → Prop
  | bits128 : KeySize 128 4 10
  | bits192 : KeySize 192 6 12
  | bits256 : KeySize 256 8 14

theorem Expands.mono {S : SBox} {nk m n : Nat} {key : Nat → Byte} {w : Nat → Column}
    (h : Expands S nk key n w) (hm : m ≤ n) : Expands S nk key m w :=
  ⟨h.key, fun i h1 h2 => h.next i h1 (by omega)⟩

/-- **The encryption keys** are those of the standard, and they fit the context. -/
theorem tinyAesSetkeyEnc_expands {keysize nk nr : Nat} (h : KeySize keysize nk nr)
    (key : Nat → Byte) :
    ∃ e, tinyAesSetkeyEnc key keysize = some e ∧ e.nr = nr ∧ e.buf.length ≤ 68 ∧
      Expands tableSBox nk key (4 * (nr + 1)) (columns e.buf) := by
  cases h with
  | bits128 =>
      obtain ⟨hlen, hexp⟩ :=
        passes_expand key (by decide) (fun _ _ => expandPass10_eq) 10 (by decide)
      exact ⟨_, rfl, rfl, hlen.trans_le (by decide), hexp⟩
  | bits192 =>
      obtain ⟨hlen, hexp⟩ :=
        passes_expand key (by decide) (fun _ _ => expandPass12_eq) 8 (by decide)
      exact ⟨_, rfl, rfl, hlen.trans_le (by decide), hexp.mono (by decide)⟩
  | bits256 =>
      obtain ⟨hlen, hexp⟩ :=
        passes_expand key (by decide) (fun _ _ => expandPass14_eq) 7 (by decide)
      exact ⟨_, rfl, rfl, hlen.trans_le (by decide), hexp.mono (by decide)⟩

/-- **The decryption keys** are the quads of the encryption from the last to the first, mixed
    between them. -/
theorem tinyAesSetkeyDec_quads {key : Nat → Byte} {keysize : Nat} {e : TinyAesContext}
    (he : tinyAesSetkeyEnc key keysize = some e) (h1 : 1 ≤ e.nr) :
    ∃ d, tinyAesSetkeyDec key keysize = some d ∧ d.nr = e.nr ∧ d.buf.length = 4 * (e.nr + 1) ∧
      quadAt d.buf 0 = quadAt e.buf (4 * e.nr) ∧
      quadsFrom d.buf 4 (e.nr - 1) = (quadsFrom e.buf 4 (e.nr - 1)).reverse.map unmixQuad ∧
      quadAt d.buf (4 * e.nr) = quadAt e.buf 0 := by
  have hqs : ((quadsFrom e.buf 4 (e.nr - 1)).reverse.map unmixQuad).length = e.nr - 1 := by
    rw [List.length_map, List.length_reverse, quadsFrom_eq_map, List.length_map, List.length_range]
  have hwords : ∀ qs : List Quad, (qs.flatMap Quad.words).length = 4 * qs.length := by
    intro qs
    induction qs with
    | nil => rfl
    | cons q qs ih =>
        rw [List.flatMap_cons, List.length_append, ih, List.length_cons, Quad.words]
        simp only [List.length_cons, List.length_nil]
        omega
  obtain ⟨hmid, hlast⟩ := quadsFrom_flatMap
    ((quadsFrom e.buf 4 (e.nr - 1)).reverse.map unmixQuad) (quadAt e.buf 0).words
  rw [hqs] at hmid hlast
  have hd : tinyAesSetkeyDec key keysize = some ⟨e.nr, (quadAt e.buf (4 * e.nr)).words ++
      unmixKeys e.buf (e.nr - 1) (4 * (e.nr - 1)) ++ (quadAt e.buf 0).words⟩ := by
    unfold tinyAesSetkeyDec
    rw [he]
  refine ⟨_, hd, rfl, ?_, ?_, ?_, ?_⟩
  · rw [List.length_append, List.length_append, unmixKeys_eq, hwords, hqs]
    simp only [Quad.words, List.length_cons, List.length_nil]
    omega
  · rw [List.append_assoc, quadAt_words]
  · rw [List.append_assoc, unmixKeys_eq]
    exact (quadsFrom_add _ _ 0 _).trans hmid
  · rw [List.append_assoc, unmixKeys_eq, show 4 * e.nr = 4 * (e.nr - 1) + 4 by omega, quadAt_add]
    exact hlast

end Mh1903.Aes
