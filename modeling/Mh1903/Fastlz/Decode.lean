/-
  File:      Mh1903/Fastlz/Decode.lean
  Subject:   WHAT THE DECOMPRESSOR DOES. On any input it stays inside its output and copies only
             what it has put; on the encoding of tokens it puts what they expand to.
-/
import Mh1903.Model.Fastlz

namespace Mh1903.Fastlz

open Library

/-! ## 1. Input -/

/-- `bs` lies in the input from `pos` on. -/
def Holds (src : Nat → Byte) : Nat → List Byte → Prop
  | _, [] => True
  | pos, b :: bs => src pos = b ∧ Holds src (pos + 1) bs

theorem holds_append {src : Nat → Byte} {pos : Nat} {bs cs : List Byte} :
    Holds src pos (bs ++ cs) ↔ Holds src pos bs ∧ Holds src (pos + bs.length) cs := by
  induction bs generalizing pos with
  | nil => exact ⟨fun h => ⟨trivial, h⟩, fun h => h.2⟩
  | cons b bs ih =>
      have hlen : pos + (b :: bs).length = pos + 1 + bs.length := by
        rw [List.length_cons]
        omega
      rw [hlen]
      exact ⟨fun ⟨h₁, h₂⟩ => ⟨⟨h₁, (ih.mp h₂).1⟩, (ih.mp h₂).2⟩,
        fun ⟨⟨h₁, h₂⟩, h₃⟩ => ⟨h₁, ih.mpr ⟨h₂, h₃⟩⟩⟩

theorem Holds.map_range {src : Nat → Byte} {pos : Nat} {bs : List Byte} (h : Holds src pos bs) :
    ((List.range bs.length).map fun i => src (pos + i)) = bs := by
  induction bs generalizing pos with
  | nil => rfl
  | cons b bs ih =>
      have hrest := ih h.2
      rw [List.length_cons, List.range_succ_eq_map, List.map_cons, List.map_map, Nat.add_zero, h.1]
      refine congrArg (b :: ·) (Eq.trans (List.map_congr_left fun i _ => ?_) hrest)
      show src (pos + (i + 1)) = src (pos + 1 + i)
      rw [Nat.add_assoc, Nat.add_comm 1]

theorem holds_of {src : Nat → Byte} {pos : Nat} {bs : List Byte}
    (h : ∀ i < bs.length, src (pos + i) = bs.getD i 0) : Holds src pos bs := by
  induction bs generalizing pos with
  | nil => trivial
  | cons b bs ih =>
      refine ⟨h 0 (Nat.succ_pos _), ih fun i hi => ?_⟩
      have hnext := h (i + 1) (Nat.succ_lt_succ hi)
      rw [Nat.add_assoc, Nat.add_comm 1]
      exact hnext

/-! ## 2. Reading a match -/

theorem lenLoop_further {src : Nat → Byte} {fuel ip len ip' len' : Nat}
    (h : lenLoop src fuel ip len = some (ip', len')) : ip < ip' := by
  induction fuel generalizing ip len with
  | zero => cases h
  | succ fuel ih =>
      unfold lenLoop at h
      simp only at h
      split at h
      · exact Nat.lt_of_succ_lt (ih h)
      · cases h
        exact Nat.lt_succ_self _

/-- The length ends with the first byte that is not 255. -/
theorem lenLoop_returns {src : Nat → Byte} {fuel ip : Nat} (len : Nat)
    (h : ∃ j < fuel, src (ip + j) ≠ 255) : ∃ r, lenLoop src fuel ip len = some r := by
  induction fuel generalizing ip len with
  | zero =>
      obtain ⟨j, hj, -⟩ := h
      exact absurd hj (Nat.not_lt_zero _)
  | succ fuel ih =>
      obtain ⟨j, hj, hne⟩ := h
      unfold lenLoop
      simp only
      split
      · rename_i hcode
        refine ih _ ?_
        cases j with
        | zero => exact absurd (BitVec.eq_of_toNat_eq (y := 255) hcode) hne
        | succ j =>
            refine ⟨j, Nat.lt_of_succ_lt_succ hj, ?_⟩
            rw [Nat.add_assoc, Nat.add_comm 1]
            exact hne
      · exact ⟨_, rfl⟩

/-- A run of fewer than `n` bytes 255 adds fewer than `255 * n`. -/
theorem lenLoop_le {src : Nat → Byte} {fuel n ip len ip' len' : Nat}
    (hrun : ∃ j < n, src (ip + j) ≠ 255) (h : lenLoop src fuel ip len = some (ip', len')) :
    len' < len + 255 * n ∧ ip' ≤ ip + n := by
  induction fuel generalizing ip len n with
  | zero => cases h
  | succ fuel ih =>
      obtain ⟨j, hj, hne⟩ := hrun
      have hbyte := (src ip).isLt
      unfold lenLoop at h
      simp only at h
      split at h
      · rename_i hcode
        cases j with
        | zero => exact absurd (BitVec.eq_of_toNat_eq (y := 255) hcode) hne
        | succ j =>
            obtain ⟨n, rfl⟩ := Nat.exists_eq_add_one_of_ne_zero (show n ≠ 0 by omega)
            have hrest : ∃ j < n, src (ip + 1 + j) ≠ 255 :=
              ⟨j, by omega, by rwa [Nat.add_assoc, Nat.add_comm 1]⟩
            obtain ⟨hlen, hip⟩ := ih hrest h
            omega
      · rename_i hcode
        have hcode : (src ip).toNat ≠ 255 := hcode
        cases h
        omega

/-- **A match is not longer than its run of bytes 255 makes it.** -/
theorem readMatch_le {level : Level} {src : Nat → Byte} {ctrl ip n : Nat} {m : Match}
    (hctrl : ctrl < 256) (hn : 1 ≤ n) (hrun : level = .two → ∃ j < n, src (ip + j) ≠ 255)
    (h : readMatch level src ctrl ip = some m) : m.len < 6 + 255 * n + 1 ∧ m.ip ≤ ip + n + 3 := by
  have hhigh : (ctrl >>> 5) - 1 ≤ 6 := by
    rw [Nat.shiftRight_eq_div_pow]
    omega
  have hbyte := (src ip).isLt
  cases level with
  | one =>
      unfold readMatch at h
      simp only at h
      split at h
      · cases h
        show (ctrl >>> 5) - 1 + (src ip).toNat < 6 + 255 * n + 1 ∧ ip + 1 + 1 ≤ ip + n + 3
        omega
      · cases h
        show (ctrl >>> 5) - 1 < 6 + 255 * n + 1 ∧ ip + 1 ≤ ip + n + 3
        omega
  | two =>
      have hlen : ∀ r, (if (ctrl >>> 5) - 1 = 7 - 1 then
          lenLoop src lenFuel ip ((ctrl >>> 5) - 1) else some (ip, (ctrl >>> 5) - 1)) = some r →
          r.2 < 6 + 255 * n + 1 ∧ r.1 ≤ ip + n := by
        intro r hr
        split at hr
        · have hle := lenLoop_le (hrun rfl) hr
          omega
        · cases hr
          omega
      unfold readMatch at h
      simp only at h
      split at h
      · cases h
      · rename_i ip' len' hr
        obtain ⟨hle, hip⟩ : len' < 6 + 255 * n + 1 ∧ ip' ≤ ip + n := hlen _ hr
        split at h
        all_goals
          cases h
          exact ⟨hle, show ip' + _ ≤ ip + n + 3 by omega⟩

theorem readMatch_further {level : Level} {src : Nat → Byte} {ctrl ip : Nat} {m : Match}
    (h : readMatch level src ctrl ip = some m) : ip < m.ip := by
  cases level with
  | one =>
      unfold readMatch at h
      simp only at h
      split at h
      · cases h
        show ip < ip + 1 + 1
        omega
      · cases h
        exact Nat.lt_succ_self _
  | two =>
      have hnext : ∀ r, (if (ctrl >>> 5) - 1 = 7 - 1 then
          lenLoop src lenFuel ip ((ctrl >>> 5) - 1) else some (ip, (ctrl >>> 5) - 1)) = some r →
          ip ≤ r.1 := by
        intro r hr
        split at hr
        · exact (lenLoop_further hr).le
        · cases hr
          exact Nat.le_refl _
      unfold readMatch at h
      simp only at h
      split at h
      · cases h
      · rename_i ip' len' hr
        have hle : ip ≤ ip' := hnext _ hr
        split at h
        all_goals
          cases h
          show ip < ip' + _
          omega

/-- Level 1 looks at two bytes at most. -/
theorem readMatch_one_congr {src src' : Nat → Byte} {ctrl ip : Nat}
    (h : ∀ i, ip ≤ i → i < ip + 2 → src i = src' i) :
    readMatch .one src ctrl ip = readMatch .one src' ctrl ip := by
  unfold readMatch
  simp only [h ip (Nat.le_refl _) (by omega)]
  split
  · simp only [h (ip + 1) (by omega) (by omega)]
  · simp only [h ip (Nat.le_refl _) (by omega)]

theorem readMatch_one_ip {src : Nat → Byte} {ctrl ip : Nat} {m : Match}
    (h : readMatch .one src ctrl ip = some m) : m.ip ≤ ip + 2 := by
  unfold readMatch at h
  simp only at h
  split at h
  · cases h
    exact Nat.le_refl _
  · cases h
    exact Nat.le_succ _

/-! ## 3. Passes -/

section Pass

variable {level : Level} {src : Nat → Byte} {length maxout : Nat} {st : Decompressor}

/-- A literal run in front of the bytes `bs`. -/
theorem decompressPass_literal {bs : List Byte} (h1 : 1 ≤ bs.length) (h32 : bs.length ≤ 32)
    (hctrl : st.ctrl = bs.length - 1) (hbs : Holds src st.ip bs)
    (hout : st.op.length + bs.length ≤ maxout) (hin : st.ip + bs.length ≤ length) :
    decompressPass level src length maxout st =
      some (nextPass src length (st.ip + bs.length) (st.op ++ bs)) := by
  have hlen : bs.length - 1 + 1 = bs.length := by omega
  unfold decompressPass
  rw [if_neg (by omega), hctrl, hlen, if_neg (by omega), if_neg (by omega), hbs.map_range]

/-- A match: the two ways of copying are one. -/
theorem decompressPass_match {dist len ip : Nat} (hctrl : 32 ≤ st.ctrl)
    (hread : readMatch level src st.ctrl st.ip = some ⟨len, dist, ip⟩)
    (hout : st.op.length + len + 3 ≤ maxout) (hback : dist + 1 ≤ st.op.length) :
    decompressPass level src length maxout st =
      some (nextPass src length ip (copyBack (dist + 1) (len + 3) st.op)) := by
  unfold decompressPass
  rw [if_pos hctrl, hread]
  simp only
  rw [if_neg (by omega), if_neg (by omega)]
  split
  · rename_i h0
    obtain ⟨front, b, hop⟩ : ∃ front b, st.op = front ++ [b] :=
      ⟨_, _, (List.dropLast_append_getLast (List.ne_nil_of_length_pos (by omega))).symm⟩
    rw [h0, hop, copyBack_one]
    simp
  · rfl

/-- Whatever the pass finds, its output grows by bytes of the input or by a copy from inside what
    is there, and fits. -/
theorem decompressPass_grows {pass : Pass}
    (h : decompressPass level src length maxout st = some pass) :
    (∃ ip, pass = .failed ip) ∨ ∃ (t : Token Byte) (ip : Nat), t.Inside st.op.length ∧
      st.op.length + t.size ≤ maxout ∧ st.ip < ip ∧
      pass = nextPass src length ip (t.expand st.op) := by
  by_cases hctrl : st.ctrl ≥ 32
  · cases hread : readMatch level src st.ctrl st.ip with
    | none =>
        unfold decompressPass at h
        rw [if_pos hctrl, hread] at h
        cases h
    | some m =>
        have hip := readMatch_further hread
        by_cases hfit : st.op.length + m.len + 3 ≤ maxout ∧ m.back + 1 ≤ st.op.length
        · rw [decompressPass_match hctrl hread hfit.1 hfit.2] at h
          refine .inr ⟨.copy (m.back + 1) (m.len + 3), m.ip, ⟨Nat.succ_pos _, hfit.2⟩, hfit.1, hip, ?_⟩
          exact (Option.some.inj h).symm
        · refine .inl ?_
          unfold decompressPass at h
          rw [if_pos hctrl, hread] at h
          simp only at h
          split at h
          · exact ⟨_, (Option.some.inj h).symm⟩
          · rw [if_pos (by omega)] at h
            exact ⟨_, (Option.some.inj h).symm⟩
  · unfold decompressPass at h
    rw [if_neg hctrl] at h
    simp only at h
    split at h
    · exact .inl ⟨_, (Option.some.inj h).symm⟩
    · split at h
      · exact .inl ⟨_, (Option.some.inj h).symm⟩
      · refine .inr ⟨.literal ((List.range (st.ctrl + 1)).map fun i => src (st.ip + i)),
          st.ip + (st.ctrl + 1), trivial, ?_, by omega, (Option.some.inj h).symm⟩
        simp only [Token.size, List.length_map, List.length_range]
        omega

end Pass

/-! ## 4. Runs on any input -/

/-- No length runs through the whole memory: needed at level 2 only. -/
def Ends (level : Level) (src : Nat → Byte) : Prop :=
  level = .two → ∀ i, ∃ j < lenFuel, src (i + j) ≠ 255

section Run

variable {level : Level} {src : Nat → Byte} {length maxout : Nat} {st : Decompressor}

theorem readMatch_returns (h : Ends level src) (ctrl ip : Nat) :
    ∃ m, readMatch level src ctrl ip = some m := by
  cases level with
  | one =>
      unfold readMatch
      simp only
      split
      · exact ⟨_, rfl⟩
      · exact ⟨_, rfl⟩
  | two =>
      have hlen : ∃ r, (if (ctrl >>> 5) - 1 = 7 - 1 then
          lenLoop src lenFuel ip ((ctrl >>> 5) - 1) else some (ip, (ctrl >>> 5) - 1)) = some r := by
        split
        · exact lenLoop_returns _ (h rfl ip)
        · exact ⟨_, rfl⟩
      obtain ⟨r, hr⟩ := hlen
      unfold readMatch
      simp only [hr]
      split
      · exact ⟨_, rfl⟩
      · exact ⟨_, rfl⟩

theorem decompressPass_returns (h : Ends level src) :
    ∃ pass, decompressPass level src length maxout st = some pass := by
  obtain ⟨m, hm⟩ := readMatch_returns h st.ctrl st.ip
  unfold decompressPass
  rw [hm]
  simp only
  repeat' split
  all_goals exact ⟨_, rfl⟩

/-- **The loop returns**, and what it has put fits. -/
theorem decompressLoop_returns (h : Ends level src) {fuel : Nat} (hip : st.ip ≤ length + 1)
    (hfuel : length + 2 ≤ st.ip + fuel) (hout : st.op.length ≤ maxout) :
    ∃ d, decompressLoop level src length maxout fuel st = some d ∧ d.written.length ≤ maxout := by
  induction fuel generalizing st with
  | zero => omega
  | succ fuel ih =>
      obtain ⟨pass, hpass⟩ := @decompressPass_returns level src length maxout st h
      unfold decompressLoop
      rw [hpass]
      rcases decompressPass_grows hpass with ⟨ip, rfl⟩ | ⟨t, ip, hin, hfit, hip', rfl⟩
      · exact ⟨_, rfl, hout⟩
      · rw [← hin.length] at hfit
        unfold nextPass
        by_cases hmore : ip < length
        · rw [if_pos hmore]
          exact ih (show ip + 1 ≤ length + 1 by omega) (show length + 2 ≤ ip + 1 + fuel by omega) hfit
        · rw [if_neg hmore]
          exact ⟨_, rfl, hfit⟩

/-- Behind the last byte a pass has read. -/
def Pass.ip : Pass → Nat
  | .failed ip => ip
  | .ended ip _ => ip
  | .next st => st.ip

/-- At level 1 a pass looks at most two bytes behind the input. -/
theorem decompressPass_one_congr {src' : Nat → Byte} (h : ∀ i < length + 2, src i = src' i)
    (hip : 32 ≤ st.ctrl → st.ip ≤ length) :
    decompressPass .one src length maxout st = decompressPass .one src' length maxout st := by
  have hnext : ∀ ip op, nextPass src length ip op = nextPass src' length ip op := by
    intro ip op
    unfold nextPass
    split
    · rw [h ip (by omega)]
    · rfl
  unfold decompressPass
  by_cases hctrl : st.ctrl ≥ 32
  · rw [if_pos hctrl, if_pos hctrl]
    have hle := hip hctrl
    rw [readMatch_one_congr fun i _ hi => h i (by omega)]
    simp only [hnext]
  · rw [if_neg hctrl, if_neg hctrl]
    simp only [hnext]
    split
    · rfl
    · split
      · rfl
      · have hbytes : ((List.range (st.ctrl + 1)).map fun i => src (st.ip + i)) =
            (List.range (st.ctrl + 1)).map fun i => src' (st.ip + i) := by
          refine List.map_congr_left fun i hi => ?_
          have hi := List.mem_range.mp hi
          exact h _ (by omega)
        rw [hbytes]

/-- Behind the last byte a pass at level 1 reads. -/
theorem decompressPass_one_reads {pass : Pass} (hip : st.ip ≤ length + 1)
    (hctrl : 32 ≤ st.ctrl → st.ip ≤ length)
    (h : decompressPass .one src length maxout st = some pass) : pass.ip ≤ length + 2 := by
  have hnext : ∀ ip op, ip ≤ length + 2 → (nextPass src length ip op).ip ≤ length + 2 := by
    intro ip op hle
    unfold nextPass
    split
    · show ip + 1 ≤ length + 2
      omega
    · exact hle
  unfold decompressPass at h
  split at h
  · rename_i h32
    have hle := hctrl h32
    split at h
    · cases h
    · rename_i m hread
      have hmip := readMatch_one_ip hread
      split at h
      · cases h
        show m.ip ≤ length + 2
        omega
      · split at h
        · cases h
          show m.ip ≤ length + 2
          omega
        · split at h
          all_goals
            cases h
            exact hnext _ _ (by omega)
  · simp only at h
    split at h
    · cases h
      exact hip.trans (Nat.le_succ _)
    · split at h
      · cases h
        exact hip.trans (Nat.le_succ _)
      · cases h
        exact hnext _ _ (by omega)

/-- **At level 1 the loop reads two bytes behind the input at most.** -/
theorem decompressLoop_one_reads (fuel : Nat) (hip : st.ip ≤ length + 1)
    (hctrl : 32 ≤ st.ctrl → st.ip ≤ length) {d : Decompressed}
    (h : decompressLoop .one src length maxout fuel st = some d) : d.readTo ≤ length + 2 := by
  induction fuel generalizing st with
  | zero => cases h
  | succ fuel ih =>
      unfold decompressLoop at h
      cases hpass : decompressPass .one src length maxout st with
      | none =>
          rw [hpass] at h
          cases h
      | some pass =>
          have hle := decompressPass_one_reads hip hctrl hpass
          rw [hpass] at h
          rcases decompressPass_grows hpass with ⟨ip, rfl⟩ | ⟨t, ip, -, -, -, rfl⟩
          · cases h
            exact hle
          · unfold nextPass at h hle
            by_cases hmore : ip < length
            · rw [if_pos hmore] at h
              exact ih (show ip + 1 ≤ length + 1 by omega) (fun _ => show ip + 1 ≤ length from hmore) h
            · rw [if_neg hmore] at h hle
              cases h
              exact hle

theorem decompressLoop_one_congr {src' : Nat → Byte} (h : ∀ i < length + 2, src i = src' i)
    (fuel : Nat) (hip : 32 ≤ st.ctrl → st.ip ≤ length) :
    decompressLoop .one src length maxout fuel st = decompressLoop .one src' length maxout fuel st := by
  induction fuel generalizing st with
  | zero => rfl
  | succ fuel ih =>
      unfold decompressLoop
      rw [← decompressPass_one_congr h hip]
      cases hpass : decompressPass .one src length maxout st with
      | none => rfl
      | some pass =>
          rcases decompressPass_grows hpass with ⟨ip, rfl⟩ | ⟨t, ip, -, -, -, rfl⟩
          · rfl
          · unfold nextPass
            by_cases hmore : ip < length
            · rw [if_pos hmore]
              exact ih fun _ => hmore
            · rw [if_neg hmore]

end Run

/-! ## 5. Tokens -/

/-- The bytes that stand for a token. -/
def encodeToken (level : Level) : Token Byte → List Byte
  | .literal bs => byte (bs.length - 1) :: bs
  | .copy dist len => encodeMatch level (dist - 1) (len - 2)

/-- The tokens there are bytes for. -/
def Fits : Level → Token Byte → Prop
  | _, .literal bs => 1 ≤ bs.length ∧ bs.length ≤ 32
  | .one, .copy dist len => 1 ≤ dist ∧ dist ≤ 8192 ∧ 3 ≤ len ∧ len ≤ 264
  | .two, .copy dist len => 1 ≤ dist ∧ dist ≤ 73727 ∧ 3 ≤ len ∧ len < 4294967296

def encodeAll (level : Level) (ts : List (Token Byte)) : List Byte :=
  (ts.map (encodeToken level)).flatten

theorem byte_toNat {n : Nat} (h : n < 256) : (byte n).toNat = n := by
  rw [byte, BitVec.toNat_ofNat]
  exact Nat.mod_eq_of_lt h

/-- The control byte of a match holds its length and the upper part of the distance. -/
theorem control_bits {len high : Nat} (hlen : len < 8) (h : high < 32) :
    (byte ((len <<< 5) + high)).toNat >>> 5 = len ∧
      ((byte ((len <<< 5) + high)).toNat &&& 31) <<< 8 = high * 256 ∧
      (1 ≤ len → 32 ≤ (byte ((len <<< 5) + high)).toNat) := by
  have h31 : ∀ n : Nat, n &&& 31 = n % 32 := fun n => Nat.and_two_pow_sub_one_eq_mod n 5
  rw [Nat.shiftLeft_eq, byte_toNat (by omega), h31, Nat.shiftLeft_eq, Nat.shiftRight_eq_div_pow]
  omega

/-- A biased distance in five bits and a byte. -/
theorem distance_bits {distance : Nat} (h : distance < 8192) :
    distance >>> 8 < 32 ∧ distance >>> 8 * 256 + (byte (distance &&& 255)).toNat = distance := by
  have h255 : ∀ n : Nat, n &&& 255 = n % 256 := fun n => Nat.and_two_pow_sub_one_eq_mod n 8
  rw [h255, byte_toNat (by omega), Nat.shiftRight_eq_div_pow]
  omega

/-- A biased far distance in two bytes. -/
theorem far_bits {distance : Nat} (h : distance < 65536) :
    ((byte (distance >>> 8)).toNat <<< 8) + (byte (distance &&& 255)).toNat = distance := by
  have h255 : ∀ n : Nat, n &&& 255 = n % 256 := fun n => Nat.and_two_pow_sub_one_eq_mod n 8
  rw [h255, Nat.shiftRight_eq_div_pow, byte_toNat (by omega), byte_toNat (by omega),
    Nat.shiftLeft_eq]
  omega

/-- **Level 2 reads a length** as it was written. -/
theorem lenLoop_encodeLen {src : Nat → Byte} {fuel k n ip : Nat} (len : Nat) (hk : n ≤ k)
    (hfuel : n < fuel) (h : Holds src ip (encodeLen k n)) :
    lenLoop src fuel ip len = some (ip + (encodeLen k n).length, len + n) := by
  induction k generalizing fuel n ip len with
  | zero =>
      obtain rfl : n = 0 := by omega
      obtain ⟨fuel, rfl⟩ := Nat.exists_eq_add_one_of_ne_zero (show fuel ≠ 0 by omega)
      obtain ⟨hb, -⟩ : src ip = byte 0 ∧ True := h
      unfold lenLoop
      simp only [hb]
      rfl
  | succ k ih =>
      obtain ⟨fuel, rfl⟩ := Nat.exists_eq_add_one_of_ne_zero (show fuel ≠ 0 by omega)
      unfold encodeLen at h ⊢
      unfold lenLoop
      simp only
      by_cases hmore : n ≥ 255
      · rw [if_pos hmore] at h ⊢
        have hcode : (src ip).toNat = 255 := by rw [h.1]; rfl
        rw [if_pos hcode, ih (len + (src ip).toNat) (by omega) (by omega) h.2, hcode, List.length_cons]
        exact congrArg some (Prod.ext (by show _ = _; omega) (by show _ = _; omega))
      · rw [if_neg hmore] at h ⊢
        have hcode : (src ip).toNat = n := by rw [h.1, byte_toNat (by omega)]
        rw [if_neg (by omega), hcode]
        rfl

/-- At level 1 a match of one token is short or has a length byte. -/
theorem encodeLong_one {distance len : Nat} (h1 : 1 ≤ len) (h : len ≤ 262) :
    encodeLong distance len len = ([], len) := by
  obtain ⟨n, rfl⟩ := Nat.exists_eq_add_one_of_ne_zero (show len ≠ 0 by omega)
  unfold encodeLong
  rw [if_neg (by simp only [maxLen]; omega)]

/-- The length behind the control byte at level 2: none, or what the control byte has no room
    for. -/
def lenBytes (len : Nat) : List Byte := if len < 7 then [] else encodeLen len (len - 7)

theorem encodeMatch_two (distance len : Nat) :
    encodeMatch .two distance len =
      if distance < 8191 then
        byte ((min len 7 <<< 5) + (distance >>> 8)) :: (lenBytes len ++ [byte (distance &&& 255)])
      else
        byte ((min len 7 <<< 5) + 31) :: (lenBytes len ++
          [255, byte ((distance - 8191) >>> 8), byte ((distance - 8191) &&& 255)]) := by
  have hmax : Level.two.maxDistance = 8191 := rfl
  unfold encodeMatch lenBytes
  by_cases hshort : len < 7
  · simp only [hmax, if_pos hshort, Nat.min_eq_left (Nat.le_of_lt hshort)]
    rfl
  · simp only [hmax, if_neg hshort, Nat.min_eq_right (Nat.le_of_not_lt hshort)]
    rfl

theorem lenLoop_lenBytes {src : Nat → Byte} {len ip : Nat} (h1 : 1 ≤ len) (h32 : len < 4294967296)
    (h : Holds src ip (lenBytes len)) :
    (if min len 7 - 1 = 7 - 1 then lenLoop src lenFuel ip (min len 7 - 1)
      else some (ip, min len 7 - 1)) = some (ip + (lenBytes len).length, len - 1) := by
  unfold lenBytes at h ⊢
  by_cases hshort : len < 7
  · rw [if_pos hshort, Nat.min_eq_left (Nat.le_of_lt hshort), if_neg (by omega)]
    rfl
  · rw [if_neg hshort] at h ⊢
    have hsum : 7 - 1 + (len - 7) = len - 1 := by omega
    rw [Nat.min_eq_right (Nat.le_of_not_lt hshort), if_pos rfl,
      lenLoop_encodeLen _ (Nat.sub_le _ _) (by unfold lenFuel; omega) h, hsum]

/-- **A match behind its control byte.** -/
theorem readMatch_encode {level : Level} {dist len : Nat} (hfits : Fits level (.copy dist len)) :
    ∃ ctrl rest, encodeToken level (.copy dist len) = ctrl :: rest ∧ 32 ≤ ctrl.toNat ∧
      ∀ src ip, Holds src ip rest →
        readMatch level src ctrl.toNat ip = some ⟨len - 3, dist - 1, ip + rest.length⟩ := by
  have hsub : len - 2 - 1 = len - 3 := by omega
  cases level with
  | one =>
      obtain ⟨h1, hdist, h3, h264⟩ := hfits
      obtain ⟨hhigh, hlow⟩ := @distance_bits (dist - 1) (by omega)
      simp only [encodeToken, encodeMatch, encodeLong_one (show 1 ≤ len - 2 by omega)
        (show len - 2 ≤ 262 by omega), List.nil_append]
      by_cases hshort : len - 2 < 7
      · obtain ⟨h₁, h₂, h₃⟩ := @control_bits (len - 2) _ (by omega) hhigh
        rw [if_pos hshort]
        refine ⟨_, _, rfl, h₃ (by omega), fun src ip ⟨hb, _⟩ => ?_⟩
        unfold readMatch
        simp only [h₁, h₂, hsub, if_neg (show len - 3 ≠ 7 - 1 by omega), hb, hlow]
        rfl
      · obtain ⟨h₁, h₂, h₃⟩ := @control_bits 7 _ (by omega) hhigh
        rw [if_neg hshort]
        refine ⟨_, _, rfl, h₃ (by omega), fun src ip ⟨hl, hb, _⟩ => ?_⟩
        have hlen : 7 - 1 + (byte (len - 2 - 7)).toNat = len - 3 := by
          rw [byte_toNat (by omega)]
          omega
        unfold readMatch
        simp only [h₁, h₂, if_true, hl, hlen, hb, hlow]
        rfl
  | two =>
      obtain ⟨h1, hdist, h3, h32⟩ := hfits
      have h1' : 1 ≤ min (len - 2) 7 := by omega
      rw [encodeToken, encodeMatch_two]
      by_cases hnear : dist - 1 < 8191
      · obtain ⟨hhigh, hlow⟩ := @distance_bits (dist - 1) (by omega)
        obtain ⟨h₁, h₂, h₃⟩ := @control_bits (min (len - 2) 7) _ (by omega) hhigh
        rw [if_pos hnear]
        refine ⟨_, _, rfl, h₃ h1', fun src ip hrest => ?_⟩
        obtain ⟨hlen, hb, -⟩ := holds_append.mp hrest
        have hloop := lenLoop_lenBytes (by omega) (by omega) hlen
        rw [hsub] at hloop
        -- the distance that means a far match is not written here
        have hno : ¬ ((byte (dist - 1 &&& 255)).toNat = 255 ∧ (dist - 1) >>> 8 * 256 = 31 <<< 8) := by
          rintro ⟨hcode, hofs⟩
          rw [hcode, hofs] at hlow
          have : 31 <<< 8 + 255 = 8191 := rfl
          omega
        unfold readMatch
        simp only [h₁, h₂, hloop, hb, if_neg hno, hlow, List.length_append, List.length_singleton]
        rfl
      · obtain ⟨h₁, h₂, h₃⟩ := @control_bits (min (len - 2) 7) 31 (by omega) (by decide)
        have hfar := @far_bits (dist - 1 - 8191) (by omega)
        rw [if_neg hnear]
        refine ⟨_, _, rfl, h₃ h1', fun src ip hrest => ?_⟩
        obtain ⟨hlen, hcode, hhigh, hlow, -⟩ := holds_append.mp hrest
        have hloop := lenLoop_lenBytes (by omega) (by omega) hlen
        rw [hsub] at hloop
        have hdist : dist - 1 - 8191 + 8191 = dist - 1 := by omega
        unfold readMatch
        simp only [h₁, h₂, hloop, hcode, hhigh, hlow, hfar, hdist, Level.maxDistance,
          List.length_append]
        rfl

/-! ## 6. Decoding -/

section Decode

variable {level : Level} {src : Nat → Byte} {length maxout : Nat} {st : Decompressor}
variable {t : Token Byte} {ts : List (Token Byte)}

theorem encodeAll_cons : encodeAll level (t :: ts) = encodeToken level t ++ encodeAll level ts := by
  simp [encodeAll]

theorem encodeAll_append {us : List (Token Byte)} :
    encodeAll level (ts ++ us) = encodeAll level ts ++ encodeAll level us := by
  simp [encodeAll]

/-- Every token there are bytes for has a control byte. -/
theorem encodeToken_control (hfits : Fits level t) :
    ∃ ctrl rest, encodeToken level t = ctrl :: rest := by
  cases t with
  | literal bs => exact ⟨_, _, rfl⟩
  | copy dist len =>
      obtain ⟨ctrl, rest, h, -⟩ := readMatch_encode hfits
      exact ⟨ctrl, rest, h⟩

/-- **One token, one pass.** -/
theorem decompressPass_token (hfits : Fits level t) {ctrl : Byte} {rest : List Byte}
    (henc : encodeToken level t = ctrl :: rest) (hctrl : st.ctrl = ctrl.toNat)
    (hrest : Holds src st.ip rest) (hin : st.ip + rest.length ≤ length)
    (hinside : t.Inside st.op.length) (hout : st.op.length + t.size ≤ maxout) :
    decompressPass level src length maxout st =
      some (nextPass src length (st.ip + rest.length) (t.expand st.op)) := by
  cases t with
  | literal bs =>
      obtain ⟨h1, h32⟩ : 1 ≤ bs.length ∧ bs.length ≤ 32 := by cases level <;> exact hfits
      cases henc
      refine decompressPass_literal h1 h32 ?_ hrest hout hin
      rw [hctrl, byte_toNat (by omega)]
  | copy dist len =>
      have h3 : 3 ≤ len := by
        cases level with
        | one => exact hfits.2.2.1
        | two => exact hfits.2.2.1
      obtain ⟨ctrl', rest', henc', h32, hread⟩ := readMatch_encode hfits
      rw [henc] at henc'
      cases henc'
      obtain ⟨h1, hdist⟩ := hinside
      have hout : st.op.length + len ≤ maxout := hout
      have hpass := @decompressPass_match level src length maxout st (dist - 1) (len - 3)
        (st.ip + rest.length) (by rw [hctrl]; exact h32) (by rw [hctrl]; exact hread _ _ hrest)
        (by omega) (by omega)
      rw [Nat.sub_add_cancel h1, Nat.sub_add_cancel h3] at hpass
      exact hpass

/-- **The loop expands the tokens** that lie in the input. -/
theorem decompressLoop_encode {fuel : Nat} {ctrl : Byte} {rest : List Byte}
    (hfits : ∀ u ∈ t :: ts, Fits level u) (henc : encodeToken level t = ctrl :: rest)
    (hctrl : st.ctrl = ctrl.toNat) (hsrc : Holds src st.ip (rest ++ encodeAll level ts))
    (hlen : st.ip + (rest ++ encodeAll level ts).length = length)
    (hinside : AllInside st.op.length (t :: ts))
    (hout : st.op.length + sizes (t :: ts) ≤ maxout) (hfuel : ts.length < fuel) :
    ∃ d, decompressLoop level src length maxout fuel st = some d ∧
      d.written = expandAll (t :: ts) st.op ∧ d.size = d.written.length := by
  induction ts generalizing t st fuel ctrl rest with
  | nil =>
      obtain ⟨fuel, rfl⟩ := Nat.exists_eq_add_one_of_ne_zero (show fuel ≠ 0 by omega)
      obtain ⟨hrest, -⟩ := holds_append.mp hsrc
      have hend : st.ip + rest.length = length := by
        rw [← hlen, List.length_append]
        rfl
      have hpass := decompressPass_token (hfits t (List.mem_cons_self ..)) henc hctrl hrest hend.le
        hinside.1 (by simpa [sizes] using hout)
      unfold decompressLoop
      rw [hpass, nextPass, if_neg (by omega)]
      exact ⟨_, rfl, rfl, rfl⟩
  | cons u ts ih =>
      obtain ⟨fuel, rfl⟩ := Nat.exists_eq_add_one_of_ne_zero (show fuel ≠ 0 by omega)
      obtain ⟨hrest, hnext⟩ := holds_append.mp hsrc
      have hfits' : ∀ v ∈ u :: ts, Fits level v := fun v hv => hfits v (List.mem_cons_of_mem _ hv)
      obtain ⟨ctrl', rest', henc'⟩ := encodeToken_control (hfits' u (List.mem_cons_self ..))
      rw [encodeAll_cons, henc', List.cons_append] at hnext hlen
      rw [List.length_append, List.length_cons] at hlen
      rw [sizes] at hout
      have hpass := @decompressPass_token level src length maxout st t
        (hfits t (List.mem_cons_self ..)) ctrl rest henc hctrl hrest (by omega) hinside.1 (by omega)
      obtain ⟨hb, htail⟩ := hnext
      have hgrown := hinside.1.length
      obtain ⟨d, hd, hw, hs⟩ := @ih ⟨st.ip + rest.length + 1, (src (st.ip + rest.length)).toNat,
        t.expand st.op⟩ u fuel ctrl' rest' hfits' henc' (by rw [hb]) htail
        (show st.ip + rest.length + 1 + _ = length by omega) (by rw [hgrown]; exact hinside.2)
        (by rw [hgrown]; omega) (by rw [List.length_cons] at hfuel; omega)
      refine ⟨d, ?_, hw, hs⟩
      unfold decompressLoop
      rw [hpass, nextPass, if_pos (by omega)]
      exact hd

/-- The first byte of a stream: its first literal run, marked with the level. -/
def firstByte (level : Level) (n : Nat) : Byte :=
  match level with
  | .one => byte (n - 1)
  | .two => byte (n - 1) ||| byte (1 <<< 5)

theorem firstByte_bits {n : Nat} (h1 : 1 ≤ n) (h32 : n ≤ 32) (level : Level) :
    ((firstByte level n).toNat >>> 5) + 1 = (match level with | .one => 1 | .two => 2) ∧
      (firstByte level n).toNat &&& 31 = n - 1 := by
  have hbits : ∀ k < 32, (byte k).toNat >>> 5 = 0 ∧ (byte k).toNat &&& 31 = k ∧
      (byte k ||| byte (1 <<< 5)).toNat >>> 5 = 1 ∧ (byte k ||| byte (1 <<< 5)).toNat &&& 31 = k := by
    decide
  obtain ⟨h₁, h₂, h₃, h₄⟩ := hbits (n - 1) (by omega)
  cases level with
  | one => exact ⟨congrArg (· + 1) h₁, h₂⟩
  | two => exact ⟨congrArg (· + 1) h₃, h₄⟩

/-- **A stream of tokens** is decompressed to what they expand to. -/
theorem fastlzDecompress_tokens {bs : List Byte}
    (hfits : ∀ u ∈ Token.literal bs :: ts, Fits level u)
    (hfirst : src 0 = firstByte level bs.length)
    (hsrc : Holds src 1 (bs ++ encodeAll level ts))
    (hlen : 1 + (bs ++ encodeAll level ts).length = length)
    (hinside : AllInside 0 (Token.literal bs :: ts))
    (hout : sizes (Token.literal bs :: ts) ≤ maxout) :
    ∃ d, fastlzDecompress src length maxout = some d ∧
      d.written = expandAll (Token.literal bs :: ts) [] ∧ d.size = d.written.length := by
  obtain ⟨h1, h32⟩ : 1 ≤ bs.length ∧ bs.length ≤ 32 := by
    cases level <;> exact hfits _ (List.mem_cons_self ..)
  obtain ⟨hlevel, hctrl⟩ := firstByte_bits h1 h32 level
  rw [← hfirst] at hlevel hctrl
  have hcount : ts.length ≤ (encodeAll level ts).length := by
    have hall : ∀ u ∈ ts, 1 ≤ (encodeToken level u).length := by
      intro u hu
      obtain ⟨ctrl, rest, henc⟩ := encodeToken_control (hfits u (List.mem_cons_of_mem _ hu))
      rw [henc, List.length_cons]
      omega
    clear hfits hsrc hlen hinside hout
    induction ts with
    | nil => exact Nat.zero_le _
    | cons u ts ih =>
        have hu := hall u (List.mem_cons_self ..)
        have hrest := ih fun v hv => hall v (List.mem_cons_of_mem _ hv)
        rw [encodeAll_cons, List.length_append, List.length_cons]
        omega
  have hbyte : ((byte (bs.length - 1)).toNat) = bs.length - 1 := byte_toNat (by omega)
  obtain ⟨d, hd, hw, hs⟩ := @decompressLoop_encode level src length maxout
    ⟨1, (src 0).toNat &&& 31, []⟩ (.literal bs) ts (length + 1) (byte (bs.length - 1)) bs hfits rfl
    (by rw [hbyte]; exact hctrl) hsrc hlen hinside (by simpa using hout) (by
      rw [List.length_append] at hlen
      omega)
  refine ⟨d, ?_, hw, hs⟩
  unfold fastlzDecompress
  cases level with
  | one =>
      simp only at hlevel ⊢
      rw [if_pos hlevel]
      exact hd
  | two =>
      simp only at hlevel ⊢
      rw [if_neg (by omega), if_pos hlevel]
      exact hd

end Decode

end Mh1903.Fastlz
