/-
  File:      Mh1903/Fastlz/Encode.lean
  Subject:   WHAT THE COMPRESSOR PUTS. At every pass the output is the encoding of tokens that
             expand to the input consumed, and a literal run whose control byte is still open. The
             hash table only proposes: what is taken for a match was compared.
-/
import Mh1903.Fastlz.Decode

namespace Mh1903.Fastlz

open Library

/-! ## 1. Comparing -/

section Compare

variable {src : Nat → Byte}

/-- `distance` back and from there on the input is the same, from `a` up to `b`. -/
def SameBack (src : Nat → Byte) (distance a b : Nat) : Prop :=
  ∀ i, a ≤ i → i < b → src i = src (i - distance)

theorem SameBack.trans {distance a b c : Nat} (h₁ : SameBack src distance a b)
    (h₂ : SameBack src distance b c) : SameBack src distance a c := by
  intro i hi hc
  by_cases hb : i < b
  · exact h₁ i hi hb
  · exact h₂ i (Nat.le_of_not_lt hb) hc

/-- `ip` stops behind the first difference, or `n` bytes further. -/
theorem compareStop_spec (n ref ip : Nat) :
    ip ≤ (compareStop src n ref ip).1 ∧ (compareStop src n ref ip).1 ≤ ip + n ∧
      (1 ≤ n → ip + 1 ≤ (compareStop src n ref ip).1) ∧
      ((compareStop src n ref ip).2 = false → (compareStop src n ref ip).1 = ip + n ∧
        ∀ j < n, src (ref + j) = src (ip + j)) ∧
      ∀ j, ip + j + 1 < (compareStop src n ref ip).1 → src (ref + j) = src (ip + j) := by
  induction n generalizing ref ip with
  | zero =>
      refine ⟨Nat.le_refl _, Nat.le_refl _, fun h => absurd h (by decide), fun _ => ⟨rfl, ?_⟩, ?_⟩
      · exact fun j hj => absurd hj (Nat.not_lt_zero _)
      · intro j hj
        have : ip + j + 1 < ip := hj
        omega
  | succ n ih =>
      unfold compareStop
      by_cases hne : src ref ≠ src ip
      · rw [if_pos hne]
        refine ⟨Nat.le_succ _, ?_, fun _ => Nat.le_refl _, nofun, fun j hj => ?_⟩
        · exact Nat.add_le_add_left (Nat.succ_pos n) ip
        · have : ip + j + 1 < ip + 1 := hj
          omega
      · rw [if_neg hne]
        have heq : src ref = src ip := not_not.mp hne
        obtain ⟨h₁, h₂, -, h₄, h₅⟩ := ih (ref + 1) (ip + 1)
        refine ⟨by omega, by omega, fun _ => h₁, fun hb => ⟨by have := (h₄ hb).1; omega, ?_⟩, ?_⟩
        · intro j hj
          cases j with
          | zero => exact heq
          | succ j =>
              have hrest := (h₄ hb).2 j (by omega)
              rw [Nat.add_assoc, Nat.add_assoc, Nat.add_comm 1] at hrest
              exact hrest
        · intro j hj
          cases j with
          | zero => exact heq
          | succ j =>
              have hrest := h₅ j (by omega)
              rw [Nat.add_assoc, Nat.add_assoc, Nat.add_comm 1] at hrest
              exact hrest

/-- `ip` stops as far behind `ref` as it was, with `x` all the way. -/
theorem runEnd_spec (x : Byte) (n ref ip : Nat) :
    ip ≤ runEnd src x n ref ip ∧ runEnd src x n ref ip ≤ ip + n ∧
      (1 ≤ n → src ref = x → ip + 1 ≤ runEnd src x n ref ip) ∧
      ∀ j, ip + j < runEnd src x n ref ip → src (ref + j) = x := by
  induction n generalizing ref ip with
  | zero =>
      refine ⟨Nat.le_refl _, Nat.le_refl _, fun h => absurd h (by decide), fun j hj => ?_⟩
      have : ip + j < ip := hj
      omega
  | succ n ih =>
      unfold runEnd
      by_cases hne : src ref ≠ x
      · rw [if_pos hne]
        exact ⟨Nat.le_refl _, by omega, fun _ h => absurd h hne, fun j hj => by omega⟩
      · rw [if_neg hne]
        obtain ⟨h₁, h₂, -, h₄⟩ := ih (ref + 1) (ip + 1)
        refine ⟨by omega, by omega, fun _ _ => h₁, fun j hj => ?_⟩
        cases j with
        | zero => exact not_not.mp hne
        | succ j =>
            have hrest := h₄ j (by omega)
            rw [Nat.add_assoc, Nat.add_comm 1] at hrest
            exact hrest

/-- **Behind the comparisons** all but the last byte were equal. -/
theorem matchEnd_spec {ipBound distance ip : Nat} (h1 : 1 ≤ distance) (hdist : distance ≤ ip)
    (hip : ip < ipBound) :
    ip + 1 ≤ matchEnd src ipBound (distance - 1) (ip - distance) ip ∧
      matchEnd src ipBound (distance - 1) (ip - distance) ip ≤ max ipBound (ip + 8) ∧
      SameBack src distance ip (matchEnd src ipBound (distance - 1) (ip - distance) ip - 1) := by
  unfold matchEnd
  by_cases hrun : distance - 1 = 0
  · obtain rfl : distance = 1 := by omega
    rw [if_pos hrun]
    obtain ⟨h₁, h₂, h₃, h₄⟩ := @runEnd_spec src (src (ip - 1)) (ipBound - ip) (ip - 1) ip
    refine ⟨h₃ (by omega) rfl, by omega, fun i hi hend => ?_⟩
    have hthis := h₄ (i - ip + 1) (by omega)
    have hlast := h₄ (i - ip) (by omega)
    have h₅ : ip - 1 + (i - ip + 1) = i := by omega
    have h₆ : ip - 1 + (i - ip) = i - 1 := by omega
    rw [h₅] at hthis
    rw [h₆] at hlast
    rw [hthis, hlast]
  · rw [if_neg hrun]
    -- a difference among the first eight bytes ends it, otherwise the bound does
    have hback : ∀ a e, a = ip - distance + (e - ip) → ip ≤ e → a = e - distance := by omega
    obtain ⟨h₁, h₂, h₃, h₄, h₅⟩ := @compareStop_spec src 8 (ip - distance) ip
    cases hfirst : compareStop src 8 (ip - distance) ip with
    | mk e stopped =>
        rw [hfirst] at h₁ h₂ h₃ h₄ h₅
        simp only at h₁ h₂ h₃ h₄ h₅
        have hpart : SameBack src distance ip (e - 1) := by
          intro i hi hend
          have hj := h₅ (i - ip) (by omega)
          rw [show ip + (i - ip) = i by omega, hback _ i rfl hi] at hj
          exact hj.symm
        cases stopped with
        | true =>
            simp only
            exact ⟨h₃ (by decide), by omega, hpart⟩
        | false =>
            obtain ⟨he, hall⟩ := h₄ rfl
            obtain ⟨g₁, g₂, -, -, g₅⟩ := @compareStop_spec src (ipBound - e) (ip - distance + 8) e
            simp only
            refine ⟨by omega, by omega, ?_⟩
            have hfull : SameBack src distance ip e := by
              intro i hi hend
              have hj := hall (i - ip) (by omega)
              rw [show ip + (i - ip) = i by omega, hback _ i rfl hi] at hj
              exact hj.symm
            refine hfull.trans fun i hi hend => ?_
            have hj := g₅ (i - e) (by omega)
            rw [show e + (i - e) = i by omega,
              show ip - distance + 8 + (i - e) = i - distance by omega] at hj
            exact hj.symm

theorem readu16_inj {p q : Nat} (h : readu16 src p = readu16 src q) :
    src p = src q ∧ src (p + 1) = src (q + 1) := by
  have hsum : ∀ r, readu16 src r = (src (r + 1)).toNat * 256 + (src r).toNat := by
    intro r
    have hlt := (src r).isLt
    rw [readu16, Nat.or_comm, ← Nat.shiftLeft_add_eq_or_of_lt (by omega), Nat.shiftLeft_eq]
  have hp := (src p).isLt
  have hq := (src q).isLt
  rw [hsum, hsum] at h
  exact ⟨BitVec.eq_of_toNat_eq (by omega), BitVec.eq_of_toNat_eq (by omega)⟩

end Compare

/-! ## 2. Candidates -/

/-- A candidate at `anchor` was compared, and its distance has an encoding. -/
structure Candidate.Sound (level : Level) (src : Nat → Byte) (anchor : Nat) (c : Candidate) :
    Prop where
  pos : 1 ≤ c.distance
  inside : c.distance ≤ anchor
  reach : c.distance < level.reach
  len : 3 ≤ c.len ∧ c.len ≤ 5
  far : level = .two → Level.two.maxDistance ≤ c.distance → c.len = 5
  same : SameBack src c.distance anchor (anchor + c.len)

/-- Compared bytes one by one. -/
theorem sameBack_of {src : Nat → Byte} {distance a n : Nat}
    (h : ∀ k < n, src (a + k) = src (a + k - distance)) : SameBack src distance a (a + n) := by
  intro i hi hend
  obtain ⟨k, rfl⟩ := Nat.exists_eq_add_of_le hi
  exact h k (by omega)

/-- **The hash table only proposes.** -/
theorem candidate_sound {level : Level} {src : Nat → Byte} {htab htab' : Nat → Nat} {anchor : Nat}
    {c : Candidate} (hanchor : 1 ≤ anchor)
    (h : candidate level src htab anchor = (some c, htab')) : c.Sound level src anchor := by
  unfold candidate at h
  split at h
  · rename_i hrun
    obtain ⟨hlevel, hback, hpair⟩ := hrun
    obtain ⟨h₁, h₂⟩ := readu16_inj hpair
    rw [Nat.sub_add_cancel hanchor] at h₂
    cases h
    refine ⟨Nat.le_refl _, hanchor, ?_, ⟨Nat.le_refl _, by decide⟩, fun _ hfar => ?_, ?_⟩
    · rw [hlevel]
      decide
    · exact absurd hfar (by decide)
    · refine sameBack_of fun k hk => ?_
      match k, hk with
      | 0, _ => exact hback
      | 1, _ => exact h₁.symm.trans hback.symm
      | 2, _ => exact h₂.symm.trans (hback.trans h₁)
  · simp only at h
    split at h
    · cases h
    · rename_i hno
      simp only [not_or, not_not, Nat.not_le] at hno
      obtain ⟨hne, hreach, h₀, h₁, h₂⟩ := hno
      generalize href : htab (hashFunction src anchor) = ref at *
      have hsub : ∀ k, anchor + k - (anchor - ref) = ref + k := by omega
      have hthree : ∀ k < 3, src (anchor + k) = src (anchor + k - (anchor - ref)) := by
        intro k hk
        rw [hsub]
        match k, hk with
        | 0, _ => exact h₀.symm
        | 1, _ => exact h₁.symm
        | 2, _ => exact h₂.symm
      split at h
      · rename_i hfar
        split at h
        · cases h
        · rename_i hno
          simp only [not_or, not_not] at hno
          cases h
          refine ⟨Nat.pos_of_ne_zero hne, Nat.sub_le _ _, hreach, ⟨by show 3 ≤ 5; decide, Nat.le_refl _⟩,
            fun _ _ => rfl, sameBack_of fun k hk => ?_⟩
          by_cases h3 : k < 3
          · exact hthree k h3
          · rw [hsub]
            have hk : k < 5 := hk
            obtain rfl | rfl : k = 3 ∨ k = 4 := by omega
            · exact hno.1
            · exact hno.2
      · rename_i hnear
        cases h
        refine ⟨Nat.pos_of_ne_zero hne, Nat.sub_le _ _, hreach, ⟨Nat.le_refl _, by show 3 ≤ 5; decide⟩,
          fun hlevel hfar => ?_, sameBack_of hthree⟩
        subst hlevel
        exact absurd ⟨rfl, hfar⟩ hnear

/-! ## 3. The tokens of a match -/

/-- The tokens of long matches at level 1. -/
def longTokens (dist k : Nat) : List (Token Byte) := List.replicate k (.copy dist 262)

theorem encodeLong_tokens {dist fuel len : Nat} (h1 : 1 ≤ len) (hfuel : len ≤ fuel) :
    ∃ k r, encodeLong (dist - 1) fuel len = (encodeAll .one (longTokens dist k), r) ∧
      len = 262 * k + r ∧ 1 ≤ r ∧ r ≤ 262 := by
  have hmax : maxLen - 2 = 262 := rfl
  induction fuel generalizing len with
  | zero => omega
  | succ fuel ih =>
      unfold encodeLong
      by_cases hlong : len > maxLen - 2
      · obtain ⟨k, r, hrun, hsum, hr⟩ := @ih (len - 262) (by omega) (by omega)
        refine ⟨k + 1, r, ?_, by omega, hr⟩
        rw [if_pos hlong, hmax, longTokens, List.replicate_succ, encodeAll_cons, encodeToken,
          encodeMatch]
        simp only [hrun, encodeLong_one (show 1 ≤ 262 - 2 by decide) (by decide : 262 - 2 ≤ 262)]
        rfl
      · refine ⟨0, len, ?_, by omega, h1, by omega⟩
        rw [if_neg hlong]
        rfl

/-- **A match is written as tokens** that together copy it. -/
theorem encodeMatch_tokens {level : Level} {dist len : Nat} (h1 : 1 ≤ dist)
    (hreach : dist < level.reach) (hlen : 1 ≤ len) (h32 : len + 2 < 4294967296) :
    ∃ us, encodeAll level us = encodeMatch level (dist - 1) len ∧ (∀ u ∈ us, Fits level u) ∧
      ∀ out : List Byte, dist ≤ out.length →
        AllInside out.length us ∧ expandAll us out = copyBack dist (len + 2) out := by
  cases level with
  | one =>
      obtain ⟨k, r, hlong, hsum, hr⟩ := @encodeLong_tokens dist len len hlen (Nat.le_refl _)
      have hfits : ∀ n, 3 ≤ n → n ≤ 264 → Fits .one (.copy dist n) :=
        fun n h₁ h₂ => ⟨h1, Nat.le_of_lt hreach, h₁, h₂⟩
      refine ⟨longTokens dist k ++ [.copy dist (r + 2)], ?_, fun u hu => ?_, fun out hout => ?_⟩
      · have hlast : encodeAll .one [.copy dist (r + 2)] = encodeMatch .one (dist - 1) r := by
          rw [encodeAll_cons, encodeToken]
          exact List.append_nil _
        rw [encodeAll_append, hlast]
        unfold encodeMatch
        rw [hlong, encodeLong_one hr.1 hr.2]
        simp only [List.nil_append]
        split <;> rfl
      · rcases List.mem_append.mp hu with hu | hu
        · obtain rfl := List.eq_of_mem_replicate hu
          exact hfits 262 (by decide) (by decide)
        · obtain rfl := List.mem_singleton.mp hu
          exact hfits _ (by omega) (by omega)
      · have hinside : ∀ j m, dist ≤ m → AllInside m (longTokens dist j ++ [.copy dist (r + 2)]) := by
          intro j
          induction j with
          | zero => exact fun m hm => ⟨⟨h1, hm⟩, trivial⟩
          | succ j ih => exact fun m hm => ⟨⟨h1, hm⟩, ih _ (Nat.le_add_right_of_le hm)⟩
        refine ⟨hinside k _ hout, ?_⟩
        rw [expandAll_append, longTokens, expandAll_replicate, expandAll_cons, expandAll_nil,
          Token.expand, ← copyBack_add, hsum, Nat.add_assoc]
  | two =>
      refine ⟨[.copy dist (len + 2)], ?_, fun u hu => ?_, fun out hout => ⟨⟨⟨h1, hout⟩, trivial⟩, rfl⟩⟩
      · rw [encodeAll_cons, encodeToken]
        exact List.append_nil _
      · obtain rfl := List.mem_singleton.mp hu
        refine ⟨h1, ?_, by omega, h32⟩
        have hle : Level.two.reach ≤ 73727 := by decide
        omega

/-! ## 4. What a match costs -/

theorem length_encodeLen {k n : Nat} (h : n ≤ k) : (encodeLen k n).length ≤ 1 + n := by
  induction k generalizing n with
  | zero => exact Nat.le_add_right _ _
  | succ k ih =>
      unfold encodeLen
      split
      · have hrest := @ih (n - 255) (by omega)
        rw [List.length_cons]
        omega
      · exact Nat.le_add_right _ _

theorem length_encodeLong {distance fuel len : Nat} (h1 : 1 ≤ len) :
    1 ≤ (encodeLong distance fuel len).2 ∧
      (encodeLong distance fuel len).1.length + (encodeLong distance fuel len).2 ≤ len := by
  have hmax : maxLen - 2 = 262 := rfl
  induction fuel generalizing len with
  | zero => exact ⟨h1, (Nat.zero_add _).le⟩
  | succ fuel ih =>
      unfold encodeLong
      by_cases hlong : len > maxLen - 2
      · have hrest := @ih (len - (maxLen - 2)) (by omega)
        rw [if_pos hlong]
        simp only [List.length_append, List.length_cons, List.length_nil]
        omega
      · rw [if_neg hlong]
        exact ⟨h1, (Nat.zero_add _).le⟩

/-- **A match is shorter than what it copies.** -/
theorem length_encodeMatch {level : Level} {dist len : Nat} (h1 : 1 ≤ len)
    (hfar : level = .two → 8192 ≤ dist → 3 ≤ len) :
    (encodeMatch level (dist - 1) len).length ≤ len + 1 := by
  cases level with
  | one =>
      obtain ⟨hpos, hle⟩ := @length_encodeLong (dist - 1) len len h1
      unfold encodeMatch
      simp only
      split
      · simp only [List.length_append, List.length_cons, List.length_nil]
        omega
      · simp only [List.length_append, List.length_cons, List.length_nil]
        omega
  | two =>
      have hbytes : (lenBytes len).length ≤ len - 6 := by
        unfold lenBytes
        split
        · exact Nat.zero_le _
        · have := @length_encodeLen len (len - 7) (Nat.sub_le _ _)
          omega
      have hfar := hfar rfl
      rw [encodeMatch_two]
      split
      · simp only [List.length_append, List.length_cons, List.length_nil]
        omega
      · simp only [List.length_append, List.length_cons, List.length_nil]
        omega

/-! ## 5. The invariant -/

/-- The input as a list. -/
def text (src : Nat → Byte) (n : Nat) : List Byte := (List.range n).map src

@[simp] theorem length_text (src : Nat → Byte) (n : Nat) : (text src n).length = n := by
  simp [text]

theorem getElem?_text {src : Nat → Byte} {n i : Nat} (h : i < n) :
    (text src n)[i]? = some (src i) := by
  simp [text, h]

theorem take_text {src : Nat → Byte} {n m : Nat} (h : m ≤ n) : (text src n).take m = text src m := by
  rw [text, ← List.map_take, List.take_range, Nat.min_eq_left h]
  rfl

theorem text_succ (src : Nat → Byte) (n : Nat) : text src (n + 1) = text src n ++ [src n] := by
  simp [text, List.range_succ]

/-- What was compared repeats in the text. -/
theorem SameBack.repeats {src : Nat → Byte} {distance a b n : Nat}
    (h : SameBack src distance a (a + b)) (hn : a + b ≤ n) :
    Repeats (text src n) a distance b := by
  intro k hk
  rw [getElem?_text (by omega), getElem?_text (by omega), h _ (Nat.le_add_right _ _) (by omega)]

/-- `op` is the encoding of tokens for the first `pos` bytes of the input. -/
structure Closed (level : Level) (src : Nat → Byte) (pos : Nat) (op : List Byte)
    (ts : List (Token Byte)) : Prop where
  op_eq : op = encodeAll level ts
  fits : ∀ t ∈ ts, Fits level t
  inside : AllInside 0 ts
  text : expandAll ts [] = text src pos

/-- The locals of the compressor: closed tokens up to `pos`, not much longer than the input, and
    behind them the run `lits` with its control byte still open. The first token is a literal
    run. -/
structure Open (level : Level) (src : Nat → Byte) (st : Compressor) (pos : Nat) (front : List Byte)
    (ts : List (Token Byte)) (lits : List Byte) : Prop where
  closed : Closed level src pos front ts
  op_eq : st.op = front ++ byte (maxCopy - 1) :: lits
  ip_eq : pos + st.copy = st.ip
  lits_eq : lits.length = st.copy
  room : st.copy < 32
  start : 2 ≤ st.ip
  text : text src pos ++ lits = text src st.ip
  cost : 32 * front.length ≤ 33 * pos
  first : (∃ bs us, ts = .literal bs :: us) ∨ (ts = [] ∧ 1 ≤ st.copy)

section Open

variable {level : Level} {src : Nat → Byte} {st : Compressor} {pos : Nat} {front lits : List Byte}
variable {ts : List (Token Byte)}

/-- The tokens when the run is closed. -/
def closeTokens (ts : List (Token Byte)) (lits : List Byte) : List (Token Byte) :=
  if lits = [] then ts else ts ++ [.literal lits]

theorem fits_literal {bs : List Byte} (h1 : 1 ≤ bs.length) (h32 : bs.length ≤ 32) :
    Fits level (.literal bs) := by
  cases level
  · exact ⟨h1, h32⟩
  · exact ⟨h1, h32⟩

/-- Tokens for the first bytes, and one more. -/
theorem Closed.append {op : List Byte} (h : Closed level src pos op ts) {us : List (Token Byte)}
    {n : Nat} (hfits : ∀ u ∈ us, Fits level u)
    (hus : AllInside pos us ∧ expandAll us (Fastlz.text src pos) = Fastlz.text src n) :
    Closed level src n (op ++ encodeAll level us) (ts ++ us) := by
  refine ⟨by rw [encodeAll_append, h.op_eq], fun t ht => ?_, ?_, ?_⟩
  · rcases List.mem_append.mp ht with ht | ht
    · exact h.fits t ht
    · exact hfits t ht
  · have hlen := @length_expandAll _ _ [] h.inside
    rw [h.text, length_text] at hlen
    refine allInside_append.mpr ⟨h.inside, ?_⟩
    rw [List.length_nil] at hlen
    rw [← hlen]
    exact hus.1
  · rw [expandAll_append, h.text]
    exact hus.2

/-- **Closing the run** gives tokens for everything consumed. -/
theorem Open.close (h : Open level src st pos front ts lits) :
    Closed level src st.ip (closeCopy st.copy st.op) (closeTokens ts lits) ∧
      (∃ bs us, closeTokens ts lits = .literal bs :: us) ∧
      (closeCopy st.copy st.op).length ≤ front.length + 1 + st.copy ∧
      (st.copy = 0 → (closeCopy st.copy st.op).length = front.length) := by
  have hlits := h.lits_eq
  have hroom := h.room
  have htext := h.text
  unfold closeTokens closeCopy
  rw [h.op_eq]
  by_cases h0 : st.copy = 0
  · obtain rfl : lits = [] := List.eq_nil_of_length_eq_zero (hlits.trans h0)
    have hfirst : ∃ bs us, ts = .literal bs :: us := by
      rcases h.first with hfirst | ⟨-, h1⟩
      · exact hfirst
      · omega
    have hip : pos = st.ip := by have := h.ip_eq; omega
    rw [if_pos rfl, if_neg (not_not.mpr h0), List.dropLast_concat, ← hip]
    exact ⟨h.closed, hfirst, by omega, fun _ => rfl⟩
  · have hne : lits ≠ [] := by
      rintro rfl
      exact h0 hlits.symm
    have hset : (front ++ byte (maxCopy - 1) :: lits).set
        ((front ++ byte (maxCopy - 1) :: lits).length - st.copy - 1) (byte (st.copy - 1)) =
        front ++ byte (lits.length - 1) :: lits := by
      have hidx : (front ++ byte (maxCopy - 1) :: lits).length - st.copy - 1 = front.length := by
        rw [List.length_append, List.length_cons, hlits]
        omega
      rw [hidx, List.set_append_right _ _ (Nat.le_refl _), Nat.sub_self, List.set_cons_zero, hlits]
    have hone : encodeAll level [.literal lits] = byte (lits.length - 1) :: lits := by
      rw [encodeAll_cons, encodeToken]
      exact List.append_nil _
    have hclosed := h.closed.append (fun u (hu : u ∈ [Token.literal lits]) => by
      obtain rfl := List.mem_singleton.mp hu
      exact fits_literal (by omega) (by omega)) ⟨⟨trivial, trivial⟩, htext⟩
    rw [if_neg hne, if_pos h0, hset, ← hone]
    refine ⟨hclosed, ?_, ?_, fun h => absurd h h0⟩
    · rcases h.first with ⟨bs, us, rfl⟩ | ⟨rfl, -⟩
      · exact ⟨_, _, rfl⟩
      · exact ⟨_, _, rfl⟩
    · rw [hone, List.length_append, List.length_cons, hlits]
      omega

/-- **A literal** goes into the open run, and closes it when it is full. -/
theorem Open.literal (h : Open level src st pos front ts lits) :
    ∃ pos' front' ts' lits', Open level src (literalPass src st) pos' front' ts' lits' := by
  have hlits := h.lits_eq
  have hroom := h.room
  have hip := h.ip_eq
  have hstart := h.start
  have htext : Fastlz.text src pos ++ (lits ++ [src st.ip]) = Fastlz.text src (st.ip + 1) := by
    rw [text_succ, ← h.text, List.append_assoc]
  have hlen : (lits ++ [src st.ip]).length = st.copy + 1 := by
    rw [List.length_append, hlits]
    rfl
  unfold literalPass
  by_cases hfull : st.copy + 1 = maxCopy
  · have hcopy : st.copy = 31 := Nat.succ.inj hfull
    have hone : encodeAll level [.literal (lits ++ [src st.ip])] =
        byte (maxCopy - 1) :: (lits ++ [src st.ip]) := by
      rw [encodeAll_cons, encodeToken, hlen, hcopy]
      exact List.append_nil _
    have hclosed := h.closed.append (n := st.ip + 1)
      (fun u (hu : u ∈ [Token.literal (lits ++ [src st.ip])]) => by
        obtain rfl := List.mem_singleton.mp hu
        exact fits_literal (by omega) (by omega))
      ⟨⟨trivial, trivial⟩, htext⟩
    rw [if_pos hfull]
    refine ⟨st.ip + 1, _, _, [], hclosed, ?_, Nat.add_zero _, rfl, (by decide : 0 < 32), ?_, ?_, ?_,
      ?_⟩
    · simp only [h.op_eq, hone, List.append_assoc, List.cons_append]
    · show 2 ≤ st.ip + 1
      omega
    · exact List.append_nil _
    · have hcost := h.cost
      rw [hone, List.length_append, List.length_cons, hlen]
      omega
    · rcases h.first with ⟨bs, us, rfl⟩ | ⟨rfl, -⟩
      · exact .inl ⟨_, _, rfl⟩
      · exact .inl ⟨_, _, rfl⟩
  · rw [if_neg hfull]
    refine ⟨pos, front, ts, lits ++ [src st.ip], h.closed, ?_, ?_, hlen, ?_, ?_, htext, h.cost, ?_⟩
    · simp only [h.op_eq, List.append_assoc, List.cons_append]
    · show pos + (st.copy + 1) = st.ip + 1
      omega
    · have hmax : maxCopy = 32 := rfl
      show st.copy + 1 < 32
      omega
    · show 2 ≤ st.ip + 1
      omega
    · rcases h.first with hfirst | ⟨hnil, h1⟩
      · exact .inl hfirst
      · exact .inr ⟨hnil, Nat.le_succ_of_le h1⟩

/-- **A match** closes the run and adds its tokens. -/
theorem Open.match (h : Open level src st pos front ts lits) {length : Nat} {c : Candidate}
    (hlimit : st.ip + 12 < length) (h32 : length < 4294967296) (hc : c.Sound level src st.ip) :
    (∃ pos' front' ts' lits', Open level src (matchPass level src (length - 2) c st)
      pos' front' ts' lits') ∧ st.ip < (matchPass level src (length - 2) c st).ip ∧
      (matchPass level src (length - 2) c st).ip ≤ length := by
  have hlen := hc.len
  have hinside := hc.inside
  have hsub : st.ip - c.distance + c.len = st.ip + c.len - c.distance := by omega
  obtain ⟨hfar, hbound, hsame⟩ := @matchEnd_spec src (length - 2) c.distance (st.ip + c.len) hc.pos
    (by omega) (by omega)
  obtain ⟨hclosed, ⟨bs, vs, hfirst⟩, hlong, hempty⟩ := h.close
  unfold matchPass
  simp only [hsub]
  generalize matchEnd src (length - 2) (c.distance - 1) (st.ip + c.len - c.distance) (st.ip + c.len) = e
    at hfar hbound hsame
  -- the match copies everything up to the last byte that was equal
  obtain ⟨n, rfl⟩ : ∃ n, e = st.ip + n + 3 := ⟨e - 3 - st.ip, by omega⟩
  have hn : c.len ≤ n + 2 := by omega
  have hback : st.ip + n + 3 - 3 - st.ip = n := by omega
  have hall : SameBack src c.distance st.ip (st.ip + (n + 2)) := hc.same.trans hsame
  obtain ⟨us, hus, hfits, hcopy⟩ :=
    @encodeMatch_tokens level c.distance n hc.pos hc.reach (by omega) (by omega)
  have hcopies : AllInside st.ip us ∧ expandAll us (Fastlz.text src st.ip) =
      Fastlz.text src (st.ip + (n + 2)) := by
    obtain ⟨hin, hexp⟩ := hcopy (Fastlz.text src st.ip) (by rw [length_text]; exact hinside)
    rw [length_text] at hin
    refine ⟨hin, ?_⟩
    have htake := copyBack_take hc.pos hinside (by rw [length_text])
      (hall.repeats (Nat.le_refl (st.ip + (n + 2))))
    rw [take_text (Nat.le_add_right _ _), take_text (Nat.le_refl _)] at htake
    rw [hexp, htake]
  have hmatch := hclosed.append hfits hcopies
  have hcost : (encodeMatch level (c.distance - 1) n).length ≤ n + 1 := by
    refine length_encodeMatch (by omega) fun hlevel hdist => ?_
    have := hc.far hlevel (Nat.le_of_succ_le hdist)
    omega
  rw [hus] at hmatch
  have hend : st.ip + n + 3 - 3 + 2 = st.ip + (n + 2) := by omega
  rw [hback, hend]
  refine ⟨⟨st.ip + (n + 2), _, _, [], hmatch, rfl, rfl, rfl, (by decide : 0 < 32), ?_,
    List.append_nil _, ?_, .inl ?_⟩, ?_, ?_⟩
  · have := h.start
    show 2 ≤ st.ip + (n + 2)
    omega
  · -- what an open run costs is made up by the match behind it
    have hfront := h.cost
    have hip := h.ip_eq
    rw [List.length_append]
    by_cases h0 : st.copy = 0
    · have := hempty h0
      omega
    · omega
  · exact ⟨bs, vs ++ us, by rw [hfirst]; rfl⟩
  · show st.ip < st.ip + (n + 2)
    omega
  · show st.ip + (n + 2) ≤ length
    omega

/-! ## 6. The loops -/

/-- Some tokens and some open run. -/
def Consumed (level : Level) (src : Nat → Byte) (st : Compressor) : Prop :=
  ∃ pos front ts lits, Open level src st pos front ts lits

theorem Consumed.htab (h : Consumed level src st) (htab : Nat → Nat) :
    Consumed level src { st with htab := htab } := by
  obtain ⟨pos, front, ts, lits, h⟩ := h
  exact ⟨pos, front, ts, lits, h.closed, h.op_eq, h.ip_eq, h.lits_eq, h.room, h.start, h.text, h.cost,
    h.first⟩

theorem literalPass_ip (src : Nat → Byte) (st : Compressor) :
    (literalPass src st).ip = st.ip + 1 := by
  unfold literalPass
  split
  · rfl
  · rfl

/-- **One pass of the main loop.** -/
theorem Consumed.pass (h : Consumed level src st) {length : Nat} (hlimit : st.ip + 12 < length)
    (h32 : length < 4294967296) :
    Consumed level src (compressPass level src length st) ∧
      st.ip < (compressPass level src length st).ip ∧
      (compressPass level src length st).ip ≤ length := by
  have hstart : 2 ≤ st.ip := by
    obtain ⟨pos, front, ts, lits, h⟩ := h
    exact h.start
  unfold compressPass
  cases hc : candidate level src st.htab st.ip with
  | mk found htab =>
      obtain ⟨pos, front, ts, lits, hopen⟩ := h.htab htab
      cases found with
      | none =>
          simp only
          refine ⟨hopen.literal, ?_, ?_⟩
          · rw [literalPass_ip]
            exact Nat.lt_succ_self _
          · rw [literalPass_ip]
            show st.ip + 1 ≤ length
            omega
      | some c => exact hopen.match hlimit h32 (candidate_sound (Nat.le_of_succ_le hstart) hc)

/-- **The main loop** stops at its limit. -/
theorem Consumed.mainLoop (h : Consumed level src st) {length fuel : Nat} (hip : st.ip ≤ length)
    (h32 : length < 4294967296) (hfuel : length ≤ st.ip + fuel) :
    Consumed level src (mainLoop level src length fuel st) ∧
      (mainLoop level src length fuel st).ip ≤ length ∧
      ¬ (mainLoop level src length fuel st).ip + 12 < length := by
  induction fuel generalizing st with
  | zero => exact ⟨h, hip, by show ¬ st.ip + 12 < length; omega⟩
  | succ fuel ih =>
      unfold Fastlz.mainLoop
      by_cases hlimit : st.ip + 12 < length
      · obtain ⟨hpass, hmore, hle⟩ := h.pass hlimit h32
        rw [if_pos hlimit]
        exact ih hpass hle (by omega)
      · rw [if_neg hlimit]
        exact ⟨h, hip, hlimit⟩

theorem Consumed.leftOver (h : Consumed level src st) (n : Nat) :
    Consumed level src (leftOver src n st) ∧ (leftOver src n st).ip = st.ip + n := by
  induction n generalizing st with
  | zero => exact ⟨h, rfl⟩
  | succ n ih =>
      obtain ⟨pos, front, ts, lits, hopen⟩ := h
      obtain ⟨hrest, hip⟩ := ih hopen.literal
      refine ⟨hrest, ?_⟩
      rw [literalPass_ip] at hip
      show (Fastlz.leftOver src n (literalPass src st)).ip = st.ip + (n + 1)
      omega

end Open

/-! ## 7. The compressor -/

/-- What a compressor puts: tokens for the whole input, the level marked in the first byte. -/
structure Compressed (level : Level) (src : Nat → Byte) (length : Nat) (c : List Byte)
    (bs : List Byte) (ts : List (Token Byte)) : Prop where
  bytes : c = firstByte level bs.length :: (bs ++ encodeAll level ts)
  fits : ∀ t ∈ Token.literal bs :: ts, Fits level t
  inside : AllInside 0 (Token.literal bs :: ts)
  text : expandAll (Token.literal bs :: ts) [] = text src length
  size : c.length ≤ length + length / 32 + 1

/-- **The compressor** encodes its input as tokens. Up to three bytes are put without a mark. -/
theorem fastlzCompressor_tokens (level : Level) (src : Nat → Byte) {length : Nat} (h1 : 1 ≤ length)
    (h32 : length < 4294967296) :
    ∃ level' bs ts, Compressed level' src length (fastlzCompressor level src length) bs ts := by
  unfold fastlzCompressor
  by_cases hshort : length < 4
  · refine ⟨.one, text src length, [], ?_, ?_, ⟨trivial, trivial⟩, ?_, ?_⟩
    · rw [if_pos hshort, if_pos (by omega), length_text]
      exact congrArg (byte (length - 1) :: ·) (List.append_nil _).symm
    · intro t ht
      obtain rfl := List.mem_singleton.mp ht
      exact fits_literal (by rw [length_text]; exact h1) (by rw [length_text]; omega)
    · exact List.nil_append _
    · rw [if_pos hshort, if_pos (by omega), List.length_cons, List.length_map, List.length_range]
      omega
  · rw [if_neg hshort]
    simp only
    have hfirst : Consumed level src ⟨2, [byte (maxCopy - 1), src 0, src 1], 2, fun _ => 0⟩ :=
      ⟨0, [], [], [src 0, src 1], ⟨rfl, nofun, trivial, rfl⟩, rfl, rfl, rfl, (by decide : 2 < 32),
        Nat.le_refl _, rfl, Nat.zero_le _, .inr ⟨rfl, (by decide : 1 ≤ 2)⟩⟩
    obtain ⟨hmain, hip, -⟩ := @Consumed.mainLoop level src _ hfirst length length
      (show 2 ≤ length by omega) h32 (Nat.le_add_left _ _)
    generalize mainLoop level src length length
      ⟨2, [byte (maxCopy - 1), src 0, src 1], 2, fun _ => 0⟩ = st at hmain hip
    obtain ⟨⟨pos, front, ts, lits, hopen⟩, hend⟩ := hmain.leftOver (length - st.ip)
    rw [Nat.add_sub_cancel' hip] at hend
    generalize leftOver src (length - st.ip) st = st' at hopen hend
    obtain ⟨hclosed, ⟨bs, us, hts⟩, hlong, -⟩ := hopen.close
    rw [hend] at hclosed
    have hbytes : closeCopy st'.copy st'.op = byte (bs.length - 1) :: (bs ++ encodeAll level us) := by
      rw [hclosed.op_eq, hts, encodeAll_cons]
      rfl
    have hsize : (closeCopy st'.copy st'.op).length ≤ length + length / 32 + 1 := by
      have hcost := hopen.cost
      have hpos := hopen.ip_eq
      omega
    refine ⟨level, bs, us, ?_, ?_, ?_, ?_, ?_⟩
    · cases level with
      | one => exact hbytes
      | two =>
          simp only
          rw [hbytes]
          rfl
    · rw [← hts]
      exact hclosed.fits
    · rw [← hts]
      exact hclosed.inside
    · rw [← hts]
      exact hclosed.text
    · cases level with
      | one => exact hsize
      | two =>
          simp only
          rw [List.length_set]
          exact hsize

end Mh1903.Fastlz
