/-
  File:      Mh1903/Fastlz/RoundTrip.lean
  Subject:   DECOMPRESSING WHAT WAS COMPRESSED gives the input back, at both levels and whatever
             lies behind the stream; a stream is little longer than its input, and the
             decompressor stays inside its output whatever stream it is given.
-/
import Mh1903.Fastlz.Encode

namespace Mh1903.Fastlz

open Library

/-! ## 1. Any stream -/

/-- The level a stream is of, by its first byte. -/
def streamLevel (src : Nat → Byte) : Level := if (src 0).toNat >>> 5 = 1 then .two else .one

/-- Fewer than `n` bytes 255 in a row. -/
def RunsEnd (src : Nat → Byte) (n : Nat) : Prop := ∀ i, ∃ j < n, src (i + j) ≠ 255

theorem RunsEnd.ends {src : Nat → Byte} {n : Nat} (h : RunsEnd src n) (hn : n ≤ lenFuel)
    (level : Level) : Ends level src := by
  intro _ i
  obtain ⟨j, hj, hne⟩ := h i
  exact ⟨j, by omega, hne⟩

/-- What the decompressor leaves of any stream: inside its output, and at level 1 read to two bytes
    behind the stream at most. -/
theorem fastlzDecompress_returns {src : Nat → Byte} {length maxout : Nat}
    (h : ∀ level, level = streamLevel src → Ends level src) :
    ∃ d, fastlzDecompress src length maxout = some d ∧ d.written.length ≤ maxout ∧
      ((src 0).toNat >>> 5 ≠ 1 → d.readTo ≤ length + 2) := by
  have hmask : (src 0).toNat &&& 31 ≤ 31 := Nat.and_le_right
  have hrun : ∀ level, Ends level src → ∃ d, fastlzDecompressor level src length maxout = some d ∧
      d.written.length ≤ maxout := fun level hlevel =>
    decompressLoop_returns hlevel (Nat.le_add_left _ _) (by show length + 2 ≤ 1 + (length + 1); omega)
      (Nat.zero_le _)
  unfold fastlzDecompress
  simp only
  split
  · obtain ⟨d, hd, hfit⟩ := hrun .one nofun
    refine ⟨d, hd, hfit, fun _ => decompressLoop_one_reads _ (Nat.le_add_left _ _) (fun h32 => ?_) hd⟩
    have h32 : 32 ≤ (src 0).toNat &&& 31 := h32
    omega
  · split
    · rename_i htwo
      have hlevel : .two = streamLevel src := (if_pos (Nat.succ.inj htwo)).symm
      obtain ⟨d, hd, hfit⟩ := hrun .two (h .two hlevel)
      exact ⟨d, hd, hfit, fun hone => absurd (Nat.succ.inj htwo) hone⟩
    · exact ⟨_, rfl, Nat.zero_le _, fun _ => Nat.le_add_left 1 (length + 1)⟩

/-- **The decompressor returns and stays inside its output**, whatever the stream. At level 1 it reads
    at most two bytes behind the stream, and nothing further on matters; at level 2 a length may
    run on behind it, and ends with the first byte that is not 255. While such runs are shorter
    than 4 megabytes no length and no index comes near 32 bits. -/
theorem fastlzDecompress_bounded (src : Nat → Byte) (length maxout : Nat)
    (hlength : length < 2147483648) (hends : streamLevel src = .two → RunsEnd src 4194304) :
    (∃ d, fastlzDecompress src length maxout = some d ∧ d.written.length ≤ maxout ∧
      ((src 0).toNat >>> 5 ≠ 1 → d.readTo ≤ length + 2)) ∧
    ((src 0).toNat >>> 5 ≠ 1 → ∀ src' : Nat → Byte, (∀ i < length + 2, src i = src' i) →
      fastlzDecompress src length maxout = fastlzDecompress src' length maxout) ∧
    ∀ ctrl < 256, ∀ ip ≤ length, ∀ m, readMatch (streamLevel src) src ctrl ip = some m →
      m.len + 3 < 1073741824 ∧ m.ip < 4294967296 := by
  have hrun : ∀ level, level = streamLevel src → Ends level src := by
    rintro level rfl htwo i
    exact (hends htwo).ends (by decide) (streamLevel src) htwo i
  refine ⟨fastlzDecompress_returns hrun, ?_, ?_⟩
  · intro hlevel src' hsame
    have h0 : src 0 = src' 0 := hsame 0 (Nat.succ_pos _)
    unfold fastlzDecompress
    rw [← h0]
    simp only
    split
    · unfold fastlzDecompressor
      rw [← h0]
      refine decompressLoop_one_congr hsame _ fun hctrl => ?_
      have hmask : (src 0).toNat &&& 31 ≤ 31 := Nat.and_le_right
      have hctrl : 32 ≤ (src 0).toNat &&& 31 := hctrl
      omega
    · split
      · rename_i htwo
        exact absurd (Nat.succ.inj htwo) hlevel
      · rfl
  · intro ctrl hctrl ip hip m hm
    have hle := readMatch_le hctrl (n := 4194304) (by decide) (fun htwo => hends htwo ip) hm
    omega

/-- At level 2 a match whose length ends with its second byte, at level 1 a literal in front of other
    bytes. -/
theorem fastlzDecompress_bounded_literal :
    (∃ d, fastlzDecompress ([32, 65, 224, 255, 3, 0].getD · 0) 6 300 = some d ∧
      d.written.length ≤ 300) ∧
    fastlzDecompress ([0, 65].getD · 0) 2 7 = fastlzDecompress ([0, 65, 0, 0].getD · 9) 2 7 := by
  constructor
  · have hends : RunsEnd ([32, 65, 224, 255, 3, 0].getD · 0) 4194304 := by
      intro i
      refine ⟨6, by decide, ?_⟩
      have hnone : ([32, 65, 224, 255, 3, 0] : List Byte)[i + 6]? = none :=
        List.getElem?_eq_none (Nat.le_add_left 6 i)
      show ([32, 65, 224, 255, 3, 0] : List Byte).getD (i + 6) 0 ≠ 255
      rw [List.getD_eq_getElem?_getD, hnone]
      decide
    obtain ⟨d, hd, hfit, -⟩ := (fastlzDecompress_bounded ([32, 65, 224, 255, 3, 0].getD · 0) 6 300
      (by decide) fun _ => hends).1
    exact ⟨d, hd, hfit⟩
  · exact (fastlzDecompress_bounded ([0, 65].getD · 0) 2 7 (by decide) nofun).2.1 (by decide) _
      (by decide)

/-! ## 2. Streams of the compressor -/

/-- What a compressor puts is decompressed to its input. -/
theorem Compressed.decompress {level : Level} {src dst : Nat → Byte} {length maxout : Nat}
    {c bs : List Byte} {ts : List (Token Byte)} (h : Compressed level src length c bs ts)
    (hdst : Holds dst 0 c) (hmax : length ≤ maxout) :
    ∃ d, fastlzDecompress dst c.length maxout = some d ∧ d.written = Fastlz.text src length ∧
      d.size = length := by
  have hbytes := h.bytes
  rw [hbytes] at hdst
  have htotal : sizes (Token.literal bs :: ts) = length := by
    have hlen := @length_expandAll _ _ [] h.inside
    rw [h.text, length_text, List.length_nil, Nat.zero_add] at hlen
    exact hlen.symm
  obtain ⟨d, hd, hw, hs⟩ := @fastlzDecompress_tokens level dst c.length maxout ts bs h.fits hdst.1
    hdst.2 (by rw [hbytes, List.length_cons]; omega) h.inside (htotal.trans_le hmax)
  rw [h.text] at hw
  exact ⟨d, hd, hw, by rw [hs, hw, length_text]⟩

theorem fastlzCompressor_decompress (level : Level) {src dst : Nat → Byte} {length maxout : Nat}
    (h1 : 1 ≤ length) (h32 : length < 4294967296)
    (hdst : Holds dst 0 (fastlzCompressor level src length)) (hmax : length ≤ maxout) :
    ∃ d, fastlzDecompress dst (fastlzCompressor level src length).length maxout = some d ∧
      d.written = text src length ∧ d.size = length := by
  obtain ⟨level', bs, ts, h⟩ := fastlzCompressor_tokens level src h1 h32
  exact h.decompress hdst hmax

/-- **Round trip**: what `fastlz_compress` or either of its levels puts is decompressed to the input,
    whatever follows it in memory, and it is at most a thirty-second and a byte longer. -/
theorem fastlz_round_trip {mallocOk : Bool} {src dst : Nat → Byte} {length maxout : Nat}
    {c : List Byte} (h1 : 1 ≤ length) (h32 : length < 4294967296)
    (hc : fastlzCompress mallocOk src length = some c ∨
      fastlzCompressLevel 1 mallocOk src length = some c ∨
      fastlzCompressLevel 2 mallocOk src length = some c)
    (hdst : ∀ i < c.length, dst i = c.getD i 0) (hmax : length ≤ maxout) :
    (∃ d, fastlzDecompress dst c.length maxout = some d ∧
      d.written = (List.range length).map src ∧ d.size = length) ∧
      c.length ≤ length + length / 32 + 1 := by
  have hlevel : ∀ n, n = 1 ∨ n = 2 → fastlzCompressLevel n mallocOk src length = some c →
      ∃ level, fastlzCompressor level src length = c := by
    intro n hn h
    unfold fastlzCompressLevel at h
    rcases hn with rfl | rfl
    · rw [if_pos rfl] at h
      split at h
      · exact ⟨.one, Option.some.inj h⟩
      · cases h
    · rw [if_neg (by decide), if_pos rfl] at h
      split at h
      · exact ⟨.two, Option.some.inj h⟩
      · cases h
  have hsome : ∃ level, fastlzCompressor level src length = c := by
    rcases hc with hc | hc | hc
    · unfold fastlzCompress at hc
      split at hc
      · exact hlevel 1 (.inl rfl) hc
      · exact hlevel 2 (.inr rfl) hc
    · exact hlevel 1 (.inl rfl) hc
    · exact hlevel 2 (.inr rfl) hc
  obtain ⟨level, rfl⟩ := hsome
  obtain ⟨level', bs, ts, h⟩ := fastlzCompressor_tokens level src h1 h32
  refine ⟨h.decompress (holds_of fun i hi => ?_) hmax, h.size⟩
  rw [Nat.zero_add]
  exact hdst i hi

/-- Three bytes over and over: three literals, a match at a distance of three, and two literals. -/
theorem fastlz_round_trip_three :
    ∃ d, fastlzDecompress (([2, 0, 1, 2, 224, 25, 2, 2, 1, 2, 0] : List Byte).getD · 0) 11 64 =
        some d ∧ d.written = (List.range 40).map (fun i => byte (i % 3)) ∧ d.size = 40 :=
  (@fastlz_round_trip true _ _ _ _ _ (by decide) (by decide) (.inl (by decide +kernel))
    (fun _ _ => rfl) (by decide)).1

end Mh1903.Fastlz
