/-
  File:      Mh1903/Copy/Plain.lean
  Subject:   THE UNCOMPRESSED PATH INSTALLS THE IMAGE. Erased are the sectors of `raw_size`, read
             and written whole chunks up to `com_size`; where both fill the same number of sectors
             the target holds the decrypted body.
-/
import Mh1903.Copy.Stream
import Mh1903.Frame.Good

namespace Mh1903

open Library RtFotaPartHead

/-! ## 1. Steps on a good flash -/

section Steps

variable {env : Env}

theorem rtMalloc_ok (hmem : ∀ n, env.mallocOk n = true) (size : Nat) (w : World) :
    ∃ w', rtMalloc env size w = .ok (some ((List.range size).map env.memory)) w' ∧ Calm w w' := by
  obtain ⟨w', h, hcalm⟩ := rtMalloc_calm env size w
  rw [hmem, if_pos rfl] at h
  exact ⟨w', h, hcalm⟩

/-- The vector decryption starts with. -/
def RtFotaPartHead.startIv (h : RtFotaPartHead) : Option (List Byte) :=
  if h.crypt = rtFotaCryptAlgoAes256 then some rtFotaAlgoAesIv else none

theorem startIv_ok (h : RtFotaPartHead) : IvOk h.startIv := by
  intro iv hiv
  unfold startIv at hiv
  split at hiv
  · cases hiv
    rfl
  · cases hiv

/-- With memory and a supported encryption the setup of the cipher succeeds. -/
theorem setupCrypt_ok (hmem : ∀ n, env.mallocOk n = true) {h : RtFotaPartHead}
    (hcrypt : h.crypt ≠ rtFotaCryptAlgoXor) (w : World) :
    ∃ w', setupCrypt env h w = .ok h.startIv w' ∧ Calm w w' := by
  unfold setupCrypt startIv
  by_cases haes : h.crypt = rtFotaCryptAlgoAes256
  · obtain ⟨w₁, h₁, hcalm₁⟩ := rtMalloc_ok hmem 0 w
    obtain ⟨w₂, h₂, hcalm₂⟩ := rtMalloc_ok hmem (rtFotaAlgoAesIv.length + 1) w₁
    rw [if_pos haes, if_pos haes, bind_ok h₁, bind_ok h₂]
    simp only [Option.some_ne_none, or_self, if_false]
    exact ⟨w₂, rfl, IsTrans.trans _ _ _ hcalm₁ hcalm₂⟩
  · rw [if_neg haes, if_neg haes, if_neg hcrypt]
    exact ⟨w, rfl, Std.Refl.refl w⟩

/-- The locals in front of the main loop. -/
def CopyState.start (env : Env) (aesIv : Option (List Byte))
    (cryptBuf cmprsBuff dcprsBuff : List Byte) : CopyState where
  fwRawPos := 0
  fwRawLen := 0
  totalCopySize := 0
  blockHdrBuf := (List.range rtFotaBlockHeaderSize).map env.memory
  blockHdrPos := rtFotaAlgoBuffSize
  blockSize := 0
  dcprsSize := 0
  aesIv := aesIv
  cryptBuf := cryptBuf
  cmprsBuff := cmprsBuff
  dcprsBuff := dcprsBuff

/-- Writing out to an erased part of the target. -/
theorem writeOut_good (h : env.Good) {t : FalPartition} (ht : t.Ok) {w : World}
    (hfind : falPartitionFind env w.fotaPartHead.appPartName = some t) {buf : List Byte} {n : Nat}
    {st : CopyState} (hal : st.totalCopySize % 256 = 0) (h1 : 1 ≤ n)
    (hin : st.totalCopySize + n ≤ t.len) (hbuf : n ≤ buf.length)
    (herased : ∀ i < n, w.flash (t.base + st.totalCopySize + i) = 0xff) :
    ∃ w', writeOut env buf n st w = .ok { st with totalCopySize := st.totalCopySize + n } w' ∧
      Writes w w' (flashWith (t.base + st.totalCopySize) (buf.take n) w.flash) := by
  have hlen := ht.len_le
  obtain ⟨w', hwrite, hw'⟩ := falPartitionWrite_good h ht hal h1 hin hbuf herased
  have happ : rtFotaWriteAppPart env st.totalCopySize buf n w = .ok rtFotaNoErr w' := by
    refine withExit_ok ?_
    rw [get_bind]
    simp only [hfind]
    rw [bind_ok hwrite, if_neg (by omega)]
    rfl
  refine ⟨w', ?_, hw'⟩
  have htotal : u32 (st.totalCopySize + n) = st.totalCopySize + n := u32_eq (by omega)
  unfold writeOut
  rw [bind_ok happ, if_neg (by decide), htotal]
  rfl

end Steps

/-! ## 2. The copy -/

/-- An uncompressed image whose chunks fill as many sectors as its raw size, a target beside its
    source, and nothing that fails. -/
structure PlainJob (env : Env) (part t : FalPartition) (h : RtFotaPartHead) : Prop where
  good : env.Good
  mem : ∀ n, env.mallocOk n = true
  source : part.Ok
  target : t.Ok
  find : falPartitionFind env h.appPartName = some t
  apart : ∀ a, part.Covers a → ¬ t.Covers a
  cmprs : h.cmprs = rtFotaCryptAlgoNone
  crypt : h.crypt ≠ rtFotaCryptAlgoXor
  fit : ChunksFit part h.comSize
  rawPos : 1 ≤ h.rawSize
  chunks : chunksSize h.comSize = sectors h.rawSize * 4096
  rawLen : h.rawSize ≤ t.len

/-- `k` chunks of the body in `f` have been installed. -/
structure PlainAt (env : Env) (f : Flash) (part t : FalPartition) (h : RtFotaPartHead) (k : Nat)
    (st : CopyState) (w : World) : Prop where
  pos : st.fwRawPos = 4096 * k
  total : st.totalCopySize = 4096 * k
  iv : st.aesIv = (decodedBody env f part h.startIv (4096 * k)).1
  len : st.cryptBuf.length = 4096
  head : w.fotaPartHead = h
  flash : w.flash = flashWith t.base (decodedBody env f part h.startIv (4096 * k)).2
    (eraseRange t.base (sectors h.rawSize) f)

section Plain

variable {env : Env} {f : Flash} {part t : FalPartition} {h : RtFotaPartHead}

theorem PlainJob.room (j : PlainJob env part t h) : sectors h.rawSize * 4096 ≤ t.len := by
  have hmod := j.target.len
  have hraw := j.rawLen
  unfold sectors
  omega

theorem length_decoded (k : Nat) :
    (decodedBody env f part h.startIv (4096 * k)).2.length = 4096 * k :=
  (decodedBody_length (startIv_ok h) (.inr (by omega))).2

variable {k : Nat} {st : CopyState} {w : World}

/-- The source is what it was. -/
theorem PlainAt.source (j : PlainJob env part t h) (hk : k ≤ sectors h.rawSize)
    (hi : PlainAt env f part t h k st w) {a : Nat} (ha : part.Covers a) : w.flash a = f a := by
  have hroom := j.room
  have hout : a < t.base ∨ t.base + t.len ≤ a := by
    have := j.apart a ha
    unfold FalPartition.Covers at this
    omega
  have hlen : (decodedBody env f part h.startIv (4096 * k)).2.length = 4096 * k :=
    length_decoded k
  rw [hi.flash, flashWith_outside (by rw [hlen]; omega), eraseRange, if_neg (by omega)]

/-- **One pass of the loop** installs one more chunk. -/
theorem PlainAt.step (j : PlainJob env part t h) (hk : k < sectors h.rawSize)
    (hi : PlainAt env f part t h k st w) :
    ∃ st' w', copyStep env ⟨part, h, 0⟩ st w = .ok st' w' ∧
      PlainAt env f part t h (k + 1) st' w' := by
  have hroom := j.room
  have hfit := j.fit
  have hlen : (decodedBody env f part h.startIv (4096 * k)).2.length = 4096 * k :=
    length_decoded k
  unfold ChunksFit at hfit
  rw [j.chunks] at hfit
  have hpos := hi.pos
  have htotal := hi.total
  have hnext : 4096 * (k + 1) = 4096 * k + 4096 := Nat.mul_succ _ _
  have hend : 4096 * k + 4096 ≤ sectors h.rawSize * 4096 := by omega
  have hready : ReadReady part st := by
    refine ⟨by rw [hpos]; omega, ?_, hi.len⟩
    rw [hi.iv]
    exact (decodedBody_length (startIv_ok h) (.inr (by omega))).1
  have hread : Readable env part st.fwRawPos st.aesIv w :=
    ⟨by rw [hpos]; omega, fun _ => j.mem _⟩
  have hchunk := (@readChunk_eq st env ⟨part, h, 0⟩ j.source hready w).1 hread
  -- what was read is the next piece of the decrypted body
  have hbody : st.next env w.flash part = decodeChunk env (decodedBody env f part h.startIv
      (4096 * k)).1 (readFlash f (part.bodyAddr (4096 * k)) 4096) := by
    have hsame : readFlash w.flash (part.bodyAddr (4096 * k)) 4096 =
        readFlash f (part.bodyAddr (4096 * k)) 4096 :=
      readFlash_body_congr j.source (fun a ha => hi.source j hk.le ha) (by omega)
    unfold CopyState.next
    rw [hi.iv, hpos, hsame]
  have hadd : decodedBody env f part h.startIv (4096 * (k + 1)) =
      ((st.next env w.flash part).1, (decodedBody env f part h.startIv (4096 * k)).2 ++
        (st.next env w.flash part).2) := by
    rw [hnext, decodedBody_add (by omega), hbody]
  have hbuf : (st.next env w.flash part).2.length = 4096 := hready.length_next env w.flash
  have herased : ∀ i < 4096,
      (w.read env part st.fwRawPos st.aesIv).flash (t.base + st.totalCopySize + i) = 0xff := by
    intro i hin
    rw [World.read_flash, hi.flash, flashWith_outside (by rw [hlen]; omega), eraseRange,
      if_pos (by omega)]
  obtain ⟨w', hwrite, hw'⟩ := @writeOut_good env j.good t j.target (w.read env part st.fwRawPos st.aesIv)
    (by rw [(w.read_calm _ _ _ st.aesIv).head, hi.head]; exact j.find) (st.next env w.flash part).2 4096
    (st.advance env w.flash part) (show st.totalCopySize % 256 = 0 by omega) (by decide)
    (show st.totalCopySize + 4096 ≤ t.len by omega) hbuf.ge herased
  refine ⟨{ st.advance env w.flash part with totalCopySize := st.totalCopySize + 4096 }, w', ?_, ?_⟩
  · unfold copyStep
    rw [if_neg (not_not.mpr j.cmprs), bind_ok hchunk]
    exact hwrite
  · refine ⟨?_, ?_, ?_, hbuf, ?_, ?_⟩
    · show st.fwRawPos + 4096 = 4096 * (k + 1)
      omega
    · show st.totalCopySize + 4096 = 4096 * (k + 1)
      omega
    · show (st.next env w.flash part).1 = _
      rw [hadd]
    · rw [hw'.head, (w.read_calm _ _ _ st.aesIv).head, hi.head]
    · have hdest : t.base + (st.advance env w.flash part).totalCopySize =
          t.base + (decodedBody env f part h.startIv (4096 * k)).2.length := by
        rw [hlen, ← htotal]
        rfl
      rw [hw'.flash, hdest, World.read_flash, List.take_of_length_le hbuf.le, hadd]
      generalize (st.next env w.flash part).2 = bs
      rw [hi.flash, flashWith_append]

/-- **The whole loop.** -/
theorem PlainAt.loop (j : PlainJob env part t h) {r fuel : Nat} (hr : k + r = sectors h.rawSize)
    (hfuel : r < fuel) (hi : PlainAt env f part t h k st w) :
    ∃ st' w', copyLoop env ⟨part, h, 0⟩ fuel st w = .ok st' w' ∧
      PlainAt env f part t h (sectors h.rawSize) st' w' := by
  have hchunks := j.chunks
  simp only [chunksSize, rtFotaCrcBuffSize] at hchunks
  induction r generalizing k st w fuel with
  | zero =>
      obtain ⟨fuel, rfl⟩ := Nat.exists_eq_add_of_lt hfuel
      have hpos := hi.pos
      have hk : k = sectors h.rawSize := by omega
      subst hk
      unfold copyLoop
      rw [if_neg (show ¬ st.fwRawPos < h.comSize by omega)]
      exact ⟨st, w, rfl, hi⟩
  | succ r ih =>
      obtain ⟨fuel, rfl⟩ := Nat.exists_eq_add_of_lt hfuel
      have hpos := hi.pos
      obtain ⟨st₁, w₁, hstep, hi₁⟩ := hi.step j (by omega)
      obtain ⟨st', w', hloop, hi'⟩ := @ih (k + 1) st₁ w₁ (r + 1 + fuel) (by omega) (by omega) hi₁
      have hsum : 0 + (r + 1) + fuel + 1 = r + 1 + fuel + 1 := by omega
      refine ⟨st', w', ?_, hi'⟩
      unfold copyLoop
      rw [if_pos (show st.fwRawPos < h.comSize by omega), bind_ok hstep]
      exact hloop

/-- The setup erases the target and leaves the loop in front of the first chunk. -/
theorem PlainJob.setup (j : PlainJob env part t h) {name : List Byte}
    (hname : falPartitionFind env name = some part) (hhead : w.fotaPartHead = h) :
    ∃ st' w', upgradeSetup env (some name) w = .ok (⟨part, h, 0⟩, st') w' ∧
      PlainAt env w.flash part t h 0 st' w' := by
  have hraw : 1 ≤ w.fotaPartHead.rawSize := by rw [hhead]; exact j.rawPos
  have hsize : w.fotaPartHead.rawSize ≤ t.len := by rw [hhead]; exact j.rawLen
  have herase := rtFotaEraseAppPart_good j.good.erases j.target (by rw [hhead]; exact j.find) hraw hsize
  obtain ⟨w₁, hbuf, hcalm₁⟩ := rtMalloc_ok j.mem rtFotaAlgoBuffSize
    (w.erased t w.fotaPartHead.rawSize)
  obtain ⟨w₂, hcrypt, hcalm₂⟩ := setupCrypt_ok j.mem j.crypt w₁
  have hcmprs : setupCmprs env h w₂ = .ok ([], [], 0) w₂ := by
    have hnone := j.cmprs
    unfold setupCmprs
    rw [hnone, if_neg (by decide), if_neg (by decide), if_neg (by decide)]
    rfl
  have hcalm : Calm (w.erased t w.fotaPartHead.rawSize) w₂ := IsTrans.trans _ _ _ hcalm₁ hcalm₂
  refine ⟨.start env h.startIv ((List.range rtFotaAlgoBuffSize).map env.memory) [] [], w₂, ?_, rfl,
    rfl, ?_, by simp [CopyState.start, rtFotaAlgoBuffSize], ?_, ?_⟩
  · unfold upgradeSetup
    simp only [Option.bind_some, hname]
    refine (bind_ok herase).trans ?_
    rw [if_neg (not_not.mpr rfl), get_bind, bind_ok hbuf]
    simp only [World.erased, hhead]
    rw [bind_ok hcrypt, bind_ok hcmprs]
    rfl
  · rw [Nat.mul_zero, decodedBody_zero]
    rfl
  · exact hcalm.head.trans hhead
  · rw [hcalm.flash, Nat.mul_zero, decodedBody_zero, flashWith_nil, World.erased, hhead]

/-- **The whole upgrade**: the erased sectors hold the decrypted body, nothing else is
    different. -/
theorem PlainJob.upgrade (j : PlainJob env part t h) {name : List Byte}
    (hname : falPartitionFind env name = some part) (hhead : w.fotaPartHead = h) :
    ∃ w', rtFotaUpgrade env (some name) w = .ok rtFotaNoErr w' ∧
      w'.flash = flashWith t.base
        (decodedBody env w.flash part h.startIv (4096 * sectors h.rawSize)).2
        (eraseRange t.base (sectors h.rawSize) w.flash) := by
  obtain ⟨st, w₁, hsetup, hat⟩ := j.setup hname hhead
  obtain ⟨st', w', hloop, hat'⟩ := @PlainAt.loop env w.flash part t h 0 st w₁ j _ (copyFuel h.comSize) (Nat.zero_add _) (by
    have hchunks := j.chunks
    unfold copyFuel
    simp only [chunksSize, rtFotaCrcBuffSize, rtFotaAlgoBuffSize] at hchunks ⊢
    omega) hat
  refine ⟨w', withExit_ok ?_, hat'.flash⟩
  have htotal := hat'.total
  rw [bind_ok hsetup]
  show upgradeCopy env ⟨part, h, 0⟩ st w₁ = _
  unfold upgradeCopy
  refine (bind_ok hloop).trans ?_
  rw [if_neg (not_not.mpr j.cmprs), pure_bind]
  exact congrFun (if_neg (show ¬ st'.totalCopySize < h.rawSize by
    unfold sectors at htotal
    omega)) w'

/-- Without encryption byte for byte. -/
theorem PlainJob.upgrade_bytes (j : PlainJob env part t h) (hiv : h.startIv = none)
    {name : List Byte} (hname : falPartitionFind env name = some part)
    (hhead : w.fotaPartHead = h) :
    ∃ w', rtFotaUpgrade env (some name) w = .ok rtFotaNoErr w' ∧
      ∀ i < 4096 * sectors h.rawSize,
        w'.flash (t.base + i) = w.flash (u32 (part.bodyAddr 0 + i)) := by
  obtain ⟨w', hrun, hw'⟩ := j.upgrade hname hhead
  have hdec : (decodedBody env w.flash part none (4096 * sectors h.rawSize)).2 =
      readFlash w.flash (part.bodyAddr 0) (4096 * sectors h.rawSize) := rfl
  refine ⟨w', hrun, fun i hi => ?_⟩
  rw [hw', hiv, hdec, flashWith_at (by rw [length_readFlash]; exact hi), readFlash,
    List.getD_eq_getElem?_getD, List.getElem?_map, List.getElem?_range hi]
  rfl

end Plain

/-! ## 3. What is installed -/

/-- The body as the upgrade is to install it: as it is, or decrypted in one piece. -/
def plainBody (env : Env) (flash : Flash) (part : FalPartition) (h : RtFotaPartHead) :
    List Byte :=
  if h.crypt = rtFotaCryptAlgoAes256 then
    (tinyAesCryptCbc env.tinyAesCryptEcb (h.comSize / 16) rtFotaAlgoAesIv
      (readFlash flash (part.bodyAddr 0) h.comSize)).2
  else
    readFlash flash (part.bodyAddr 0) h.comSize

theorem plainBody_eq (env : Env) (flash : Flash) (part : FalPartition) (h : RtFotaPartHead) :
    plainBody env flash part h = (decodedBody env flash part h.startIv h.comSize).2 := by
  unfold plainBody decodedBody startIv
  by_cases haes : h.crypt = rtFotaCryptAlgoAes256
  · rw [if_pos haes, if_pos haes]
    simp only [decodeChunk, length_readFlash]
  · rw [if_neg haes, if_neg haes]
    rfl

/-- **The uncompressed path installs the image**, whatever the target held before. -/
theorem upgrade_installs_plain {env : Env} (henv : env.OnBoard) (hgood : env.Good)
    (hmem : ∀ n, env.mallocOk n = true) {part t : FalPartition} (hpart : part ∈ falPartTable)
    {w₀ w : World} (hverify : rtFotaPartFwVerify env (some part.name) w₀ = .ok rtFotaNoErr w)
    (ht : falPartitionFind env w.fotaPartHead.appPartName = some t) (hne : t ≠ part)
    (hcmprs : w.fotaPartHead.cmprs = rtFotaCryptAlgoNone)
    (hcrypt : w.fotaPartHead.crypt = rtFotaCryptAlgoNone ∨
      w.fotaPartHead.crypt = rtFotaCryptAlgoAes256 ∧ w.fotaPartHead.comSize % 16 = 0)
    (hraw : 1 ≤ w.fotaPartHead.rawSize) (hcom : w.fotaPartHead.rawSize ≤ w.fotaPartHead.comSize)
    (hround : w.fotaPartHead.comSize ≤ (w.fotaPartHead.rawSize + 4095) / 4096 * 4096)
    (hlen : w.fotaPartHead.rawSize ≤ t.len) :
    ∃ w', rtFotaUpgrade env (some part.name) w = .ok rtFotaNoErr w' ∧
      readFlash w'.flash t.base w.fotaPartHead.rawSize =
        (plainBody env w.flash part w.fotaPartHead).take w.fotaPartHead.rawSize := by
  have hp := falPartTable_ok part hpart
  have hfind := henv.find_name hpart
  have hmt := falPartitionFind_mem henv ht
  obtain ⟨hflash, hhead, -, hfit⟩ := rtFotaPartFwVerify_accepts hp hfind hverify
  rw [← hhead] at hfit
  generalize hh : w.fotaPartHead = h at *
  have hxor : h.crypt ≠ rtFotaCryptAlgoXor := by
    rcases hcrypt with hc | ⟨hc, -⟩
    · rw [hc]
      decide
    · rw [hc]
      decide
  have hchunks : chunksSize h.comSize = sectors h.rawSize * 4096 := by
    simp only [chunksSize, sectors, rtFotaCrcBuffSize]
    omega
  have j : PlainJob env part t h := ⟨hgood, hmem, hp, falPartTable_ok t hmt, ht,
    fun a ha => falPartTable_disjoint hpart hmt hne.symm ha, hcmprs, hxor, hfit, hraw, hchunks, hlen⟩
  obtain ⟨w', hrun, hw'⟩ := j.upgrade hfind hh
  refine ⟨w', hrun, ?_⟩
  -- the first bytes of what lies in the target are the first bytes of the body
  have hbase := j.target.base_lt
  have hroom := j.room
  have hchunks : h.comSize ≤ 4096 * sectors h.rawSize := by
    rw [Nat.mul_comm, ← j.chunks]
    exact comSize_le_chunksSize h.comSize
  have hdec := @length_decoded env w.flash part h (sectors h.rawSize)
  have hmod : h.startIv = none ∨ h.comSize % 16 = 0 := by
    rcases hcrypt with hc | ⟨-, hc⟩
    · refine .inl (if_neg ?_)
      rw [hc]
      decide
    · exact .inr hc
  have hall := @readFlash_flashWith t.base
    (decodedBody env w.flash part h.startIv (4096 * sectors h.rawSize)).2
    (eraseRange t.base (sectors h.rawSize) w.flash) (by omega)
  rw [hdec] at hall
  rw [plainBody_eq, ← decodedBody_take (startIv_ok h) hmod hchunks, List.take_take,
    Nat.min_eq_left hcom, hw']
  nth_rewrite 2 [← hall]
  exact (take_readFlash (by omega)).symm

/-- On the board an image of up to one sector that is as it is. -/
theorem board_plainJob {h : RtFotaPartHead}
    (hfind : falPartitionFind Env.board h.appPartName = some appPart)
    (hcmprs : h.cmprs = rtFotaCryptAlgoNone) (hcrypt : h.crypt = rtFotaCryptAlgoNone)
    (hraw₁ : 1 ≤ h.rawSize) (hraw₂ : h.rawSize ≤ 4096) (hcom₁ : 1 ≤ h.comSize)
    (hcom₂ : h.comSize ≤ 4096) :
    PlainJob Env.board downloadPart appPart h ∧ h.startIv = none ∧ sectors h.rawSize = 1 := by
  have hsectors : sectors h.rawSize = 1 := by
    unfold sectors
    omega
  have hchunks : chunksSize h.comSize = 4096 := by
    unfold chunksSize rtFotaCrcBuffSize
    omega
  have hfit : ChunksFit downloadPart h.comSize := by
    unfold ChunksFit
    rw [hchunks]
    decide
  refine ⟨⟨Env.board_good, fun _ => rfl, falPartTable_ok _ (by decide), falPartTable_ok _ (by decide),
    hfind, fun a => falPartTable_disjoint (by decide) (by decide) (by decide), hcmprs, ?_, hfit, hraw₁,
    ?_, hraw₂.trans (by decide)⟩, if_neg ?_, hsectors⟩
  · rw [hcrypt]
    decide
  · rw [hchunks, hsectors]
  · rw [hcrypt]
    decide

/-- An uncompressed image of one body byte: what its raw size claims in the one sector, the board
    verifies and installs, and the erased target begins with the byte. -/
theorem oneByte_upgrades {f : HeadFields} (hcom : f.comSize = 1) (hcrc : f.codeCrc = rtFotaCrc [0])
    (h1 : 1 ≤ f.rawSize.toNat) (hraw : f.rawSize.toNat ≤ 4096)
    (hfind : falPartitionFind Env.board (packHead f).appPartName = some appPart)
    (hcmprs : (packHead f).cmprs = rtFotaCryptAlgoNone)
    (hcrypt : (packHead f).crypt = rtFotaCryptAlgoNone) :
    ∃ w w', rtFotaPartFwVerify Env.board (some downloadPart.name)
        (.powerOn (imageAt downloadPart f [0] fun _ => 0xff)) = .ok rtFotaNoErr w ∧
      w.flash = imageAt downloadPart f [0] (fun _ => 0xff) ∧ w.fotaPartHead = packHead f ∧
      rtFotaUpgrade Env.board (some downloadPart.name) w = .ok rtFotaNoErr w' ∧
      w'.flash appPart.base = 0 := by
  have hdownload : downloadPart ∈ falPartTable := by decide
  obtain ⟨w, hverify, hflash, hhead, -⟩ := @verify_imageAt Env.board Env.board_onBoard rfl
    downloadPart hdownload f [0] (fun _ => 0xff) (by decide) (by rw [hcom]; rfl) hcrc
    (by rw [hfind]; exact Option.some_ne_none _)
  have hcom' : (packHead f).comSize = 1 := by rw [packHead_comSize, hcom]; rfl
  obtain ⟨j, hiv, hsectors⟩ := @board_plainJob (packHead f) hfind hcmprs hcrypt
    (by rw [packHead_rawSize]; exact h1) (by rw [packHead_rawSize]; exact hraw)
    (by rw [hcom']) (by rw [hcom']; decide)
  obtain ⟨w', hrun, hw'⟩ := j.upgrade_bytes hiv (Env.board_onBoard.find_name hdownload) hhead
  refine ⟨w, w', hverify, hflash, hhead, hrun, ?_⟩
  have hfirst := hw' 0 (by rw [hsectors]; decide)
  have hbody : readFlash w.flash (downloadPart.bodyAddr 0) 1 = [0] := by
    rw [hflash]
    exact readFlash_body_imageAt (falPartTable_ok _ hdownload) (by decide)
  exact hfirst.trans (List.head_eq_of_cons_eq hbody)

/-- The image of one byte, from the download to the application partition. -/
theorem upgrade_installs_plain_board :
    ∃ w w', rtFotaPartFwVerify Env.board (some downloadPart.name)
        (.powerOn (imageAt downloadPart oneByteImage [0] fun _ => 0xff)) = .ok rtFotaNoErr w ∧
      rtFotaUpgrade Env.board (some downloadPart.name) w = .ok rtFotaNoErr w' ∧
      readFlash w'.flash appPart.base 1 = [0] := by
  have hp : downloadPart.Ok := falPartTable_ok _ (by decide)
  have hmem : downloadPart ∈ falPartTable := by decide
  have hhead : headAt (imageAt downloadPart oneByteImage [0] fun _ => 0xff) downloadPart =
      packHead oneByteImage := headAt_imageAt hp (by decide)
  have hv : ValidImage Env.board (imageAt downloadPart oneByteImage [0] fun _ => 0xff)
      downloadPart := validImage_imageAt hp (by decide) rfl rfl (by decide)
  have hcom : (packHead oneByteImage).comSize = 1 := packHead_comSize oneByteImage
  have hraw : (packHead oneByteImage).rawSize = 1 := packHead_rawSize oneByteImage
  have hcrypt : (packHead oneByteImage).crypt = rtFotaCryptAlgoNone := by decide +kernel
  obtain ⟨w, hverify⟩ := (rtFotaPartFwVerify_ok_iff hp (Env.board_onBoard.find_name hmem)
    (w := .powerOn (imageAt downloadPart oneByteImage [0] fun _ => 0xff)) rfl).mpr ⟨hv, by
      rw [World.powerOn_flash, hhead, hcom]
      decide⟩
  obtain ⟨hflash, hw, -, -⟩ := rtFotaPartFwVerify_accepts hp (Env.board_onBoard.find_name hmem)
    hverify
  have hw : w.fotaPartHead = packHead oneByteImage := hw.trans hhead
  obtain ⟨w', hrun, hthere⟩ := upgrade_installs_plain (t := appPart) Env.board_onBoard
    Env.board_good (fun _ => rfl) hmem hverify (by rw [hw]; decide) (by decide)
    (by rw [hw]; decide +kernel) (.inl (by rw [hw]; exact hcrypt)) (by rw [hw, hraw])
    (by rw [hw, hraw, hcom]) (by rw [hw, hraw, hcom]; decide) (by rw [hw, hraw]; decide)
  have hbody : plainBody Env.board w.flash downloadPart (packHead oneByteImage) = [0] := by
    unfold plainBody
    rw [if_neg (by rw [hcrypt]; decide), hcom, hflash]
    exact readFlash_body_imageAt hp (by decide)
  rw [hw, hbody, hraw] at hthere
  exact ⟨w, w', hverify, hrun, hthere⟩

end Mh1903
