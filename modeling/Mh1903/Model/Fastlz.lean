/-
  File:      Mh1903/Model/Fastlz.lean
  Subject:   `packages/fastlz-v1.0.1/fastlz.c`: the two levels of compressor and decompressor,
             which the source makes from one text with `FASTLZ_LEVEL` set to 1 and to 2.

  * A pointer into the input is an index, `src i` is the byte there; what lies behind the end of
    the input is memory like any other. The output is the list of the bytes in front of `op`.
  * `FASTLZ_SAFE` and `FASTLZ_STRICT_ALIGN` are set, as on the target.
  * Indices and `len` are natural numbers. In the decompressor `len` is a `flzuint32` and the checks
    add addresses: the two agree as long as no sum reaches 32 bits, and a length grows by at most
    255 with each byte of it.
-/
import Mh1903.Model.Machine
import Mh1903.Library.Tokens

namespace Mh1903.Fastlz

open Library

/-! ## 1. Constants and the hash -/

/-- `FASTLZ_LEVEL` -/
inductive Level where
  | one
  | two
  deriving DecidableEq

def maxCopy : Nat := 32
def maxLen : Nat := 264

def Level.maxDistance : Level → Nat
  | .one => 8192
  | .two => 8191

def maxFardistance : Nat := 65535 + Level.two.maxDistance - 1

/-- The distance from which on a candidate is no match: `MAX_DISTANCE` and `MAX_FARDISTANCE`. -/
def Level.reach : Level → Nat
  | .one => Level.one.maxDistance
  | .two => maxFardistance

def hashLog : Nat := 13
def hashMask : Nat := (1 <<< hashLog) - 1

/-- `FASTLZ_READU16` -/
def readu16 (src : Nat → Byte) (p : Nat) : Nat := (src p).toNat ||| ((src (p + 1)).toNat <<< 8)

/-- `HASH_FUNCTION` -/
def hashFunction (src : Nat → Byte) (p : Nat) : Nat :=
  let v := readu16 src p
  let v := v ^^^ (readu16 src (p + 1) ^^^ (v >>> (16 - hashLog)))
  v &&& hashMask

/-- `htab[hval] = p` -/
def setSlot (htab : Nat → Nat) (hval p : Nat) : Nat → Nat := fun i => if i = hval then p else htab i

/-! ## 2. The compressor: finding a match -/

/-- The locals of the main loop: `ip`, what lies in front of `op`, `copy` and the hash table. -/
structure Compressor where
  ip : Nat
  op : List Byte
  copy : Nat
  htab : Nat → Nat

/-- At the label `match`: how far back it starts, and how many bytes of it are compared. -/
structure Candidate where
  distance : Nat
  len : Nat

/-- The candidate for a match at `anchor` and the hash table this leaves; `none` is
    `goto literal`. -/
def candidate (level : Level) (src : Nat → Byte) (htab : Nat → Nat) (anchor : Nat) :
    Option Candidate × (Nat → Nat) :=
  if level = .two ∧ src anchor = src (anchor - 1) ∧
      readu16 src (anchor - 1) = readu16 src (anchor + 1) then
    (some ⟨1, 3⟩, htab)
  else
    let hval := hashFunction src anchor
    let ref := htab hval
    let distance := anchor - ref
    let htab := setSlot htab hval anchor
    if distance = 0 ∨ distance ≥ level.reach ∨ src ref ≠ src anchor ∨
        src (ref + 1) ≠ src (anchor + 1) ∨ src (ref + 2) ≠ src (anchor + 2) then
      (none, htab)
    else if level = .two ∧ distance ≥ level.maxDistance then
      if src (anchor + 3) ≠ src (ref + 3) ∨ src (anchor + 4) ≠ src (ref + 4) then
        (none, htab)
      else
        (some ⟨distance, 5⟩, htab)
    else
      (some ⟨distance, 3⟩, htab)

/-- `while(ip < ip_bound) if(*ref++ != x) break; else ip++;` with `n` bytes to the bound. -/
def runEnd (src : Nat → Byte) (x : Byte) : Nat → Nat → Nat → Nat
  | 0, _, ip => ip
  | n + 1, ref, ip => if src ref ≠ x then ip else runEnd src x n (ref + 1) (ip + 1)

/-- `if(*ref++ != *ip++) break;` up to `n` times: `ip` behind it, and whether it broke. -/
def compareStop (src : Nat → Byte) : Nat → Nat → Nat → Nat × Bool
  | 0, _, ip => (ip, false)
  | n + 1, ref, ip =>
      if src ref ≠ src ip then (ip + 1, true) else compareStop src n (ref + 1) (ip + 1)

/-- `ip` behind the comparisons; the distance is biased. -/
def matchEnd (src : Nat → Byte) (ipBound distance ref ip : Nat) : Nat :=
  if distance = 0 then
    runEnd src (src (ip - 1)) (ipBound - ip) ref ip
  else
    match compareStop src 8 ref ip with
    | (ip, true) => ip
    | (ip, false) => (compareStop src (ipBound - ip) (ref + 8) ip).1

/-! ## 3. The compressor: writing tokens -/

/-- A byte written through `op`. -/
def byte (n : Nat) : Byte := .ofNat 8 n

/-- `if(copy) *(op-copy-1) = copy-1; else op--;` -/
def closeCopy (copy : Nat) (op : List Byte) : List Byte :=
  if copy ≠ 0 then op.set (op.length - copy - 1) (byte (copy - 1)) else op.dropLast

/-- Level 1: `while(len > MAX_LEN-2)`, and the `len` left. -/
def encodeLong (distance : Nat) : Nat → Nat → List Byte × Nat
  | 0, len => ([], len)
  | fuel + 1, len =>
      if len > maxLen - 2 then
        let r := encodeLong distance fuel (len - (maxLen - 2))
        ([byte ((7 <<< 5) + (distance >>> 8)), byte (maxLen - 2 - 7 - 2), byte (distance &&& 255)] ++
          r.1, r.2)
      else
        ([], len)

/-- Level 2: `for(len-=7; len >= 255; len-= 255) *op++ = 255; *op++ = len;` behind the `-= 7`. -/
def encodeLen : Nat → Nat → List Byte
  | 0, len => [byte len]
  | fuel + 1, len => if len ≥ 255 then 255 :: encodeLen fuel (len - 255) else [byte len]

/-- The encoded match; distance and length are biased. -/
def encodeMatch (level : Level) (distance len : Nat) : List Byte :=
  match level with
  | .one =>
      let r := encodeLong distance len len
      if r.2 < 7 then
        r.1 ++ [byte ((r.2 <<< 5) + (distance >>> 8)), byte (distance &&& 255)]
      else
        r.1 ++ [byte ((7 <<< 5) + (distance >>> 8)), byte (r.2 - 7), byte (distance &&& 255)]
  | .two =>
      if distance < level.maxDistance then
        if len < 7 then
          [byte ((len <<< 5) + (distance >>> 8)), byte (distance &&& 255)]
        else
          [byte ((7 <<< 5) + (distance >>> 8))] ++ encodeLen len (len - 7) ++ [byte (distance &&& 255)]
      else
        let distance := distance - level.maxDistance
        if len < 7 then
          [byte ((len <<< 5) + 31), 255, byte (distance >>> 8), byte (distance &&& 255)]
        else
          [byte ((7 <<< 5) + 31)] ++ encodeLen len (len - 7) ++
            [255, byte (distance >>> 8), byte (distance &&& 255)]

/-- From the label `match` to `continue`. -/
def matchPass (level : Level) (src : Nat → Byte) (ipBound : Nat) (c : Candidate) (st : Compressor) :
    Compressor :=
  let anchor := st.ip
  let distance := c.distance - 1
  let ip := matchEnd src ipBound distance (anchor - c.distance + c.len) (anchor + c.len)
  let op := closeCopy st.copy st.op
  let ip := ip - 3
  let op := op ++ encodeMatch level distance (ip - anchor)
  let htab := setSlot st.htab (hashFunction src ip) ip
  let htab := setSlot htab (hashFunction src (ip + 1)) (ip + 1)
  ⟨ip + 2, op ++ [byte (maxCopy - 1)], 0, htab⟩

/-- From the label `literal` on, and the body of the loop behind the main loop. -/
def literalPass (src : Nat → Byte) (st : Compressor) : Compressor :=
  if st.copy + 1 = maxCopy then
    { st with ip := st.ip + 1, op := st.op ++ [src st.ip] ++ [byte (maxCopy - 1)], copy := 0 }
  else
    { st with ip := st.ip + 1, op := st.op ++ [src st.ip], copy := st.copy + 1 }

def compressPass (level : Level) (src : Nat → Byte) (length : Nat) (st : Compressor) : Compressor :=
  match candidate level src st.htab st.ip with
  | (some c, htab) => matchPass level src (length - 2) c { st with htab := htab }
  | (none, htab) => literalPass src { st with htab := htab }

/-- `while(ip < ip_limit)` -/
def mainLoop (level : Level) (src : Nat → Byte) (length : Nat) : Nat → Compressor → Compressor
  | 0, st => st
  | fuel + 1, st =>
      if st.ip + 12 < length then
        mainLoop level src length fuel (compressPass level src length st)
      else
        st

/-- The left-over: `while(ip <= ip_bound)` with `n` bytes to go. -/
def leftOver (src : Nat → Byte) : Nat → Compressor → Compressor
  | 0, st => st
  | n + 1, st => leftOver src n (literalPass src st)

/-- `fastlz1_compress` and `fastlz2_compress` behind the allocation of the hash table: the bytes
    they put, as many as they return. -/
def fastlzCompressor (level : Level) (src : Nat → Byte) (length : Nat) : List Byte :=
  if length < 4 then
    if length ≠ 0 then
      byte (length - 1) :: (List.range length).map src
    else
      []
  else
    let st : Compressor := ⟨2, [byte (maxCopy - 1), src 0, src 1], 2, fun _ => 0⟩
    let st := mainLoop level src length length st
    let st := leftOver src (length - st.ip) st
    let op := closeCopy st.copy st.op
    match level with
    | .one => op
    | .two => op.set 0 (op.getD 0 0 ||| byte (1 <<< 5))

/-- `fastlz_compress_level`; `none` is the -1 for a hash table without memory. -/
def fastlzCompressLevel (level : Nat) (mallocOk : Bool) (src : Nat → Byte) (length : Nat) :
    Option (List Byte) :=
  if level = 1 then
    if mallocOk then some (fastlzCompressor .one src length) else none
  else if level = 2 then
    if mallocOk then some (fastlzCompressor .two src length) else none
  else
    some []

/-- `fastlz_compress` -/
def fastlzCompress (mallocOk : Bool) (src : Nat → Byte) (length : Nat) : Option (List Byte) :=
  if length < 65536 then
    fastlzCompressLevel 1 mallocOk src length
  else
    fastlzCompressLevel 2 mallocOk src length

/-! ## 4. The decompressor -/

/-- The locals of the loop: `ip`, `ctrl` and what lies in front of `op`. -/
structure Decompressor where
  ip : Nat
  ctrl : Nat
  op : List Byte

/-- A match in front of its checks: `len`, `op - ref`, and `ip` behind it. -/
structure Match where
  len : Nat
  back : Nat
  ip : Nat

/-- Level 2: `do { code = *ip++; len += code; } while (code==255);`, `ip` and `len` behind it. -/
def lenLoop (src : Nat → Byte) : Nat → Nat → Nat → Option (Nat × Nat)
  | 0, _, _ => none
  | fuel + 1, ip, len =>
      let code := (src ip).toNat
      if code = 255 then lenLoop src fuel (ip + 1) (len + code) else some (ip + 1, len + code)

/-- Passes of `lenLoop` in one run over the memory. -/
def lenFuel : Nat := 4294967296

/-- The match that `ctrl` and the bytes behind it describe; `none` where level 2 never finds the
    end of its length. -/
def readMatch (level : Level) (src : Nat → Byte) (ctrl ip : Nat) : Option Match :=
  let len := (ctrl >>> 5) - 1
  let ofs := (ctrl &&& 31) <<< 8
  match level with
  | .one =>
      let (ip, len) := if len = 7 - 1 then (ip + 1, len + (src ip).toNat) else (ip, len)
      some ⟨len, ofs + (src ip).toNat, ip + 1⟩
  | .two =>
      let r := if len = 7 - 1 then lenLoop src lenFuel ip len else some (ip, len)
      match r with
      | none => none
      | some (ip, len) =>
          let code := (src ip).toNat
          if code = 255 ∧ ofs = 31 <<< 8 then
            let ofs := ((src (ip + 1)).toNat <<< 8) + (src (ip + 2)).toNat
            some ⟨len, ofs + level.maxDistance, ip + 3⟩
          else
            some ⟨len, ofs + code, ip + 1⟩

/-- How a pass ends: `return 0`, the end of the loop, or the next pass; `ip` lies behind the last
    byte read. -/
inductive Pass where
  | failed (ip : Nat)
  | ended (ip : Nat) (op : List Byte)
  | next (st : Decompressor)

/-- `if(ip < ip_limit) ctrl = *ip++; else loop = 0;` -/
def nextPass (src : Nat → Byte) (length ip : Nat) (op : List Byte) : Pass :=
  if ip < length then .next ⟨ip + 1, (src ip).toNat, op⟩ else .ended ip op

def decompressPass (level : Level) (src : Nat → Byte) (length maxout : Nat) (st : Decompressor) :
    Option Pass :=
  if st.ctrl ≥ 32 then
    match readMatch level src st.ctrl st.ip with
    | none => none
    | some m =>
        if st.op.length + m.len + 3 > maxout then
          some (.failed m.ip)
        else if st.op.length < m.back + 1 then
          some (.failed m.ip)
        else if m.back = 0 then
          let b := st.op.getD (st.op.length - 1) 0
          some (nextPass src length m.ip (st.op ++ List.replicate (m.len + 3) b))
        else
          some (nextPass src length m.ip (copyBack (m.back + 1) (m.len + 3) st.op))
  else
    let ctrl := st.ctrl + 1
    if st.op.length + ctrl > maxout then
      some (.failed st.ip)
    else if st.ip + ctrl > length then
      some (.failed st.ip)
    else
      some (nextPass src length (st.ip + ctrl)
        (st.op ++ (List.range ctrl).map fun i => src (st.ip + i)))

/-- `return 0;` with `op` put so far -/
def returnFailed (ip : Nat) (op : List Byte) : Decompressed := ⟨op, 0, ip, .inl rfl⟩

/-- `return op - (flzuint8*)output;` -/
def returnSize (ip : Nat) (op : List Byte) : Decompressed := ⟨op, op.length, ip, .inr rfl⟩

/-- The `do` loop: what it put, the size returned, and how far it read. -/
def decompressLoop (level : Level) (src : Nat → Byte) (length maxout : Nat) :
    Nat → Decompressor → Option Decompressed
  | 0, _ => none
  | fuel + 1, st =>
      match decompressPass level src length maxout st with
      | none => none
      | some (.failed ip) => some (returnFailed ip st.op)
      | some (.ended ip op) => some (returnSize ip op)
      | some (.next st) => decompressLoop level src length maxout fuel st

/-- `fastlz1_decompress` and `fastlz2_decompress`. A pass that is not the last one takes at least one
    byte. -/
def fastlzDecompressor (level : Level) (src : Nat → Byte) (length maxout : Nat) :
    Option Decompressed :=
  decompressLoop level src length maxout (length + 1) ⟨1, (src 0).toNat &&& 31, []⟩

/-- `fastlz_decompress`; `none` is a call that does not return. -/
def fastlzDecompress (src : Nat → Byte) (length maxout : Nat) : Option Decompressed :=
  let level := ((src 0).toNat >>> 5) + 1
  if level = 1 then
    fastlzDecompressor .one src length maxout
  else if level = 2 then
    fastlzDecompressor .two src length maxout
  else
    some (returnFailed 1 [])

end Mh1903.Fastlz
