import Mathlib.Data.List.Basic

/-!
# The MD5 of the flashing host (`rom_md5.js`)

Firmware receipts and partition tables carry MD5 digests; 32-bit arithmetic wraps.
-/
namespace EspVision.RomMd5

/-- `Math.floor(Math.abs(Math.sin(i + 1)) * 0x100000000)`. -/
def sines : List UInt32 :=
  [0xd76aa478, 0xe8c7b756, 0x242070db, 0xc1bdceee, 0xf57c0faf, 0x4787c62a, 0xa8304613, 0xfd469501,
    0x698098d8, 0x8b44f7af, 0xffff5bb1, 0x895cd7be, 0x6b901122, 0xfd987193, 0xa679438e, 0x49b40821,
    0xf61e2562, 0xc040b340, 0x265e5a51, 0xe9b6c7aa, 0xd62f105d, 0x02441453, 0xd8a1e681, 0xe7d3fbc8,
    0x21e1cde6, 0xc33707d6, 0xf4d50d87, 0x455a14ed, 0xa9e3e905, 0xfcefa3f8, 0x676f02d9, 0x8d2a4c8a,
    0xfffa3942, 0x8771f681, 0x6d9d6122, 0xfde5380c, 0xa4beea44, 0x4bdecfa9, 0xf6bb4b60, 0xbebfbc70,
    0x289b7ec6, 0xeaa127fa, 0xd4ef3085, 0x04881d05, 0xd9d4d039, 0xe6db99e5, 0x1fa27cf8, 0xc4ac5665,
    0xf4292244, 0x432aff97, 0xab9423a7, 0xfc93a039, 0x655b59c3, 0x8f0ccc92, 0xffeff47d, 0x85845dd1,
    0x6fa87e4f, 0xfe2ce6e0, 0xa3014314, 0x4e0811a1, 0xf7537e82, 0xbd3af235, 0x2ad7d2bb, 0xeb86d391]

def rotations : List (List UInt32) :=
  [[7, 12, 17, 22], [5, 9, 14, 20], [4, 11, 16, 23], [6, 10, 15, 21]]

/-- The bytes of a word, the low one first. -/
def leBytes (w : UInt32) : List UInt8 :=
  [w.toUInt8, (w >>> 8).toUInt8, (w >>> 16).toUInt8, (w >>> 24).toUInt8]

/-- `view.getUint32(offset, true)`. -/
def getUint32 (bytes : List UInt8) (offset : ℕ) : UInt32 :=
  let byte := fun i => (bytes.getD (offset + i) 0).toUInt32
  byte 0 ||| (byte 1 <<< 8) ||| (byte 2 <<< 16) ||| (byte 3 <<< 24)

/-- The padded input. -/
def padded (bytes : List UInt8) : List UInt8 :=
  let size := (bytes.length + 9 + 63) / 64 * 64
  bytes ++ 0x80 :: (List.replicate (size - 8 - (bytes.length + 1)) 0 ++
    (leBytes (UInt32.ofNat (bytes.length * 8)) ++
      leBytes (UInt32.ofNat (bytes.length / 0x20000000))))

structure Digest where
  a : UInt32
  b : UInt32
  c : UInt32
  d : UInt32
  deriving DecidableEq

def start : Digest := ⟨0x67452301, 0xefcdab89, 0x98badcfe, 0x10325476⟩

/-- Step `i` on the block at `offset`. -/
def step (input : List UInt8) (offset : ℕ) (s : Digest) (i : ℕ) : Digest :=
  let round := i / 16
  let f := if round = 0 then (s.b &&& s.c) ||| (~~~s.b &&& s.d)
    else if round = 1 then (s.d &&& s.b) ||| (~~~s.d &&& s.c)
    else if round = 2 then s.b ^^^ s.c ^^^ s.d
    else s.c ^^^ (s.b ||| ~~~s.d)
  let index := if round = 0 then i
    else if round = 1 then (5 * i + 1) % 16
    else if round = 2 then (3 * i + 5) % 16
    else 7 * i % 16
  let value := s.a + f + sines.getD i 0 + getUint32 input (offset + index * 4)
  let shift := (rotations.getD round []).getD (i % 4) 0
  ⟨s.d, s.b + ((value <<< shift) ||| (value >>> (32 - shift))), s.b, s.c⟩

/-- One block of 64 bytes. -/
def block (input : List UInt8) (s : Digest) (n : ℕ) : Digest :=
  let t := (List.range 64).foldl (step input (64 * n)) s
  ⟨s.a + t.a, s.b + t.b, s.c + t.c, s.d + t.d⟩

def romMd5 (bytes : List UInt8) : List UInt8 :=
  let input := padded bytes
  let s := (List.range (input.length / 64)).foldl (block input) start
  leBytes s.a ++ (leBytes s.b ++ (leBytes s.c ++ leBytes s.d))

/-- `byte.toString(16).padStart(2, '0')`. -/
def hexByte (b : UInt8) : List Char :=
  [Nat.digitChar (b.toNat / 16), Nat.digitChar (b.toNat % 16)]

def romMd5Hex (bytes : List UInt8) : String := String.ofList ((romMd5 bytes).flatMap hexByte)

-- the digest of the empty message
example : romMd5 [] = [0xd4, 0x1d, 0x8c, 0xd9, 0x8f, 0x00, 0xb2, 0x04, 0xe9, 0x80, 0x09, 0x98,
    0xec, 0xf8, 0x42, 0x7e] := by decide +kernel

end EspVision.RomMd5
