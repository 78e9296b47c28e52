/-!
The 64-bit xxHash of a byte string. Stripes of thirty-two bytes feed four lanes; the lanes merge
into one word, into which the remaining eight-byte, four-byte and single-byte pieces are mixed.
-/
namespace Schemata.Fingerprint.Digest

def prime1 : UInt64 := 0x9E3779B185EBCA87
def prime2 : UInt64 := 0xC2B2AE3D27D4EB4F
def prime3 : UInt64 := 0x165667B19E3779F9
def prime4 : UInt64 := 0x85EBCA77C2B2AE63
def prime5 : UInt64 := 0x27D4EB2F165667C5

def rotateLeft (x n : UInt64) : UInt64 := (x <<< n) ||| (x >>> (64 - n))

/-- The byte at an offset; nothing is read behind the end. -/
def byteAt (bytes : ByteArray) (offset : Nat) : UInt64 :=
  if h : offset < bytes.size then bytes[offset].toUInt64 else 0

/-- The little-endian number in `width` bytes. -/
def littleEndian (bytes : ByteArray) (offset : Nat) : Nat → UInt64
  | 0 => 0
  | width + 1 => byteAt bytes offset ||| (littleEndian bytes (offset + 1) width <<< 8)

def round (lane word : UInt64) : UInt64 := rotateLeft (lane + word * prime2) 31 * prime1

structure Lanes where
  a : UInt64
  b : UInt64
  c : UInt64
  d : UInt64

namespace Lanes

def start (seed : UInt64) : Lanes := ⟨seed + prime1 + prime2, seed + prime2, seed, seed - prime1⟩

/-- Feeds the stripe at an offset, one word to each lane. -/
def feed (lanes : Lanes) (bytes : ByteArray) (offset : Nat) : Lanes :=
  ⟨round lanes.a (littleEndian bytes offset 8), round lanes.b (littleEndian bytes (offset + 8) 8),
    round lanes.c (littleEndian bytes (offset + 16) 8),
    round lanes.d (littleEndian bytes (offset + 24) 8)⟩

def mergeLane (acc lane : UInt64) : UInt64 := (acc ^^^ round 0 lane) * prime1 + prime4

def merge (lanes : Lanes) : UInt64 :=
  let acc := rotateLeft lanes.a 1 + rotateLeft lanes.b 7 + rotateLeft lanes.c 12 +
    rotateLeft lanes.d 18
  mergeLane (mergeLane (mergeLane (mergeLane acc lanes.a) lanes.b) lanes.c) lanes.d

end Lanes

def mixWord (acc word : UInt64) : UInt64 :=
  rotateLeft (acc ^^^ round 0 word) 27 * prime1 + prime4

def mixHalf (acc half : UInt64) : UInt64 :=
  rotateLeft (acc ^^^ (half * prime1)) 23 * prime2 + prime3

def mixByte (acc byte : UInt64) : UInt64 := rotateLeft (acc ^^^ (byte * prime5)) 11 * prime1

/-- Spreads every bit over the word. -/
def avalanche (x : UInt64) : UInt64 :=
  let x := (x ^^^ (x >>> 33)) * prime2
  let x := (x ^^^ (x >>> 29)) * prime3
  x ^^^ (x >>> 32)

/-- Mixes the bytes behind the last stripe, the largest pieces first. -/
def mixTail (bytes : ByteArray) (offset : Nat) (acc : UInt64) : UInt64 :=
  let rest := bytes.size - offset
  let words := rest / 8
  let acc := (List.range words).foldl
    (fun acc i => mixWord acc (littleEndian bytes (offset + 8 * i) 8)) acc
  let offset := offset + 8 * words
  let halves := (rest % 8) / 4
  let acc := (List.range halves).foldl
    (fun acc i => mixHalf acc (littleEndian bytes (offset + 4 * i) 4)) acc
  let offset := offset + 4 * halves
  (List.range (rest % 4)).foldl (fun acc i => mixByte acc (byteAt bytes (offset + i))) acc

def xxh64 (seed : UInt64) (bytes : ByteArray) : UInt64 :=
  let stripes := bytes.size / 32
  let acc :=
    if stripes = 0 then seed + prime5
    else ((List.range stripes).foldl (fun lanes i => lanes.feed bytes (32 * i))
      (Lanes.start seed)).merge
  avalanche (mixTail bytes (32 * stripes) (acc + bytes.size.toUInt64))

end Schemata.Fingerprint.Digest
