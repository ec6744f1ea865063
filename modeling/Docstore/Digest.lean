set_option autoImplicit false

namespace Docstore

/-- Eight words: a state of the computation, and in the end the digest. -/
structure Digest where
  a : UInt32
  b : UInt32
  c : UInt32
  d : UInt32
  e : UInt32
  f : UInt32
  g : UInt32
  h : UInt32
deriving DecidableEq

namespace Digest

/-- The first fractional bits of the square roots of the first eight primes. -/
def seed : Digest :=
  ⟨0x6a09e667, 0xbb67ae85, 0x3c6ef372, 0xa54ff53a, 0x510e527f, 0x9b05688c, 0x1f83d9ab,
    0x5be0cd19⟩

/-- The first fractional bits of the cube roots of the first sixty-four primes. -/
def roundConstants : List UInt32 :=
  [0x428a2f98, 0x71374491, 0xb5c0fbcf, 0xe9b5dba5, 0x3956c25b, 0x59f111f1,
    0x923f82a4, 0xab1c5ed5, 0xd807aa98, 0x12835b01, 0x243185be, 0x550c7dc3,
    0x72be5d74, 0x80deb1fe, 0x9bdc06a7, 0xc19bf174, 0xe49b69c1, 0xefbe4786,
    0x0fc19dc6, 0x240ca1cc, 0x2de92c6f, 0x4a7484aa, 0x5cb0a9dc, 0x76f988da,
    0x983e5152, 0xa831c66d, 0xb00327c8, 0xbf597fc7, 0xc6e00bf3, 0xd5a79147,
    0x06ca6351, 0x14292967, 0x27b70a85, 0x2e1b2138, 0x4d2c6dfc, 0x53380d13,
    0x650a7354, 0x766a0abb, 0x81c2c92e, 0x92722c85, 0xa2bfe8a1, 0xa81a664b,
    0xc24b8b70, 0xc76c51a3, 0xd192e819, 0xd6990624, 0xf40e3585, 0x106aa070,
    0x19a4c116, 0x1e376c08, 0x2748774c, 0x34b0bcb5, 0x391c0cb3, 0x4ed8aa4a,
    0x5b9cca4f, 0x682e6ff3, 0x748f82ee, 0x78a5636f, 0x84c87814, 0x8cc70208,
    0x90befffa, 0xa4506ceb, 0xbef9a3f7, 0xc67178f2]

/-- The bytes of a number, the most significant first. -/
def bytesOf (n : Nat) : Nat → List UInt8
  | 0 => []
  | count + 1 => UInt8.ofNat (n >>> (8 * count)) :: bytesOf n count

/-- A set bit, zeros up to the last eight bytes of a block, and there the length in bits. -/
def pad (message : List UInt8) : List UInt8 :=
  let zeros := (119 - message.length % 64) % 64
  message ++ 0x80 :: (List.replicate zeros 0 ++ bytesOf (8 * message.length) 8)

def wordOf (bytes : List UInt8) : UInt32 :=
  bytes.foldl (fun word byte => (word <<< 8) ||| byte.toUInt32) 0

/-- Cuts a list into pieces of a size, so many of them at most. -/
def pieces {α : Type} (size : Nat) : Nat → List α → List (List α)
  | 0, _ => []
  | _, [] => []
  | count + 1, xs => xs.take size :: pieces size count (xs.drop size)

/-- The blocks of a padded message, as words. -/
def blocks (bytes : List UInt8) : List (List UInt32) :=
  pieces 16 (bytes.length / 64) ((pieces 4 (bytes.length / 4) bytes).map wordOf)

def rotate (word amount : UInt32) : UInt32 :=
  (word >>> amount) ||| (word <<< (32 - amount))

def sigma₀ (w : UInt32) : UInt32 := rotate w 7 ^^^ rotate w 18 ^^^ (w >>> 3)

def sigma₁ (w : UInt32) : UInt32 := rotate w 17 ^^^ rotate w 19 ^^^ (w >>> 10)

/-- Adds so many words to a schedule that is given from its end. -/
def extend : Nat → List UInt32 → List UInt32
  | 0, words => words
  | count + 1, words =>
    let at' := fun i => words.getD i 0
    extend count ((sigma₁ (at' 1) + at' 6 + sigma₀ (at' 14) + at' 15) :: words)

def schedule (block : List UInt32) : List UInt32 :=
  (extend 48 block.reverse).reverse

def round (s : Digest) (input : UInt32 × UInt32) : Digest :=
  let stir₁ := rotate s.e 6 ^^^ rotate s.e 11 ^^^ rotate s.e 25
  let choice := (s.e &&& s.f) ^^^ (~~~s.e &&& s.g)
  let first := s.h + stir₁ + choice + input.1 + input.2
  let stir₀ := rotate s.a 2 ^^^ rotate s.a 13 ^^^ rotate s.a 22
  let majority := (s.a &&& s.b) ^^^ (s.a &&& s.c) ^^^ (s.b &&& s.c)
  ⟨first + (stir₀ + majority), s.a, s.b, s.c, s.d + first, s.e, s.f, s.g⟩

def add (s t : Digest) : Digest :=
  ⟨s.a + t.a, s.b + t.b, s.c + t.c, s.d + t.d, s.e + t.e, s.f + t.f, s.g + t.g, s.h + t.h⟩

def absorb (s : Digest) (block : List UInt32) : Digest :=
  s.add ((roundConstants.zip (schedule block)).foldl round s)

def ofBytes (message : List UInt8) : Digest :=
  (blocks (pad message)).foldl absorb seed

/-- The digest of the UTF-8 bytes of a text. -/
def ofText (text : String) : Digest :=
  ofBytes text.toUTF8.toList

def words (s : Digest) : List UInt32 :=
  [s.a, s.b, s.c, s.d, s.e, s.f, s.g, s.h]

def wordHex (word : UInt32) : List Char :=
  let digits := Nat.toDigits 16 word.toNat
  List.replicate (8 - digits.length) '0' ++ digits

def hex (s : Digest) : String :=
  String.ofList (s.words.flatMap wordHex)

end Digest
end Docstore
