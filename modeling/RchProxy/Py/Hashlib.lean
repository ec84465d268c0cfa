import RchProxy.Py.Text

/-!
# `hashlib.sha256`

SHA-256 as FIPS 180-4 gives it, on lists of bytes. A hash object is the bytes it was fed, so that
`hexdigest()` after any number of `update` calls is `sha256` of their concatenation.
-/

namespace Py

namespace Sha256

/-- A word. -/
abbrev Word := BitVec 32

/-- The round constants. -/
def roundConstants : List Word :=
  [0x428a2f98, 0x71374491, 0xb5c0fbcf, 0xe9b5dba5, 0x3956c25b, 0x59f111f1, 0x923f82a4, 0xab1c5ed5,
   0xd807aa98, 0x12835b01, 0x243185be, 0x550c7dc3, 0x72be5d74, 0x80deb1fe, 0x9bdc06a7, 0xc19bf174,
   0xe49b69c1, 0xefbe4786, 0x0fc19dc6, 0x240ca1cc, 0x2de92c6f, 0x4a7484aa, 0x5cb0a9dc, 0x76f988da,
   0x983e5152, 0xa831c66d, 0xb00327c8, 0xbf597fc7, 0xc6e00bf3, 0xd5a79147, 0x06ca6351, 0x14292967,
   0x27b70a85, 0x2e1b2138, 0x4d2c6dfc, 0x53380d13, 0x650a7354, 0x766a0abb, 0x81c2c92e, 0x92722c85,
   0xa2bfe8a1, 0xa81a664b, 0xc24b8b70, 0xc76c51a3, 0xd192e819, 0xd6990624, 0xf40e3585, 0x106aa070,
   0x19a4c116, 0x1e376c08, 0x2748774c, 0x34b0bcb5, 0x391c0cb3, 0x4ed8aa4a, 0x5b9cca4f, 0x682e6ff3,
   0x748f82ee, 0x78a5636f, 0x84c87814, 0x8cc70208, 0x90befffa, 0xa4506ceb, 0xbef9a3f7, 0xc67178f2]

/-- The eight words of a chaining value. -/
structure State where
  a : Word
  b : Word
  c : Word
  d : Word
  e : Word
  f : Word
  g : Word
  h : Word

/-- The chaining value before the first block. -/
def initial : State :=
  ⟨0x6a09e667, 0xbb67ae85, 0x3c6ef372, 0xa54ff53a, 0x510e527f, 0x9b05688c, 0x1f83d9ab, 0x5be0cd19⟩

/-- One round, with its schedule word and constant added up. -/
def round (s : State) (kw : Word) : State :=
  let s1 := s.e.rotateRight 6 ^^^ s.e.rotateRight 11 ^^^ s.e.rotateRight 25
  let ch := (s.e &&& s.f) ^^^ (~~~s.e &&& s.g)
  let t1 := s.h + s1 + ch + kw
  let s0 := s.a.rotateRight 2 ^^^ s.a.rotateRight 13 ^^^ s.a.rotateRight 22
  let maj := (s.a &&& s.b) ^^^ (s.a &&& s.c) ^^^ (s.b &&& s.c)
  ⟨t1 + (s0 + maj), s.a, s.b, s.c, s.d + t1, s.e, s.f, s.g⟩

/-- The schedule word that follows sixteen given ones. -/
def nextWord (window : List Word) : Word :=
  let w15 := window.getD 1 0
  let w2 := window.getD 14 0
  let s0 := w15.rotateRight 7 ^^^ w15.rotateRight 18 ^^^ w15 >>> 3
  let s1 := w2.rotateRight 17 ^^^ w2.rotateRight 19 ^^^ w2 >>> 10
  window.getD 0 0 + s0 + window.getD 9 0 + s1

/-- The rounds, over a sliding window of sixteen schedule words. -/
def rounds : List Word → List Word → State → State
  | [], _, s => s
  | k :: ks, window, s =>
    rounds ks (window.tail ++ [nextWord window]) (round s (k + window.getD 0 0))

/-- The big-endian words of a block. -/
def words : Bytes → List Word
  | a :: b :: c :: d :: rest =>
    BitVec.ofNat 32 (((a.toNat * 256 + b.toNat) * 256 + c.toNat) * 256 + d.toNat) :: words rest
  | _ => []

/-- One block. -/
def compress (s : State) (block : Bytes) : State :=
  let t := rounds roundConstants (words block) s
  ⟨s.a + t.a, s.b + t.b, s.c + t.c, s.d + t.d, s.e + t.e, s.f + t.f, s.g + t.g, s.h + t.h⟩

/-- The padded message. -/
def pad (b : Bytes) : Bytes :=
  b ++ 0x80 :: List.replicate ((119 - b.length % 64) % 64) 0 ++
    (List.range 8).map fun i => UInt8.ofNat (8 * b.length / 256 ^ (7 - i))

/-- The blocks in turn. -/
def blocks : Nat → Bytes → State → State
  | 0, _, s => s
  | n + 1, b, s => blocks n (b.drop 64) (compress s (b.take 64))

/-- The bytes of a word in hexadecimal. -/
def wordHex (w : Word) : Text :=
  (List.range 8).map fun i => (hexDigit (w.toNat / 16 ^ (7 - i) % 16)).toLower

end Sha256

open Sha256

/-- `hashlib.sha256(b).hexdigest()`. -/
def sha256 (b : Bytes) : Text :=
  let s := blocks ((pad b).length / 64) (pad b) initial
  [s.a, s.b, s.c, s.d, s.e, s.f, s.g, s.h].flatMap wordHex

theorem sha256_length (b : Bytes) : (sha256 b).length = 64 := by
  simp [sha256, wordHex]

example : sha256 "abc".toUTF8.toList =
    "ba7816bf8f01cfea414140de5dae2223b00361a396177a9cb410ff61f20015ad".toList := by
  decide +kernel

end Py
