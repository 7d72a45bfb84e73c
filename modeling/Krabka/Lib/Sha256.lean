import Mathlib
import Krabka.Lib.ByteStream

/-!
# `Lib.Sha256` — SHA-256, its HMAC and one block of PBKDF2

The published hash function over byte lists, with the two constructions that password protocols build on
it. PBKDF2 is the case of an output as long as one digest.
-/

namespace Sha256

open ByteStream

/-! ## The compression function

Eight words, sixty-four rounds over a block. -/

/-- The eight chaining words. -/
structure Words where
  a : UInt32
  b : UInt32
  c : UInt32
  d : UInt32
  e : UInt32
  f : UInt32
  g : UInt32
  h : UInt32

def initial : Words :=
  ⟨0x6A09E667, 0xBB67AE85, 0x3C6EF372, 0xA54FF53A, 0x510E527F, 0x9B05688C, 0x1F83D9AB, 0x5BE0CD19⟩

def roundConstants : List UInt32 :=
  [0x428A2F98, 0x71374491, 0xB5C0FBCF, 0xE9B5DBA5, 0x3956C25B, 0x59F111F1, 0x923F82A4, 0xAB1C5ED5,
   0xD807AA98, 0x12835B01, 0x243185BE, 0x550C7DC3, 0x72BE5D74, 0x80DEB1FE, 0x9BDC06A7, 0xC19BF174,
   0xE49B69C1, 0xEFBE4786, 0x0FC19DC6, 0x240CA1CC, 0x2DE92C6F, 0x4A7484AA, 0x5CB0A9DC, 0x76F988DA,
   0x983E5152, 0xA831C66D, 0xB00327C8, 0xBF597FC7, 0xC6E00BF3, 0xD5A79147, 0x06CA6351, 0x14292967,
   0x27B70A85, 0x2E1B2138, 0x4D2C6DFC, 0x53380D13, 0x650A7354, 0x766A0ABB, 0x81C2C92E, 0x92722C85,
   0xA2BFE8A1, 0xA81A664B, 0xC24B8B70, 0xC76C51A3, 0xD192E819, 0xD6990624, 0xF40E3585, 0x106AA070,
   0x19A4C116, 0x1E376C08, 0x2748774C, 0x34B0BCB5, 0x391C0CB3, 0x4ED8AA4A, 0x5B9CCA4F, 0x682E6FF3,
   0x748F82EE, 0x78A5636F, 0x84C87814, 0x8CC70208, 0x90BEFFFA, 0xA4506CEB, 0xBEF9A3F7, 0xC67178F2]

def rotr (x n : UInt32) : UInt32 := x >>> n ||| x <<< (32 - n)

/-- One round, with the round's schedule word and constant. -/
def Words.round (s : Words) (w k : UInt32) : Words :=
  let s1 := rotr s.e 6 ^^^ rotr s.e 11 ^^^ rotr s.e 25
  let ch := (s.e &&& s.f) ^^^ (~~~s.e &&& s.g)
  let t1 := s.h + s1 + ch + k + w
  let s0 := rotr s.a 2 ^^^ rotr s.a 13 ^^^ rotr s.a 22
  let maj := (s.a &&& s.b) ^^^ (s.a &&& s.c) ^^^ (s.b &&& s.c)
  ⟨t1 + (s0 + maj), s.a, s.b, s.c, s.d + t1, s.e, s.f, s.g⟩

/-- The rounds over what is left of the constants; the window holds the next sixteen schedule words. -/
def rounds : List UInt32 → List UInt32 → Words → Words
  | [], _, s => s
  | _, [], s => s
  | k :: ks, w :: window, s =>
      let w1 := window.getD 0 0
      let w14 := window.getD 13 0
      let next := w + (rotr w1 7 ^^^ rotr w1 18 ^^^ w1 >>> 3) + window.getD 8 0 +
        (rotr w14 17 ^^^ rotr w14 19 ^^^ w14 >>> 10)
      rounds ks (window ++ [next]) (s.round w k)

def compress (s : Words) (block : List UInt32) : Words :=
  let r := rounds roundConstants block s
  ⟨s.a + r.a, s.b + r.b, s.c + r.c, s.d + r.d, s.e + r.e, s.f + r.f, s.g + r.g, s.h + r.h⟩

/-! ## The hash

The padded message in blocks, chained. -/

def pad (message : Bytes) : Bytes :=
  let bits := 8 * message.length
  message ++ [0x80] ++ List.replicate ((119 - message.length % 64) % 64) 0 ++
    (List.range 8).map fun i => UInt8.ofNat (bits / 256 ^ (7 - i))

/-- The big-endian words of a byte list. -/
def words : Bytes → List UInt32
  | a :: b :: c :: d :: rest =>
      UInt32.ofNat (((a.toNat * 256 + b.toNat) * 256 + c.toNat) * 256 + d.toNat) :: words rest
  | _ => []

def bytes (w : UInt32) : Bytes :=
  [UInt8.ofNat (w.toNat / 0x1000000), UInt8.ofNat (w.toNat / 0x10000), UInt8.ofNat (w.toNat / 0x100),
   UInt8.ofNat w.toNat]

def Words.digest (s : Words) : Bytes :=
  bytes s.a ++ bytes s.b ++ bytes s.c ++ bytes s.d ++ bytes s.e ++ bytes s.f ++ bytes s.g ++ bytes s.h

/-- The blocks of sixteen words, from the first. -/
def chain : Nat → List UInt32 → Words → Words
  | 0, _, s => s
  | n + 1, ws, s => chain n (ws.drop 16) (compress s (ws.take 16))

def sha256 (message : Bytes) : Bytes :=
  let ws := words (pad message)
  (chain (ws.length / 16) ws initial).digest

theorem length_sha256 (message : Bytes) : (sha256 message).length = 32 := rfl

-- the published digest of "abc"
example : sha256 [0x61, 0x62, 0x63] =
    [0xBA, 0x78, 0x16, 0xBF, 0x8F, 0x01, 0xCF, 0xEA, 0x41, 0x41, 0x40, 0xDE, 0x5D, 0xAE, 0x22, 0x23,
     0xB0, 0x03, 0x61, 0xA3, 0x96, 0x17, 0x7A, 0x9C, 0xB4, 0x10, 0xFF, 0x61, 0xF2, 0x00, 0x15, 0xAD] := by
  decide +kernel

/-! ## Keyed hashing

The key fills a block, and the hash is taken twice. -/

/-- A key of one block. -/
def blockKey (key : Bytes) : Bytes :=
  let short := if 64 < key.length then sha256 key else key
  short ++ List.replicate (64 - short.length) 0

def hmac (key data : Bytes) : Bytes :=
  sha256 ((blockKey key).map (· ^^^ 0x5C) ++ sha256 ((blockKey key).map (· ^^^ 0x36) ++ data))

theorem length_hmac (key data : Bytes) : (hmac key data).length = 32 := length_sha256 _

/-- The digests of the rounds after the first, folded into one. -/
def pbkdf2Rounds (password : Bytes) : Nat → Bytes → Bytes → Bytes
  | 0, _, acc => acc
  | n + 1, u, acc =>
      let u' := hmac password u
      pbkdf2Rounds password n u' (List.zipWith (· ^^^ ·) acc u')

def pbkdf2 (password salt : Bytes) (iterations : Nat) : Bytes :=
  let u := hmac password (salt ++ [0, 0, 0, 1])
  pbkdf2Rounds password (iterations - 1) u u

end Sha256
