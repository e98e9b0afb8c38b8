import SourceMend.Text.Basic

/-!
SHA-256 digests. A message is padded to blocks of sixteen words, and each block is mixed into the
eight words of the state in 64 rounds.
-/
namespace SourceMend

/-- The state of the hash, and at the end the digest itself. -/
structure Digest where
  a : UInt32
  b : UInt32
  c : UInt32
  d : UInt32
  e : UInt32
  f : UInt32
  g : UInt32
  h : UInt32
  deriving DecidableEq, Repr, Inhabited

namespace Digest

def initial : Digest :=
  ⟨0x6a09e667, 0xbb67ae85, 0x3c6ef372, 0xa54ff53a,
    0x510e527f, 0x9b05688c, 0x1f83d9ab, 0x5be0cd19⟩

def roundConstants : List UInt32 :=
  [0x428a2f98, 0x71374491, 0xb5c0fbcf, 0xe9b5dba5, 0x3956c25b, 0x59f111f1,
   0x923f82a4, 0xab1c5ed5, 0xd807aa98, 0x12835b01, 0x243185be, 0x550c7dc3,
   0x72be5d74, 0x80deb1fe, 0x9bdc06a7, 0xc19bf174, 0xe49b69c1, 0xefbe4786,
   0x0fc19dc6, 0x240ca1cc, 0x2de92c6f, 0x4a7484aa, 0x5cb0a9dc, 0x76f988da,
   0x983e5152, 0xa831c66d, 0xb00327c8, 0xbf597fc7, 0xc6e00bf3, 0xd5a79147,
   0x06ca6351, 0x14292967, 0x27b70a85, 0x2e1b2138, 0x4d2c6dfc, 0x53380d13,
   0x650a7354, 0x766a0abb, 0x81c2c92e, 0x92722c85, 0xa2bfe8a1, 0xa81a664b,
   0xc24b8b70, 0xc76c51a3, 0xd192e819, 0xd6990624, 0xf40e3585, 0x106aa070,
   0x19a4c116, 0x1e376c08, 0x2748774c, 0x34b0bcb5, 0x391c0cb3, 0x4ed8aa4a,
   0x5b9cca4f, 0x682e6ff3, 0x748f82ee, 0x78a5636f, 0x84c87814, 0x8cc70208,
   0x90befffa, 0xa4506ceb, 0xbef9a3f7, 0xc67178f2]

def rotr (x : UInt32) (n : UInt32) : UInt32 := (x >>> n) ||| (x <<< (32 - n))

/-- The message, a set bit, zeros, and the length in bits as eight bytes. -/
def pad (bytes : List UInt8) : List UInt8 :=
  let n := bytes.length
  let zeros := (119 - n % 64) % 64
  let lengthBytes := (List.range 8).map fun i => UInt8.ofNat ((n * 8) >>> (8 * (7 - i)))
  bytes ++ 0x80 :: List.replicate zeros 0 ++ lengthBytes

def toWords : List UInt8 → List UInt32
  | p :: q :: r :: s :: rest =>
    ((p.toUInt32 <<< 24) ||| (q.toUInt32 <<< 16) ||| (r.toUInt32 <<< 8) ||| s.toUInt32) ::
      toWords rest
  | _ => []

/-- Adds `n` words to a schedule that has its latest word first. -/
def extend : Nat → List UInt32 → List UInt32
  | 0, ws => ws
  | n + 1, ws =>
    let at' (i : Nat) : UInt32 := (ws[i]?).getD 0
    let s0 := rotr (at' 14) 7 ^^^ rotr (at' 14) 18 ^^^ (at' 14 >>> 3)
    let s1 := rotr (at' 1) 17 ^^^ rotr (at' 1) 19 ^^^ (at' 1 >>> 10)
    extend n ((at' 15 + s0 + at' 6 + s1) :: ws)

def schedule (block : List UInt32) : List UInt32 := (extend 48 block.reverse).reverse

def round (s : Digest) (k w : UInt32) : Digest :=
  let s1 := rotr s.e 6 ^^^ rotr s.e 11 ^^^ rotr s.e 25
  let ch := (s.e &&& s.f) ^^^ (~~~s.e &&& s.g)
  let t1 := s.h + s1 + ch + k + w
  let s0 := rotr s.a 2 ^^^ rotr s.a 13 ^^^ rotr s.a 22
  let maj := (s.a &&& s.b) ^^^ (s.a &&& s.c) ^^^ (s.b &&& s.c)
  ⟨t1 + (s0 + maj), s.a, s.b, s.c, s.d + t1, s.e, s.f, s.g⟩

def mixBlock (s : Digest) (block : List UInt32) : Digest :=
  let t := (roundConstants.zip (schedule block)).foldl (fun t (k, w) => round t k w) s
  ⟨s.a + t.a, s.b + t.b, s.c + t.c, s.d + t.d, s.e + t.e, s.f + t.f, s.g + t.g, s.h + t.h⟩

/-- Mixes in the words sixteen at a time. -/
def mix (s : Digest) (words : List UInt32) : Digest :=
  if words.isEmpty then s else mix (mixBlock s (words.take 16)) (words.drop 16)
termination_by words.length
decreasing_by
  have h : 0 < words.length := by
    cases words with
    | nil => contradiction
    | cons => simp
  simp
  omega

def ofBytes (bytes : ByteArray) : Digest := mix initial (toWords (pad bytes.toList))

def ofText (t : Text) : Digest := ofBytes (String.ofList t).toUTF8

def hexDigit (n : Nat) : Char := Char.ofNat (if n < 10 then 48 + n else 87 + n)

def wordHex (w : UInt32) : Text :=
  (List.range 8).map fun i => hexDigit ((w >>> (UInt32.ofNat (4 * (7 - i)))).toNat % 16)

/-- The 64 hexadecimal digits. -/
def hex (s : Digest) : String :=
  String.ofList ([s.a, s.b, s.c, s.d, s.e, s.f, s.g, s.h].flatMap wordHex)

/-- The first twelve hexadecimal digits. -/
def short (s : Digest) : String := String.ofList ((s.hex.toList).take 12)

end Digest
end SourceMend
