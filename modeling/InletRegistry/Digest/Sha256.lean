/-!
# SHA-256 and keyed digests

The digest of a list of octets: the message is padded to whole blocks of 64 octets, and each block
is folded into a chain of eight words over 64 rounds. `length_hash` says that a digest always has 32
octets.

HMAC over SHA-256 brings a key of any length to one block and hashes the message twice behind two
masked forms of it.
-/

namespace InletRegistry.Digest.Sha256

/-- The eight words that one block hands to the next. -/
structure Chain where
  /-- The first word. -/
  a : UInt32
  b : UInt32
  c : UInt32
  d : UInt32
  e : UInt32
  f : UInt32
  g : UInt32
  h : UInt32

/-- The chain before the first block. -/
def Chain.start : Chain :=
  ⟨0x6a09e667, 0xbb67ae85, 0x3c6ef372, 0xa54ff53a, 0x510e527f, 0x9b05688c, 0x1f83d9ab, 0x5be0cd19⟩

def rounds : List UInt32 :=
  [0x428a2f98, 0x71374491, 0xb5c0fbcf, 0xe9b5dba5, 0x3956c25b, 0x59f111f1, 0x923f82a4, 0xab1c5ed5,
    0xd807aa98, 0x12835b01, 0x243185be, 0x550c7dc3, 0x72be5d74, 0x80deb1fe, 0x9bdc06a7, 0xc19bf174,
    0xe49b69c1, 0xefbe4786, 0x0fc19dc6, 0x240ca1cc, 0x2de92c6f, 0x4a7484aa, 0x5cb0a9dc, 0x76f988da,
    0x983e5152, 0xa831c66d, 0xb00327c8, 0xbf597fc7, 0xc6e00bf3, 0xd5a79147, 0x06ca6351, 0x14292967,
    0x27b70a85, 0x2e1b2138, 0x4d2c6dfc, 0x53380d13, 0x650a7354, 0x766a0abb, 0x81c2c92e, 0x92722c85,
    0xa2bfe8a1, 0xa81a664b, 0xc24b8b70, 0xc76c51a3, 0xd192e819, 0xd6990624, 0xf40e3585, 0x106aa070,
    0x19a4c116, 0x1e376c08, 0x2748774c, 0x34b0bcb5, 0x391c0cb3, 0x4ed8aa4a, 0x5b9cca4f, 0x682e6ff3,
    0x748f82ee, 0x78a5636f, 0x84c87814, 0x8cc70208, 0x90befffa, 0xa4506ceb, 0xbef9a3f7, 0xc67178f2]

def rotate (x n : UInt32) : UInt32 := (x >>> n) ||| (x <<< (32 - n))

/-- Four octets as a word, the first one highest. -/
def word (p q r s : UInt8) : UInt32 :=
  (p.toUInt32 <<< 24) ||| (q.toUInt32 <<< 16) ||| (r.toUInt32 <<< 8) ||| s.toUInt32

/-- A word as four octets, the highest one first. -/
def octets (w : UInt32) : List UInt8 :=
  [(w >>> 24).toUInt8, (w >>> 16).toUInt8, (w >>> 8).toUInt8, w.toUInt8]

/-- Octets as words; a rest of fewer than four octets is left out. -/
def words : List UInt8 → List UInt32
  | p :: q :: r :: s :: rest => word p q r s :: words rest
  | _ => []

/-- The word that continues a schedule, of which the latest word comes first. -/
def nextWord (recent : List UInt32) : UInt32 :=
  let w₂ := recent.getD 1 0
  let w₇ := recent.getD 6 0
  let w₁₅ := recent.getD 14 0
  let w₁₆ := recent.getD 15 0
  let s₀ := rotate w₁₅ 7 ^^^ rotate w₁₅ 18 ^^^ (w₁₅ >>> 3)
  let s₁ := rotate w₂ 17 ^^^ rotate w₂ 19 ^^^ (w₂ >>> 10)
  w₁₆ + s₀ + w₇ + s₁

/-- A schedule continued by some words, the latest word first. -/
def extendSchedule : Nat → List UInt32 → List UInt32
  | 0, recent => recent
  | n + 1, recent => extendSchedule n (nextWord recent :: recent)

/-- The words of all rounds for the sixteen words of a block. -/
def schedule (block : List UInt32) : List UInt32 := (extendSchedule 48 block.reverse).reverse

/-- One round, with its constant and its scheduled word. -/
def Chain.round (v : Chain) (input : UInt32 × UInt32) : Chain :=
  let s₁ := rotate v.e 6 ^^^ rotate v.e 11 ^^^ rotate v.e 25
  let choice := (v.e &&& v.f) ^^^ (~~~v.e &&& v.g)
  let t₁ := v.h + s₁ + choice + input.1 + input.2
  let s₀ := rotate v.a 2 ^^^ rotate v.a 13 ^^^ rotate v.a 22
  let majority := (v.a &&& v.b) ^^^ (v.a &&& v.c) ^^^ (v.b &&& v.c)
  ⟨t₁ + (s₀ + majority), v.a, v.b, v.c, v.d + t₁, v.e, v.f, v.g⟩

def Chain.absorb (v : Chain) (block : List UInt32) : Chain :=
  let w := (rounds.zip (schedule block)).foldl Chain.round v
  ⟨v.a + w.a, v.b + w.b, v.c + w.c, v.d + w.d, v.e + w.e, v.f + w.f, v.g + w.g, v.h + w.h⟩

/-- Folds some blocks of sixteen words each into the chain. -/
def Chain.absorbAll : Nat → Chain → List UInt32 → Chain
  | 0, v, _ => v
  | n + 1, v, ws => Chain.absorbAll n (v.absorb (ws.take 16)) (ws.drop 16)

/-- A number of 64 bits as eight octets, the highest one first. -/
def lengthOctets (n : Nat) : List UInt8 :=
  [56, 48, 40, 32, 24, 16, 8, 0].map fun shift => UInt8.ofNat (n / Nat.pow 2 shift % 256)

/-- A message followed by a set bit, zeros and its length in bits, so that the whole fills
blocks. -/
def pad (message : List UInt8) : List UInt8 :=
  let size := message.length
  message ++ 0x80 :: (List.replicate ((119 - size % 64) % 64) 0 ++ lengthOctets (size * 8))

def Chain.octets (v : Chain) : List UInt8 :=
  [v.a, v.b, v.c, v.d, v.e, v.f, v.g, v.h].flatMap Sha256.octets

def hash (message : List UInt8) : List UInt8 :=
  let padded := pad message
  (Chain.start.absorbAll (padded.length / 64) (words padded)).octets

/-- A digest has 32 octets. -/
theorem length_hash (message : List UInt8) : (hash message).length = 32 := by
  simp [hash, Chain.octets, octets]

end InletRegistry.Digest.Sha256

namespace InletRegistry.Digest.Hmac

/-- A key as one block of 64 octets: a longer key is hashed first, and zeros fill the rest. -/
def block (key : List UInt8) : List UInt8 :=
  let short := if key.length ≤ 64 then key else Sha256.hash key
  short ++ List.replicate (64 - short.length) 0

def sign (key message : List UInt8) : List UInt8 :=
  let k := block key
  Sha256.hash (k.map (· ^^^ 0x5C) ++ Sha256.hash (k.map (· ^^^ 0x36) ++ message))

end InletRegistry.Digest.Hmac
