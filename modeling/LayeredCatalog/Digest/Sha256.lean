/-!
# SHA-256

The hash function on lists of bytes, with its constants, its padding, its
schedule of sixty-four words and its compression of one block. The state is a
vector of eight words, so its width is fixed by the type.
-/

namespace LayeredCatalog.Sha256

/-- The first thirty-two bits of the fractional parts of the cube roots of the
first sixty-four primes. -/
def roundConstants : Array UInt32 := #[
  0x428a2f98, 0x71374491, 0xb5c0fbcf, 0xe9b5dba5, 0x3956c25b, 0x59f111f1, 0x923f82a4, 0xab1c5ed5,
  0xd807aa98, 0x12835b01, 0x243185be, 0x550c7dc3, 0x72be5d74, 0x80deb1fe, 0x9bdc06a7, 0xc19bf174,
  0xe49b69c1, 0xefbe4786, 0x0fc19dc6, 0x240ca1cc, 0x2de92c6f, 0x4a7484aa, 0x5cb0a9dc, 0x76f988da,
  0x983e5152, 0xa831c66d, 0xb00327c8, 0xbf597fc7, 0xc6e00bf3, 0xd5a79147, 0x06ca6351, 0x14292967,
  0x27b70a85, 0x2e1b2138, 0x4d2c6dfc, 0x53380d13, 0x650a7354, 0x766a0abb, 0x81c2c92e, 0x92722c85,
  0xa2bfe8a1, 0xa81a664b, 0xc24b8b70, 0xc76c51a3, 0xd192e819, 0xd6990624, 0xf40e3585, 0x106aa070,
  0x19a4c116, 0x1e376c08, 0x2748774c, 0x34b0bcb5, 0x391c0cb3, 0x4ed8aa4a, 0x5b9cca4f, 0x682e6ff3,
  0x748f82ee, 0x78a5636f, 0x84c87814, 0x8cc70208, 0x90befffa, 0xa4506ceb, 0xbef9a3f7, 0xc67178f2]

/-- The first thirty-two bits of the fractional parts of the square roots of the
first eight primes. -/
def start : Vector UInt32 8 :=
  #v[0x6a09e667, 0xbb67ae85, 0x3c6ef372, 0xa54ff53a, 0x510e527f, 0x9b05688c, 0x1f83d9ab, 0x5be0cd19]

/-- Turns a word to the right by `n` bits. -/
def rotate (x n : UInt32) : UInt32 := (x >>> n) ||| (x <<< (32 - n))

/-- The bytes of a number below `2 ^ 64`, the most significant first. -/
def lengthBytes (n : Nat) : List UInt8 :=
  [56, 48, 40, 32, 24, 16, 8, 0].map fun s => UInt8.ofNat (n >>> s)

/-- The message with a one bit, zeros and its length in bits behind it; the
result fills whole blocks of sixty-four bytes. -/
def pad (message : List UInt8) : List UInt8 :=
  message ++ 0x80 :: (List.replicate ((119 - message.length % 64) % 64) 0) ++
    lengthBytes (8 * message.length)

/-- Four bytes make a word, the most significant first. -/
def words : List UInt8 → List UInt32
  | a :: b :: c :: d :: r =>
    ((a.toUInt32 <<< 24) ||| (b.toUInt32 <<< 16) ||| (c.toUInt32 <<< 8) ||| d.toUInt32) :: words r
  | _ => []

/-- Adds `n` words to a schedule, each from four earlier ones. -/
def extend (w : Array UInt32) : Nat → Array UInt32
  | 0 => w
  | n + 1 =>
    let at' (k : Nat) := w.getD (w.size - k) 0
    let s₀ := rotate (at' 15) 7 ^^^ rotate (at' 15) 18 ^^^ (at' 15 >>> 3)
    let s₁ := rotate (at' 2) 17 ^^^ rotate (at' 2) 19 ^^^ (at' 2 >>> 10)
    extend (w.push (at' 16 + s₀ + at' 7 + s₁)) n

/-- One round, with the sum of its constant and its word of the schedule. -/
def round (v : Vector UInt32 8) (kw : UInt32) : Vector UInt32 8 :=
  let s₁ := rotate v[4] 6 ^^^ rotate v[4] 11 ^^^ rotate v[4] 25
  let ch := (v[4] &&& v[5]) ^^^ (~~~v[4] &&& v[6])
  let t₁ := v[7] + s₁ + ch + kw
  let s₀ := rotate v[0] 2 ^^^ rotate v[0] 13 ^^^ rotate v[0] 22
  let maj := (v[0] &&& v[1]) ^^^ (v[0] &&& v[2]) ^^^ (v[1] &&& v[2])
  #v[t₁ + (s₀ + maj), v[0], v[1], v[2], v[3] + t₁, v[4], v[5], v[6]]

/-- Takes one block of sixteen words into the state. -/
def compress (v : Vector UInt32 8) (block : List UInt32) : Vector UInt32 8 :=
  let schedule := extend block.toArray 48
  (Array.zipWith (· + ·) roundConstants schedule).foldl round v |>.zipWith (· + ·) v

/-- Takes the words in, sixteen at a time. -/
def absorb (v : Vector UInt32 8) (ws : List UInt32) : Vector UInt32 8 :=
  if _h : ws = [] then v
  else absorb (compress v (ws.take 16)) (ws.drop 16)
termination_by ws.length
decreasing_by
  have : 0 < ws.length := List.length_pos_iff.2 _h
  simp only [List.length_drop]
  omega

/-- The eight words of the hash of a message. -/
def hash (message : List UInt8) : Vector UInt32 8 := absorb start (words (pad message))

end LayeredCatalog.Sha256
