/-!
SHA-256 over byte lists, on words held as natural numbers below `2 ^ 32`.
-/

namespace Sha256

def roundConstants : List Nat :=
  [0x428a2f98, 0x71374491, 0xb5c0fbcf, 0xe9b5dba5, 0x3956c25b, 0x59f111f1, 0x923f82a4, 0xab1c5ed5,
   0xd807aa98, 0x12835b01, 0x243185be, 0x550c7dc3, 0x72be5d74, 0x80deb1fe, 0x9bdc06a7, 0xc19bf174,
   0xe49b69c1, 0xefbe4786, 0x0fc19dc6, 0x240ca1cc, 0x2de92c6f, 0x4a7484aa, 0x5cb0a9dc, 0x76f988da,
   0x983e5152, 0xa831c66d, 0xb00327c8, 0xbf597fc7, 0xc6e00bf3, 0xd5a79147, 0x06ca6351, 0x14292967,
   0x27b70a85, 0x2e1b2138, 0x4d2c6dfc, 0x53380d13, 0x650a7354, 0x766a0abb, 0x81c2c92e, 0x92722c85,
   0xa2bfe8a1, 0xa81a664b, 0xc24b8b70, 0xc76c51a3, 0xd192e819, 0xd6990624, 0xf40e3585, 0x106aa070,
   0x19a4c116, 0x1e376c08, 0x2748774c, 0x34b0bcb5, 0x391c0cb3, 0x4ed8aa4a, 0x5b9cca4f, 0x682e6ff3,
   0x748f82ee, 0x78a5636f, 0x84c87814, 0x8cc70208, 0x90befffa, 0xa4506ceb, 0xbef9a3f7, 0xc67178f2]

def add32 (x y : Nat) : Nat := (x + y) % 0x100000000

def rotr (n x : Nat) : Nat := (x >>> n) ||| ((x <<< (32 - n)) % 0x100000000)

structure Regs where
  a : Nat
  b : Nat
  c : Nat
  d : Nat
  e : Nat
  f : Nat
  g : Nat
  h : Nat

def initial : Regs :=
  ⟨0x6a09e667, 0xbb67ae85, 0x3c6ef372, 0xa54ff53a, 0x510e527f, 0x9b05688c, 0x1f83d9ab, 0x5be0cd19⟩

/-- One round, and the next word of the schedule from the last sixteen. -/
def round : Regs × List Nat → Nat → Regs × List Nat
  | (r, w0 :: ws), k =>
    let s1 := rotr 6 r.e ^^^ rotr 11 r.e ^^^ rotr 25 r.e
    let ch := (r.e &&& r.f) ^^^ ((0xffffffff ^^^ r.e) &&& r.g)
    let t1 := (r.h + s1 + ch + k + w0) % 0x100000000
    let s0 := rotr 2 r.a ^^^ rotr 13 r.a ^^^ rotr 22 r.a
    let maj := (r.a &&& r.b) ^^^ (r.a &&& r.c) ^^^ (r.b &&& r.c)
    let w1 := ws.getD 0 0
    let w9 := ws.getD 8 0
    let w14 := ws.getD 13 0
    let g0 := rotr 7 w1 ^^^ rotr 18 w1 ^^^ (w1 >>> 3)
    let g1 := rotr 17 w14 ^^^ rotr 19 w14 ^^^ (w14 >>> 10)
    (⟨add32 t1 (s0 + maj), r.a, r.b, r.c, add32 r.d t1, r.e, r.f, r.g⟩,
      ws ++ [(w0 + g0 + w9 + g1) % 0x100000000])
  | (r, []), _ => (r, [])

def compress (r : Regs) (block : List Nat) : Regs :=
  let s := (roundConstants.foldl round (r, block)).1
  ⟨add32 r.a s.a, add32 r.b s.b, add32 r.c s.c, add32 r.d s.d,
   add32 r.e s.e, add32 r.f s.f, add32 r.g s.g, add32 r.h s.h⟩

/-- A one bit, zeros, and the bit length in the last eight bytes of a 64-byte block. -/
def pad (msg : List UInt8) : List UInt8 :=
  let n := msg.length
  msg ++ [0x80] ++ List.replicate ((119 - n % 64) % 64) 0 ++
    (List.range 8).map (fun i : Nat => UInt8.ofNat ((n * 8) >>> (8 * (7 - i))))

def words : List UInt8 → List Nat
  | a :: b :: c :: d :: rest =>
      (a.toNat * 0x1000000 + b.toNat * 0x10000 + c.toNat * 0x100 + d.toNat) :: words rest
  | _ => []

/-- Compress the words of the padded message, sixteen at a time. -/
def blocks : Nat → Regs → List Nat → Regs
  | 0, r, _ => r
  | n + 1, r, ws => if ws.isEmpty then r else blocks n (compress r (ws.take 16)) (ws.drop 16)

def digest (msg : List UInt8) : List Nat :=
  let ws := words (pad msg)
  let r := blocks ws.length initial ws
  [r.a, r.b, r.c, r.d, r.e, r.f, r.g, r.h]

def hexDigit (n : Nat) : Char := "0123456789abcdef".toList.getD n '0'

def hexWord (x : Nat) : List Char :=
  (List.range 8).map (fun i => hexDigit (x >>> (4 * (7 - i)) % 16))

/-- The digest as 64 hexadecimal digits. -/
def hexdigest (msg : List UInt8) : String := String.ofList ((digest msg).flatMap hexWord)
theorem hexWord_length (x : Nat) : (hexWord x).length = 8 := by
  simp [hexWord]

theorem hexdigest_toList_length (msg : List UInt8) : (hexdigest msg).toList.length = 64 := by
  simp [hexdigest, digest, hexWord_length]

theorem hexdigest_ne_empty (msg : List UInt8) : hexdigest msg ≠ "" := by
  intro h
  have := hexdigest_toList_length msg
  simp [h] at this

end Sha256
