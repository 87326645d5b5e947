import OurCoin.Library.BigEndian

/-!
# SHA-256

The hash function of FIPS 180-4 on byte strings (`Sha256.digest`).

The round function, the message schedule and the compression function are written
over an arbitrary type of words with the operations they use (`WordOps`). The hash
itself is their instance at 32-bit words held in natural numbers (`scalarWords`).
`strict` names a point at which a word is computed before it is used: as a function
it is plain application, and it keeps evaluation of a digest linear in the number of
rounds.
-/

set_option autoImplicit false

namespace Sha256

/-- The operations on words that the compression function uses. -/
structure WordOps (ω : Type) where
  lit : Nat → ω
  add : ω → ω → ω
  and : ω → ω → ω
  xor : ω → ω → ω
  not : ω → ω
  rotr : Nat → ω → ω
  shr : Nat → ω → ω
  strict : {α : Type} → ω → (ω → α) → α

/-- 32-bit words as natural numbers, with the operations spelled as the functions
on natural numbers that are evaluated natively. -/
def scalarWords : WordOps Nat where
  lit n := n
  add x y := Nat.mod (Nat.add x y) (nat_lit 4294967296)
  and x y := Nat.land x y
  xor x y := Nat.xor x y
  not x := Nat.sub (nat_lit 4294967295) x
  rotr n x := Nat.lor (Nat.shiftRight x n)
    (Nat.mod (Nat.shiftLeft x (Nat.sub (nat_lit 32) n)) (nat_lit 4294967296))
  shr n x := Nat.shiftRight x n
  strict x next := match x with
    | 0 => next 0
    | m + 1 => next (m + 1)

/-! ## Compression -/

/-- The eight working variables. -/
structure State (ω : Type) where
  (a b c d e f g h : ω)

/-- Sixteen consecutive words of the message schedule. -/
structure Window (ω : Type) where
  (w0 w1 w2 w3 w4 w5 w6 w7 w8 w9 w10 w11 w12 w13 w14 w15 : ω)

section Compression

variable {ω : Type} (o : WordOps ω)

/-- The choice function. -/
def ch (x y z : ω) : ω := o.xor (o.and x y) (o.and (o.not x) z)

/-- The majority function. -/
def maj (x y z : ω) : ω := o.xor (o.and x y) (o.xor (o.and x z) (o.and y z))

/-- The rotations of `a` in a round. -/
def bigSigma0 (x : ω) : ω := o.xor (o.rotr 2 x) (o.xor (o.rotr 13 x) (o.rotr 22 x))

/-- The rotations of `e` in a round. -/
def bigSigma1 (x : ω) : ω := o.xor (o.rotr 6 x) (o.xor (o.rotr 11 x) (o.rotr 25 x))

/-- The first mixing function of the message schedule. -/
def smallSigma0 (x : ω) : ω := o.xor (o.rotr 7 x) (o.xor (o.rotr 18 x) (o.shr 3 x))

/-- The second mixing function of the message schedule. -/
def smallSigma1 (x : ω) : ω := o.xor (o.rotr 17 x) (o.xor (o.rotr 19 x) (o.shr 10 x))

/-- One round with the round constant `k` and the schedule word `w`. -/
def round {α : Type} (s : State ω) (k w : ω) (next : State ω → α) : α :=
  match s with
  | ⟨a, b, c, d, e, f, g, h⟩ =>
    o.strict (o.add h (o.add (bigSigma1 o e) (o.add (ch o e f g) (o.add k w)))) fun t1 =>
    o.strict (o.add t1 (o.add (bigSigma0 o a) (maj o a b c))) fun a' =>
    o.strict (o.add d t1) fun e' =>
    next ⟨a', a, b, c, e', e, f, g⟩

/-- The oldest word of the window, and the window moved on by one word of the
schedule. -/
def Window.advance {α : Type} (window : Window ω) (next : ω → Window ω → α) : α :=
  match window with
  | ⟨w0, w1, w2, w3, w4, w5, w6, w7, w8, w9, w10, w11, w12, w13, w14, w15⟩ =>
    o.strict (o.add (smallSigma1 o w14) (o.add w9 (o.add (smallSigma0 o w1) w0))) fun w16 =>
    next w0 ⟨w1, w2, w3, w4, w5, w6, w7, w8, w9, w10, w11, w12, w13, w14, w15, w16⟩

/-- The round constants. -/
def roundConstants : List Nat :=
  [0x428a2f98, 0x71374491, 0xb5c0fbcf, 0xe9b5dba5, 0x3956c25b, 0x59f111f1, 0x923f82a4, 0xab1c5ed5,
   0xd807aa98, 0x12835b01, 0x243185be, 0x550c7dc3, 0x72be5d74, 0x80deb1fe, 0x9bdc06a7, 0xc19bf174,
   0xe49b69c1, 0xefbe4786, 0x0fc19dc6, 0x240ca1cc, 0x2de92c6f, 0x4a7484aa, 0x5cb0a9dc, 0x76f988da,
   0x983e5152, 0xa831c66d, 0xb00327c8, 0xbf597fc7, 0xc6e00bf3, 0xd5a79147, 0x06ca6351, 0x14292967,
   0x27b70a85, 0x2e1b2138, 0x4d2c6dfc, 0x53380d13, 0x650a7354, 0x766a0abb, 0x81c2c92e, 0x92722c85,
   0xa2bfe8a1, 0xa81a664b, 0xc24b8b70, 0xc76c51a3, 0xd192e819, 0xd6990624, 0xf40e3585, 0x106aa070,
   0x19a4c116, 0x1e376c08, 0x2748774c, 0x34b0bcb5, 0x391c0cb3, 0x4ed8aa4a, 0x5b9cca4f, 0x682e6ff3,
   0x748f82ee, 0x78a5636f, 0x84c87814, 0x8cc70208, 0x90befffa, 0xa4506ceb, 0xbef9a3f7, 0xc67178f2]

/-- One round for each round constant. -/
def rounds : List Nat → Window ω → State ω → State ω
  | [], _, s => s
  | k :: ks, window, s =>
    window.advance o fun w window' => round o s (o.lit k) w fun s' => rounds ks window' s'

/-- The compression function: one 64-byte block absorbed into the hash value. -/
def compress (s : State ω) (window : Window ω) : State ω :=
  match s, rounds o roundConstants window s with
  | ⟨a, b, c, d, e, f, g, h⟩, ⟨a', b', c', d', e', f', g', h'⟩ =>
    ⟨o.add a a', o.add b b', o.add c c', o.add d d',
      o.add e e', o.add f f', o.add g g', o.add h h'⟩

/-- The initial hash value. -/
def initialState : State ω :=
  ⟨o.lit 0x6a09e667, o.lit 0xbb67ae85, o.lit 0x3c6ef372, o.lit 0xa54ff53a,
    o.lit 0x510e527f, o.lit 0x9b05688c, o.lit 0x1f83d9ab, o.lit 0x5be0cd19⟩

/-- The first sixteen words, and the words after them. -/
def takeWindow : List ω → Option (Window ω × List ω)
  | w0 :: w1 :: w2 :: w3 :: w4 :: w5 :: w6 :: w7 :: w8 :: w9 :: w10 :: w11 :: w12 :: w13 :: w14 ::
      w15 :: rest =>
    some (⟨w0, w1, w2, w3, w4, w5, w6, w7, w8, w9, w10, w11, w12, w13, w14, w15⟩, rest)
  | _ => none

/-- Absorb the given number of blocks. -/
def absorb : Nat → State ω → List ω → State ω
  | 0, s, _ => s
  | blocks + 1, s, words =>
    match takeWindow words with
    | some (window, rest) => absorb blocks (compress o s window) rest
    | none => s

end Compression

/-! ## Messages -/

/-- The big-endian 32-bit words of a byte string. -/
def wordsOfBytes : Bytes → List Nat
  | b0 :: b1 :: b2 :: b3 :: rest =>
    (((b0.toNat * 256 + b1.toNat) * 256 + b2.toNat) * 256 + b3.toNat) :: wordsOfBytes rest
  | _ => []

/-- The message, a one bit, zeros up to a whole number of blocks, and the length
of the message in bits. -/
def pad (message : Bytes) : Bytes :=
  message ++ 0x80 :: List.replicate ((119 - message.length % 64) % 64) 0 ++
    BigEndian.toBytes 8 (message.length * 8)

/-- The hash value as bytes. -/
def State.toBytes (s : State Nat) : Bytes :=
  BigEndian.toBytes 4 s.a ++ BigEndian.toBytes 4 s.b ++ BigEndian.toBytes 4 s.c ++
    BigEndian.toBytes 4 s.d ++ BigEndian.toBytes 4 s.e ++ BigEndian.toBytes 4 s.f ++
    BigEndian.toBytes 4 s.g ++ BigEndian.toBytes 4 s.h

/-- **SHA-256.** -/
def digest (message : Bytes) : Bytes :=
  let words := wordsOfBytes (pad message)
  (absorb scalarWords (words.length / 16) (initialState scalarWords) words).toBytes

/-- A digest has 32 bytes. -/
@[simp] theorem length_digest (message : Bytes) : (digest message).length = 32 := by
  simp [digest, State.toBytes]

-- The one-block test vector of FIPS 180-4, the message "abc".
example : BigEndian.ofBytes (digest [0x61, 0x62, 0x63]) =
    0xba7816bf8f01cfea414140de5dae2223b00361a396177a9cb410ff61f20015ad := by
  decide +kernel

end Sha256
