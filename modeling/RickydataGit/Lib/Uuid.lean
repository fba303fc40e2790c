/-
  SHA-1 as the standard defines it, and version 5 UUIDs, on byte lists. Padding,
  words and their bytes are those of SHA-256.

  A version 5 UUID is made of the first sixteen bytes of the digest of a namespace
  and a name; version and variant overwrite six bits of it.
-/
import RickydataGit.Lib.Sha256

namespace RickydataGit.Lib

namespace Sha1

open Sha256

def rotl (x k : Nat) : Nat := word ((x <<< k) ||| (x >>> (32 - k)))

/-- The five working words. -/
structure State where
  a : Nat
  b : Nat
  c : Nat
  d : Nat
  e : Nat

def initial : State := ⟨0x67452301, 0xefcdab89, 0x98badcfe, 0x10325476, 0xc3d2e1f0⟩

/-- The round function and the round constant of twenty rounds each. -/
def mix (t x y z : Nat) : Nat × Nat :=
  if t < 20 then (ch x y z, 0x5a827999)
  else if t < 40 then (x ^^^ y ^^^ z, 0x6ed9eba1)
  else if t < 60 then (maj x y z, 0x8f1bbcdc)
  else (x ^^^ y ^^^ z, 0xca62c1d6)

def round (t : Nat) (s : State) (w : Nat) : State :=
  let (f, k) := mix t s.b s.c s.d
  ⟨word (rotl s.a 5 + f + s.e + k + w), s.a, rotl s.b 30, s.c, s.d⟩

/-- `n` more schedule words behind the last sixteen, oldest first. -/
def expand : Nat → List Nat → List Nat
  | 0, _ => []
  | n + 1, ws =>
      let w := rotl (ws.getD 13 0 ^^^ ws.getD 8 0 ^^^ ws.getD 2 0 ^^^ ws.getD 0 0) 1
      w :: expand n (ws.tail ++ [w])

def rounds : Nat → State → List Nat → State
  | t, s, w :: ws => rounds (t + 1) (round t s w) ws
  | _, s, [] => s

def compress (s : State) (ws : List Nat) : State :=
  let t := rounds 0 s (ws ++ expand 64 ws)
  ⟨word (s.a + t.a), word (s.b + t.b), word (s.c + t.c), word (s.d + t.d), word (s.e + t.e)⟩

/-- The 20 digest bytes. -/
def digest (msg : List UInt8) : List UInt8 :=
  let s := ((pieces 64 ((pad msg).length / 64) (pad msg)).map block).foldl compress initial
  [s.a, s.b, s.c, s.d, s.e].flatMap (bigEndian 4)

example : digest [0x61, 0x62, 0x63] =
    [0xa9, 0x99, 0x3e, 0x36, 0x47, 0x06, 0x81, 0x6a, 0xba, 0x3e, 0x25, 0x71, 0x78, 0x50, 0xc2,
      0x6c, 0x9c, 0xd0, 0xd8, 0x9d] := by
  decide +kernel

end Sha1

/-- Version and variant of a version 5 UUID. -/
def stampV5 (bytes : List UInt8) : List UInt8 :=
  let stamped := bytes.set 6 ((bytes.getD 6 0 &&& 0x0f) ||| 0x50)
  stamped.set 8 ((bytes.getD 8 0 &&& 0x3f) ||| 0x80)

/-- The sixteen bytes of the UUID of a name. -/
def uuidV5 (space name : List UInt8) : List UInt8 :=
  stampV5 ((Sha1.digest (space ++ name)).take 16)

end RickydataGit.Lib
