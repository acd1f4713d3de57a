import Mathlib.Algebra.Order.Ring.Int

/-!
# SHA-1

The digest on lists of octets: the message is padded to blocks of sixteen words, and eighty rounds
over each block update five words of state.
-/

namespace Ze.Lib.Sha1

abbrev Word := BitVec 32

structure Chain where
  a : Word
  b : Word
  c : Word
  d : Word
  e : Word

def start : Chain :=
  ⟨0x67452301#32, 0xEFCDAB89#32, 0x98BADCFE#32, 0x10325476#32, 0xC3D2E1F0#32⟩

/-- The words of a list of octets, high octet first. -/
def words : List (BitVec 8) → List Word
  | a :: b :: c :: d :: rest => (a ++ b ++ c ++ d : BitVec 32) :: words rest
  | _ => []

def octets (w : Word) : List (BitVec 8) :=
  [w.extractLsb' 24 8, w.extractLsb' 16 8, w.extractLsb' 8 8, w.extractLsb' 0 8]

def schedule : ℕ → List Word → List Word
  | 0, w => w
  | n + 1, w =>
    schedule n
      ((w.getD 2 0#32 ^^^ w.getD 7 0#32 ^^^ w.getD 13 0#32 ^^^ w.getD 15 0#32).rotateLeft 1 :: w)

/-- One round, with the word of the schedule and its number. -/
def round (s : Chain) (w : Word × ℕ) : Chain :=
  let (f, k) : Word × Word :=
    if w.2 < 20 then (s.b &&& s.c ||| ~~~s.b &&& s.d, 0x5A827999#32)
    else if w.2 < 40 then (s.b ^^^ s.c ^^^ s.d, 0x6ED9EBA1#32)
    else if w.2 < 60 then (s.b &&& s.c ||| s.b &&& s.d ||| s.c &&& s.d, 0x8F1BBCDC#32)
    else (s.b ^^^ s.c ^^^ s.d, 0xCA62C1D6#32)
  ⟨s.a.rotateLeft 5 + f + s.e + k + w.1, s.a, s.b.rotateLeft 30, s.c, s.d⟩

def compress (s : Chain) (block : List (BitVec 8)) : Chain :=
  let t := (schedule 64 (words block).reverse).reverse.zipIdx.foldl round s
  ⟨s.a + t.a, s.b + t.b, s.c + t.c, s.d + t.d, s.e + t.e⟩

def chain : ℕ → Chain → List (BitVec 8) → Chain
  | 0, s, _ => s
  | n + 1, s, message => chain n (compress s (message.take 64)) (message.drop 64)

/-- The message with its padding and its length in bits. -/
def pad (message : List (BitVec 8)) : List (BitVec 8) :=
  message ++ 0x80#8 :: List.replicate ((119 - message.length % 64) % 64) 0#8 ++
    (List.range 8).map fun i => BitVec.ofNat 8 (8 * message.length / 256 ^ (7 - i))

def sum (message : List (BitVec 8)) : List (BitVec 8) :=
  let padded := pad message
  let s := chain (padded.length / 64) start padded
  octets s.a ++ octets s.b ++ octets s.c ++ octets s.d ++ octets s.e

lemma length_sum (message : List (BitVec 8)) : (sum message).length = 20 := rfl

example : sum [0x61#8, 0x62#8, 0x63#8] =
    [0xa9#8, 0x99#8, 0x3e#8, 0x36#8, 0x47#8, 0x06#8, 0x81#8, 0x6a#8, 0xba#8, 0x3e#8,
      0x25#8, 0x71#8, 0x78#8, 0x50#8, 0xc2#8, 0x6c#8, 0x9c#8, 0xd0#8, 0xd8#8, 0x9d#8] := by
  decide +kernel

end Ze.Lib.Sha1
