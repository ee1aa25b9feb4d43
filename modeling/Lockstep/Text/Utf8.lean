import Lockstep.Numeral.Power

/-!
# UTF-8

`Utf8.decode` reads a byte string as code points.  A byte string that is not UTF-8 is refused
at its first fault, with the range of the offending bytes and the reason, in the order in which
a reader meets the bytes: a byte that starts no sequence, a byte that does not continue one,
the end in the middle of one.  `Utf8.encode` writes code points; it is a left inverse.

A file is read in blocks.  What comes before the block with a fault has been read when the fault
is met, and the fault is counted from the first byte that was not (`Utf8.beforeFault`).
-/

namespace Lockstep.Utf8

/-- Why bytes are not UTF-8. -/
inductive Reason
  | start
  | continuation
  | truncated
  deriving DecidableEq, Repr

/-- The first fault: its bytes are those from `first` up to but not including `stop`. -/
structure Fault where
  first : Nat
  stop : Nat
  byte : UInt8
  reason : Reason
  deriving DecidableEq, Repr

/-- A byte `10xxxxxx`. -/
def isTail (b : UInt8) : Bool := 0x80 ≤ b && b ≤ 0xBF

/-- The six value bits of a continuation byte. -/
def tailBits (b : UInt8) : Nat := b.toNat % 64

/-- The second bytes that may follow the first byte `b`: no overlong form, no surrogate,
nothing above the last code point. -/
def isSecond (b s : UInt8) : Bool :=
  isTail s &&
    (if b == 0xE0 then 0xA0 ≤ s
     else if b == 0xED then s ≤ 0x9F
     else if b == 0xF0 then 0x90 ≤ s
     else if b == 0xF4 then s ≤ 0x8F
     else true)

/-- How many continuation bytes follow the first byte `b`. -/
def tails? (b : UInt8) : Option Nat :=
  if b < 0x80 then some 0
  else if b < 0xC2 then none
  else if b < 0xE0 then some 1
  else if b < 0xF0 then some 2
  else if b < 0xF5 then some 3
  else none

/-- The value bits of a first byte with `k` continuation bytes. -/
def leadBits (b : UInt8) (k : Nat) : Nat :=
  if k = 0 then b.toNat else b.toNat % twoTo (6 - k)

/-- Read `bs`, which starts at position `pos`. -/
def decodeFrom (pos : Nat) : List UInt8 → Except Fault (List Char)
  | [] => .ok []
  | b :: r =>
    match tails? b with
    | none => .error ⟨pos, pos + 1, b, .start⟩
    | some 0 => (decodeFrom (pos + 1) r).map (Char.ofNat b.toNat :: ·)
    | some 1 =>
      match r with
      | [] => .error ⟨pos, pos + 1, b, .truncated⟩
      | s :: r =>
        if isSecond b s then
          (decodeFrom (pos + 2) r).map (Char.ofNat (leadBits b 1 * 64 + tailBits s) :: ·)
        else .error ⟨pos, pos + 1, b, .continuation⟩
    | some 2 =>
      match r with
      | [] => .error ⟨pos, pos + 1, b, .truncated⟩
      | [s] =>
        if isSecond b s then .error ⟨pos, pos + 2, b, .truncated⟩
        else .error ⟨pos, pos + 1, b, .continuation⟩
      | s :: t :: r =>
        if !isSecond b s then .error ⟨pos, pos + 1, b, .continuation⟩
        else if !isTail t then .error ⟨pos, pos + 2, b, .continuation⟩
        else (decodeFrom (pos + 3) r).map
          (Char.ofNat ((leadBits b 2 * 64 + tailBits s) * 64 + tailBits t) :: ·)
    | some _ =>
      match r with
      | [] => .error ⟨pos, pos + 1, b, .truncated⟩
      | [s] =>
        if isSecond b s then .error ⟨pos, pos + 2, b, .truncated⟩
        else .error ⟨pos, pos + 1, b, .continuation⟩
      | [s, t] =>
        if !isSecond b s then .error ⟨pos, pos + 1, b, .continuation⟩
        else if isTail t then .error ⟨pos, pos + 3, b, .truncated⟩
        else .error ⟨pos, pos + 2, b, .continuation⟩
      | s :: t :: u :: r =>
        if !isSecond b s then .error ⟨pos, pos + 1, b, .continuation⟩
        else if !isTail t then .error ⟨pos, pos + 2, b, .continuation⟩
        else if !isTail u then .error ⟨pos, pos + 3, b, .continuation⟩
        else (decodeFrom (pos + 4) r).map
          (Char.ofNat
            (((leadBits b 3 * 64 + tailBits s) * 64 + tailBits t) * 64 + tailBits u) :: ·)

/-- Read a byte string. -/
def decode (bs : List UInt8) : Except Fault (List Char) := decodeFrom 0 bs

/-- The bytes of one code point. -/
def encodeChar (c : Char) : List UInt8 :=
  let n := c.toNat
  if n < 0x80 then [n.toUInt8]
  else if n < 0x800 then [(0xC0 + n / 64).toUInt8, (0x80 + n % 64).toUInt8]
  else if n < 0x10000 then
    [(0xE0 + n / 4096).toUInt8, (0x80 + n / 64 % 64).toUInt8, (0x80 + n % 64).toUInt8]
  else
    [(0xF0 + n / 262144).toUInt8, (0x80 + n / 4096 % 64).toUInt8,
      (0x80 + n / 64 % 64).toUInt8, (0x80 + n % 64).toUInt8]

/-- The bytes of a text. -/
def encode (s : List Char) : List UInt8 := s.flatMap encodeChar

/-! ### Blocks -/

/-- How many bytes of a file are read at once. -/
def blockSize : Nat := 8192

/-- How many of `size` bytes are read before the block in which a fault is met.  That a sequence is
cut off is met behind all of them. -/
def Fault.readBefore (size : Nat) (f : Fault) : Nat :=
  match f.reason with
  | .start => f.first / blockSize * blockSize
  | .continuation => f.stop / blockSize * blockSize
  | .truncated => size

/-- What the first `n` bytes read as, up to a sequence that they cut off, and where this ends. -/
def decodeUpTo (n : Nat) (bs : List UInt8) : List Char × Nat :=
  match decode (bs.take n) with
  | .ok s => (s, n)
  | .error f => ((decode (bs.take f.first)).toOption.getD [], f.first)

/-- What is read of bytes before the block with their fault, and the fault as it is counted from
there. -/
def beforeFault (bs : List UInt8) (f : Fault) : List Char × Fault :=
  let p := decodeUpTo (f.readBefore bs.length) bs
  (p.1, { f with first := f.first - p.2, stop := f.stop - p.2 })

end Lockstep.Utf8
