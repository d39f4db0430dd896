import Workflow.Text.Quoted

/-!
# UTF-8

Characters from bytes. The first byte of a character tells how many bytes follow and between which
bounds the first of them lies; any further one lies between 80 and BF. The first fault is reported
with the bytes that it spoils. A byte order mark may stand in front of all.
-/
namespace Workflow.Text

inductive ByteFault where
  | start | continuation | ended
  deriving DecidableEq, Repr

def ByteFault.text : ByteFault → String
  | .start => "invalid start byte"
  | .continuation => "invalid continuation byte"
  | .ended => "unexpected end of data"

/-- Bytes that are no text: the fault, the first byte of the spoilt character, its place, and how
many bytes are spoilt. -/
structure DecodeFault where
  fault : ByteFault
  first : UInt8
  pos : Nat
  length : Nat
  deriving DecidableEq, Repr

def DecodeFault.message (f : DecodeFault) : String :=
  "'utf-8' codec can't decode " ++
    (if f.length = 1 then
      "byte 0x" ++ String.ofList (hex 2 f.first.toNat) ++ " in position " ++ toString f.pos
    else
      "bytes in position " ++ toString f.pos ++ "-" ++ toString (f.pos + f.length - 1)) ++
    ": " ++ f.fault.text

/-- What the first byte of a character says: how many bytes follow, the bounds of the next one, and
the bits that the byte adds. -/
structure Lead where
  more : Nat
  low : Nat
  high : Nat
  bits : Nat

/-- The meaning of a first byte. -/
def lead? (b : Nat) : Option Lead :=
  if b < 0x80 then some ⟨0, 0x80, 0xBF, b⟩
  else if b < 0xC2 then none
  else if b < 0xE0 then some ⟨1, 0x80, 0xBF, b - 0xC0⟩
  else if b < 0xF0 then
    some ⟨2, if b = 0xE0 then 0xA0 else 0x80, if b = 0xED then 0x9F else 0xBF, b - 0xE0⟩
  else if b < 0xF5 then
    some ⟨3, if b = 0xF0 then 0x90 else 0x80, if b = 0xF4 then 0x8F else 0xBF, b - 0xF0⟩
  else none

/-- The code point of a character from its further bytes, or the fault and the number of bytes in
front of it. -/
def follow (taken low high bits : Nat) : Nat → List UInt8 → Except (ByteFault × Nat) Nat
  | 0, _ => .ok bits
  | _ + 1, [] => .error (.ended, taken)
  | more + 1, b :: bs =>
    if low ≤ b.toNat ∧ b.toNat ≤ high then
      follow (taken + 1) 0x80 0xBF (bits * 64 + (b.toNat - 0x80)) more bs
    else .error (.continuation, taken)

/-- The first character of some bytes, and how many bytes it has besides the first. -/
def firstChar (b : UInt8) (bs : List UInt8) : Except (ByteFault × Nat) (Char × Nat) :=
  match lead? b.toNat with
  | none => .error (.start, 1)
  | some l => (follow 1 l.low l.high l.bits l.more bs).map fun n => (Char.ofNat n, l.more)

/-- The characters of bytes that start at a place. -/
def decodeFrom (pos : Nat) : List UInt8 → Except DecodeFault (List Char)
  | [] => .ok []
  | b :: bs =>
    match firstChar b bs with
    | .error (fault, length) => .error ⟨fault, b, pos, length⟩
    | .ok (c, n) => (decodeFrom (pos + 1 + n) (bs.drop n)).map (c :: ·)
termination_by bs => bs.length
decreasing_by simp only [List.length_cons, List.length_drop]; omega

/-- The characters of some bytes. -/
def decode (bs : List UInt8) : Except DecodeFault (List Char) := decodeFrom 0 bs

/-- The bytes of a byte order mark. -/
def byteOrderMark : List UInt8 := [0xEF, 0xBB, 0xBF]

/-- The bytes behind a byte order mark, all of them if there is none. Bytes that end inside the mark
are taken for a mark. -/
def dropMark (bs : List UInt8) : List UInt8 :=
  if byteOrderMark.isPrefixOf bs || bs.isPrefixOf byteOrderMark then bs.drop byteOrderMark.length
  else bs

/-- The text with one line break at the end of each line, whatever ended it before. -/
def unifyLines : List Char → List Char
  | [] => []
  | '\r' :: '\n' :: cs => '\n' :: unifyLines cs
  | c :: cs => (if c = '\r' then '\n' else c) :: unifyLines cs

end Workflow.Text
