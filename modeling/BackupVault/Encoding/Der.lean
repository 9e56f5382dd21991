import BackupVault.Bytes

/-!
# Distinguished encoding

Elements of a tag, a length and a content, each written in exactly one way: the length takes as
few bytes as it can, and a number as few as its sign allows.

## Overview

- `Der.element`, `Der.natural`: writing
- `Der.element?`, `Der.natural?`, `Der.anyElement?`: reading one element off a list of bytes
- `Der.whole?`: reading that leaves nothing over
-/

set_option autoImplicit false

namespace BackupVault.Der

/-! ## §1 Tags -/

def integerTag : UInt8 := 0x02
def bitStringTag : UInt8 := 0x03
def octetStringTag : UInt8 := 0x04
def nullTag : UInt8 := 0x05
def identifierTag : UInt8 := 0x06
def sequenceTag : UInt8 := 0x30

/-- The tag belongs to the context, as optional parts of a sequence do. -/
def isContextTag (t : UInt8) : Bool := 0x80 ≤ t && t ≤ 0xbe && t &&& 0x1f != 0x1f

/-- The content of an element with this tag is made of elements. -/
def isConstructed (t : UInt8) : Bool := t &&& 0x20 != 0

def tagNumber (t : UInt8) : UInt8 := t &&& 0x1f

def universalTags : List UInt8 :=
  [0x01, 0x02, 0x03, 0x04, 0x05, 0x06, 0x09, 0x0a, 0x0c, 0x12, 0x13, 0x14, 0x15, 0x16, 0x17, 0x18,
   0x1a, 0x1b, 0x1e, 0x30, 0x31]

/-- The byte is a tag: a known universal one, or one of another class with a short number. -/
def isTag (t : UInt8) : Bool :=
  if t < 0x40 then universalTags.contains t else t &&& 0x1f != 0x1f

/-! ## §2 Lengths -/

/-- A length in the fewest bytes. -/
def lengthBytes (n : Nat) : List UInt8 :=
  if n < 0x80 then [UInt8.ofNat n]
  else
    let width := Bytes.byteLength n
    UInt8.ofNat (0x80 + width) :: (Bytes.listOfNatLE width n).reverse

def maxLength : Nat := 0x0fffffff

/-- Read a length.  One that is not written in the fewest bytes is refused. -/
def length? : List UInt8 → Option (Nat × List UInt8)
  | [] => none
  | x :: rest =>
    if x < 0x80 then some (x.toNat, rest)
    else
      let width := x.toNat - 0x80
      let digits := rest.take width
      let n := Bytes.natOfListLE digits.reverse
      if 1 ≤ width ∧ width ≤ 4 ∧ digits.length = width ∧ n ≤ maxLength ∧
          lengthBytes n = x :: digits then
        some (n, rest.drop width)
      else none

/-! ## §3 Elements -/

def element (tag : UInt8) (content : List UInt8) : List UInt8 :=
  tag :: (lengthBytes content.length ++ content)

/-- Read an element of any tag: the tag, the content and what follows. -/
def anyElement? : List UInt8 → Option (UInt8 × List UInt8 × List UInt8)
  | [] => none
  | tag :: rest => do
    if !isTag tag then none
    let (n, rest) ← length? rest
    if n ≤ rest.length then some (tag, rest.take n, rest.drop n) else none

def element? (tag : UInt8) (bs : List UInt8) : Option (List UInt8 × List UInt8) := do
  let (t, content, rest) ← anyElement? bs
  if t = tag then some (content, rest) else none

/-- What a reader made of all of the bytes; bytes left over are refused. -/
def whole? {α : Type} : Option (α × List UInt8) → Option α
  | some (value, []) => some value
  | _ => none

/-! ## §4 Numbers -/

/-- The content of a number that is not negative: its bytes, most significant first, after a zero
where the first of them would make it negative. -/
def naturalContent (n : Nat) : List UInt8 :=
  let digits := (Bytes.listOfNatLE (max 1 (Bytes.byteLength n)) n).reverse
  if digits.headD 0 < 0x80 then digits else 0 :: digits

def natural (n : Nat) : List UInt8 := element integerTag (naturalContent n)

/-- Read a number.  A negative one is refused, and so is one written with needless zeros. -/
def natural? (bs : List UInt8) : Option (Nat × List UInt8) := do
  let (content, rest) ← element? integerTag bs
  let n := Bytes.natOfListLE content.reverse
  if naturalContent n = content then some (n, rest) else none

/-! ## §5 Bit strings -/

def bitString (content : List UInt8) : List UInt8 := element bitStringTag (0 :: content)

/-- The bytes of the content of a bit string; a part of a byte at the end is refused. -/
def wholeBits? : List UInt8 → Option (List UInt8)
  | 0 :: content => some content
  | _ => none

end BackupVault.Der
