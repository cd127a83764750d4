/-!
# The bytes of texts

`bytes` is the UTF-8 form of a text. `lossy` reads any bytes as a text: where they are no UTF-8 form it puts a
replacement character for each longest beginning of the form of a character, and for each byte that opens none.
-/

namespace DocModel

namespace Text

/-- The UTF-8 form of a text. -/
def bytes (s : String) : List UInt8 := s.toUTF8.data.toList

/-- A character of which some bytes have come. -/
structure Pending where
  /-- The number that the bytes so far hold. -/
  value : Nat
  /-- How many bytes are still to come. -/
  missing : Nat
  /-- The least and the greatest byte that can come next. -/
  least : Nat
  greatest : Nat

/-- The character that a first byte opens, if it opens one of several bytes. -/
def Pending.open? (b : Nat) : Option Pending :=
  if 0xC2 ≤ b && b ≤ 0xDF then some ⟨b - 0xC0, 1, 0x80, 0xBF⟩
  else if b = 0xE0 then some ⟨0, 2, 0xA0, 0xBF⟩
  else if b = 0xED then some ⟨0xD, 2, 0x80, 0x9F⟩
  else if 0xE1 ≤ b && b ≤ 0xEF then some ⟨b - 0xE0, 2, 0x80, 0xBF⟩
  else if b = 0xF0 then some ⟨0, 3, 0x90, 0xBF⟩
  else if 0xF1 ≤ b && b ≤ 0xF3 then some ⟨b - 0xF0, 3, 0x80, 0xBF⟩
  else if b = 0xF4 then some ⟨4, 3, 0x80, 0x8F⟩
  else none

def replacement : Char := '\uFFFD'

/-- What a byte at the start of a character is read as, and what it leaves open. -/
def readFirst (b : Nat) : List Char × Option Pending :=
  if b < 0x80 then ([Char.ofNat b], none)
  else
    match Pending.open? b with
    | some p => ([], some p)
    | none => ([replacement], none)

/-- What a byte is read as after others, and what it leaves open. -/
def readNext (open? : Option Pending) (b : Nat) : List Char × Option Pending :=
  match open? with
  | none => readFirst b
  | some p =>
    if p.least ≤ b && b ≤ p.greatest then
      let value := p.value * 64 + b % 64
      if p.missing = 1 then ([Char.ofNat value], none) else ([], some ⟨value, p.missing - 1, 0x80, 0xBF⟩)
    else (replacement :: (readFirst b).1, (readFirst b).2)

/-- The characters of the bytes that come after others. -/
def lossyFrom (open? : Option Pending) : List UInt8 → List Char
  | [] => if open?.isSome then [replacement] else []
  | b :: rest => (readNext open? b.toNat).1 ++ lossyFrom (readNext open? b.toNat).2 rest

/-- The text that bytes are shown as. -/
def lossy (bs : List UInt8) : String := String.ofList (lossyFrom none bs)

example : lossy [0x2E, 0xFF, 0x2E, 0x6A] = ".\uFFFD.j" := by decide

end Text

end DocModel
