import DocStore.Number.Hex

/-!
# Checksum

The reflected CRC-32 with polynomial `0xEDB88320`: the register starts with all bits set, takes
one byte after another, low bit first, and is inverted at the end.
-/

namespace DocStore.Checksum

def polynomial : BitVec 32 := 0xEDB88320#32

/-- Shifts one bit out, and adds the polynomial when that bit was set. -/
def shift (register : BitVec 32) : BitVec 32 :=
  if register.getLsbD 0 then (register >>> 1) ^^^ polynomial else register >>> 1

def shiftByte (register : BitVec 32) : BitVec 32 :=
  shift (shift (shift (shift (shift (shift (shift (shift register)))))))

def push (register : BitVec 32) (byte : UInt8) : BitVec 32 :=
  shiftByte (register ^^^ byte.toBitVec.setWidth 32)

def crc32 (bytes : List UInt8) : BitVec 32 :=
  ~~~(bytes.foldl push 0xFFFFFFFF#32)

def ofText (text : String) : BitVec 32 :=
  crc32 text.toUTF8.toList

def hex (register : BitVec 32) : List Char :=
  Hex.digits 8 register.toNat

end DocStore.Checksum
