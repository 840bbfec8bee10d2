/-!
# Checksums

The 32-bit cyclic redundancy check with the reflected polynomial 0xEDB88320, of which the
complement is kept between bytes.
-/

namespace Packrat

/-- Shifts one bit out of a remainder. -/
def crcBit (r : UInt32) : UInt32 := if r &&& 1 = 1 then (r >>> 1) ^^^ 0xEDB88320 else r >>> 1

/-- Shifts one byte into a remainder. -/
def crcByte (r : UInt32) (b : UInt8) : UInt32 :=
  Nat.repeat crcBit 8 (r ^^^ UInt32.ofNat b.toNat)

/-- The checksum of some bytes. -/
def crc32 (bytes : List UInt8) : UInt32 := bytes.foldl crcByte 0xFFFFFFFF ^^^ 0xFFFFFFFF

end Packrat
