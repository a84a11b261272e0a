import PacketTrace.Text.Basic

/-!
# `Checksum` — CRC-32

The cyclic redundancy check with the reflected IEEE polynomial, all ones at the start and the
complement at the end. It is a left fold over the bytes, one byte being eight shifts.
-/

namespace PacketTrace.Checksum

/-- One shift of the register. -/
def shift (r : UInt32) : UInt32 :=
  if r &&& 1 = 1 then (r >>> 1) ^^^ 0xEDB88320 else r >>> 1

/-- The register after one more byte. -/
def step (r : UInt32) (b : UInt8) : UInt32 :=
  let r := r ^^^ b.toUInt32
  shift (shift (shift (shift (shift (shift (shift (shift r)))))))

/-- The CRC-32 of some bytes. -/
def crc32 (bytes : Bytes) : UInt32 := bytes.foldl step 0xFFFFFFFF ^^^ 0xFFFFFFFF

/-- The check value of the polynomial: the nine digits from 1 to 9. -/
example : crc32 [0x31, 0x32, 0x33, 0x34, 0x35, 0x36, 0x37, 0x38, 0x39] = 0xCBF43926 := by
  decide +kernel

end PacketTrace.Checksum
