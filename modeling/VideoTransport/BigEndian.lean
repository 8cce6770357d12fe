/-!
# Big-Endian Fields

Every number in a feedback packet is sent with its most significant byte
first. The functions here join bytes to a number and take a number apart
again, for the three widths the packets use.

Both directions go through natural numbers: the value of a field is the sum
of its bytes, each weighted by a power of 256. Stated that way, a law about a
field is linear arithmetic over the values of its bytes.

## Main definitions

* `join16`, `join24`, `join32`: The number that some bytes stand for.
* `bytes16`, `bytes24`, `bytes32`: The bytes of a number.

## Theorems

* `toNat_join16`: The value of a joined pair of bytes.
* `length_bytes16`, `length_bytes24`, `length_bytes32`: The width of a field.
-/

namespace VideoTransport

namespace BigEndian

/-- Joins two bytes, the more significant first. -/
def join16 (a b : UInt8) : UInt16 :=
  UInt16.ofNat (a.toNat * 256 + b.toNat)

/-- Joins three bytes, the most significant first. -/
def join24 (a b c : UInt8) : UInt32 :=
  UInt32.ofNat (a.toNat * 65536 + b.toNat * 256 + c.toNat)

/-- Joins four bytes, the most significant first. -/
def join32 (a b c d : UInt8) : UInt32 :=
  UInt32.ofNat (a.toNat * 16777216 + b.toNat * 65536 + c.toNat * 256 + d.toNat)

/-- The two bytes of a 16 bit number. -/
def bytes16 (v : UInt16) : List UInt8 :=
  [UInt8.ofNat (v.toNat / 256), UInt8.ofNat v.toNat]

/-- The three low bytes of a number. The top byte is left out, which is how a
    24 bit field is cut from a 32 bit one. -/
def bytes24 (v : UInt32) : List UInt8 :=
  [UInt8.ofNat (v.toNat / 65536), UInt8.ofNat (v.toNat / 256), UInt8.ofNat v.toNat]

/-- The four bytes of a 32 bit number. -/
def bytes32 (v : UInt32) : List UInt8 :=
  UInt8.ofNat (v.toNat / 16777216) :: bytes24 v

/-- The value of a joined pair of bytes. Two bytes never exceed 16 bits, so
    nothing is cut off. -/
theorem toNat_join16 (a b : UInt8) : (join16 a b).toNat = a.toNat * 256 + b.toNat := by
  have ha := a.toNat_lt
  have hb := b.toNat_lt
  simp only [join16, UInt16.toNat_ofNat']
  omega

@[simp] theorem length_bytes16 (v : UInt16) : (bytes16 v).length = 2 := rfl

@[simp] theorem length_bytes24 (v : UInt32) : (bytes24 v).length = 3 := rfl

@[simp] theorem length_bytes32 (v : UInt32) : (bytes32 v).length = 4 := rfl

end BigEndian

end VideoTransport
