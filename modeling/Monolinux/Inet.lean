import Monolinux.Lib.Bytes

/-!
# The Internet checksum

`ml_inet_checksum_acc` adds up `htons` of the words of the buffer in 32 bits; `htons` of
a word is the big-endian word on hosts of both byte orders.
-/

namespace Monolinux

def mlInetChecksumBegin : UInt32 := 0

/-- An odd last byte is read together with the byte `behind` the buffer. -/
def mlInetChecksumAcc (acc : UInt32) (buf : List UInt8) (behind : UInt8) : UInt32 :=
  match buf with
  | b0 :: b1 :: buf => mlInetChecksumAcc (acc + (word16 b0 b1).toUInt32) buf behind
  | [b] => acc + (word16 b behind &&& 0xff00).toUInt32
  | [] => acc

def mlInetChecksumEnd (acc : UInt32) : UInt16 :=
  let acc := acc >>> 16 + (acc &&& 0xffff)
  let acc := if acc &&& 0xffff0000 ≠ 0 then acc >>> 16 + (acc &&& 0xffff) else acc
  (~~~acc).toUInt16

def mlInetChecksum (buf : List UInt8) (behind : UInt8) : UInt16 :=
  mlInetChecksumEnd (mlInetChecksumAcc mlInetChecksumBegin buf behind)

end Monolinux
