import Mathlib.Data.List.Basic
import Mathlib.Data.Fin.Basic

/-!
# Addresses and subnets derived from public keys

The embedding of `src/address/address.go`.  A node's IPv6 address carries the
number of leading zero bits of its Ed25519 public key in one byte, then the
complemented key bits after the first set bit, truncated to whole bytes.  A
subnet is the first half of the address with the low prefix bit set.  `getKey`
goes back to a partial key, which the routing layer looks up.

Byte slices are lists and fixed-size byte arrays are vectors.  `AddrForKey`
returns nil on keys of a wrong length, here `none`.
-/

namespace Uqda.Addressing

/-- `ed25519.PublicKeySize`. -/
def publicKeySize : Nat := 32

/-- `keyArray`: a whole Ed25519 public key. -/
abbrev KeyArray := Vector UInt8 publicKeySize

/-- An IPv6 address in the network's address range. -/
abbrev Address := Vector UInt8 16

/-- An IPv6 /64 subnet in the network's subnet range. -/
abbrev Subnet := Vector UInt8 8

/-- A full or partial Ed25519 public key, an unconstrained byte slice. -/
abbrev PublicKey := List UInt8

/-- `GetPrefix`. -/
def getPrefix : Vector UInt8 1 := #v[0x02]

/-- `copy(dst[offset:], src)`: the source is cut off at the end of the
destination, and bytes it does not reach are kept. -/
def copyAt {n : Nat} (dst : Vector UInt8 n) (offset : Nat) (src : List UInt8) :
    Vector UInt8 n :=
  Vector.ofFn fun idx =>
    if offset ≤ idx.val then (src[idx.val - offset]?).getD dst[idx] else dst[idx]

/-- `key[idx] |= bits`. -/
def orAt {n : Nat} (key : Vector UInt8 n) (idx : Fin n) (bits : UInt8) : Vector UInt8 n :=
  key.set idx (key[idx] ||| bits)

/-- `Address.IsValid`. -/
def Address.isValid (a : Address) : Bool :=
  (List.finRange 1).all fun idx => a[idx.val] == getPrefix[idx]

/-- `Subnet.IsValid`: every prefix byte but the last is compared as it is, the
last one with its low bit set. -/
def Subnet.isValid (s : Subnet) : Bool :=
  ((List.finRange 0).all fun idx => s[idx.val] == getPrefix[idx.val]) &&
    s[0] == (getPrefix[0] ||| 0x01)

/-! ## Deriving an address -/

/-- The variables of the bit loop in `AddrForKey`. -/
structure Scan where
  temp : List UInt8 := []
  done : Bool := false
  ones : UInt8 := 0
  bits : UInt8 := 0
  nBits : Nat := 0
  deriving DecidableEq, Repr

/-- Bit `idx` of the complemented key, as the byte 0 or 1. -/
def keyBit (buf : Vector UInt8 32) (idx : Fin (8 * 32)) : UInt8 :=
  (buf[idx.val / 8] &&& (0x80 >>> UInt8.ofNat (idx.val % 8))) >>> UInt8.ofNat (7 - idx.val % 8)

/-- One iteration of the bit loop.  The counter of leading ones is a byte and
wraps, and the bit that ends the run is dropped. -/
def Scan.step (scan : Scan) (bit : UInt8) : Scan :=
  if !scan.done && bit != 0 then
    { scan with ones := scan.ones + 1 }
  else if !scan.done && bit == 0 then
    { scan with done := true }
  else
    let bits := (scan.bits <<< 1) ||| bit
    if scan.nBits + 1 = 8 then
      { scan with bits := bits, nBits := 0, temp := scan.temp ++ [bits] }
    else
      { scan with bits := bits, nBits := scan.nBits + 1 }

/-- The whole bit loop over the complemented key. -/
def scanKey (buf : Vector UInt8 32) : Scan :=
  (List.finRange (8 * 32)).foldl (fun scan idx => scan.step (keyBit buf idx)) {}

/-- `AddrForKey`. -/
def addrForKey (publicKey : PublicKey) : Option Address :=
  if publicKey.length ≠ publicKeySize then
    none
  else
    let buf := (copyAt (Vector.replicate 32 0) 0 publicKey).map (~~~ ·)
    let scan := scanKey buf
    let addr : Address := copyAt (Vector.replicate 16 0) 0 getPrefix.toList
    some (copyAt (addr.set 1 scan.ones) 2 scan.temp)

/-- The address with a given counter byte and payload octets, cut off or
padded with zeros to fourteen octets. -/
def assemble (ones : UInt8) (payload : List UInt8) : Address :=
  copyAt ((copyAt (Vector.replicate 16 0) 0 getPrefix.toList : Address).set 1 ones) 2 payload

/-- `SubnetForKey`. -/
def subnetForKey (publicKey : PublicKey) : Option Subnet :=
  match addrForKey publicKey with
  | none => none
  | some addr =>
      let snet : Subnet := copyAt (Vector.replicate 8 0) 0 addr.toList
      some (orAt snet 0 0x01)

/-- The subnet that `SubnetForKey` cuts out of an address. -/
def toSubnet (a : Address) : Subnet :=
  orAt (copyAt (Vector.replicate 8 0) 0 a.toList) 0 0x01

/-! ## Recovering a partial key -/

/-- The counter byte of an address. -/
def Address.ones (a : Address) : UInt8 :=
  a[1]

/-- The counter byte of a subnet. -/
def Subnet.ones (s : Subnet) : UInt8 :=
  s[1]

/-- The first loop of `GetKey`: the leading ones of the complemented key. -/
def setOnes (ones : UInt8) : Vector UInt8 32 :=
  (List.finRange ones.toNat).foldl (fun key idx =>
    orAt key ⟨idx.val / 8, by have := idx.isLt; have := ones.toNat_lt; omega⟩
      (0x80 >>> UInt8.ofNat (idx.val % 8))) (Vector.replicate 32 0)

/-- The second loop of `GetKey` over the listed address bits.  It breaks off
as soon as a key bit falls outside the key. -/
def setPayload (a : Address) (keyOffset : Nat) : List (Fin 112) → Vector UInt8 32 → Vector UInt8 32
  | [], key => key
  | step :: steps, key =>
      let idx := step.val + 16
      let bits := a[idx / 8] &&& (0x80 >>> UInt8.ofNat (idx % 8))
      let bits := bits <<< UInt8.ofNat (idx % 8)
      let keyIdx := keyOffset + step.val
      let bits := bits >>> UInt8.ofNat (keyIdx % 8)
      if inside : keyIdx / 8 < 32 then
        setPayload a keyOffset steps (orAt key ⟨keyIdx / 8, inside⟩ bits)
      else
        key

/-- `Address.GetKey`. -/
def Address.getKey (a : Address) : PublicKey :=
  let ones := a[1]
  let key := setPayload a (ones.toNat + 1) (List.finRange 112) (setOnes ones)
  (key.map (~~~ ·)).toList

/-- `Subnet.GetKey`. -/
def Subnet.getKey (s : Subnet) : PublicKey :=
  Address.getKey (copyAt (Vector.replicate 16 0) 0 s.toList)

/-- The Bloom transform that `core.New` installs.  It dereferences the result
of `SubnetForKey`, so a key of a wrong length has no image. -/
def keyXform (key : PublicKey) : Option PublicKey :=
  (subnetForKey key).map Subnet.getKey

end Uqda.Addressing
