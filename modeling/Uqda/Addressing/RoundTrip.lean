import Uqda.Addressing.Lookup

/-!
# Round trips between keys and addresses

An address shows the number of leading zero bits of a key, the one bit after them
implicitly, and 112 further bits; a subnet shows 48 further bits.  `GetKey` gives
these bits back and fills the rest of the key with ones.  The whole octets of the
payload are all there as long as the key has at most 127 leading zero bits, which
is what the address format assumes.
-/

namespace Uqda.Addressing

open Uqda.Bits

/-- The number of leading zero bits of a key. -/
def leadingZeros (key : PublicKey) : Nat :=
  ((unpack key).takeWhile (! ·)).length

/-! ## The bits that are shown -/

theorem unpack_of_complement {key : PublicKey} {bits : List Bool}
    (complement : (unpack key).map (! ·) = bits) : unpack key = bits.map (! ·) := by
  rw [← complement, List.map_map]
  simp [Function.comp_def]

theorem leadingZeros_of_run {key : PublicKey} {count : Nat} {rest : List Bool}
    (shape : (unpack key).map (! ·) = List.replicate count true ++ false :: rest) :
    leadingZeros key = count := by
  have bits := unpack_of_complement shape
  rw [leadingZeros, bits, List.map_append, List.map_replicate, List.map_cons,
    List.takeWhile_append_of_pos (by simp)]
  simp

/-- The complement of a key that has a one bit. -/
theorem exists_complement {key : PublicKey} (size : key.length = publicKeySize)
    (few : leadingZeros key ≤ 255) :
    ∃ rest, rest.length = 255 - leadingZeros key ∧
      (unpack key).map (! ·) = List.replicate (leadingZeros key) true ++ false :: rest := by
  have total : ((unpack key).map (! ·)).length = 256 := by
    simp [size, publicKeySize]
  rcases exists_run ((unpack key).map (! ·)) with ⟨count, shape⟩ | ⟨count, rest, shape⟩
  · have whole : count = 256 := by simpa [shape] using total
    have zeros : leadingZeros key = count := by
      rw [leadingZeros, unpack_of_complement shape, List.map_replicate,
        List.takeWhile_replicate_eq_filter]
      simp
    omega
  · have split : count + (rest.length + 1) = 256 := by simpa [shape] using total
    refine ⟨rest, ?_, ?_⟩
    · rw [leadingZeros_of_run shape]
      omega
    · rw [leadingZeros_of_run shape]
      exact shape

/-- The key that an address with a given counter and payload leads back to. -/
theorem unpack_getKey_assemble {ones : UInt8} {octets : List UInt8} (short : octets.length ≤ 14)
    (fits : 8 * octets.length ≤ 255 - ones.toNat) :
    unpack (Address.getKey (assemble ones octets)) =
      List.replicate ones.toNat false ++ true :: (unpack octets).map (! ·) ++
        List.replicate (255 - ones.toNat - 8 * octets.length) true := by
  have shape := unpack_of_complement (complement_getKey (assemble ones octets))
  rw [assemble_ones, payload_assemble, keyShape] at shape
  have padded : (octets ++ List.replicate 14 0).take 14 ++ List.replicate 32 0 =
      octets ++ List.replicate (46 - octets.length) 0 := by
    rw [List.take_append, List.take_of_length_le short, List.take_replicate, List.append_assoc,
      List.replicate_append_replicate, Nat.min_eq_left (by omega),
      show 14 - octets.length + 32 = 46 - octets.length by omega]
  rw [shape, padded, unpack_append, unpack_replicate_zero, List.take_append,
    List.take_of_length_le (by simpa using fits), List.take_replicate, length_unpack,
    Nat.min_eq_left (by omega)]
  simp

theorem assemble_take (ones : UInt8) {octets : List UInt8} {count : Nat} (enough : 14 ≤ count) :
    assemble ones (octets.take count) = assemble ones octets := by
  rw [assemble_eq_iff]
  refine ⟨rfl, ?_⟩
  rw [List.take_append, List.take_append, List.take_take, Nat.min_eq_left enough, List.length_take,
    List.take_replicate, List.take_replicate]
  congr 2
  omega

/-- `count` payload octets of a key lead back to its first bits. -/
theorem unpack_getKey_of_complement {key : PublicKey} {rest : List Bool} {count : Nat}
    (shape : (unpack key).map (! ·) =
      List.replicate (leadingZeros key) true ++ false :: rest)
    (few : leadingZeros key ≤ 127) (length : rest.length = 255 - leadingZeros key)
    (short : count ≤ 14) :
    unpack (Address.getKey (assemble (UInt8.ofNat (leadingZeros key)) ((pack rest).take count))) =
      (unpack key).take (leadingZeros key + 1 + 8 * count) ++
        List.replicate (255 - leadingZeros key - 8 * count) true := by
  have counter : (UInt8.ofNat (leadingZeros key)).toNat = leadingZeros key :=
    UInt8.toNat_ofNat_of_lt' (by simp only [UInt8.size]; omega)
  have full : ((pack rest).take count).length = count := by
    rw [List.length_take, length_pack]
    omega
  have front : (unpack key).take (leadingZeros key + 1 + 8 * count) =
      List.replicate (leadingZeros key) false ++ true :: (rest.take (8 * count)).map (! ·) := by
    rw [unpack_of_complement shape, List.map_append, List.map_replicate, List.map_cons,
      List.take_append, List.length_replicate, List.take_replicate, Nat.min_eq_right (by omega),
      show leadingZeros key + 1 + 8 * count - leadingZeros key = 8 * count + 1 by omega,
      List.take_succ_cons, List.map_take]
    rfl
  have fits : 8 * ((pack rest).take count).length ≤
      255 - (UInt8.ofNat (leadingZeros key)).toNat := by
    rw [counter, full]
    omega
  rw [unpack_getKey_assemble (full.trans_le short) fits, counter, full,
    unpack_take_pack (by omega), front]

/-! ## Valid addresses and subnets -/

theorem eq_assemble_of_isValid {a : Address} (valid : Address.isValid a = true) :
    a = assemble a.ones (payload a) := by
  have first : a[0] = 0x02 := by simpa [Address.isValid, getPrefix] using valid
  rw [← Vector.toList_inj, toList_assemble, List.take_append_of_le_length (by simp),
    List.take_of_length_le (by simp), ← first]
  rcases a with ⟨⟨_ | ⟨head, _ | ⟨ones, rest⟩⟩⟩, size⟩
  · simp at size
  · simp at size
  · rfl

theorem eq_toSubnet_of_isValid {s : Subnet} (valid : Subnet.isValid s = true) :
    s = toSubnet (assemble s.ones (s.toList.drop 2)) := by
  have marked : (0x02 ||| 0x01 : UInt8) = 0x03 := rfl
  have first : s[0] = 0x03 := by simpa [Subnet.isValid, getPrefix, marked] using valid
  rw [← Vector.toList_inj, toList_toSubnet_assemble, List.take_append_of_le_length (by simp),
    List.take_of_length_le (by simp), ← first]
  rcases s with ⟨⟨_ | ⟨head, _ | ⟨ones, rest⟩⟩⟩, size⟩
  · simp at size
  · simp at size
  · rfl

theorem addrForKey_getKey_of_isValid {a : Address} (valid : Address.isValid a = true)
    (few : a.ones ≤ 127) : addrForKey (Address.getKey a) = some a := by
  have room : a.ones.toNat ≤ 127 := UInt8.le_iff_toNat_le.mp few
  rw [eq_assemble_of_isValid valid]
  apply addrForKey_getKey_assemble
  rw [length_payload]
  omega

theorem subnetForKey_getKey_of_isValid {s : Subnet} (valid : Subnet.isValid s = true)
    (few : s.ones ≤ 127) : subnetForKey (Subnet.getKey s) = some s := by
  have room : s.ones.toNat ≤ 127 := UInt8.le_iff_toNat_le.mp few
  rw [eq_toSubnet_of_isValid valid, subnetForKey_eq_map, addrForKey_getKey_toSubnet,
    Option.map_some, toSubnet_assemble_take]
  rw [List.length_drop, Vector.length_toList]
  omega

/-! ## The round trips -/

/-- A key with at most 127 leading zero bits leads to an address and a subnet whose
partial keys agree with it on the bits that are shown and continue with ones.
Conversely each valid address and subnet with such a counter is derived from its
own partial key. -/
theorem address_roundTrip :
    (∀ k : PublicKey, k.length = publicKeySize → leadingZeros k ≤ 127 →
      ∃ a s, addrForKey k = some a ∧ subnetForKey k = some s ∧
        unpack (Address.getKey a) = (unpack k).take (leadingZeros k + 113) ++
          List.replicate (256 - (leadingZeros k + 113)) true ∧
        unpack (Subnet.getKey s) = (unpack k).take (leadingZeros k + 49) ++
          List.replicate (256 - (leadingZeros k + 49)) true) ∧
    (∀ a : Address, Address.isValid a = true → a.ones ≤ 127 →
      addrForKey (Address.getKey a) = some a) ∧
    ∀ s : Subnet, Subnet.isValid s = true → s.ones ≤ 127 →
      subnetForKey (Subnet.getKey s) = some s := by
  refine ⟨fun k size few => ?_, fun a => addrForKey_getKey_of_isValid,
    fun s => subnetForKey_getKey_of_isValid⟩
  obtain ⟨rest, length, shape⟩ := exists_complement size (by omega)
  have derived := addrForKey_of_run size shape
  refine ⟨_, _, derived, by rw [subnetForKey_eq_map, derived, Option.map_some], ?_, ?_⟩
  · have visible : leadingZeros k + 1 + 8 * 14 = leadingZeros k + 113 := rfl
    have filled : 255 - leadingZeros k - 8 * 14 = 256 - (leadingZeros k + 113) := by omega
    rw [← assemble_take _ (Nat.le_refl 14),
      unpack_getKey_of_complement shape few length (Nat.le_refl 14), visible, filled]
  · have six : (pack rest ++ List.replicate 14 0).take 6 = (pack rest).take 6 := by
      rw [List.take_append_of_le_length]
      rw [length_pack]
      omega
    have visible : leadingZeros k + 1 + 8 * 6 = leadingZeros k + 49 := rfl
    have filled : 255 - leadingZeros k - 8 * 6 = 256 - (leadingZeros k + 49) := by omega
    rw [getKey_toSubnet_assemble, six,
      unpack_getKey_of_complement shape few length (by decide), visible, filled]

end Uqda.Addressing
