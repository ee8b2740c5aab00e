import Uqda.Addressing.Derivation

/-!
# Lookups by address, subnet and key agree

`GetKey` rebuilds the complemented key bits that an address shows.  Deriving an
address from the rebuilt key gives back the counter byte and every payload octet
that fits into the key, so an address or subnet that was derived from some key
is a fixed point.  The Bloom transform of `core.New` therefore identifies two
keys exactly when they have the same subnet.
-/

namespace Uqda.Addressing

open Uqda.Bits

/-! ## Key arrays as bit predicates -/

/-- The bits of a 32-byte array are given by a predicate on positions. -/
def Represents (key : Vector UInt8 32) (bits : Nat → Bool) : Prop :=
  unpack key.toList = (List.range 256).map bits

theorem Represents.congr {key : Vector UInt8 32} {bits other : Nat → Bool}
    (rep : Represents key bits) (same : ∀ i < 256, bits i = other i) :
    Represents key other := by
  rw [Represents, rep]
  apply List.map_congr_left
  intro i member
  exact same i (List.mem_range.mp member)

theorem represents_zero : Represents (Vector.replicate 32 0) fun _ => false := by
  rw [Represents, Vector.toList_replicate, unpack_replicate_zero, List.map_const',
    List.length_range]

/-- Or-ing a one-bit mask into the array sets that bit. -/
theorem Represents.orAt {key : Vector UInt8 32} {bits : Nat → Bool} (rep : Represents key bits)
    {target : Nat} (inside : target / 8 < 32) {mask : UInt8} {bit : Bool}
    (masked : ∀ position : Fin 8,
      bitOf mask position.val = (decide (position.val = target % 8) && bit)) :
    Represents (orAt key ⟨target / 8, inside⟩ mask)
      fun i => bits i || (decide (i = target) && bit) := by
  apply List.ext_getElem?
  intro i
  have before := congrArg (fun list => list[i]?) rep
  simp only [getElem?_unpack] at before ⊢
  by_cases bound : i < 256
  · have octet : i / 8 < 32 := by omega
    simp only [Uqda.Addressing.orAt, Vector.toList_set, List.getElem?_set,
      Vector.length_toList, List.getElem?_map, List.getElem?_range bound, Option.map_some]
      at before ⊢
    rw [List.getElem?_eq_getElem (by simpa using octet)] at before ⊢
    simp only [Vector.getElem_toList, Option.map_some, Option.some.injEq] at before
    by_cases sameOctet : target / 8 = i / 8
    · have positions : (decide (i % 8 = target % 8)) = decide (i = target) := by
        apply decide_eq_decide.mpr
        omega
      simp only [sameOctet, octet, if_true, Option.map_some, Option.some.injEq]
      rw [bitOf_or, masked ⟨i % 8, by omega⟩, positions]
      simp only [Fin.getElem_fin, before]
    · have different : i ≠ target := by rintro rfl; exact sameOctet rfl
      simp [sameOctet, different, before]
  · have outside : (List.range 256)[i]? = none := by simp; omega
    simp only [List.getElem?_map, outside, Option.map_none] at before ⊢
    simp only [Option.map_eq_none_iff, List.getElem?_eq_none_iff, Vector.length_toList]
    omega

/-! ## The two loops of `GetKey` -/

theorem setOnes_loop {count : Nat} (small : count < 256) (steps : List (Fin count))
    {key : Vector UInt8 32} {bits : Nat → Bool} (rep : Represents key bits) :
    Represents (steps.foldl (fun key idx =>
      orAt key ⟨idx.val / 8, by have := idx.isLt; omega⟩
        (0x80 >>> UInt8.ofNat (idx.val % 8))) key)
      fun i => bits i || steps.any fun step => decide (step.val = i) := by
  induction steps generalizing key bits with
  | nil => simpa using rep
  | cons step steps ih =>
      have inside : step.val / 8 < 32 := by have := step.isLt; omega
      have masked : ∀ position : Fin 8,
          bitOf (0x80 >>> UInt8.ofNat (step.val % 8)) position.val =
            (decide (position.val = step.val % 8) && true) := by
        intro position
        rw [bitOf_mask (by omega) position.isLt, Bool.and_true]
      refine (ih (rep.orAt inside masked)).congr ?_
      intro i _
      simp [Bool.or_assoc, eq_comm]

theorem represents_setOnes (ones : UInt8) :
    Represents (setOnes ones) fun i => decide (i < ones.toNat) := by
  refine (setOnes_loop ones.toNat_lt (List.finRange ones.toNat) represents_zero).congr ?_
  intro i _
  rw [Bool.false_or, Bool.eq_iff_iff, List.any_eq_true, decide_eq_true_iff]
  constructor
  · rintro ⟨step, -, equal⟩
    have := step.isLt
    simp only [decide_eq_true_eq] at equal
    omega
  · intro below
    exact ⟨⟨i, below⟩, List.mem_finRange _, by simp⟩

/-- Isolating an address bit and moving it to the top of the octet. -/
theorem isolate_eq (octet : UInt8) (shift : Fin 8) :
    (octet &&& (0x80 >>> UInt8.ofNat shift.val)) <<< UInt8.ofNat shift.val =
      if bitOf octet shift.val then 0x80 else 0 := by
  apply eq_of_bitOf_eq
  intro index inside
  rw [bitOf_shiftLeft _ shift.isLt, bitOf_and, bitOf_top _ inside]
  by_cases within : index + shift.val < 8
  · rw [bitOf_mask shift.isLt within]
    by_cases first : index = 0
    · simp [first]
    · simp [first]
  · have moved : index ≠ 0 := by omega
    simp [bitOf_of_le octet (Nat.not_lt.mp within), moved]

theorem payloadIndex_lt (step : Fin 112) : (step.val + 16) / 8 < 16 := by
  omega

/-- Bit `step` of the payload of an address, after the prefix and the counter. -/
def payloadBit (a : Address) (step : Fin 112) : Bool :=
  bitOf (getElem a ((step.val + 16) / 8) (payloadIndex_lt step)) ((step.val + 16) % 8)

/-- The payload loop sets the shifted payload bits.  Breaking off loses no bit
of the key, because later positions only lie further out. -/
theorem setPayload_loop (a : Address) (keyOffset : Nat) (steps : List (Fin 112))
    (increasing : steps.Pairwise (· < ·)) {key : Vector UInt8 32} {bits : Nat → Bool}
    (rep : Represents key bits) :
    Represents (setPayload a keyOffset steps key)
      fun i => bits i || steps.any fun step =>
        decide (keyOffset + step.val = i) && payloadBit a step := by
  induction steps generalizing key bits with
  | nil => simpa [setPayload] using rep
  | cons step steps ih =>
      rw [List.pairwise_cons] at increasing
      simp only [setPayload]
      split
      · rename_i inside
        have masked : ∀ position : Fin 8,
            bitOf ((a[(step.val + 16) / 8] &&& (0x80 >>> UInt8.ofNat ((step.val + 16) % 8))) <<<
              UInt8.ofNat ((step.val + 16) % 8) >>> UInt8.ofNat ((keyOffset + step.val) % 8))
              position.val =
            (decide (position.val = (keyOffset + step.val) % 8) && payloadBit a step) := by
          intro position
          rw [isolate_eq _ ⟨(step.val + 16) % 8, by omega⟩,
            bitOf_shiftRight _ (by omega) position.isLt, bitOf_top _ (by omega),
            ← Bool.and_assoc, ← Bool.decide_and]
          congr 1
          exact decide_eq_decide.mpr (by omega)
        refine (ih increasing.2 (rep.orAt inside masked)).congr ?_
        intro i _
        simp [Bool.or_assoc, eq_comm]
      · rename_i outside
        refine rep.congr ?_
        intro i bound
        symm
        rw [Bool.or_eq_left_iff_imp, List.any_eq_true]
        rintro ⟨later, member, set⟩
        simp only [Bool.and_eq_true, decide_eq_true_eq] at set
        rcases List.mem_cons.mp member with rfl | member
        · omega
        · have := increasing.1 later member
          omega

/-! ## The bits of the rebuilt key -/

/-- The payload octets of an address. -/
def payload (a : Address) : List UInt8 :=
  a.toList.drop 2

@[simp]
theorem length_payload (a : Address) : (payload a).length = 14 := by
  simp [payload]

theorem payloadBit_eq (a : Address) (step : Fin 112) :
    (unpack (payload a))[step.val]? = some (payloadBit a step) := by
  have octet : (step.val + 16) / 8 = step.val / 8 + 2 := by omega
  have position : (step.val + 16) % 8 = step.val % 8 := by omega
  have inside : step.val / 8 < (payload a).length := by simp; omega
  simp only [getElem?_unpack, payloadBit, octet, position]
  rw [List.getElem?_eq_getElem inside]
  simp [payload, Nat.add_comm]

/-- The complemented key rebuilt from a counter byte and payload octets. -/
def keyShape (ones : UInt8) (octets : List UInt8) : List Bool :=
  List.replicate ones.toNat true ++
    false :: (unpack (octets ++ List.replicate 32 0)).take (255 - ones.toNat)

/-- The loop over the address bits sets key bit `ones + 1 + offset` to payload bit
`offset`, and no bit past the payload. -/
theorem any_payloadBit (a : Address) (ones offset : Nat) (bound : ones + 1 + offset < 256) :
    some ((List.finRange 112).any fun step =>
        decide (ones + 1 + step.val = ones + 1 + offset) && payloadBit a step) =
      (unpack (payload a) ++ unpack (List.replicate 32 0))[offset]? := by
  by_cases shown : offset < 112
  · rw [List.getElem?_append_left (by simp; omega), payloadBit_eq a ⟨offset, shown⟩,
      Option.some.injEq, Bool.eq_iff_iff, List.any_eq_true]
    constructor
    · rintro ⟨step, -, set⟩
      simp only [Bool.and_eq_true, decide_eq_true_eq] at set
      have same : step = ⟨offset, shown⟩ := Fin.ext (by simp only; omega)
      rw [← same]
      exact set.2
    · intro set
      exact ⟨⟨offset, shown⟩, List.mem_finRange _, by simp [set]⟩
  · rw [List.getElem?_append_right (by simp; omega), unpack_replicate_zero,
      List.getElem?_replicate, if_pos (by simp; omega), Option.some.injEq, List.any_eq_false]
    intro step _
    simp
    omega

theorem unpack_rebuilt (a : Address) :
    unpack (setPayload a (a.ones.toNat + 1) (List.finRange 112) (setOnes a.ones)).toList =
      keyShape a.ones (payload a) := by
  have rep := setPayload_loop a (a.ones.toNat + 1) (List.finRange 112)
    (List.pairwise_lt_finRange 112) (represents_setOnes a.ones)
  have small := a.ones.toNat_lt
  rw [rep]
  generalize a.ones = ones at small ⊢
  apply List.ext_getElem?
  intro i
  by_cases bound : i < 256
  · rw [List.getElem?_map, List.getElem?_range bound, Option.map_some, keyShape]
    rcases Nat.lt_trichotomy i ones.toNat with below | equal | above
    · rw [List.getElem?_append_left (by simpa using below), List.getElem?_replicate]
      simp [below]
    · rw [List.getElem?_append_right (by simp; omega), List.length_replicate, equal,
        Nat.sub_self, List.getElem?_cons_zero]
      simp only [lt_self_iff_false, decide_false, Bool.false_or, Option.some.injEq]
      rw [List.any_eq_false]
      intro step _
      simp
      omega
    · obtain ⟨offset, rfl⟩ : ∃ offset, i = ones.toNat + 1 + offset :=
        ⟨i - (ones.toNat + 1), by omega⟩
      rw [List.getElem?_append_right (by simp; omega), List.length_replicate,
        show ones.toNat + 1 + offset - ones.toNat = offset + 1 by omega,
        List.getElem?_cons_succ, List.getElem?_take_of_lt (by omega), unpack_append]
      have notBelow : ¬ ones.toNat + 1 + offset < ones.toNat := by omega
      simp only [notBelow, decide_false, Bool.false_or]
      exact any_payloadBit a ones.toNat offset bound
  · rw [List.getElem?_eq_none (by simpa using Nat.le_of_not_lt bound),
      List.getElem?_eq_none]
    simp [keyShape]
    omega

theorem getKey_eq (a : Address) :
    Address.getKey a = ((setPayload a (a.ones.toNat + 1) (List.finRange 112)
      (setOnes a.ones)).map (~~~ ·)).toList :=
  rfl

theorem length_getKey (a : Address) : (Address.getKey a).length = publicKeySize := by
  simp [Address.getKey, publicKeySize]

/-- Complementing the rebuilt key once more shows the bits it was built from. -/
theorem complement_getKey (a : Address) :
    (unpack (Address.getKey a)).map (! ·) = keyShape a.ones (payload a) := by
  rw [getKey_eq, Vector.toList_map, unpack_map_complement, unpack_rebuilt]
  simp [Function.comp_def]

/-- The rebuilt key depends on nothing but the counter byte and the payload. -/
theorem getKey_congr {a b : Address} (ones : a.ones = b.ones) (octets : payload a = payload b) :
    Address.getKey a = Address.getKey b := by
  have complements : (unpack (Address.getKey a)).map (! ·) =
      (unpack (Address.getKey b)).map (! ·) := by
    rw [complement_getKey, complement_getKey, ones, octets]
  have bits := congrArg (List.map (! ·)) complements
  simp only [List.map_map, Function.comp_def, Bool.not_not, List.map_id'] at bits
  have octetsEq := congrArg (fun list => pack (list.take 256)) bits
  simp only [pack_take_unpack] at octetsEq
  rwa [List.take_of_length_le (by simp [length_getKey, publicKeySize]),
    List.take_of_length_le (by simp [length_getKey, publicKeySize])] at octetsEq

/-! ## Derived addresses are fixed points -/

theorem assemble_eq_iff {ones other : UInt8} {left right : List UInt8} :
    assemble ones left = assemble other right ↔
      ones = other ∧
        (left ++ List.replicate 14 0).take 14 = (right ++ List.replicate 14 0).take 14 := by
  rw [← Vector.toList_inj, toList_assemble, toList_assemble]
  simp

@[simp]
theorem assemble_ones (ones : UInt8) (octets : List UInt8) :
    (assemble ones octets).ones = ones := by
  have shown := congrArg (fun list => list[1]?) (toList_assemble ones octets)
  simpa [Address.ones] using shown

theorem payload_assemble (ones : UInt8) (octets : List UInt8) :
    payload (assemble ones octets) = (octets ++ List.replicate 14 0).take 14 := by
  rw [payload, toList_assemble]
  rfl

/-- Zero padding hides the difference between a list and its zero-padded cut. -/
theorem take_padded {octets : List UInt8} {count : Nat} (fits : octets.length ≤ count) :
    ((((octets ++ List.replicate 14 0).take 14) ++ List.replicate 32 0).take count ++
      List.replicate 14 0).take 14 = (octets ++ List.replicate 14 0).take 14 := by
  apply List.ext_getElem
  · simp
  · intro i left right
    simp only [List.length_take, List.length_append, List.length_replicate] at left right
    simp only [List.getElem_take]
    by_cases inside : i < octets.length
    · rw [List.getElem_append_left (by simp; omega), List.getElem_take,
        List.getElem_append_left (by simp; omega), List.getElem_take]
    · rw [@List.getElem_append_right _ octets _ _ (by omega), List.getElem_replicate]
      by_cases kept : i < count
      · rw [List.getElem_append_left (by simp; omega), List.getElem_take,
          List.getElem_append_left (by simp; omega), List.getElem_take,
          List.getElem_append_right (by omega), List.getElem_replicate]
      · by_cases beyond : i < ((((octets ++ List.replicate 14 0).take 14) ++
            List.replicate 32 0).take count).length
        · simp only [List.length_take] at beyond
          omega
        · rw [List.getElem_append_right (by omega), List.getElem_replicate]

/-- Payload octets that fit behind the counter survive a round through the
partial key. -/
theorem addrForKey_getKey_assemble {ones : UInt8} {octets : List UInt8}
    (fits : octets.length ≤ (255 - ones.toNat) / 8) :
    addrForKey (Address.getKey (assemble ones octets)) = some (assemble ones octets) := by
  have shape := complement_getKey (assemble ones octets)
  rw [assemble_ones, payload_assemble, keyShape] at shape
  rw [addrForKey_of_run (length_getKey _) shape, pack_take_unpack, UInt8.ofNat_toNat,
    Option.some.injEq, assemble_eq_iff]
  exact ⟨rfl, take_padded fits⟩

/-- Every derived address has a counter and payload octets that fit behind it,
whatever the number of leading zero bits of the key. -/
theorem exists_assemble {publicKey : PublicKey} (size : publicKey.length = publicKeySize) :
    ∃ ones octets, octets.length ≤ (255 - ones.toNat) / 8 ∧
      addrForKey publicKey = some (assemble ones octets) := by
  have total : ((unpack publicKey).map (! ·)).length = 256 := by
    simp [size, publicKeySize]
  rcases exists_run ((unpack publicKey).map (! ·)) with ⟨count, shape⟩ | ⟨count, rest, shape⟩
  · have whole : count = 256 := by simpa [shape] using total
    subst whole
    exact ⟨0, [], by simp, addrForKey_of_zero size shape⟩
  · have split : count + (rest.length + 1) = 256 := by simpa [shape] using total
    refine ⟨UInt8.ofNat count, pack rest, ?_, addrForKey_of_run size shape⟩
    rw [length_pack, UInt8.toNat_ofNat_of_lt' (by simp only [UInt8.size]; omega)]
    omega

/-! ## Subnets -/

theorem subnetForKey_eq_map (publicKey : PublicKey) :
    subnetForKey publicKey = (addrForKey publicKey).map toSubnet := by
  unfold subnetForKey
  cases addrForKey publicKey <;> rfl

theorem toList_toSubnet_assemble (ones : UInt8) (octets : List UInt8) :
    (toSubnet (assemble ones octets)).toList =
      0x03 :: ones :: (octets ++ List.replicate 14 0).take 6 := by
  have copied : (copyAt (Vector.replicate 8 0) 0 (assemble ones octets).toList).toList =
      0x02 :: ones :: (octets ++ List.replicate 14 0).take 6 := by
    rw [toList_copyAt_zero, List.take_append_of_le_length (by simp), toList_assemble]
    simp [List.take_take]
  have first : (copyAt (Vector.replicate 8 0) 0 (assemble ones octets).toList)[0] = 0x02 := by
    have shown := congrArg (fun list => list[0]?) copied
    simpa using shown
  simp only [toSubnet, orAt, Vector.toList_set, copied, Fin.getElem_fin, Fin.val_zero, first]
  rfl

/-- Six octets leave room for eight octets of padding. -/
theorem take_six_padded {octets : List UInt8} (six : octets.length = 6) {count : Nat}
    (enough : 8 ≤ count) :
    (octets ++ List.replicate count 0).take 14 = octets ++ List.replicate 8 0 := by
  rw [List.take_append, six, List.take_of_length_le (by omega), List.take_replicate,
    Nat.min_eq_left (by omega)]

/-- A subnet shows the counter and the first six payload octets of its key. -/
theorem getKey_toSubnet_assemble (ones : UInt8) (octets : List UInt8) :
    Subnet.getKey (toSubnet (assemble ones octets)) =
      Address.getKey (assemble ones ((octets ++ List.replicate 14 0).take 6)) := by
  have six : ((octets ++ List.replicate 14 0).take 6).length = 6 := by simp
  have copied : (copyAt (Vector.replicate 16 0) 0
      (toSubnet (assemble ones octets)).toList : Address).toList =
        0x03 :: ones :: ((octets ++ List.replicate 14 0).take 6 ++ List.replicate 8 0) := by
    rw [toList_copyAt_zero, toList_toSubnet_assemble, List.cons_append, List.cons_append,
      List.take_succ_cons, List.take_succ_cons, take_six_padded six (by omega)]
  apply getKey_congr
  · have shown := congrArg (fun list => list[1]?) copied
    rw [assemble_ones]
    simpa [Address.ones] using shown
  · rw [payload, copied, payload_assemble, take_six_padded six (by omega)]
    rfl

theorem toSubnet_assemble_take (ones : UInt8) (octets : List UInt8) :
    toSubnet (assemble ones ((octets ++ List.replicate 14 0).take 6)) =
      toSubnet (assemble ones octets) := by
  have six : ((octets ++ List.replicate 14 0).take 6).length = 6 := by simp
  rw [← Vector.toList_inj, toList_toSubnet_assemble, toList_toSubnet_assemble,
    List.take_append_of_le_length (by omega), List.take_of_length_le (by omega)]

/-- The counter and the first six octets, cut to the same room, are stable. -/
theorem addrForKey_getKey_toSubnet {ones : UInt8} {octets : List UInt8}
    (fits : octets.length ≤ (255 - ones.toNat) / 8) :
    addrForKey (Subnet.getKey (toSubnet (assemble ones octets))) =
      some (assemble ones ((octets ++ List.replicate 14 0).take 6)) := by
  have padded : assemble ones ((octets ++ List.replicate 14 0).take 6) =
      assemble ones (octets.take 6) := by
    rw [assemble_eq_iff]
    refine ⟨rfl, ?_⟩
    apply List.ext_getElem
    · simp
    · intro i left right
      simp only [List.length_take, List.length_append, List.length_replicate] at left right
      simp only [List.getElem_take]
      by_cases inside : i < (octets.take 6).length
      · have bounds := inside
        simp only [List.length_take] at bounds
        rw [List.getElem_append_left (by simp; omega), List.getElem_append_left inside,
          List.getElem_take, List.getElem_take, List.getElem_append_left (by omega)]
      · have bounds := inside
        simp only [List.length_take] at bounds
        rw [@List.getElem_append_right _ (octets.take 6) _ _ (by omega), List.getElem_replicate]
        by_cases copied : i < 6
        · rw [List.getElem_append_left (by simp; omega), List.getElem_take,
            List.getElem_append_right (by omega), List.getElem_replicate]
        · rw [List.getElem_append_right (by simp; omega), List.getElem_replicate]
  rw [getKey_toSubnet_assemble, padded]
  apply addrForKey_getKey_assemble
  simp only [List.length_take]
  omega

/-! ## Lookup agreement -/

/-- A derived address leads back to itself through its partial key. -/
theorem addrForKey_getKey {publicKey : PublicKey} {a : Address}
    (derived : addrForKey publicKey = some a) : addrForKey (Address.getKey a) = some a := by
  have size : publicKey.length = publicKeySize := by
    by_contra wrong
    simp [addrForKey, wrong] at derived
  obtain ⟨ones, octets, fits, shape⟩ := exists_assemble size
  rw [shape, Option.some.injEq] at derived
  rw [← derived]
  exact addrForKey_getKey_assemble fits

/-- A derived subnet leads back to itself through its partial key. -/
theorem subnetForKey_getKey {publicKey : PublicKey} {s : Subnet}
    (derived : subnetForKey publicKey = some s) : subnetForKey (Subnet.getKey s) = some s := by
  rw [subnetForKey_eq_map] at derived
  obtain ⟨a, addr, rfl⟩ := Option.map_eq_some_iff.mp derived
  have size : publicKey.length = publicKeySize := by
    by_contra wrong
    simp [addrForKey, wrong] at addr
  obtain ⟨ones, octets, fits, shape⟩ := exists_assemble size
  rw [shape, Option.some.injEq] at addr
  rw [← addr, subnetForKey_eq_map, addrForKey_getKey_toSubnet fits, Option.map_some,
    toSubnet_assemble_take]

/-- The transform separates exactly the keys with different subnets. -/
theorem keyXform_eq_iff {left right : PublicKey} :
    keyXform left = keyXform right ↔ subnetForKey left = subnetForKey right := by
  constructor
  · intro same
    unfold keyXform at same
    cases leftSubnet : subnetForKey left with
    | none =>
        rw [leftSubnet] at same
        exact (Option.map_eq_none_iff.mp same.symm).symm
    | some s =>
        rw [leftSubnet] at same
        obtain ⟨t, rightSubnet, keys⟩ := Option.map_eq_some_iff.mp same.symm
        have stable := subnetForKey_getKey leftSubnet
        rw [← keys, subnetForKey_getKey rightSubnet] at stable
        rw [rightSubnet, stable]
  · intro same
    rw [keyXform, keyXform, same]

/-- For any two 32-byte keys, a lookup of the partial key shown by the second
key's address or subnet, or of the second key itself, is answered by the owner
of the first key exactly when the two keys have the same subnet.  In particular
each node answers lookups of its own address, subnet and key. -/
theorem keyXform_lookup_iff {k k' : PublicKey} (size : k.length = publicKeySize)
    (size' : k'.length = publicKeySize) :
    ∃ a s, addrForKey k' = some a ∧ subnetForKey k' = some s ∧
      (keyXform k).isSome ∧
      (keyXform (Address.getKey a) = keyXform k ↔ subnetForKey k = subnetForKey k') ∧
      (keyXform (Subnet.getKey s) = keyXform k ↔ subnetForKey k = subnetForKey k') ∧
      (keyXform k' = keyXform k ↔ subnetForKey k = subnetForKey k') ∧
      keyXform (Address.getKey a) = keyXform k' ∧ keyXform (Subnet.getKey s) = keyXform k' := by
  obtain ⟨ones, octets, fits, addr⟩ := exists_assemble size'
  obtain ⟨ones₀, octets₀, -, addr₀⟩ := exists_assemble size
  have subnet : subnetForKey k' = some (toSubnet (assemble ones octets)) := by
    rw [subnetForKey_eq_map, addr, Option.map_some]
  have fromAddr : subnetForKey (Address.getKey (assemble ones octets)) = subnetForKey k' := by
    rw [subnetForKey_eq_map, addrForKey_getKey addr, subnet, Option.map_some]
  have fromSubnet : subnetForKey (Subnet.getKey (toSubnet (assemble ones octets))) =
      subnetForKey k' := by
    rw [subnetForKey_getKey subnet, subnet]
  refine ⟨assemble ones octets, toSubnet (assemble ones octets), addr, subnet, ?_, ?_, ?_, ?_,
    ?_, ?_⟩
  · rw [keyXform, subnetForKey_eq_map, addr₀]
    rfl
  · rw [keyXform_eq_iff, fromAddr]
    exact eq_comm
  · rw [keyXform_eq_iff, fromSubnet]
    exact eq_comm
  · rw [keyXform_eq_iff]
    exact eq_comm
  · exact keyXform_eq_iff.mpr fromAddr
  · exact keyXform_eq_iff.mpr fromSubnet

/-- The all-zero key wraps the counter and shares its subnet with the all-ones
key, so each of the two answers lookups of the other. -/
theorem keyXform_lookup_iff_wrapped :
    ∃ a s, addrForKey (List.replicate 32 0) = some a ∧
      subnetForKey (List.replicate 32 0) = some s ∧
      keyXform (Address.getKey a) = keyXform (List.replicate 32 0xff) ∧
      keyXform (Subnet.getKey s) = keyXform (List.replicate 32 0xff) := by
  have ones : addrForKey (List.replicate 32 0xff) =
      some (assemble 0 (pack (List.replicate 255 false))) := by
    refine @addrForKey_of_run _ rfl 0 _ ?_
    rw [← unpack_map_complement, List.map_replicate]
    exact unpack_replicate_zero 32
  have zeros : addrForKey (List.replicate 32 0) = some (assemble 0 []) := by
    refine addrForKey_of_zero rfl ?_
    rw [unpack_replicate_zero, List.map_replicate]
    rfl
  have padded : assemble 0 (pack (List.replicate 255 false)) = assemble 0 [] :=
    assemble_eq_iff.mpr ⟨rfl, rfl⟩
  have shared : subnetForKey (List.replicate 32 0xff) = subnetForKey (List.replicate 32 0) := by
    rw [subnetForKey_eq_map, subnetForKey_eq_map, ones, zeros, padded]
  obtain ⟨a, s, addr, subnet, -, byAddr, bySubnet, -⟩ :=
    @keyXform_lookup_iff (List.replicate 32 0xff) (List.replicate 32 0) rfl rfl
  exact ⟨a, s, addr, subnet, byAddr.mpr shared, bySubnet.mpr shared⟩

end Uqda.Addressing
