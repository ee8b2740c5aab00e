import Mathlib.Data.List.Basic
import Mathlib.Tactic.Ring

/-!
# Self-delimiting values and variable-length integers

A chopper takes a value off the front of a byte string and leaves the rest.
`Chops` relates a chopper to a writer: what was written in front of arbitrary further
bytes is chopped off exactly, and what is chopped off was written, possibly in a form that
is longer than the writer's own.  The rules below carry this law over to sequences of values.

Variable-length integers are written in groups of seven bits, lowest group first, with
the top bit set in every byte but the last.  The reader accepts at most ten bytes and a
tenth byte of at most one, so that the number fits into 64 bits.
-/

namespace Uqda.Wire

/-! ## Choppers -/

/-- Take a value off the front of a byte string. -/
abbrev Chopper (α : Type) := List UInt8 → Option (α × List UInt8)

/-- The chopper reads what the writer writes, for values that are `valid`. -/
structure Chops {α : Type} (encode : α → List UInt8) (chop : Chopper α) (valid : α → Prop) :
    Prop where
  chop_encode : ∀ {value : α} (rest : List UInt8), valid value →
    chop (encode value ++ rest) = some (value, rest)
  of_chop : ∀ {data : List UInt8} {value : α} {rest : List UInt8},
    chop data = some (value, rest) →
      valid value ∧ ∃ used, data = used ++ rest ∧ (encode value).length ≤ used.length

variable {α β : Type}

/-- Two values one after the other. -/
def chopBoth (first : Chopper α) (second : Chopper β) : Chopper (α × β) := fun data =>
  (first data).bind fun (value, rest) =>
    (second rest).map fun (other, rest) => ((value, other), rest)

/-- The whole byte string is one value. -/
def chopAll (chop : Chopper α) (data : List UInt8) : Option α :=
  match chop data with
  | some (value, []) => some value
  | _ => none

namespace Chops

variable {encode : α → List UInt8} {chop : Chopper α} {valid : α → Prop}
  {encode' : β → List UInt8} {chop' : Chopper β} {valid' : β → Prop}

/-- A value can be split off in one way only. -/
theorem encode_append_inj (law : Chops encode chop valid) {first second : α}
    {firstRest secondRest : List UInt8} (firstValid : valid first) (secondValid : valid second)
    (same : encode first ++ firstRest = encode second ++ secondRest) :
    first = second ∧ firstRest = secondRest := by
  have read := law.chop_encode firstRest firstValid
  rw [same, law.chop_encode secondRest secondValid, Option.some.injEq, Prod.mk.injEq] at read
  exact ⟨read.1.symm, read.2.symm⟩

/-- A list of values, each written with at least a byte, can be read in one way only. -/
theorem flatMap_encode_inj (law : Chops encode chop valid) (nonempty : ∀ value, encode value ≠ [])
    {values others : List α} (valids : ∀ value ∈ values, valid value)
    (otherValids : ∀ value ∈ others, valid value)
    (same : values.flatMap encode = others.flatMap encode) : values = others := by
  induction values generalizing others with
  | nil =>
      cases others with
      | nil => rfl
      | cons other others => exact absurd (List.append_eq_nil_iff.mp same.symm).1 (nonempty other)
  | cons value values ih =>
      cases others with
      | nil => exact absurd (List.append_eq_nil_iff.mp same).1 (nonempty value)
      | cons other others =>
          obtain ⟨first, later⟩ := List.forall_mem_cons.mp valids
          obtain ⟨otherFirst, otherLater⟩ := List.forall_mem_cons.mp otherValids
          obtain ⟨rfl, rest⟩ := law.encode_append_inj first otherFirst same
          rw [ih later otherLater rest]

theorem both (law : Chops encode chop valid) (law' : Chops encode' chop' valid') :
    Chops (fun pair : α × β => encode pair.1 ++ encode' pair.2) (chopBoth chop chop')
      (fun pair => valid pair.1 ∧ valid' pair.2) where
  chop_encode := by
    rintro ⟨value, other⟩ rest ⟨fine, fine'⟩
    simp only [chopBoth, List.append_assoc, law.chop_encode _ fine, law'.chop_encode _ fine',
      Option.bind_some, Option.map_some]
  of_chop := by
    rintro data ⟨value, other⟩ rest chopped
    simp only [chopBoth, Option.bind_eq_some_iff, Option.map_eq_some_iff, Prod.mk.injEq,
      Prod.exists] at chopped
    obtain ⟨value, middle, front, other, rest, back, ⟨rfl, rfl⟩, rfl⟩ := chopped
    obtain ⟨fine, used, rfl, shorter⟩ := law.of_chop front
    obtain ⟨fine', used', rfl, shorter'⟩ := law'.of_chop back
    refine ⟨⟨fine, fine'⟩, used ++ used', by rw [List.append_assoc], ?_⟩
    rw [List.length_append, List.length_append]
    exact Nat.add_le_add shorter shorter'

/-- The same bytes, read as a value of another type. -/
theorem iso (law : Chops encode chop valid) (pack : α → β) (unpack : β → α)
    (unpack_pack : ∀ value, unpack (pack value) = value)
    (pack_unpack : ∀ value, pack (unpack value) = value)
    (writes : ∀ value, encode' value = encode (unpack value))
    (reads : ∀ data, chop' data = (chop data).map fun (value, rest) => (pack value, rest))
    (valids : ∀ value, valid' value ↔ valid (unpack value)) : Chops encode' chop' valid' where
  chop_encode := by
    intro value rest fine
    simp only [writes, reads, law.chop_encode rest ((valids value).mp fine), Option.map_some,
      pack_unpack]
  of_chop := by
    intro data value rest chopped
    rw [reads] at chopped
    obtain ⟨⟨inner, rest'⟩, front, packed⟩ := Option.map_eq_some_iff.mp chopped
    cases packed
    rw [valids, writes, unpack_pack]
    exact law.of_chop front

/-- A byte string that is one written value is read as that value. -/
theorem chopAll_encode (law : Chops encode chop valid) {value : α} (fine : valid value) :
    chopAll chop (encode value) = some value := by
  have read := law.chop_encode [] fine
  rw [List.append_nil] at read
  rw [chopAll, read]

/-- What is read from a whole byte string is valid, and is not longer when written again. -/
theorem of_chopAll (law : Chops encode chop valid) {data : List UInt8} {value : α}
    (read : chopAll chop data = some value) :
    valid value ∧ (encode value).length ≤ data.length := by
  rw [chopAll] at read
  split at read
  · rename_i chopped
    cases read
    obtain ⟨fine, used, rfl, shorter⟩ := law.of_chop chopped
    rw [List.append_nil]
    exact ⟨fine, shorter⟩
  · cases read

end Chops

/-! ## Writing variable-length integers -/

/-- `binary.MaxVarintLen64`. -/
def maxVarintLen64 : Nat := 10

/-- The loop of `binary.PutUvarint` into a buffer with room for `room + 1` bytes. -/
def putUvarintFrom : Nat → UInt64 → List UInt8
  | 0, x => [x.toUInt8]
  | room + 1, x =>
      if x ≥ 0x80 then (x.toUInt8 ||| 0x80) :: putUvarintFrom room (x >>> 7) else [x.toUInt8]

/-- `binary.PutUvarint` into a buffer of ten bytes, and what `binary.AppendUvarint` appends. -/
def putUvarint (x : UInt64) : List UInt8 := putUvarintFrom (maxVarintLen64 - 1) x

/-! ## Reading variable-length integers -/

/-- The loop of `binary.Uvarint` from byte `i` on, with the groups before it in `x`. -/
def uvarintFrom (i : Nat) (x s : UInt64) : List UInt8 → UInt64 × Int
  | [] => (0, 0)
  | b :: rest =>
      if i = maxVarintLen64 then (0, -(i + 1))
      else if b < 0x80 then
        if i = maxVarintLen64 - 1 ∧ b > 1 then (0, -(i + 1))
        else (x ||| (b.toUInt64 <<< s), i + 1)
      else uvarintFrom (i + 1) (x ||| ((b &&& 0x7f).toUInt64 <<< s)) (s + 7) rest

/-- `binary.Uvarint`: the number and how many bytes it takes, or a count that is not positive
if the bytes end before the number or the number does not fit. -/
def uvarint (data : List UInt8) : UInt64 × Int := uvarintFrom 0 0 0 data

/-- Take a number off the front. -/
def chopUvarint : Chopper UInt64 := fun data =>
  let (u, l) := uvarint data
  if l ≤ 0 then none else some (u, data.drop l.toNat)

/-! ## Groups of seven bits -/

theorem toNat_toUInt8_or (x : UInt64) : (x.toUInt8 ||| 0x80).toNat = x.toNat % 128 + 128 := by
  have low : x.toUInt8.toNat = x.toNat % 256 := UInt64.toNat_toUInt8 x
  have each : ∀ octet : UInt8, (octet ||| 0x80).toNat = octet.toNat % 128 + 128 :=
    fun octet => (by decide +kernel : ∀ value : Fin 256,
      (UInt8.ofFin value ||| 0x80).toNat = (UInt8.ofFin value).toNat % 128 + 128) octet.toFin
  rw [each, low]
  omega

theorem toNat_and_127 (octet : UInt8) : (octet &&& 0x7f).toNat = octet.toNat % 128 := by
  rw [UInt8.toNat_and]
  exact Nat.and_two_pow_sub_one_eq_mod octet.toNat 7

theorem toNat_shiftRight_7 (x : UInt64) : (x >>> 7).toNat = x.toNat / 128 := by
  rw [UInt64.toNat_shiftRight]
  simp [Nat.shiftRight_eq_div_pow]

/-- A group that is put in front of the groups read so far. -/
theorem toNat_or_shiftLeft {x s : UInt64} {group : Nat} {shift : Nat} {value : UInt64}
    (isGroup : value.toNat = group) (isShift : s.toNat = shift) (small : shift < 64)
    (below : x.toNat < 2 ^ shift) (fits : group * 2 ^ shift < 2 ^ 64) :
    (x ||| (value <<< s)).toNat = x.toNat + group * 2 ^ shift := by
  have moved : (value <<< s).toNat = 2 ^ shift * group := by
    rw [UInt64.toNat_shiftLeft, isGroup, isShift, Nat.mod_eq_of_lt small, Nat.shiftLeft_eq,
      Nat.mod_eq_of_lt fits, Nat.mul_comm]
  rw [UInt64.toNat_or, moved, Nat.or_comm, ← Nat.two_pow_add_eq_or_of_lt below]
  ring

theorem two_pow_group (i : Nat) : 2 ^ (7 * (i + 1)) = 128 * 2 ^ (7 * i) := by
  rw [Nat.mul_succ, pow_add]
  ring

theorem toNat_add_7 {s : UInt64} {i : Nat} (shift : s.toNat = 7 * i) (small : i < 9) :
    (s + 7).toNat = 7 * (i + 1) := by
  rw [UInt64.toNat_add, shift]
  simp only [UInt64.reduceToNat]
  omega

/-- The lowest group and the others make the number. -/
theorem groups_eq (y i : Nat) :
    y % 128 * 2 ^ (7 * i) + y / 128 * 2 ^ (7 * (i + 1)) = y * 2 ^ (7 * i) := by
  calc
    y % 128 * 2 ^ (7 * i) + y / 128 * 2 ^ (7 * (i + 1)) =
        (128 * (y / 128) + y % 128) * 2 ^ (7 * i) := by rw [two_pow_group]; ring
    _ = y * 2 ^ (7 * i) := by rw [Nat.div_add_mod]

/-- The loop's register after another group. -/
theorem register_lt {x s : UInt64} {i group : Nat} {value : UInt64}
    (isGroup : value.toNat = group) (digit : group < 128) (shift : s.toNat = 7 * i)
    (small : i < 9) (below : x.toNat < 2 ^ (7 * i)) :
    (x ||| (value <<< s)).toNat = x.toNat + group * 2 ^ (7 * i) ∧
      (x ||| (value <<< s)).toNat < 2 ^ (7 * (i + 1)) := by
  have most : group * 2 ^ (7 * i) ≤ 127 * 2 ^ (7 * i) := Nat.mul_le_mul_right _ (by omega)
  have power := two_pow_group i
  have wide : 2 ^ (7 * (i + 1)) ≤ 2 ^ 63 := Nat.pow_le_pow_right (by decide) (by omega)
  have read := toNat_or_shiftLeft isGroup shift (by omega) below (by omega)
  exact ⟨read, by omega⟩

/-! ## The length of what is written -/

theorem length_putUvarintFrom_le {room width : Nat} {x : UInt64} (positive : 0 < width)
    (bound : x.toNat < 128 ^ width) : (putUvarintFrom room x).length ≤ width := by
  induction room generalizing x width with
  | zero => exact positive
  | succ room ih =>
      rw [putUvarintFrom]
      split
      · rename_i large
        have large : 128 ≤ x.toNat := large
        match width, positive with
        | 1, _ => omega
        | width + 2, _ =>
            have smaller : (x >>> 7).toNat < 128 ^ (width + 1) := by
              rw [toNat_shiftRight_7]
              apply Nat.div_lt_of_lt_mul
              rwa [← pow_succ']
            have shorter := ih (Nat.succ_pos width) smaller
            rw [List.length_cons]
            omega
      · exact positive

theorem length_putUvarint_pos (x : UInt64) : 0 < (putUvarint x).length := by
  rw [putUvarint, maxVarintLen64, putUvarintFrom]
  split
  · simp
  · simp

/-- Smaller numbers are not longer. -/
theorem length_putUvarintFrom_mono {room : Nat} {x y : UInt64} (le : x ≤ y) :
    (putUvarintFrom room x).length ≤ (putUvarintFrom room y).length := by
  induction room generalizing x y with
  | zero => exact Nat.le_refl 1
  | succ room ih =>
      have shifted : x >>> 7 ≤ y >>> 7 := by
        rw [UInt64.le_iff_toNat_le, toNat_shiftRight_7, toNat_shiftRight_7]
        exact Nat.div_le_div_right (UInt64.le_iff_toNat_le.mp le)
      rw [putUvarintFrom, putUvarintFrom]
      by_cases large : x ≥ 0x80
      · rw [if_pos large, if_pos (UInt64.le_trans large le), List.length_cons, List.length_cons]
        exact Nat.succ_le_succ (ih shifted)
      · rw [if_neg large]
        split
        · simp
        · simp

theorem length_putUvarint_mono {x y : UInt64} (le : x ≤ y) :
    (putUvarint x).length ≤ (putUvarint y).length :=
  length_putUvarintFrom_mono le

/-! ## Reading back -/

/-- The loop reads the groups that the writer's loop writes. -/
theorem uvarintFrom_putUvarintFrom {room i : Nat} {x s y : UInt64} (rest : List UInt8)
    (position : i + room = maxVarintLen64 - 1) (shift : s.toNat = 7 * i)
    (below : x.toNat < 2 ^ (7 * i)) (fits : y.toNat * 2 ^ (7 * i) < 2 ^ 64) :
    uvarintFrom i x s (putUvarintFrom room y ++ rest) =
      (x ||| (y <<< s), ((i + (putUvarintFrom room y).length : Nat) : Int)) := by
  rw [maxVarintLen64] at position
  induction room generalizing i x s y with
  | zero =>
      -- the tenth byte holds the one bit that is left
      have last : i = 9 := by omega
      subst last
      have bit : y.toNat ≤ 1 := by
        by_contra more
        have : 2 * 2 ^ 63 ≤ y.toNat * 2 ^ (7 * 9) := Nat.mul_le_mul_right _ (by omega)
        omega
      have octet : y.toUInt8.toNat = y.toNat := by
        rw [UInt64.toNat_toUInt8]
        omega
      have small : y.toUInt8 < 0x80 := by
        rw [UInt8.lt_iff_toNat_lt, octet]
        exact Nat.lt_of_le_of_lt bit (by decide)
      have tiny : ¬ y.toUInt8 > 1 := by
        rw [gt_iff_lt, UInt8.lt_iff_toNat_lt, octet]
        exact Nat.not_lt.mpr bit
      have same : y.toUInt8.toUInt64 = y := by
        apply UInt64.toNat_inj.mp
        rw [UInt8.toNat_toUInt64, octet]
      simp [putUvarintFrom, uvarintFrom, maxVarintLen64, small, tiny, same]
  | succ room ih =>
      have index : i ≠ 10 := by omega
      rw [putUvarintFrom]
      by_cases large : y ≥ 0x80
      · have big : ¬ (y.toUInt8 ||| 0x80) < 0x80 := by
          rw [UInt8.lt_iff_toNat_lt, toNat_toUInt8_or]
          exact Nat.not_lt.mpr (Nat.le_add_left _ _)
        have group : ((y.toUInt8 ||| 0x80) &&& 0x7f).toUInt64.toNat = y.toNat % 128 := by
          rw [UInt8.toNat_toUInt64, toNat_and_127, toNat_toUInt8_or]
          omega
        have split := groups_eq y.toNat i
        have shifts := toNat_add_7 shift (by omega)
        obtain ⟨read, next⟩ := register_lt group (Nat.mod_lt _ (by decide)) shift (by omega) below
        have others : (y >>> 7).toNat * 2 ^ (7 * (i + 1)) < 2 ^ 64 := by
          rw [toNat_shiftRight_7]
          omega
        have whole : x ||| (((y.toUInt8 ||| 0x80) &&& 0x7f).toUInt64 <<< s) |||
            ((y >>> 7) <<< (s + 7)) = x ||| (y <<< s) := by
          apply UInt64.toNat_inj.mp
          rw [toNat_or_shiftLeft rfl shifts (by omega) next others, read, toNat_shiftRight_7,
            toNat_or_shiftLeft rfl shift (by omega) below fits]
          omega
        rw [if_pos large, List.cons_append, uvarintFrom, maxVarintLen64, if_neg index, if_neg big,
          ih (by omega) shifts next others, whole, List.length_cons, Nat.add_right_comm i 1,
          Nat.add_assoc]
      · have small : y.toNat < 128 := Nat.not_le.mp large
        have octet : y.toUInt8.toNat = y.toNat := by
          rw [UInt64.toNat_toUInt8]
          omega
        have below' : y.toUInt8 < 0x80 := by
          rw [UInt8.lt_iff_toNat_lt, octet]
          exact small
        have same : y.toUInt8.toUInt64 = y := by
          apply UInt64.toNat_inj.mp
          rw [UInt8.toNat_toUInt64, octet]
        have early : i ≠ 9 := by omega
        simp [large, uvarintFrom, maxVarintLen64, index, early, below', same]

/-- A number is read back from the front of any bytes. -/
theorem uvarint_putUvarint (x : UInt64) (rest : List UInt8) :
    uvarint (putUvarint x ++ rest) = (x, ((putUvarint x).length : Int)) := by
  have read := @uvarintFrom_putUvarintFrom 9 0 0 0 x rest rfl rfl (by decide)
    (by simpa using x.toNat_lt)
  simpa [uvarint, putUvarint, maxVarintLen64] using read

/-! ## What is accepted -/

/-- A number that the loop accepts ends inside the bytes and within ten bytes, it is below the
bound that its number of bytes gives, and what follows it does not matter. -/
theorem of_uvarintFrom {i : Nat} {x s v : UInt64} {n : Int} {data : List UInt8}
    (read : uvarintFrom i x s data = (v, n)) (accepted : 0 < n) (inside : i < maxVarintLen64)
    (shift : s.toNat = 7 * i) (below : x.toNat < 2 ^ (7 * i)) :
    ∃ used rest, data = used ++ rest ∧ n = ((i + used.length : Nat) : Int) ∧
      i + used.length ≤ maxVarintLen64 ∧ 0 < used.length ∧
        v.toNat < 2 ^ (7 * (i + used.length)) := by
  rw [maxVarintLen64] at inside ⊢
  induction data generalizing i x s with
  | nil =>
      rw [uvarintFrom, Prod.mk.injEq] at read
      omega
  | cons b rest ih =>
      have power := two_pow_group i
      rw [uvarintFrom, maxVarintLen64, if_neg (by omega)] at read
      split at read
      · rename_i small
        have small : b.toNat < 128 := small
        split at read
        · rw [Prod.mk.injEq] at read
          omega
        · rename_i fitting
          rw [Prod.mk.injEq] at read
          obtain ⟨rfl, rfl⟩ := read
          have fits : b.toNat * 2 ^ (7 * i) < 2 ^ 64 := by
            by_cases last : i = 9
            · have one : b.toNat ≤ 1 := by
                by_contra more
                exact fitting ⟨last, UInt8.lt_iff_toNat_lt.mpr (Nat.not_le.mp more)⟩
              subst last
              omega
            · have wide : 2 ^ (7 * (i + 1)) ≤ 2 ^ 63 := Nat.pow_le_pow_right (by decide) (by omega)
              have : b.toNat * 2 ^ (7 * i) ≤ 127 * 2 ^ (7 * i) := Nat.mul_le_mul_right _ (by omega)
              omega
          have group : b.toUInt64.toNat = b.toNat := UInt8.toNat_toUInt64 b
          refine ⟨[b], rest, rfl, by simp, by simp; omega, by simp, ?_⟩
          rw [toNat_or_shiftLeft group shift (by omega) below fits, List.length_singleton, power]
          have : b.toNat * 2 ^ (7 * i) ≤ 127 * 2 ^ (7 * i) := Nat.mul_le_mul_right _ (by omega)
          omega
      · by_cases last : i = 9
        · -- a tenth byte that announces an eleventh one
          exfalso
          subst last
          cases rest with
          | nil =>
              rw [uvarintFrom, Prod.mk.injEq] at read
              omega
          | cons next rest =>
              rw [uvarintFrom, maxVarintLen64, if_pos rfl, Prod.mk.injEq] at read
              omega
        · have group : (b &&& 0x7f).toUInt64.toNat = b.toNat % 128 := by
            rw [UInt8.toNat_toUInt64, toNat_and_127]
          have next := (register_lt group (Nat.mod_lt _ (by decide)) shift (by omega) below).2
          obtain ⟨used, rest, rfl, rfl, within, positive, bound⟩ :=
            ih read (by omega) (toNat_add_7 shift (by omega)) next
          refine ⟨b :: used, rest, rfl, ?_, ?_, by simp, ?_⟩
          · rw [List.length_cons, Nat.add_right_comm i 1, Nat.add_assoc]
          · rw [List.length_cons]
            omega
          · rw [List.length_cons, ← Nat.add_assoc, Nat.add_right_comm]
            exact bound

/-- Numbers chopped off the front: each is read back, and a number that is accepted took at
least as many bytes as its shortest form. -/
theorem chops_uvarint : Chops putUvarint chopUvarint (fun _ => True) where
  chop_encode := by
    intro x rest _
    have positive := length_putUvarint_pos x
    simp only [chopUvarint, uvarint_putUvarint]
    rw [if_neg (by omega), Int.toNat_natCast, List.drop_left]
  of_chop := by
    intro data value rest chopped
    refine ⟨trivial, ?_⟩
    simp only [chopUvarint] at chopped
    split at chopped
    · cases chopped
    · rename_i accepted
      obtain ⟨used, left, split, count, -, positive, bound⟩ :=
        @of_uvarintFrom 0 0 0 (uvarint data).1 (uvarint data).2 data rfl (by omega) (by decide)
          rfl (by decide)
      rw [Nat.zero_add, pow_mul] at bound
      have taken : (uvarint data).2.toNat = used.length := by omega
      rw [Option.some.injEq, Prod.mk.injEq, taken] at chopped
      obtain ⟨rfl, rfl⟩ := chopped
      refine ⟨used, ?_, length_putUvarintFrom_le positive bound⟩
      rw [split, List.drop_left]

/-! ## Reading from a stream -/

/-- Why `binary.ReadUvarint` fails: the stream ends, or the number does not fit. -/
inductive VarintError
  | eof
  | unexpectedEOF
  | overflow
  deriving DecidableEq, Repr

/-- The loop of `binary.ReadUvarint` from byte `i` on, with at most `left` iterations. -/
def readUvarintFrom : Nat → Nat → UInt64 → UInt64 → List UInt8 →
    Except VarintError (UInt64 × List UInt8)
  | 0, _, _, _, _ => .error .overflow
  | _ + 1, i, _, _, [] => .error (if i > 0 then .unexpectedEOF else .eof)
  | left + 1, i, x, s, b :: rest =>
      if b < 0x80 then
        if i = maxVarintLen64 - 1 ∧ b > 1 then .error .overflow
        else .ok (x ||| (b.toUInt64 <<< s), rest)
      else readUvarintFrom left (i + 1) (x ||| ((b &&& 0x7f).toUInt64 <<< s)) (s + 7) rest

/-- `binary.ReadUvarint`: the number and the rest of the stream. -/
def readUvarint (stream : List UInt8) : Except VarintError (UInt64 × List UInt8) :=
  readUvarintFrom maxVarintLen64 0 0 0 stream

theorem lt_uvarintFrom {i : Nat} {x s : UInt64} {data : List UInt8}
    (accepted : 0 < (uvarintFrom i x s data).2) : i < (uvarintFrom i x s data).2 := by
  induction data generalizing i x s with
  | nil =>
      rw [uvarintFrom] at accepted
      omega
  | cons b rest ih =>
      rw [uvarintFrom] at accepted ⊢
      split at accepted
      · omega
      · rename_i inside
        rw [if_neg inside]
        split at accepted
        · rename_i small
          rw [if_pos small]
          split at accepted
          · omega
          · rename_i fits
            rw [if_neg fits]
            omega
        · rename_i large
          rw [if_neg large]
          have later := ih accepted
          omega

/-- The two readers accept the same numbers. -/
theorem readUvarintFrom_eq_ok_iff {left i : Nat} {x s u : UInt64} {data rest : List UInt8}
    (position : i + left = maxVarintLen64) :
    readUvarintFrom left i x s data = .ok (u, rest) ↔
      0 < (uvarintFrom i x s data).2 ∧ (uvarintFrom i x s data).1 = u ∧
        data.drop ((uvarintFrom i x s data).2.toNat - i) = rest := by
  induction left generalizing i x s data with
  | zero =>
      cases data with
      | nil => simp [readUvarintFrom, uvarintFrom]
      | cons b rest =>
          have full : i = maxVarintLen64 := position
          simp [readUvarintFrom, uvarintFrom, full]
  | succ left ih =>
      cases data with
      | nil => simp [readUvarintFrom, uvarintFrom]
      | cons b data =>
          have inside : i ≠ maxVarintLen64 := by omega
          rw [readUvarintFrom, uvarintFrom, if_neg inside]
          by_cases small : b < 0x80
          · rw [if_pos small, if_pos small]
            by_cases large : i = maxVarintLen64 - 1 ∧ b > 1
            · rw [if_pos large, if_pos large]
              simp
            · rw [if_neg large, if_neg large]
              have positive : 0 < (i : Int) + 1 := by omega
              simp [positive]
          · rw [if_neg small, if_neg small, ih (by omega)]
            apply and_congr_right
            intro accepted
            have later := lt_uvarintFrom accepted
            obtain ⟨more, count⟩ : ∃ more, (uvarintFrom (i + 1)
                (x ||| (b &&& 127).toUInt64 <<< s) (s + 7) data).2.toNat = i + 1 + more :=
              Nat.exists_eq_add_of_le (by omega)
            have first : i + 1 + more - i = more + 1 := by omega
            rw [count, Nat.add_sub_cancel_left, first, List.drop_succ_cons]

theorem readUvarint_eq_ok_iff {u : UInt64} {data rest : List UInt8} :
    readUvarint data = .ok (u, rest) ↔ chopUvarint data = some (u, rest) := by
  rw [readUvarint, readUvarintFrom_eq_ok_iff rfl, ← uvarint, Nat.sub_zero]
  simp only [chopUvarint]
  split
  · simp only [reduceCtorEq, iff_false]
    omega
  · simp only [Option.some.injEq, Prod.mk.injEq, and_iff_right_iff_imp]
    omega

end Uqda.Wire
