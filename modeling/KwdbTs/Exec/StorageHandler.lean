import Mathlib

/-!
# Primary-tag keys of the tag reader

`StorageHandler::GetEntityIdList` (ee_storage_handler.cpp) builds with `GeneratePrimaryTags` one
key per primary-tag value of the reader spec and hands the keys to `TsTable::GetEntityIdList`. A
key holds each primary-tag column's value at the start of the column's storage slot, in a zeroed
buffer. A BINARY or VARBINARY value comes as a literal whose characters from the fourth on are
hex digits, two per byte; its slot gets the byte count as a 16-bit integer and then the bytes.

The nibble test `str[i] >= 'a' && str[i] >= 'f'` holds among the digits for `f` alone, so the
digits `a` to `e` are read as decimal ones: a literal's key equals the stored tag exactly when its
digits are among `0` to `9` and `f` (`getEntityIdList_binary_key_iff`). The loop stops at
`2 * len + 3` characters, which leaves room for `len` bytes after the 2-byte count, two more than
the slot has: a long literal of the last primary tag is written past the end of the key
(`getEntityIdList_binary_overflow_iff`).
-/

namespace KwdbTs.Exec

/-- The storage types the switch of `GeneratePrimaryTags` distinguishes; `other` is every type it
has no case for. -/
inductive DataType
  | bool | smallint | int | timestamp | timestamptz | date | bigint | float | double
  | char | nchar | varchar | nvarchar | binary | varbinary | other
  deriving Repr, DecidableEq

/-- A primary-tag column: `get_storage_type()` and `get_storage_length()` of its field. -/
structure TagColumn where
  storageType : DataType
  storageLength : Nat
  deriving Repr, DecidableEq

/-- A `char` of a `std::string` as the signed value C++ compares (`char` is signed on the
x86-64 build). -/
def charValue (c : UInt8) : Int := if c.toNat < 128 then c.toNat else c.toNat - 256

/-- The nibble the BINARY loop takes from a digit: `str[i] - 'a' + 10` when
`str[i] >= 'a' && str[i] >= 'f'`, else `str[i] - '0'`, kept in a `char`. -/
def nibbleOf (c : UInt8) : UInt8 :=
  if charValue c ≥ 'a'.toNat ∧ charValue c ≥ 'f'.toNat then c - 'a'.toUInt8 + 10
  else c - '0'.toUInt8

/-- One pass of the BINARY loop: `ptr[n] = ptr[n] << 4 | nibble`, over the first digit's nibble. -/
def digitPairByte (c₁ c₂ : UInt8) : UInt8 := nibbleOf c₁ <<< 4 ||| nibbleOf c₂

/-- The BINARY / VARBINARY case for the string `str` and storage length `len`: the bytes it writes
from `ptr` on, the count `n - 2` as a 16-bit integer, low byte first, then one byte per pass of
`for (i = 3; i < buf_len; i += 2)`. `buf_len` is the `k_uint32` `str.length() - 1`, cut to
`2 * len + 3`, which is computed in a `k_int32` and compared as a `k_uint32`: both modulo `2 ^ 32`.
`str[str.length()]` reads `0`. -/
def binaryTagBytes (len : Nat) (str : List UInt8) : List UInt8 :=
  let bufLen := min ((str.length + 2 ^ 32 - 1) % 2 ^ 32) ((2 * len + 3) % 2 ^ 32)
  let bytes := (List.range' 3 ((bufLen - 2) / 2) 2).map fun i =>
    digitPairByte (str.getD i 0) (str.getD (i + 1) 0)
  [UInt8.ofNat bytes.length, UInt8.ofNat (bytes.length / 256)] ++ bytes

/-- The write of `bytes` into the key buffer `buf` at `offset`: `none` when they run past its end,
outside the `malloc`'d buffer. -/
def writeBytes (buf : List UInt8) (offset : Nat) (bytes : List UInt8) : Option (List UInt8) :=
  if offset + bytes.length ≤ buf.length then
    some (buf.take offset ++ bytes ++ buf.drop (offset + bytes.length))
  else none

/-- The bytes the switch writes for one column's value: the character types copy the string,
BINARY and VARBINARY decode it, and the other supported types write what `scalar` gives for them
(the `std::stoi` family with its range checks, `none` for `FAIL`); an unsupported type fails. -/
def tagValueBytes (scalar : DataType → List UInt8 → Option (List UInt8)) (col : TagColumn)
    (str : List UInt8) : Option (List UInt8) :=
  match col.storageType with
  | .char | .nchar | .varchar | .nvarchar => some str
  | .binary | .varbinary => some (binaryTagBytes col.storageLength str)
  | .other => none
  | t => scalar t str

/-- The inner loop of `GeneratePrimaryTags` for the value at `i`: each column's value is written
at `offset`, which then moves on by the column's storage length. -/
def writeTags (scalar : DataType → List UInt8 → Option (List UInt8)) (i : Nat) :
    List (TagColumn × List (List UInt8)) → List UInt8 → Nat → Option (List UInt8)
  | [], buf, _ => some buf
  | (col, values) :: rest, buf, offset =>
    (tagValueBytes scalar col (values.getD i [])).bind fun bytes =>
      (writeBytes buf offset bytes).bind fun buf => writeTags scalar i rest buf (offset + col.storageLength)

/-- `GeneratePrimaryTags`: one key per value of the first primary tag, each written into a zeroed
buffer of `malloc_size` bytes; `none` for `FAIL` and for a write past the end of a key. -/
def generatePrimaryTags (scalar : DataType → List UInt8 → Option (List UInt8))
    (tags : List (TagColumn × List (List UInt8))) (mallocSize : Nat) :
    Option (List (List UInt8)) :=
  (List.range ((tags.head?.map fun t => t.2.length).getD 0)).mapM fun i =>
    writeTags scalar i tags (List.replicate mallocSize 0) 0

/-- The keys `StorageHandler::GetEntityIdList` hands to `TsTable::GetEntityIdList`: `none` when the
spec has no primary tag or `GeneratePrimaryTags` fails or writes past a key. -/
def getEntityIdList (scalar : DataType → List UInt8 → Option (List UInt8))
    (tags : List (TagColumn × List (List UInt8))) : Option (List (List UInt8)) :=
  if tags = [] then none
  else generatePrimaryTags scalar tags (tags.map (·.1.storageLength)).sum

/-- The bytes a function of two digits makes of a string, two digits at a time. -/
def pairBytes (f : UInt8 → UInt8 → UInt8) : List UInt8 → List UInt8
  | c₁ :: c₂ :: rest => f c₁ c₂ :: pairBytes f rest
  | _ => []

/-- Modelled from the spec: the lowercase hex digits `0` to `9` and `a` to `f`. -/
def hexDigits : List UInt8 := (List.range' 48 10 ++ List.range' 97 6).map UInt8.ofNat

/-- Modelled from the spec: the value of a lowercase hex digit. -/
def hexValue (c : UInt8) : UInt8 :=
  if c ≤ '9'.toUInt8 then c - '0'.toUInt8 else c - 'a'.toUInt8 + 10

/-- Modelled from the spec: the byte two hex digits denote, the first the high half. -/
def hexByte (c₁ c₂ : UInt8) : UInt8 := hexValue c₁ * 16 + hexValue c₂

/-- Modelled from the spec: a BINARY primary tag as stored in a slot of `len` bytes: its byte
count in 16 bits, low byte first, then its bytes, then zeros. -/
def storedBinaryTag (len : Nat) (bytes : List UInt8) : List UInt8 :=
  [UInt8.ofNat bytes.length, UInt8.ofNat (bytes.length / 256)] ++ bytes ++
    List.replicate (len - 2 - bytes.length) 0

/-- The digits the loop decodes as their value: `0` to `9`, and `f`. -/
def decodesRight (c : UInt8) : Bool := c ≤ '9'.toUInt8 || c = 'f'.toUInt8

section Binary

/-- Digit by digit: the loop's byte is the one the two digits denote exactly when both decode
right. -/
theorem digitPairByte_eq_hexByte_iff : ∀ c₁ ∈ hexDigits, ∀ c₂ ∈ hexDigits,
    (digitPairByte c₁ c₂ = hexByte c₁ c₂ ↔ decodesRight c₁ = true ∧ decodesRight c₂ = true) := by
  decide

theorem length_pairBytes (f : UInt8 → UInt8 → UInt8) :
    ∀ (k : Nat) (digits : List UInt8), digits.length = 2 * k → (pairBytes f digits).length = k
  | 0, [], _ => rfl
  | k + 1, c₁ :: c₂ :: rest, h => by
    simp only [pairBytes, List.length_cons]
    rw [length_pairBytes f k rest (by simp at h; omega)]

/-- Over digits of `D`, two functions give the same bytes exactly when every digit has `P`, if
they agree on a pair exactly when both digits have it. -/
theorem pairBytes_eq_iff {f g : UInt8 → UInt8 → UInt8} {D : List UInt8} {P : UInt8 → Prop}
    (hfg : ∀ c₁ ∈ D, ∀ c₂ ∈ D, (f c₁ c₂ = g c₁ c₂ ↔ P c₁ ∧ P c₂)) :
    ∀ (k : Nat) (digits : List UInt8), digits.length = 2 * k → (∀ d ∈ digits, d ∈ D) →
      (pairBytes f digits = pairBytes g digits ↔ ∀ d ∈ digits, P d)
  | 0, [], _, _ => by simp [pairBytes]
  | k + 1, c₁ :: c₂ :: rest, h, hD => by
    simp only [List.forall_mem_cons] at hD
    simp only [pairBytes, List.cons.injEq, hfg c₁ hD.1 c₂ hD.2.1,
      pairBytes_eq_iff hfg k rest (by simp at h; omega) hD.2.2, List.forall_mem_cons, and_assoc]

theorem getD_append_length (ys zs : List UInt8) (m : Nat) :
    (ys ++ zs).getD (ys.length + m) 0 = zs.getD m 0 := by
  simp only [List.getD_eq_getElem?_getD, List.getElem?_append_right (Nat.le_add_right _ _),
    Nat.add_sub_cancel_left]

/-- The loop reads the digits after `ys` two at a time. -/
theorem map_range'_digitPairByte :
    ∀ (k : Nat) (ys digits zs : List UInt8), digits.length = 2 * k →
      (List.range' ys.length k 2).map (fun i => digitPairByte ((ys ++ digits ++ zs).getD i 0)
        ((ys ++ digits ++ zs).getD (i + 1) 0)) = pairBytes digitPairByte digits
  | 0, _, [], _, _ => rfl
  | k + 1, ys, c₁ :: c₂ :: rest, zs, h => by
    have hrest := map_range'_digitPairByte k (ys ++ [c₁, c₂]) rest zs (by simp at h; omega)
    simp only [List.length_append, List.length_cons, List.length_nil, List.append_assoc,
      List.cons_append, List.singleton_append, List.nil_append] at hrest
    rw [List.range'_succ, List.map_cons, pairBytes, ← hrest, List.append_assoc]
    congr 1
    exact congrArg₂ digitPairByte (getD_append_length ys _ 0) (getD_append_length ys _ 1)

/-- For a literal of three characters, `2 * k` digits and one closing character, in a slot its
`k` bytes and their count fit, the BINARY case writes the count and one byte per digit pair. -/
theorem binaryTagBytes_literal {len k : Nat} (hlen : 2 * len + 3 < 2 ^ 31) (hk : k + 2 ≤ len)
    {pre digits : List UInt8} (hpre : pre.length = 3) (hdigits : digits.length = 2 * k)
    (close : UInt8) :
    binaryTagBytes len (pre ++ digits ++ [close]) =
      [UInt8.ofNat k, UInt8.ofNat (k / 256)] ++ pairBytes digitPairByte digits := by
  have hbuf : min (((pre ++ digits ++ [close]).length + 2 ^ 32 - 1) % 2 ^ 32) ((2 * len + 3) % 2 ^ 32) =
      2 * k + 3 := by
    simp only [List.length_append, List.length_singleton, hpre, hdigits]
    omega
  have hk' : (2 * k + 3 - 2) / 2 = k := by omega
  have hloop := map_range'_digitPairByte k pre digits [close] hdigits
  rw [hpre] at hloop
  simp only [binaryTagBytes, hbuf, hk', hloop, length_pairBytes digitPairByte k digits hdigits]

/-- A write at the start of a zeroed buffer it fits in. -/
theorem writeBytes_replicate_zero {len : Nat} {bytes : List UInt8} (h : bytes.length ≤ len) :
    writeBytes (List.replicate len 0) 0 bytes = some (bytes ++ List.replicate (len - bytes.length) 0) := by
  simp only [writeBytes, List.take_zero, List.nil_append, List.drop_replicate, Nat.zero_add,
    List.length_replicate, if_pos h]

/-- The key of one primary tag and one value: the value's bytes written into a zeroed slot. -/
theorem getEntityIdList_single (scalar : DataType → List UInt8 → Option (List UInt8)) (col : TagColumn)
    (str : List UInt8) :
    getEntityIdList scalar [(col, [str])] = (tagValueBytes scalar col str).bind fun bytes =>
      (writeBytes (List.replicate col.storageLength 0) 0 bytes).map fun key => [key] := by
  simp only [getEntityIdList, generatePrimaryTags, List.map_cons, List.map_nil, List.sum_cons,
    List.sum_nil, Nat.add_zero, List.head?_cons, Option.map_some', List.length_singleton,
    Option.getD_some, List.range_succ, List.range_zero, List.nil_append, List.mapM_cons, List.mapM_nil,
    writeTags, List.getD_cons_zero, reduceCtorEq, if_false]
  cases tagValueBytes scalar col str with
  | none => rfl
  | some bytes =>
    simp only [Option.some_bind]
    cases writeBytes (List.replicate col.storageLength 0) 0 bytes <;> rfl

theorem length_binaryTagBytes (len : Nat) (str : List UInt8) :
    (binaryTagBytes len str).length =
      2 + (min ((str.length + 2 ^ 32 - 1) % 2 ^ 32) ((2 * len + 3) % 2 ^ 32) - 2) / 2 := by
  simp only [binaryTagBytes, List.length_append, List.length_cons, List.length_nil, List.length_map,
    List.length_range', Nat.add_comm]

/-- A key of one BINARY or VARBINARY primary tag and one literal of a 3-character prefix, `2 * k`
hex digits and a closing character is the stored tag of the bytes the digits denote exactly when
every digit is one of `0` to `9` and `f`. -/
theorem getEntityIdList_binary_key_iff (scalar : DataType → List UInt8 → Option (List UInt8))
    {t : DataType} (ht : t = .binary ∨ t = .varbinary) {len k : Nat} (hlen : 2 * len + 3 < 2 ^ 31)
    (hk : k + 2 ≤ len) {pre digits : List UInt8} (hpre : pre.length = 3)
    (hdigits : digits.length = 2 * k) (hhex : ∀ d ∈ digits, d ∈ hexDigits) (close : UInt8) :
    getEntityIdList scalar [(⟨t, len⟩, [pre ++ digits ++ [close]])] =
        some [storedBinaryTag len (pairBytes hexByte digits)] ↔
      ∀ d ∈ digits, d ≤ '9'.toUInt8 ∨ d = 'f'.toUInt8 := by
  have hval : tagValueBytes scalar ⟨t, len⟩ (pre ++ digits ++ [close]) =
      some ([UInt8.ofNat k, UInt8.ofNat (k / 256)] ++ pairBytes digitPairByte digits) := by
    rcases ht with rfl | rfl <;>
      simp only [tagValueBytes, binaryTagBytes_literal hlen hk hpre hdigits close]
  have hfit : ([UInt8.ofNat k, UInt8.ofNat (k / 256)] ++ pairBytes digitPairByte digits).length ≤
      len := by
    simp [length_pairBytes digitPairByte k digits hdigits]; omega
  have hkey : getEntityIdList scalar [(⟨t, len⟩, [pre ++ digits ++ [close]])] =
      some [[UInt8.ofNat k, UInt8.ofNat (k / 256)] ++ pairBytes digitPairByte digits ++
        List.replicate (len - 2 - k) 0] := by
    rw [getEntityIdList_single, hval, Option.some_bind, writeBytes_replicate_zero hfit]
    simp [length_pairBytes digitPairByte k digits hdigits, Nat.sub_sub]
    omega
  rw [hkey, storedBinaryTag, length_pairBytes hexByte k digits hdigits]
  simp only [Option.some.injEq, List.cons.injEq, and_true, List.append_cancel_right_eq,
    List.append_cancel_left_eq, true_and]
  rw [pairBytes_eq_iff (P := fun d => decodesRight d = true) digitPairByte_eq_hexByte_iff k digits
    hdigits hhex]
  simp [decodesRight]

end Binary

/-- The bytes of a literal. -/
def literalBytes (s : String) : List UInt8 := s.toList.map Char.toUInt8

/-- The digits `0a` denote the byte `0x0a`, but the loop reads `a` as a decimal digit (`'a' - '0'`
is `0x31`): for a BINARY primary tag in a 3-byte slot and the literal `(\x0a)`, the key handed to
`TsTable::GetEntityIdList` holds `0x31` where the stored tag holds `0x0a`. -/
theorem getEntityIdList_binary_key_misreads_letter_digit
    (scalar : DataType → List UInt8 → Option (List UInt8)) :
    getEntityIdList scalar [(⟨.binary, 3⟩, [literalBytes "(\\x0a)"])] = some [[1, 0, 0x31]] ∧
      storedBinaryTag 3 (pairBytes hexByte (literalBytes "0a")) = [1, 0, 0x0a] :=
  ⟨rfl, rfl⟩

/-- The cap `2 * len + 3` on `buf_len` leaves room for `len` digit pairs after the 2-byte count, two
bytes more than the slot has: for one BINARY or VARBINARY primary tag of storage length `len`, at
least 2, and a literal of `L` characters, `GeneratePrimaryTags` writes past the end of the key
exactly when `L ≥ 2 * len + 1`. -/
theorem getEntityIdList_binary_overflow_iff (scalar : DataType → List UInt8 → Option (List UInt8))
    {t : DataType} (ht : t = .binary ∨ t = .varbinary) {len : Nat} (hlen : 2 ≤ len ∧ 2 * len + 3 < 2 ^ 31)
    {str : List UInt8} (hstr : 1 ≤ str.length ∧ str.length < 2 ^ 32) :
    getEntityIdList scalar [(⟨t, len⟩, [str])] = none ↔ 2 * len + 1 ≤ str.length := by
  have hval : tagValueBytes scalar ⟨t, len⟩ str = some (binaryTagBytes len str) := by
    rcases ht with rfl | rfl <;> rfl
  have hbytes := length_binaryTagBytes len str
  rw [getEntityIdList_single, hval, Option.some_bind, writeBytes]
  simp only [List.length_replicate, Nat.zero_add]
  split_ifs with hfit
  · simp only [Option.map_some', reduceCtorEq, false_iff, not_le]
    omega
  · simp only [Option.map_none', true_iff]
    omega

/-- A BINARY primary tag in a 3-byte slot and the literal `(\x0a0b)`, of two bytes. -/
theorem getEntityIdList_binary_overflow_iff_twoBytes :
    (DataType.binary = .binary ∨ DataType.binary = .varbinary) ∧ (2 ≤ 3 ∧ 2 * 3 + 3 < 2 ^ 31) ∧
      (1 ≤ (literalBytes "(\\x0a0b)").length ∧ (literalBytes "(\\x0a0b)").length < 2 ^ 32) ∧
      getEntityIdList (fun _ _ => none) [(⟨.binary, 3⟩, [literalBytes "(\\x0a0b)"])] = none :=
  have hlen : 2 ≤ 3 ∧ 2 * 3 + 3 < 2 ^ 31 := by norm_num
  have hstr : 1 ≤ (literalBytes "(\\x0a0b)").length ∧ (literalBytes "(\\x0a0b)").length < 2 ^ 32 := by decide
  ⟨.inl rfl, hlen, hstr, (getEntityIdList_binary_overflow_iff (fun _ _ => none) (.inl rfl) hlen hstr).mpr
    (by decide)⟩

end KwdbTs.Exec
