import Mathlib
import KwdbTs.Storage.Basic

/-!
# Columns between the catalog and the storage

A column reaches the storage engine as a `roachpb::KWDBKTSColumn` and is kept as an
`AttributeInfo` (a metric column) or a `TagInfo` (a tag). `TsEntityGroup::GetColAttributeInfo`
converts the first to the second, and `GetMetricColumnInfo` and `GetTagColumnInfo` convert back
(ts_table.cpp). `AddColumn`, `DropColumn`, `AlterColumnType` and their undos all start with
`GetColAttributeInfo`, and `AddColumn` makes the tag's `TagInfo` from its result.

Converting a column and back gives the column again, up to the storage types the conversion
merges: `DATE`, `TIMESTAMP` and `TIMESTAMPTZ` come back as the type of the column's place,
`NCHAR` as `BINARY`, `NVARCHAR` as `VARBINARY` and `SDEVARCHAR` as `SDECHAR`; the storage length
comes back set, to what it read as (`getMetricColumnInfo_getColAttributeInfo`). A general tag
added by `AddColumn` comes back through `GetTagColumnInfo` the same way, as long as its length
fits the `uint32_t` of a `TagInfo` (`getTagColumnInfo_addColumnTagInfo`).
-/

namespace KwdbTs.Storage

/-- The `roachpb::DataType` of a column as the conversions tell them apart: the types they name,
and `other` for each type they have no case for. -/
inductive StorageType
  | timestamp | timestamptz | date | smallint | int | bigint | float | double | bool | char
  | binary | nchar | varchar | nvarchar | varbinary | sdechar | sdevarchar
  | other (code : Nat)
  deriving Repr, DecidableEq

/-- The storage `DATATYPE` of a column as the conversions tell them apart. -/
inductive DataType
  | timestamp64Lsn | timestamp64 | int16 | int32 | int64 | float | double | byte | char | binary
  | varstring | varbinary | string | invalid
  | other (code : Nat)
  deriving Repr, DecidableEq

/-- The fields of a `roachpb::KWDBKTSColumn` the conversions read and write. `storageLen`, a
`uint64`, is `none` while the optional field is not set, and then reads as `0`. -/
structure KWDBKTSColumn where
  columnId : Nat
  name : String
  storageType : StorageType
  storageLen : Option UInt64
  nullable : Bool
  dropped : Bool
  colType : Nat
  deriving Repr, DecidableEq

/-- The fields of an `AttributeInfo` the conversions read and write; `notNull` and `isDropped`
are its `AINFO_NOT_NULL` and `AINFO_DROPPED` flags. -/
structure AttributeInfo where
  id : Nat
  name : String
  type : DataType
  size : Nat
  length : Int
  maxLen : Int
  notNull : Bool
  isDropped : Bool
  attrType : Nat
  version : Nat
  deriving Repr, DecidableEq

/-- A `TagInfo`: id, data type, length, offset, size and tag type. -/
structure TagInfo where
  mId : Nat
  mDataType : DataType
  mLength : Nat
  mOffset : Nat
  mSize : Nat
  mTagType : Nat
  deriving Repr, DecidableEq

/-- What `getDataTypeSize`, which is not in these sources, does with an attribute of a type and
a `max_len`: the size it returns, and the `max_len` it leaves. -/
structure TypeSizer where
  size : DataType → Int → Nat
  maxLen : DataType → Int → Int

/-- `getDataTypeSize(attr_info)`: the attribute with the `max_len` it leaves, and its size. -/
def getDataTypeSize (z : TypeSizer) (a : AttributeInfo) : AttributeInfo × Nat :=
  ({ a with maxLen := z.maxLen a.type a.maxLen }, z.size a.type a.maxLen)

/-! ## `GetColAttributeInfo` -/

/-- The switch of `GetColAttributeInfo`: the `DATATYPE` of a storage type and the `max_len` its
case sets, if it sets one; `none` for a type it has no case for. For `VARCHAR` the `uint64_t`
`storage_len() - 1` wraps at `0`, and the signed `max_len` receives `-1`. -/
def storageAttr (firstCol : Bool) (storageLen : Nat) : StorageType → Option (DataType × Option Int)
  | .timestamp | .timestamptz | .date =>
    some (if firstCol then .timestamp64Lsn else .timestamp64, some 3)
  | .smallint => some (.int16, none)
  | .int => some (.int32, none)
  | .bigint => some (.int64, none)
  | .float => some (.float, none)
  | .double => some (.double, none)
  | .bool => some (.byte, none)
  | .char => some (.char, some storageLen)
  | .binary | .nchar => some (.binary, some storageLen)
  | .varchar => some (.varstring, some (storageLen - 1))
  | .nvarchar | .varbinary => some (.varbinary, some storageLen)
  | .sdechar | .sdevarchar => some (.string, some storageLen)
  | .other _ => none

/-- `TsEntityGroup::GetColAttributeInfo`: `attr` is the `AttributeInfo` it fills in, which it
leaves as it was for a type it has no case for. -/
def getColAttributeInfo (z : TypeSizer) (col : KWDBKTSColumn) (attr : AttributeInfo)
    (firstCol : Bool) : KStatus × AttributeInfo :=
  match storageAttr firstCol (col.storageLen.getD 0).toNat col.storageType with
  | none => (.fail, attr)
  | some (ty, maxLen) =>
    let (a, size) := getDataTypeSize z { attr with type := ty, maxLen := maxLen.getD attr.maxLen }
    (.success,
      { a with
        size := size
        id := col.columnId
        name := col.name
        length := (col.storageLen.getD 0).toNat
        notNull := a.notNull || !col.nullable
        isDropped := a.isDropped || col.dropped
        attrType := col.colType
        version := 1 })

/-! ## `GetMetricColumnInfo` and `GetTagColumnInfo` -/

/-- The switch of `GetMetricColumnInfo`: the storage type of a `DATATYPE` and the storage length
its case sets, if it sets one; `none` for `INVALID` and the types it has no case for. -/
def metricStorage (maxLen : Int) : DataType → Option (StorageType × Option Int)
  | .timestamp64Lsn => some (.timestamptz, none)
  | .timestamp64 => some (.timestamp, none)
  | .int16 => some (.smallint, none)
  | .int32 => some (.int, none)
  | .int64 => some (.bigint, none)
  | .float => some (.float, none)
  | .double => some (.double, none)
  | .byte => some (.bool, none)
  | .char => some (.char, some maxLen)
  | .binary => some (.binary, some maxLen)
  | .varstring => some (.varchar, some (maxLen + 1))
  | .varbinary => some (.varbinary, some maxLen)
  | .string => some (.sdechar, some maxLen)
  | .invalid | .other _ => none

/-- `set_storage_len` of an `int`: the value as the `uint64` field holds it. -/
def toStorageLen (v : Int) : UInt64 :=
  UInt64.ofNat (v % 2 ^ 64).toNat

/-- `TsEntityGroup::GetMetricColumnInfo`: `col` is the column it fills in. Its storage length is
cleared first, also when the call then fails. -/
def getMetricColumnInfo (attr : AttributeInfo) (col : KWDBKTSColumn) : KStatus × KWDBKTSColumn :=
  let col := { col with storageLen := none }
  match metricStorage attr.maxLen attr.type with
  | none => (.fail, col)
  | some (st, len) =>
    let col := { col with storageType := st, storageLen := len.map toStorageLen }
    (.success,
      { col with
        columnId := attr.id
        name := attr.name
        nullable := !attr.notNull
        dropped := attr.isDropped
        storageLen := some (col.storageLen.getD (toStorageLen attr.length))
        colType := attr.attrType })

/-- The storage type of a `DATATYPE` in `GetTagColumnInfo`, which sets no length by type. -/
def tagStorage : DataType → Option StorageType
  | .timestamp64Lsn => some .timestamptz
  | .timestamp64 => some .timestamp
  | .int16 => some .smallint
  | .int32 => some .int
  | .int64 => some .bigint
  | .float => some .float
  | .double => some .double
  | .byte => some .bool
  | .char => some .char
  | .binary => some .binary
  | .varstring => some .varchar
  | .varbinary => some .varbinary
  | .string => some .sdechar
  | .invalid | .other _ => none

/-- `TsEntityGroup::GetTagColumnInfo`: `col` is the column it fills in; the length, id and tag
type are set before the type is looked at. -/
def getTagColumnInfo (tag : TagInfo) (col : KWDBKTSColumn) : KStatus × KWDBKTSColumn :=
  let col :=
    { col with
      storageLen := some (UInt64.ofNat tag.mLength)
      columnId := tag.mId
      colType := tag.mTagType }
  match tagStorage tag.mDataType with
  | none => (.fail, col)
  | some st => (.success, { col with storageType := st })

/-- `GENERAL_TAG`, the tag type of the tags `AddColumn` adds. -/
def generalTag : Nat := 1

/-- The `TagInfo` `AddColumn` makes of a general tag column from its attribute. -/
def addColumnTagInfo (col : KWDBKTSColumn) (attr : AttributeInfo) : TagInfo :=
  ⟨col.columnId, attr.type, (attr.length % 2 ^ 32).toNat, 0, attr.size % 2 ^ 32, generalTag⟩

/-! ## Round trips -/

/-- The storage type a column comes back with: each type the conversions merge goes to the one
they give back, and a timestamp to the type of its place. -/
def canonicalStorageType (firstCol : Bool) : StorageType → StorageType
  | .timestamp | .timestamptz | .date => if firstCol then .timestamptz else .timestamp
  | .nchar => .binary
  | .nvarchar => .varbinary
  | .sdevarchar => .sdechar
  | st => st

/-- `getDataTypeSize` leaves the `max_len` of the types whose storage length is their `max_len`. -/
def TypeSizer.KeepsMaxLen (z : TypeSizer) : Prop :=
  ∀ m, z.maxLen .char m = m ∧ z.maxLen .binary m = m ∧ z.maxLen .varstring m = m ∧
    z.maxLen .varbinary m = m ∧ z.maxLen .string m = m

@[simp] theorem uint64_ofNat_toNat (n : UInt64) : UInt64.ofNat n.toNat = n := by
  apply UInt64.eq_of_val_eq
  simp [UInt64.ofNat, UInt64.toNat, Fin.ofNat]

@[simp] theorem toStorageLen_toNat (n : UInt64) : toStorageLen (n.toNat : Int) = n := by
  have hlt : n.toNat < 2 ^ 64 := n.val.isLt
  have h : ((n.toNat : Int) % 2 ^ 64).toNat = n.toNat := by omega
  rw [toStorageLen, h, uint64_ofNat_toNat]

/-- A column of a type `GetColAttributeInfo` has a case for, converted into a fresh attribute and
back into itself, comes back with its storage type merged as the conversions merge it and its
storage length set to what it read as; every other field is as it was. -/
theorem getMetricColumnInfo_getColAttributeInfo {z : TypeSizer} (hz : z.KeepsMaxLen)
    (col : KWDBKTSColumn) {attr : AttributeInfo} (hflags : attr.notNull = false ∧ attr.isDropped = false)
    (firstCol : Bool) (hty : ∀ c, col.storageType ≠ .other c) :
    (getColAttributeInfo z col attr firstCol).1 = .success ∧
      getMetricColumnInfo (getColAttributeInfo z col attr firstCol).2 col =
        (.success, { col with storageType := canonicalStorageType firstCol col.storageType,
                              storageLen := some (col.storageLen.getD 0) }) := by
  obtain ⟨hnn, hdr⟩ := hflags
  rcases col with ⟨id, name, st, len, nullable, dropped, colType⟩
  cases st
  case other c => exact absurd rfl (hty c)
  all_goals
    cases firstCol <;>
    simp only [getColAttributeInfo, storageAttr, getDataTypeSize, getMetricColumnInfo, metricStorage,
      canonicalStorageType, hnn, hdr, (hz _).1, (hz _).2.1, (hz _).2.2.1, (hz _).2.2.2.1, (hz _).2.2.2.2,
      Bool.false_eq_true, reduceIte, Option.getD_some, Option.getD_none, Option.map_some', Option.map_none',
      sub_add_cancel, toStorageLen_toNat, Bool.false_or, Bool.not_not, true_and, and_self, Prod.mk.injEq]

/-- A `getDataTypeSize` that keeps every `max_len`. -/
def keepingSizer : TypeSizer := ⟨fun _ _ => 0, fun _ m => m⟩

/-- The `AttributeInfo` a caller declares before the conversion, with no flag set. -/
def freshAttr : AttributeInfo := ⟨0, "", .invalid, 0, 0, 0, false, false, 0, 0⟩

/-- A `VARCHAR` column whose storage length is `0`. -/
def emptyVarchar : KWDBKTSColumn := ⟨7, "v", .varchar, some 0, true, false, 0⟩

theorem getMetricColumnInfo_getColAttributeInfo_emptyVarchar :
    keepingSizer.KeepsMaxLen ∧ (freshAttr.notNull = false ∧ freshAttr.isDropped = false) ∧
      (∀ c, emptyVarchar.storageType ≠ .other c) ∧
      (getColAttributeInfo keepingSizer emptyVarchar freshAttr false).1 = .success ∧
      getMetricColumnInfo (getColAttributeInfo keepingSizer emptyVarchar freshAttr false).2 emptyVarchar =
        (.success, { emptyVarchar with
          storageType := canonicalStorageType false emptyVarchar.storageType,
          storageLen := some (emptyVarchar.storageLen.getD 0) }) :=
  have hz : keepingSizer.KeepsMaxLen := fun _ => ⟨rfl, rfl, rfl, rfl, rfl⟩
  have hf : freshAttr.notNull = false ∧ freshAttr.isDropped = false := ⟨rfl, rfl⟩
  have ht : ∀ c, emptyVarchar.storageType ≠ .other c := fun _ h => StorageType.noConfusion h
  ⟨hz, hf, ht, getMetricColumnInfo_getColAttributeInfo hz emptyVarchar hf false ht⟩

/-- A general tag converted by `GetColAttributeInfo`, kept as the `TagInfo` `AddColumn` makes of
it and reported by `GetTagColumnInfo`, comes back with its id, its storage type as the conversions
merge it, its storage length when that fits the `uint32_t` of the `TagInfo`, and the general tag
type. -/
theorem getTagColumnInfo_addColumnTagInfo (z : TypeSizer) (col : KWDBKTSColumn) (attr : AttributeInfo)
    (out : KWDBKTSColumn) (hty : ∀ c, col.storageType ≠ .other c)
    (hlen : (col.storageLen.getD 0).toNat < 2 ^ 32) :
    getTagColumnInfo (addColumnTagInfo col (getColAttributeInfo z col attr false).2) out =
      (.success, { out with storageLen := some (col.storageLen.getD 0), columnId := col.columnId,
                            colType := generalTag,
                            storageType := canonicalStorageType false col.storageType }) := by
  have hmod : (((col.storageLen.getD 0).toNat : Int) % 2 ^ 32).toNat = (col.storageLen.getD 0).toNat := by
    omega
  rcases col with ⟨id, name, st, len, nullable, dropped, colType⟩
  cases st
  case other c => exact absurd rfl (hty c)
  all_goals
    simp only [getColAttributeInfo, storageAttr, getDataTypeSize, addColumnTagInfo, getTagColumnInfo,
      tagStorage, canonicalStorageType, Option.getD_some, hmod, uint64_ofNat_toNat, Bool.false_eq_true,
      reduceIte]

/-- A general tag of type `SDEVARCHAR` and storage length `10`. -/
def sdevarcharTag : KWDBKTSColumn := ⟨3, "t", .sdevarchar, some 10, true, false, generalTag⟩

theorem getTagColumnInfo_addColumnTagInfo_sdevarcharTag :
    (∀ c, sdevarcharTag.storageType ≠ .other c) ∧ (sdevarcharTag.storageLen.getD 0).toNat < 2 ^ 32 ∧
      getTagColumnInfo (addColumnTagInfo sdevarcharTag
          (getColAttributeInfo keepingSizer sdevarcharTag freshAttr false).2) sdevarcharTag =
        (.success,
          { sdevarcharTag with
            storageLen := some (sdevarcharTag.storageLen.getD 0)
            columnId := sdevarcharTag.columnId
            colType := generalTag
            storageType := canonicalStorageType false sdevarcharTag.storageType }) :=
  have ht : ∀ c, sdevarcharTag.storageType ≠ .other c := fun _ h => StorageType.noConfusion h
  have hl : (sdevarcharTag.storageLen.getD 0).toNat < 2 ^ 32 := by decide
  ⟨ht, hl, getTagColumnInfo_addColumnTagInfo keepingSizer sdevarcharTag freshAttr sdevarcharTag ht hl⟩

end KwdbTs.Storage
