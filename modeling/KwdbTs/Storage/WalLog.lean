import Mathlib

/-!
# WAL log records

Each log entry class of `st_wal_internal_log_structure.h` has a static `construct` that allocates
`len` bytes and `memcpy`s the entry's fields into them one after another: the fixed-width ones
from their own storage (little-endian on x86-64), the variable parts from the buffers handed to
it. `len` is the class's `fixed_length`, the sum of the widths of its fixed fields, plus the
lengths of the variable parts, computed in `size_t`.

The classes keep the position of the next copy in a `size_t` (or a `uint64_t`), or in an `int`:
`CheckpointEntry`, `MTREntry`, `MTRBeginEntry`, `TTREntry` and the three `DDL` entries. The loops
over row spans, partitions and range groups count in an `int`. An `int` position that passes
`INT_MAX` turns negative, and the next copy lands before the buffer.

A `construct` whose `len` is the sum of its copies' sizes writes exactly the buffer it
allocates, the fields back to back, when `len` does not wrap around 64 bits and every copy starts
where the position holds it; otherwise some copy lands outside the buffer (`constructLog_eq`). So
a `CheckpointEntry` is written outside its buffer once its last partition starts past 2 GiB,
however large the buffer is (`CheckpointEntry.construct_eq_none_iff`). The fields lie back to
back in the order the class lists them, each variable part after the word that holds its length,
so a reader that takes them in that order gets back every member `encode()` passed
(`readFields_flatMap_bytes`, and for every kind of entry `LogRecord.encode_readFields`).
-/

namespace KwdbTs.Storage

/-! ## The copies of a `construct` -/

/-- The `n` bytes `memcpy(dst, &v, n)` copies from an unsigned integer `v` of `n` bytes: its
little-endian image. -/
def leBytes : Nat → Nat → List UInt8
  | 0, _ => []
  | n + 1, v => UInt8.ofNat v :: leBytes n (v / 256)

/-- The bit pattern of an `int64_t`, as `memcpy` copies it. -/
def bits64 (t : Int) : Nat := (t % 2 ^ 64).toNat

/-- The bytes `memcpy(dst, src, n)` copies from a buffer holding `src`: its first `n` bytes, those
past its end (outside the buffer) read as zeros. -/
def srcBytes (src : List UInt8) (n : Nat) : List UInt8 :=
  src.take n ++ List.replicate (n - src.length) 0

/-- One `memcpy` of a `construct`: a fixed-width field from its own storage (`word`), or a
variable part of `len` bytes from a buffer (`part`). -/
inductive LogField
  | word (width value : Nat)
  | part (len : Nat) (src : List UInt8)

namespace LogField

/-- The number of bytes a copy writes: `sizeof` of the field, or the length passed. -/
def size : LogField → Nat
  | word w _ => w
  | part n _ => n

/-- The bytes a copy writes. -/
def bytes : LogField → List UInt8
  | word w v => leBytes w v
  | part n src => srcBytes src n

/-- The values of the words among the copies. -/
def words (fs : List LogField) : List Nat :=
  fs.filterMap fun | word _ v => some v | part _ _ => none

/-- The variable parts among the copies, as written. -/
def parts (fs : List LogField) : List (List UInt8) :=
  fs.filterMap fun | word _ _ => none | part n src => some (srcBytes src n)

/-- Where the last copy starts: the sizes of the copies before it. -/
def lastStart (fs : List LogField) : Nat := (fs.dropLast.map size).sum

end LogField

/-- The type a `construct` keeps its position in. -/
inductive Position
  /-- `size_t` or `uint64_t`. -/
  | sizeT
  /-- `int`. -/
  | int
  deriving DecidableEq

/-- `location += n`. A `size_t` sum never wraps before a copy runs past the end, as each copy has
to end inside a buffer of fewer than `2 ^ 64` bytes. In an `int`, the `size_t` sum is converted
back to `int`, modulo `2 ^ 32` on the x86-64 build. -/
def Position.advance : Position → Int → Nat → Int
  | .sizeT, l, n => l + n
  | .int, l, n => (l + n).bmod (2 ^ 32)

/-- A position of this type holds `x` as it is: any `x` in `size_t`, one below `2 ^ 31` in an
`int`. -/
def Position.Holds : Position → Nat → Prop
  | .sizeT, _ => True
  | .int, x => x < 2 ^ 31

instance Position.decHolds : (p : Position) → (x : Nat) → Decidable (p.Holds x)
  | .sizeT, _ => isTrue trivial
  | .int, x => inferInstanceAs (Decidable (x < 2 ^ 31))

/-- `memcpy(log_ptr + location, ...)` into the buffer `log_ptr`: `none` when the copy does not lie
inside it, running past its end or, from a negative `location`, starting before it. -/
def memcpyAt (buf : List UInt8) (location : Int) (bytes : List UInt8) : Option (List UInt8) :=
  if 0 ≤ location ∧ location + bytes.length ≤ buf.length then
    some (buf.take location.toNat ++ bytes ++ buf.drop (location.toNat + bytes.length))
  else none

/-- The copies of a `construct` keeping its position in `pos`: each field at `location`, which
then moves on by its size. -/
def writeFields (pos : Position) : List UInt8 → Int → List LogField → Option (List UInt8)
  | buf, _, [] => some buf
  | buf, location, f :: fs =>
    (memcpyAt buf location f.bytes).bind fun buf => writeFields pos buf (pos.advance location f.size) fs

/-- A `construct` keeping its position in `pos`: `len` taken modulo `2 ^ 64` as `size_t` holds
it, `KNEW char[len]` with its bytes taken as zeros, then the copies from position `0`. -/
def constructLog (pos : Position) (len : Nat) (fields : List LogField) : Option (List UInt8) :=
  writeFields pos (List.replicate (len % 2 ^ 64) 0) 0 fields

@[simp] theorem length_leBytes (n v : Nat) : (leBytes n v).length = n := by
  induction n generalizing v <;> simp [leBytes, *]

@[simp] theorem LogField.length_bytes (f : LogField) : f.bytes.length = f.size := by
  cases f <;> simp only [LogField.bytes, LogField.size, length_leBytes, srcBytes, List.length_append,
    List.length_take, List.length_replicate]
  omega

theorem srcBytes_of_length {src : List UInt8} {n : Nat} (h : src.length = n) :
    srcBytes src n = src := by
  subst h
  simp [srcBytes]

@[simp] theorem LogField.words_nil : words [] = [] := rfl

@[simp] theorem LogField.parts_nil : parts [] = [] := rfl

@[simp] theorem LogField.words_cons_word (w v : Nat) (fs : List LogField) :
    words (.word w v :: fs) = v :: words fs := rfl

@[simp] theorem LogField.words_cons_part (n : Nat) (src : List UInt8) (fs : List LogField) :
    words (.part n src :: fs) = words fs := rfl

@[simp] theorem LogField.parts_cons_word (w v : Nat) (fs : List LogField) :
    parts (.word w v :: fs) = parts fs := rfl

@[simp] theorem LogField.parts_cons_part (n : Nat) (src : List UInt8) (fs : List LogField) :
    parts (.part n src :: fs) = srcBytes src n :: parts fs := rfl

theorem LogField.lastStart_cons_cons (f g : LogField) (fs : List LogField) :
    lastStart (f :: g :: fs) = f.size + lastStart (g :: fs) := by
  simp [lastStart]

theorem LogField.lastStart_le (fs : List LogField) : lastStart fs ≤ (fs.map size).sum := by
  induction fs with
  | nil => simp [lastStart]
  | cons f fs ih =>
    cases fs with
    | nil => simp [lastStart]
    | cons g gs => rw [lastStart_cons_cons, List.map_cons, List.sum_cons]; omega

theorem Position.holds_zero (p : Position) : p.Holds 0 := by
  cases p <;> simp [Holds]

theorem Position.Holds.mono {p : Position} {x y : Nat} (h : p.Holds x) (hyx : y ≤ x) : p.Holds y := by
  cases p
  · trivial
  · exact lt_of_le_of_lt hyx h

/-- From a position it holds, an advance that stays held is exact. -/
theorem Position.advance_of_holds {p : Position} {l n : Nat} (h : p.Holds (l + n)) :
    p.advance l n = ((l + n : Nat) : Int) := by
  cases p
  · simp [advance]
  · simp only [Holds] at h
    rw [advance, Int.bmod_def]
    split_ifs <;> omega

/-- An `int` position that passes `INT_MAX` by at most `2 ^ 31` turns negative. -/
theorem Position.advance_int_neg {l n : Nat} (h : 2 ^ 31 ≤ l + n) (h' : l + n < 2 ^ 32) :
    Position.int.advance l n < 0 := by
  rw [advance, Int.bmod_def]
  split_ifs <;> omega

/-- Copies whose sizes add up to the room left after `location`, each starting where the position
holds it, fill that room: the buffer keeps its first `location` bytes and then holds the fields'
bytes back to back. -/
theorem writeFields_eq {pos : Position} {fields : List LogField} : ∀ {buf : List UInt8} {location : Nat},
    buf.length = location + (fields.map LogField.size).sum → pos.Holds (location + LogField.lastStart fields) →
      writeFields pos buf location fields = some (buf.take location ++ fields.flatMap LogField.bytes) := by
  induction fields with
  | nil =>
    intro buf location h _
    simp only [List.map_nil, List.sum_nil, Nat.add_zero] at h
    simp [writeFields, ← h]
  | cons f fs ih =>
    intro buf location h hpos
    simp only [List.map_cons, List.sum_cons] at h
    have htake : (buf.take location).length = location := List.length_take_of_le (by omega)
    have hcopy : memcpyAt buf location f.bytes =
        some (buf.take location ++ f.bytes ++ buf.drop (location + f.size)) := by
      rw [memcpyAt, if_pos (by simp only [LogField.length_bytes]; omega)]
      simp
    rw [writeFields, hcopy, Option.some_bind]
    cases fs with
    | nil =>
      rw [List.drop_eq_nil_of_le (by simp at h; omega)]
      simp [writeFields]
    | cons g gs =>
      rw [LogField.lastStart_cons_cons, ← Nat.add_assoc] at hpos
      have hlen : (buf.take location ++ f.bytes ++ buf.drop (location + f.size)).length =
          location + f.size + ((g :: gs).map LogField.size).sum := by
        simp only [List.length_append, htake, LogField.length_bytes, List.length_drop]
        omega
      rw [Position.advance_of_holds (hpos.mono (Nat.le_add_right _ _)), ih hlen hpos,
        List.take_left' (by simp [htake])]
      simp only [List.flatMap_cons, List.append_assoc]

/-- A copy from a negative position lands before the buffer. -/
theorem writeFields_of_neg {pos : Position} {buf : List UInt8} {location : Int} (h : location < 0)
    (f : LogField) (fs : List LogField) : writeFields pos buf location (f :: fs) = none := by
  rw [writeFields, memcpyAt, if_neg (by omega), Option.none_bind]

/-- Copies from a `location` the position holds that need more room than is left, or reach a
start the position does not hold, land outside the buffer, as long as no copy of an `int`
position is longer than `2 ^ 31` bytes. -/
theorem writeFields_eq_none {pos : Position} {fields : List LogField}
    (hsize : pos = .int → ∀ f ∈ fields, f.size ≤ 2 ^ 31) : ∀ {buf : List UInt8} {location : Nat},
    location ≤ buf.length → pos.Holds location →
    (buf.length < location + (fields.map LogField.size).sum ∨ ¬ pos.Holds (location + LogField.lastStart fields)) →
      writeFields pos buf location fields = none := by
  induction fields with
  | nil =>
    intro buf location hloc hpos hbad
    simp only [List.map_nil, List.sum_nil, Nat.add_zero, LogField.lastStart, List.dropLast_nil] at hbad
    rcases hbad with h | h
    · omega
    · exact absurd hpos h
  | cons f fs ih =>
    intro buf location hloc hpos hbad
    have hsize' : pos = .int → ∀ g ∈ fs, g.size ≤ 2 ^ 31 :=
      fun hp g hg => hsize hp g (List.mem_cons_of_mem _ hg)
    by_cases hfit : location + f.size ≤ buf.length
    · have hcopy : memcpyAt buf location f.bytes =
          some (buf.take location ++ f.bytes ++ buf.drop (location + f.size)) := by
        rw [memcpyAt, if_pos (by simp only [LogField.length_bytes]; omega)]
        simp
      have hlen : (buf.take location ++ f.bytes ++ buf.drop (location + f.size)).length = buf.length := by
        simp; omega
      rw [writeFields, hcopy, Option.some_bind]
      cases fs with
      | nil =>
        simp [LogField.lastStart] at hbad
        rcases hbad with h | h
        · omega
        · exact absurd hpos h
      | cons g gs =>
        rw [List.map_cons, List.sum_cons, LogField.lastStart_cons_cons, ← Nat.add_assoc, ← Nat.add_assoc,
          ← hlen] at hbad
        by_cases hh : pos.Holds (location + f.size)
        · rw [Position.advance_of_holds hh]
          exact ih hsize' (by rw [hlen]; omega) hh hbad
        · cases pos
          · exact absurd trivial hh
          · have hf := hsize rfl f (List.mem_cons_self _ _)
            have hl : location < 2 ^ 31 := hpos
            exact writeFields_of_neg (Position.advance_int_neg (not_lt.mp hh) (by omega)) g gs
    · rw [writeFields, memcpyAt, if_neg (by simp only [LogField.length_bytes]; omega), Option.none_bind]

/-- A `construct` whose `len` is the sum of its copies' sizes, below `2 ^ 64`, with its last copy
starting where the position holds it, writes exactly its buffer: the fields' bytes back to back. -/
theorem constructLog_of_holds {pos : Position} {len : Nat} {fields : List LogField}
    (hlen : len = (fields.map LogField.size).sum) (hwrap : len < 2 ^ 64)
    (hpos : pos.Holds (LogField.lastStart fields)) :
    constructLog pos len fields = some (fields.flatMap LogField.bytes) := by
  have h : writeFields pos (List.replicate len 0) ((0 : Nat) : Int) fields =
      some ((List.replicate len 0).take 0 ++ fields.flatMap LogField.bytes) :=
    writeFields_eq (by rw [List.length_replicate, hlen, Nat.zero_add]) (by rwa [Nat.zero_add])
  rw [constructLog, Nat.mod_eq_of_lt hwrap]
  simpa using h

/-- A `construct` whose `len` wraps, or whose last copy starts where the position does not hold
it, has some copy land outside its buffer, when no copy of an `int` position is longer than
`2 ^ 31` bytes. -/
theorem constructLog_of_not_holds {pos : Position} {len : Nat} {fields : List LogField}
    (hlen : len = (fields.map LogField.size).sum) (hsize : pos = .int → ∀ f ∈ fields, f.size ≤ 2 ^ 31)
    (hbad : ¬ (len < 2 ^ 64 ∧ pos.Holds (LogField.lastStart fields))) :
    constructLog pos len fields = none := by
  have h : writeFields pos (List.replicate (len % 2 ^ 64) 0) ((0 : Nat) : Int) fields = none :=
    writeFields_eq_none hsize (Nat.zero_le _) pos.holds_zero (by
      simp only [List.length_replicate, Nat.zero_add, ← hlen]
      by_cases hw : len < 2 ^ 64
      · exact .inr fun h => hbad ⟨hw, h⟩
      · exact .inl (lt_of_lt_of_le (Nat.mod_lt _ (by norm_num)) (not_lt.mp hw)))
  simpa [constructLog] using h

/-- A `construct` whose `len` is the sum of its copies' sizes, no copy of an `int` position longer
than `2 ^ 31` bytes, writes exactly its buffer, the fields back to back, when `len` is below
`2 ^ 64` and its last copy starts where the position holds it; otherwise some copy lands outside
the buffer. -/
theorem constructLog_eq {pos : Position} {len : Nat} {fields : List LogField}
    (hlen : len = (fields.map LogField.size).sum) (hsize : pos = .int → ∀ f ∈ fields, f.size ≤ 2 ^ 31) :
    constructLog pos len fields =
      if len < 2 ^ 64 ∧ pos.Holds (LogField.lastStart fields) then some (fields.flatMap LogField.bytes)
      else none := by
  split_ifs with h
  · exact constructLog_of_holds hlen h.1 h.2
  · exact constructLog_of_not_holds hlen hsize h

/-- The header copies of a `CheckpointEntry` with a 4-byte `WALLogType`: its type and `x_id`. -/
theorem constructLog_eq_checkpointHeader :
    12 = ([LogField.word 4 1, LogField.word 8 7].map LogField.size).sum ∧
      (Position.int = .int → ∀ f ∈ [LogField.word 4 1, LogField.word 8 7], f.size ≤ 2 ^ 31) ∧
      constructLog .int 12 [.word 4 1, .word 8 7] =
        if 12 < 2 ^ 64 ∧ Position.int.Holds (LogField.lastStart [.word 4 1, .word 8 7]) then
          some ([LogField.word 4 1, LogField.word 8 7].flatMap LogField.bytes)
        else none :=
  have hsize : Position.int = .int → ∀ f ∈ [LogField.word 4 1, LogField.word 8 7], f.size ≤ 2 ^ 31 := by
    intro _ f hf
    simp only [List.mem_cons, List.mem_singleton, List.not_mem_nil, or_false] at hf
    rcases hf with rfl | rfl <;> simp [LogField.size]
  ⟨rfl, hsize, constructLog_eq rfl hsize⟩

/-! ## Reading a record back -/

/-- The value of little-endian bytes. -/
def leValue : List UInt8 → Nat
  | [] => 0
  | b :: bs => b.toNat + 256 * leValue bs

theorem leValue_leBytes (n v : Nat) : leValue (leBytes n v) = v % 2 ^ (8 * n) := by
  induction n generalizing v with
  | zero => simp [leBytes, leValue, Nat.mod_one]
  | succ n ih =>
    rw [leBytes, leValue, ih, show 8 * (n + 1) = 8 + 8 * n by omega, Nat.pow_add, Nat.mod_mul]
    rfl

/-- Modelled from the spec: a field of a record as a reader takes it back, a fixed-width word or a
variable part whose length it computes from the words read before it. -/
inductive FieldSpec
  | word (width : Nat)
  | part (len : List Nat → Nat)

/-- Modelled from the spec: the fields of `spec` read back from `bytes`, after the words `ws`: the
words and the parts read, `none` if the bytes run out before the last field or some are left
after it. -/
def readFields : List FieldSpec → List Nat → List UInt8 → Option (List Nat × List (List UInt8))
  | [], ws, bytes => if bytes = [] then some (ws, []) else none
  | .word w :: spec, ws, bytes =>
    if w ≤ bytes.length then readFields spec (ws ++ [leValue (bytes.take w)]) (bytes.drop w)
    else none
  | .part len :: spec, ws, bytes =>
    if len ws ≤ bytes.length then
      (readFields spec ws (bytes.drop (len ws))).map fun r => (r.1, bytes.take (len ws) :: r.2)
    else none

/-- The copies of a `construct` fit a layout: the same widths, each word below `2 ^ (8 * width)`,
each variable part as long as the layout computes from the words before it and its buffer that
long. -/
def Fits : List FieldSpec → List Nat → List LogField → Prop
  | [], _, [] => True
  | .word w :: spec, ws, .word w' v :: fs => w' = w ∧ v < 2 ^ (8 * w) ∧ Fits spec (ws ++ [v]) fs
  | .part len :: spec, ws, .part n src :: fs => n = len ws ∧ src.length = n ∧ Fits spec ws fs
  | _, _, _ => False

/-- Copies that fit a layout are read back by it: every word's value and every part. -/
theorem readFields_flatMap_bytes : ∀ {spec : List FieldSpec} {ws : List Nat} {fs : List LogField},
    Fits spec ws fs →
      readFields spec ws (fs.flatMap LogField.bytes) = some (ws ++ LogField.words fs, LogField.parts fs)
  | [], ws, [], _ => by simp [readFields]
  | .word w :: spec, ws, .word _ v :: fs, ⟨rfl, hv, hfs⟩ => by
    have hlen : (leBytes w v).length = w := length_leBytes w v
    rw [List.flatMap_cons, LogField.bytes, readFields, if_pos (by simp),
      List.take_left' hlen, List.drop_left' hlen, leValue_leBytes, Nat.mod_eq_of_lt hv,
      readFields_flatMap_bytes hfs]
    simp
  | .part len :: spec, ws, .part n src :: fs, ⟨hn, hsrc, hfs⟩ => by
    subst hn
    have hlen : (srcBytes src (len ws)).length = len ws := LogField.length_bytes (.part _ src)
    rw [List.flatMap_cons, LogField.bytes, readFields, if_pos (by simp [hlen]),
      List.take_left' hlen, List.drop_left' hlen, readFields_flatMap_bytes hfs]
    simp

theorem sizes_nil : (([] : List LogField).map LogField.size).sum = 0 := rfl

theorem sizes_cons (f : LogField) (fs : List LogField) :
    ((f :: fs).map LogField.size).sum = f.size + (fs.map LogField.size).sum := by
  rw [List.map_cons, List.sum_cons]

theorem length_flatMap_bytes (fs : List LogField) :
    (fs.flatMap LogField.bytes).length = (fs.map LogField.size).sum := by
  induction fs <;> simp [*]

/-- A `construct` whose copies fit a layout, its `len` their total below `2 ^ 64` and its last
copy starting where the position holds it, is read back by the layout: every word and every part
it copied, which make up `m`. -/
theorem constructLog_readFields {pos : Position} {len : Nat} {fields : List LogField}
    {spec : List FieldSpec} {m : List Nat × List (List UInt8)}
    (hlen : len = (fields.map LogField.size).sum) (hwrap : len < 2 ^ 64)
    (hpos : pos.Holds (LogField.lastStart fields)) (hfits : Fits spec [] fields)
    (hm : (LogField.words fields, LogField.parts fields) = m) :
    (constructLog pos len fields).bind (readFields spec []) = some m := by
  rw [constructLog_of_holds hlen hwrap hpos, Option.some_bind, readFields_flatMap_bytes hfits,
    List.nil_append, hm]

/-- The same for a `construct` that ends with a loop of copies, its whole `len` held by the
position: the layout reads the loop's bytes as one part. -/
theorem constructLog_readFields_loop {pos : Position} {len : Nat} {pre loop : List LogField}
    {spec : List FieldSpec} {m : List Nat × List (List UInt8)}
    (hlen : len = ((pre ++ loop).map LogField.size).sum) (hwrap : len < 2 ^ 64) (hpos : pos.Holds len)
    (hfits : Fits spec [] (pre ++ [.part (loop.map LogField.size).sum (loop.flatMap LogField.bytes)]))
    (hm : (LogField.words pre, LogField.parts pre ++ [loop.flatMap LogField.bytes]) = m) :
    (constructLog pos len (pre ++ loop)).bind (readFields spec []) = some m := by
  have hregion := length_flatMap_bytes loop
  have hloop : loop.flatMap LogField.bytes = [LogField.part (loop.map LogField.size).sum
      (loop.flatMap LogField.bytes)].flatMap LogField.bytes := by
    simp only [List.flatMap_cons, List.flatMap_nil, List.append_nil, LogField.bytes,
      srcBytes_of_length hregion]
  rw [constructLog_of_holds hlen hwrap (hpos.mono (hlen ▸ LogField.lastStart_le _)), Option.some_bind,
    List.flatMap_append, hloop, ← List.flatMap_append, readFields_flatMap_bytes hfits, List.nil_append, ← hm]
  simp [LogField.words, LogField.parts, List.filterMap_append, LogField.bytes, srcBytes_of_length hregion]

theorem uint64_toNat_lt (x : UInt64) : x.toNat < 2 ^ 64 := x.val.isLt

theorem uint32_toNat_lt (x : UInt32) : x.toNat < 2 ^ 32 := x.val.isLt

theorem uint8_toNat_lt (x : UInt8) : x.toNat < 2 ^ 8 := x.val.isLt

theorem bits64_lt (t : Int) : bits64 t < 2 ^ 64 := by
  unfold bits64
  omega

theorem map_range_getD {α β : Type} (l : List α) (d : α) (f : α → β) :
    (List.range l.length).map (fun i => f (l.getD i d)) = l.map f := by
  apply List.ext_getElem
  · simp
  · intro n h1 _
    simp [List.getD_eq_getElem?_getD, List.getElem?_eq_getElem (by simpa using h1)]

theorem sum_map_eq_mul {α : Type} {l : List α} {f : α → Nat} {c : Nat} (h : ∀ x ∈ l, f x = c) :
    (l.map f).sum = l.length * c := by
  induction l with
  | nil => simp
  | cons x l ih =>
    rw [List.map_cons, List.sum_cons, h x (List.mem_cons_self _ _),
      ih fun y hy => h y (List.mem_cons_of_mem _ hy), List.length_cons, Nat.succ_mul, Nat.add_comm]

/-- The copies of `for (int i = 0; i < count; i++) memcpy(log_ptr + location, &items[i], width)`,
for a `count` the `int` counter reaches. -/
def loopParts (width : Nat) (items : List (List UInt8)) (count : Nat) : List LogField :=
  (List.range count).map fun i => .part width (items.getD i [])

/-- A loop over all of `items`, each `width` bytes long, writes the items back to back. -/
theorem loopParts_bytes {width : Nat} {items : List (List UInt8)} (h : ∀ x ∈ items, x.length = width) :
    (loopParts width items items.length).flatMap LogField.bytes = items.flatten ∧
    ((loopParts width items items.length).map LogField.size).sum = items.length * width := by
  rw [loopParts, map_range_getD items [] (LogField.part width)]
  refine ⟨?_, (sum_map_eq_mul fun _ hx => by
    obtain ⟨x, -, rfl⟩ := List.mem_map.mp hx; rfl).trans (by rw [List.length_map])⟩
  induction items with
  | nil => rfl
  | cons x xs ih =>
    simp only [List.map_cons, List.flatMap_cons, List.flatten_cons, LogField.bytes,
      srcBytes_of_length (h x (List.mem_cons_self _ _)),
      ih fun y hy => h y (List.mem_cons_of_mem _ hy)]

/-! ## The entries -/

/-- `sizeof` of the members whose types are not among the sources: the enums `WALLogType`,
`WALTableType` and `WALAlterType`, and the structs `DelRowSpan` and `CheckpointPartition`. -/
structure WalWidths where
  logType : Nat
  tableType : Nat
  alterType : Nat
  delRowSpan : Nat
  checkpointPartition : Nat

/-- `LogEntry::TS_TRANS_ID_LEN`. -/
def tsTransIdLen : Nat := 16

section Entries

variable (w : WalWidths)

/-- `InsertLogTagsEntry::fixed_length`. -/
def InsertLogTagsEntry.fixedLength : Nat := w.logType + 8 + 8 + w.tableType + 8 + 8

/-- `InsertLogTagsEntry::construct`, with a `size_t location`. -/
def InsertLogTagsEntry.construct (type : Nat) (xId : UInt64) (tableType : Nat)
    (timePartition : Int) (offset length : UInt64) (data : List UInt8) : Option (List UInt8) :=
  constructLog .sizeT (InsertLogTagsEntry.fixedLength w + length.toNat)
    [.word w.logType type, .word 8 xId.toNat, .word w.tableType tableType,
      .word 8 (bits64 timePartition), .word 8 offset.toNat, .word 8 length.toNat,
      .part length.toNat data]

/-- `InsertLogMetricsEntry::fixed_length`. -/
def InsertLogMetricsEntry.fixedLength : Nat := w.logType + 8 + w.tableType + 8 + 8 + 8 + 8

/-- `InsertLogMetricsEntry::construct`, handed `time_partition_` as a `uint64_t`, with a `size_t
location`. -/
def InsertLogMetricsEntry.construct (type : Nat) (xId : UInt64) (tableType : Nat)
    (timePartition : Int) (offset length : UInt64) (data : List UInt8) (pTagLen : UInt64)
    (encodedPrimaryTags : List UInt8) : Option (List UInt8) :=
  constructLog .sizeT (InsertLogMetricsEntry.fixedLength w + length.toNat + pTagLen.toNat)
    [.word w.logType type, .word 8 xId.toNat, .word w.tableType tableType,
      .word 8 (bits64 timePartition), .word 8 offset.toNat, .word 8 length.toNat,
      .word 8 pTagLen.toNat, .part pTagLen.toNat encodedPrimaryTags, .part length.toNat data]

/-- `UpdateLogTagsEntry::fixed_length`. -/
def UpdateLogTagsEntry.fixedLength : Nat := w.logType + 8 + 8 + w.tableType + 8 + 8 + 8

/-- `UpdateLogTagsEntry::construct`, with a `size_t location`. -/
def UpdateLogTagsEntry.construct (type : Nat) (xId : UInt64) (tableType : Nat)
    (timePartition : Int) (offset length oldLen : UInt64) (data oldData : List UInt8) :
    Option (List UInt8) :=
  constructLog .sizeT (UpdateLogTagsEntry.fixedLength w + length.toNat + oldLen.toNat)
    [.word w.logType type, .word 8 xId.toNat, .word w.tableType tableType,
      .word 8 (bits64 timePartition), .word 8 offset.toNat, .word 8 length.toNat,
      .word 8 oldLen.toNat, .part length.toNat data, .part oldLen.toNat oldData]

/-- `DeleteLogMetricsEntry::fixed_length`. -/
def DeleteLogMetricsEntry.fixedLength : Nat := w.logType + 8 + w.tableType + 8 + 8 + 8 + 8

/-- `DeleteLogMetricsEntry::construct`, with a `size_t offset`: the header, the primary tags, then
one copy of `sizeof(DelRowSpan)` bytes per row span. Its loop counts in an `int`, whose `i++`
past `INT_MAX` is undefined: `none` when `range_size` does not fit an `int`. -/
def DeleteLogMetricsEntry.construct (type : Nat) (xId : UInt64) (tableType : Nat)
    (pTagLen : UInt64) (startTs endTs : Int) (rangeSize : UInt64) (encodedPrimaryTags : List UInt8)
    (rowSpans : List (List UInt8)) : Option (List UInt8) :=
  if rangeSize.toNat < 2 ^ 31 then
    constructLog .sizeT
      (DeleteLogMetricsEntry.fixedLength w + rangeSize.toNat * w.delRowSpan + pTagLen.toNat)
      ([.word w.logType type, .word 8 xId.toNat, .word w.tableType tableType,
        .word 8 pTagLen.toNat, .word 8 (bits64 startTs), .word 8 (bits64 endTs),
        .word 8 rangeSize.toNat, .part pTagLen.toNat encodedPrimaryTags] ++
        loopParts w.delRowSpan rowSpans rangeSize.toNat)
  else none

/-- `DeleteLogTagsEntry::fixed_length`. -/
def DeleteLogTagsEntry.fixedLength : Nat := w.logType + 8 + w.tableType + 4 + 4 + 8 + 8

/-- `DeleteLogTagsEntry::construct`, with a `uint64_t location`. -/
def DeleteLogTagsEntry.construct (type : Nat) (xId : UInt64) (tableType : Nat)
    (groupId entityId : UInt32) (pTagLen : UInt64) (encodedPrimaryTags : List UInt8)
    (tagLen : UInt64) (encodedTags : List UInt8) : Option (List UInt8) :=
  constructLog .sizeT (DeleteLogTagsEntry.fixedLength w + pTagLen.toNat + tagLen.toNat)
    [.word w.logType type, .word 8 xId.toNat, .word w.tableType tableType,
      .word 4 groupId.toNat, .word 4 entityId.toNat, .word 8 pTagLen.toNat,
      .word 8 tagLen.toNat, .part pTagLen.toNat encodedPrimaryTags, .part tagLen.toNat encodedTags]

/-- `CheckpointEntry::fixed_length`. -/
def CheckpointEntry.fixedLength : Nat := w.logType + 8 + 4 + 8 + 8

/-- The header copies of `CheckpointEntry::construct`. -/
def CheckpointEntry.header (type : Nat) (xId : UInt64) (checkpointNo : UInt32)
    (tagOffset partitionNumber : UInt64) : List LogField :=
  [.word w.logType type, .word 8 xId.toNat, .word 4 checkpointNo.toNat, .word 8 tagOffset.toNat,
    .word 8 partitionNumber.toNat]

/-- `CheckpointEntry::construct`, with an `int location`: the header, then one copy of
`sizeof(CheckpointPartition)` bytes per partition. Its loop counts in an `int`: `none` when
`partition_number` does not fit one. -/
def CheckpointEntry.construct (type : Nat) (xId : UInt64) (checkpointNo : UInt32)
    (tagOffset partitionNumber : UInt64) (data : List (List UInt8)) : Option (List UInt8) :=
  if partitionNumber.toNat < 2 ^ 31 then
    constructLog .int (CheckpointEntry.fixedLength w + w.checkpointPartition * partitionNumber.toNat)
      (CheckpointEntry.header w type xId checkpointNo tagOffset partitionNumber ++
        loopParts w.checkpointPartition data partitionNumber.toNat)
  else none

/-- `MTREntry::fixed_length`. -/
def MTREntry.fixedLength : Nat := w.logType + 8 + tsTransIdLen

/-- `MTREntry::construct`, with an `int location`. -/
def MTREntry.construct (type : Nat) (xId : UInt64) (tsxId : List UInt8) : Option (List UInt8) :=
  constructLog .int (MTREntry.fixedLength w)
    [.word w.logType type, .word 8 xId.toNat, .part tsTransIdLen tsxId]

/-- `MTRBeginEntry::fixed_length`. -/
def MTRBeginEntry.fixedLength : Nat := w.logType + 8 + tsTransIdLen + 8 + 8

/-- `MTRBeginEntry::construct`, with an `int location`. -/
def MTRBeginEntry.construct (type : Nat) (xId : UInt64) (tsxId : List UInt8)
    (rangeId index : UInt64) : Option (List UInt8) :=
  constructLog .int (MTRBeginEntry.fixedLength w)
    [.word w.logType type, .word 8 xId.toNat, .part tsTransIdLen tsxId, .word 8 rangeId.toNat,
      .word 8 index.toNat]

/-- `TTREntry::fixed_length`. -/
def TTREntry.fixedLength : Nat := w.logType + 8 + tsTransIdLen

/-- `TTREntry::construct`, with an `int location`. -/
def TTREntry.construct (type : Nat) (xId : UInt64) (tsTransId : List UInt8) : Option (List UInt8) :=
  constructLog .int (TTREntry.fixedLength w)
    [.word w.logType type, .word 8 xId.toNat, .part tsTransIdLen tsTransId]

/-- `DDLCreateEntry::fixed_length`, with `sizeof(int)` for `meta_length_`. -/
def DDLCreateEntry.fixedLength : Nat := w.logType + 8 + 8 + 4 + 8

/-- `DDLCreateEntry::range_length`: a `range_group_id` and a `typ`. -/
def DDLCreateEntry.rangeLength : Nat := 8 + 1

/-- The copies of the loop of `DDLCreateEntry::construct` over `count` range groups: each
group's `range_group_id` (a `uint64_t`) and `typ` (an `int8_t`, as its byte). -/
def rangeGroupCopies (ranges : List (UInt64 × UInt8)) (count : Nat) : List LogField :=
  (List.range count).flatMap fun i =>
    [.word 8 (ranges.getD i (0, 0)).1.toNat, .word 1 (ranges.getD i (0, 0)).2.toNat]

/-- `DDLCreateEntry::construct`, with an `int offset`: the header, the `meta_length` bytes
`SerializeToArray` wrote for the table's meta (`meta`), then each range group's `range_group_id`
and `typ`. `offset += meta_length` adds two `int`s, after the header at `fixed_length`, and the
loop counts in an `int`; both overflows are undefined: `none` when the sum or `range_size` does not
fit an `int`. -/
def DDLCreateEntry.construct (type : Nat) (xId objectId : UInt64) (metaLength : Nat)
    (rangeSize : UInt64) (meta : List UInt8) (ranges : List (UInt64 × UInt8)) :
    Option (List UInt8) :=
  if rangeSize.toNat < 2 ^ 31 ∧ DDLCreateEntry.fixedLength w + metaLength < 2 ^ 31 then
    constructLog .int
      (DDLCreateEntry.fixedLength w + rangeSize.toNat * DDLCreateEntry.rangeLength + metaLength)
      ([.word w.logType type, .word 8 xId.toNat, .word 8 objectId.toNat, .word 4 metaLength,
        .word 8 rangeSize.toNat, .part metaLength meta] ++ rangeGroupCopies ranges rangeSize.toNat)
  else none

/-- `DDLDropEntry::fixed_length`. -/
def DDLDropEntry.fixedLength : Nat := w.logType + 8 + 8

/-- `DDLDropEntry::construct`, with an `int offset`. -/
def DDLDropEntry.construct (type : Nat) (xId objectId : UInt64) : Option (List UInt8) :=
  constructLog .int (DDLDropEntry.fixedLength w)
    [.word w.logType type, .word 8 xId.toNat, .word 8 objectId.toNat]

/-- `DDLAlterEntry::fixed_length`. -/
def DDLAlterEntry.fixedLength : Nat := w.logType + 8 + 8 + w.alterType + 8

/-- `DDLAlterEntry::construct`, the column meta a slice of `len` bytes, with an `int offset`. -/
def DDLAlterEntry.construct (type : Nat) (xId objectId : UInt64) (alterType : Nat)
    (columnMetaLen : UInt64) (columnMeta : List UInt8) : Option (List UInt8) :=
  constructLog .int (DDLAlterEntry.fixedLength w + columnMetaLen.toNat)
    [.word w.logType type, .word 8 xId.toNat, .word 8 objectId.toNat, .word w.alterType alterType,
      .word 8 columnMetaLen.toNat, .part columnMetaLen.toNat columnMeta]

end Entries

/-- The bytes of a range group as `DDLCreateEntry::construct` copies it: `range_group_id`, then
`typ`. -/
def rangeGroupBytes (r : UInt64 × UInt8) : List UInt8 := leBytes 8 r.1.toNat ++ leBytes 1 r.2.toNat

/-- The loop of `DDLCreateEntry::construct` over `ranges.length` range groups writes each group's
two fields, group after group. -/
theorem rangeGroupCopies_bytes (ranges : List (UInt64 × UInt8)) :
    (rangeGroupCopies ranges ranges.length).flatMap LogField.bytes = ranges.flatMap rangeGroupBytes ∧
    ((rangeGroupCopies ranges ranges.length).map LogField.size).sum =
      ranges.length * DDLCreateEntry.rangeLength := by
  have hmap : rangeGroupCopies ranges ranges.length =
      ranges.flatMap fun r => [LogField.word 8 r.1.toNat, LogField.word 1 r.2.toNat] := by
    simp only [rangeGroupCopies, List.flatMap]
    rw [map_range_getD ranges (0, 0) fun r => [LogField.word 8 r.1.toNat, LogField.word 1 r.2.toNat]]
  rw [hmap]
  clear hmap
  induction ranges with
  | nil => simp
  | cons r rs ih =>
    obtain ⟨ih1, ih2⟩ := ih
    refine ⟨?_, ?_⟩
    · simp only [List.flatMap_cons, List.flatMap_append, ih1, List.flatMap_nil, List.append_nil,
        rangeGroupBytes, LogField.bytes, List.append_assoc]
    · simp only [List.flatMap_cons, List.map_append, List.sum_append, ih2, List.map_cons,
        List.map_nil, List.sum_cons, List.sum_nil, LogField.size, List.length_cons,
        DDLCreateEntry.rangeLength]
      ring

/-! ## A checkpoint past 2 GiB -/

theorem LogField.lastStart_append (pre : List LogField) {fs : List LogField} (h : fs ≠ []) :
    lastStart (pre ++ fs) = (pre.map size).sum + lastStart fs := by
  simp [lastStart, List.dropLast_append_of_ne_nil _ h]

theorem map_size_loopParts (width : Nat) (items : List (List UInt8)) (count : Nat) :
    (loopParts width items count).map LogField.size = List.replicate count width := by
  rw [loopParts, List.map_map]
  show List.map (fun _ => width) (List.range count) = _
  rw [List.map_const', List.length_range]

theorem lastStart_loopParts (width : Nat) (items : List (List UInt8)) (count : Nat) :
    LogField.lastStart (loopParts width items count) = width * (count - 1) := by
  rw [LogField.lastStart, List.map_dropLast, map_size_loopParts, List.dropLast_replicate,
    List.sum_replicate, smul_eq_mul, Nat.mul_comm]

/-- A `CheckpointEntry` with between one and `INT_MAX` partitions, its `len` below `2 ^ 64`, is
written outside its buffer exactly when its last partition starts at `2 ^ 31` or later: its `int`
location has turned negative and the copy lands before `log_ptr`, though `len` is right. -/
theorem CheckpointEntry.construct_eq_none_iff {w : WalWidths}
    (hw : w.logType ≤ 2 ^ 31 ∧ w.checkpointPartition ≤ 2 ^ 31) (type : Nat) (xId : UInt64)
    (checkpointNo : UInt32) (tagOffset : UInt64) {partitionNumber : UInt64}
    (hn : 0 < partitionNumber.toNat ∧ partitionNumber.toNat < 2 ^ 31)
    (hwrap : CheckpointEntry.fixedLength w + w.checkpointPartition * partitionNumber.toNat < 2 ^ 64)
    (data : List (List UInt8)) :
    CheckpointEntry.construct w type xId checkpointNo tagOffset partitionNumber data = none ↔
      2 ^ 31 ≤ CheckpointEntry.fixedLength w + w.checkpointPartition * (partitionNumber.toNat - 1) := by
  set header := CheckpointEntry.header w type xId checkpointNo tagOffset partitionNumber
  set loop := loopParts w.checkpointPartition data partitionNumber.toNat
  have hheader : (header.map LogField.size).sum = CheckpointEntry.fixedLength w := by
    simp only [header, CheckpointEntry.header, CheckpointEntry.fixedLength, List.map_cons, List.map_nil,
      List.sum_cons, List.sum_nil, LogField.size]
    omega
  have hlen : CheckpointEntry.fixedLength w + w.checkpointPartition * partitionNumber.toNat =
      ((header ++ loop).map LogField.size).sum := by
    rw [List.map_append, List.sum_append, hheader, map_size_loopParts, List.sum_replicate, smul_eq_mul,
      Nat.mul_comm]
  have hlast : LogField.lastStart (header ++ loop) =
      CheckpointEntry.fixedLength w + w.checkpointPartition * (partitionNumber.toNat - 1) := by
    have hloop : loop ≠ [] := by simp [loop, loopParts]; omega
    rw [LogField.lastStart_append _ hloop, hheader, lastStart_loopParts]
  have hsize : Position.int = .int → ∀ f ∈ header ++ loop, f.size ≤ 2 ^ 31 := by
    intro _ f hf
    rcases List.mem_append.mp hf with hf | hf
    · simp only [header, CheckpointEntry.header, List.mem_cons, List.mem_singleton, List.not_mem_nil,
        or_false] at hf
      rcases hf with rfl | rfl | rfl | rfl | rfl <;> simp only [LogField.size] <;> omega
    · obtain ⟨i, -, rfl⟩ := List.mem_map.mp hf
      exact hw.2
  rw [CheckpointEntry.construct, if_pos hn.2]
  constructor
  · intro hnone
    by_contra hlt
    rw [constructLog_of_holds hlen hwrap (by rw [hlast]; exact not_le.mp hlt)] at hnone
    cases hnone
  · intro hge
    exact constructLog_of_not_holds hlen hsize fun h => absurd (hlast ▸ h.2 : _ < 2 ^ 31) (not_lt.mpr hge)

/-- Widths for the witnesses: four-byte enums, 16-byte row spans and 32-byte partitions. -/
def sampleWidths : WalWidths := ⟨4, 4, 4, 16, 32⟩

/-- With 32-byte partitions, a checkpoint of `2 ^ 26` partitions has its last one start at
`2 ^ 31`. -/
theorem CheckpointEntry.construct_eq_none_iff_twoGiB :
    (sampleWidths.logType ≤ 2 ^ 31 ∧ sampleWidths.checkpointPartition ≤ 2 ^ 31) ∧
      (0 < (67108864 : UInt64).toNat ∧ (67108864 : UInt64).toNat < 2 ^ 31) ∧
      CheckpointEntry.fixedLength sampleWidths + sampleWidths.checkpointPartition * (67108864 : UInt64).toNat <
        2 ^ 64 ∧
      CheckpointEntry.construct sampleWidths 1 2 3 4 67108864 [] = none :=
  have hw : sampleWidths.logType ≤ 2 ^ 31 ∧ sampleWidths.checkpointPartition ≤ 2 ^ 31 := by decide
  have hn : 0 < (67108864 : UInt64).toNat ∧ (67108864 : UInt64).toNat < 2 ^ 31 := by decide
  have hwrap : CheckpointEntry.fixedLength sampleWidths +
      sampleWidths.checkpointPartition * (67108864 : UInt64).toNat < 2 ^ 64 := by decide
  ⟨hw, hn, hwrap, (CheckpointEntry.construct_eq_none_iff hw 1 2 3 4 hn hwrap []).mpr (by decide)⟩

/-! ## Every entry reads back -/

/-- A log entry, with the members its class's `encode()` hands to `construct`. -/
inductive LogRecord
  | insertLogTags (type : Nat) (xId : UInt64) (tableType : Nat) (timePartition : Int)
      (offset length : UInt64) (data : List UInt8)
  | insertLogMetrics (type : Nat) (xId : UInt64) (tableType : Nat) (timePartition : Int)
      (offset length : UInt64) (data : List UInt8) (pTagLen : UInt64)
      (encodedPrimaryTags : List UInt8)
  | updateLogTags (type : Nat) (xId : UInt64) (tableType : Nat) (timePartition : Int)
      (offset length oldLen : UInt64) (data oldData : List UInt8)
  | deleteLogMetrics (type : Nat) (xId : UInt64) (tableType : Nat) (pTagLen : UInt64)
      (startTs endTs : Int) (rangeSize : UInt64) (encodedPrimaryTags : List UInt8)
      (rowSpans : List (List UInt8))
  | deleteLogTags (type : Nat) (xId : UInt64) (tableType : Nat) (groupId entityId : UInt32)
      (pTagLen : UInt64) (encodedPrimaryTags : List UInt8) (tagLen : UInt64)
      (encodedTags : List UInt8)
  | checkpoint (type : Nat) (xId : UInt64) (checkpointNo : UInt32)
      (tagOffset partitionNumber : UInt64) (data : List (List UInt8))
  | mtr (type : Nat) (xId : UInt64) (tsxId : List UInt8)
  | mtrBegin (type : Nat) (xId : UInt64) (tsxId : List UInt8) (rangeId index : UInt64)
  | ttr (type : Nat) (xId : UInt64) (tsxId : List UInt8)
  | ddlCreate (type : Nat) (xId objectId : UInt64) (metaLength : Nat) (rangeSize : UInt64)
      (meta : List UInt8) (ranges : List (UInt64 × UInt8))
  | ddlDrop (type : Nat) (xId objectId : UInt64)
  | ddlAlter (type : Nat) (xId objectId : UInt64) (alterType : Nat) (columnMetaLen : UInt64)
      (columnMeta : List UInt8)

namespace LogRecord

variable (w : WalWidths)

/-- `encode()`: the class's `construct` over its members. -/
def encode : LogRecord → Option (List UInt8)
  | insertLogTags t x tt tp o l d => InsertLogTagsEntry.construct w t x tt tp o l d
  | insertLogMetrics t x tt tp o l d p pt => InsertLogMetricsEntry.construct w t x tt tp o l d p pt
  | updateLogTags t x tt tp o l ol d od => UpdateLogTagsEntry.construct w t x tt tp o l ol d od
  | deleteLogMetrics t x tt p s e rs pt sp => DeleteLogMetricsEntry.construct w t x tt p s e rs pt sp
  | deleteLogTags t x tt g e p pt tl tg => DeleteLogTagsEntry.construct w t x tt g e p pt tl tg
  | checkpoint t x c o n d => CheckpointEntry.construct w t x c o n d
  | mtr t x id => MTREntry.construct w t x id
  | mtrBegin t x id r i => MTRBeginEntry.construct w t x id r i
  | ttr t x id => TTREntry.construct w t x id
  | ddlCreate t x o ml rs m r => DDLCreateEntry.construct w t x o ml rs m r
  | ddlDrop t x o => DDLDropEntry.construct w t x o
  | ddlAlter t x o a l m => DDLAlterEntry.construct w t x o a l m

/-- Modelled from the spec: the fields a reader takes back from an entry, in the order its class
writes them, each variable part as long as the word that holds its length says (the row spans,
partitions and range groups as long as their count times their width). -/
def layout : LogRecord → List FieldSpec
  | insertLogTags .. => [.word w.logType, .word 8, .word w.tableType, .word 8, .word 8, .word 8,
      .part (·.getD 5 0)]
  | insertLogMetrics .. => [.word w.logType, .word 8, .word w.tableType, .word 8, .word 8, .word 8,
      .word 8, .part (·.getD 6 0), .part (·.getD 5 0)]
  | updateLogTags .. => [.word w.logType, .word 8, .word w.tableType, .word 8, .word 8, .word 8,
      .word 8, .part (·.getD 5 0), .part (·.getD 6 0)]
  | deleteLogMetrics .. => [.word w.logType, .word 8, .word w.tableType, .word 8, .word 8, .word 8,
      .word 8, .part (·.getD 3 0), .part fun ws => ws.getD 6 0 * w.delRowSpan]
  | deleteLogTags .. => [.word w.logType, .word 8, .word w.tableType, .word 4, .word 4, .word 8,
      .word 8, .part (·.getD 5 0), .part (·.getD 6 0)]
  | checkpoint .. => [.word w.logType, .word 8, .word 4, .word 8, .word 8,
      .part fun ws => ws.getD 4 0 * w.checkpointPartition]
  | mtr .. => [.word w.logType, .word 8, .part fun _ => tsTransIdLen]
  | mtrBegin .. => [.word w.logType, .word 8, .part fun _ => tsTransIdLen, .word 8, .word 8]
  | ttr .. => [.word w.logType, .word 8, .part fun _ => tsTransIdLen]
  | ddlCreate .. => [.word w.logType, .word 8, .word 8, .word 4, .word 8, .part (·.getD 3 0),
      .part fun ws => ws.getD 4 0 * DDLCreateEntry.rangeLength]
  | ddlDrop .. => [.word w.logType, .word 8, .word 8]
  | ddlAlter .. => [.word w.logType, .word 8, .word 8, .word w.alterType, .word 8,
      .part (·.getD 4 0)]

/-- The members of an entry as a reader gets them: its fixed-width members (an `int64_t` as its
bit pattern) and its variable parts, in the order its class writes them. -/
def members : LogRecord → List Nat × List (List UInt8)
  | insertLogTags t x tt tp o l d => ([t, x.toNat, tt, bits64 tp, o.toNat, l.toNat], [d])
  | insertLogMetrics t x tt tp o l d p pt =>
    ([t, x.toNat, tt, bits64 tp, o.toNat, l.toNat, p.toNat], [pt, d])
  | updateLogTags t x tt tp o l ol d od =>
    ([t, x.toNat, tt, bits64 tp, o.toNat, l.toNat, ol.toNat], [d, od])
  | deleteLogMetrics t x tt p s e rs pt sp =>
    ([t, x.toNat, tt, p.toNat, bits64 s, bits64 e, rs.toNat], [pt, sp.flatten])
  | deleteLogTags t x tt g e p pt tl tg =>
    ([t, x.toNat, tt, g.toNat, e.toNat, p.toNat, tl.toNat], [pt, tg])
  | checkpoint t x c o n d => ([t, x.toNat, c.toNat, o.toNat, n.toNat], [d.flatten])
  | mtr t x id => ([t, x.toNat], [id])
  | mtrBegin t x id r i => ([t, x.toNat, r.toNat, i.toNat], [id])
  | ttr t x id => ([t, x.toNat], [id])
  | ddlCreate t x o ml rs m r => ([t, x.toNat, o.toNat, ml, rs.toNat], [m, r.flatMap rangeGroupBytes])
  | ddlDrop t x o => ([t, x.toNat, o.toNat], [])
  | ddlAlter t x o a l m => ([t, x.toNat, o.toNat, a, l.toNat], [m])

/-- The members fit their types and lengths: the enum values within their widths, each buffer as
long as the member that holds its length, and `len` below `2 ^ 64`. Where the class counts its
loop in an `int`, the count fits one; where it keeps its position in an `int`, so does every copy's
start, which holds when the whole entry is below `2 ^ 31` bytes and, for a class whose last copy
is its only variable part, when its fixed part is. -/
def WellFormed : LogRecord → Prop
  | insertLogTags t _ tt _ _ l d => t < 2 ^ (8 * w.logType) ∧ tt < 2 ^ (8 * w.tableType) ∧
      d.length = l.toNat ∧ InsertLogTagsEntry.fixedLength w + l.toNat < 2 ^ 64
  | insertLogMetrics t _ tt _ _ l d p pt => t < 2 ^ (8 * w.logType) ∧
      tt < 2 ^ (8 * w.tableType) ∧ d.length = l.toNat ∧ pt.length = p.toNat ∧
      InsertLogMetricsEntry.fixedLength w + l.toNat + p.toNat < 2 ^ 64
  | updateLogTags t _ tt _ _ l ol d od => t < 2 ^ (8 * w.logType) ∧
      tt < 2 ^ (8 * w.tableType) ∧ d.length = l.toNat ∧ od.length = ol.toNat ∧
      UpdateLogTagsEntry.fixedLength w + l.toNat + ol.toNat < 2 ^ 64
  | deleteLogMetrics t _ tt p _ _ rs pt sp => t < 2 ^ (8 * w.logType) ∧
      tt < 2 ^ (8 * w.tableType) ∧ pt.length = p.toNat ∧ sp.length = rs.toNat ∧
      (∀ s ∈ sp, s.length = w.delRowSpan) ∧ rs.toNat < 2 ^ 31 ∧
      DeleteLogMetricsEntry.fixedLength w + rs.toNat * w.delRowSpan + p.toNat < 2 ^ 64
  | deleteLogTags t _ tt _ _ p pt tl tg => t < 2 ^ (8 * w.logType) ∧
      tt < 2 ^ (8 * w.tableType) ∧ pt.length = p.toNat ∧ tg.length = tl.toNat ∧
      DeleteLogTagsEntry.fixedLength w + p.toNat + tl.toNat < 2 ^ 64
  | checkpoint t _ _ _ n d => t < 2 ^ (8 * w.logType) ∧ d.length = n.toNat ∧
      (∀ p ∈ d, p.length = w.checkpointPartition) ∧
      CheckpointEntry.fixedLength w + w.checkpointPartition * n.toNat < 2 ^ 31 ∧ n.toNat < 2 ^ 31
  | mtr t _ id => t < 2 ^ (8 * w.logType) ∧ id.length = tsTransIdLen ∧
      MTREntry.fixedLength w < 2 ^ 31
  | mtrBegin t _ id _ _ => t < 2 ^ (8 * w.logType) ∧ id.length = tsTransIdLen ∧
      MTRBeginEntry.fixedLength w < 2 ^ 31
  | ttr t _ id => t < 2 ^ (8 * w.logType) ∧ id.length = tsTransIdLen ∧
      TTREntry.fixedLength w < 2 ^ 31
  | ddlCreate t _ _ ml rs m r => t < 2 ^ (8 * w.logType) ∧ m.length = ml ∧ r.length = rs.toNat ∧
      rs.toNat < 2 ^ 31 ∧
      DDLCreateEntry.fixedLength w + rs.toNat * DDLCreateEntry.rangeLength + ml < 2 ^ 31
  | ddlDrop t _ _ => t < 2 ^ (8 * w.logType) ∧ DDLDropEntry.fixedLength w < 2 ^ 31
  | ddlAlter t _ _ a l m => t < 2 ^ (8 * w.logType) ∧ a < 2 ^ (8 * w.alterType) ∧
      m.length = l.toNat ∧ DDLAlterEntry.fixedLength w < 2 ^ 31 ∧
      DDLAlterEntry.fixedLength w + l.toNat < 2 ^ 64

/-- Every log entry whose members fit their types is written exactly into the buffer its
`construct` allocates, and a reader taking its class's fields in order gets back every member:
the fixed-width ones and each variable part, the row spans, partitions and range groups back to
back. -/
theorem encode_readFields (r : LogRecord) (h : r.WellFormed w) :
    (r.encode w).bind (readFields (r.layout w) []) = some r.members := by
  cases r
  case deleteLogMetrics t x tt p s e rs pt sp =>
    obtain ⟨ht, htt, hpt, hsp, hspw, hrs, hwrap⟩ := h
    obtain ⟨hbytes, hsize⟩ := loopParts_bytes hspw
    rw [hsp] at hbytes hsize
    have hregion : (sp.map List.length).sum = rs.toNat * w.delRowSpan := by
      rw [sum_map_eq_mul hspw, hsp]
    rw [encode, DeleteLogMetricsEntry.construct, if_pos hrs]
    exact constructLog_readFields_loop
      (by simp [DeleteLogMetricsEntry.fixedLength, hsize, LogField.size]; omega) hwrap trivial
      (by
        rw [hsize, hbytes]
        simp [layout, Fits, ht, htt, hpt, hregion, uint64_toNat_lt, bits64_lt, -Nat.reducePow])
      (by simp [members, srcBytes_of_length hpt, hbytes])
  case checkpoint t x c o n d =>
    obtain ⟨ht, hd, hdw, hint, hn⟩ := h
    obtain ⟨hbytes, hsize⟩ := loopParts_bytes hdw
    rw [hd] at hbytes hsize
    have hregion : (d.map List.length).sum = n.toNat * w.checkpointPartition := by
      rw [sum_map_eq_mul hdw, hd]
    rw [encode, CheckpointEntry.construct, if_pos hn]
    exact constructLog_readFields_loop
      (by simp [CheckpointEntry.header, CheckpointEntry.fixedLength, hsize, LogField.size]; ring)
      (by omega) hint
      (by
        rw [hsize, hbytes]
        simp [CheckpointEntry.header, layout, Fits, ht, hregion, uint64_toNat_lt, uint32_toNat_lt,
          -Nat.reducePow])
      (by simp [CheckpointEntry.header, members, hbytes])
  case ddlCreate t x o ml rs m r =>
    obtain ⟨ht, hm, hr, hrs, hint⟩ := h
    obtain ⟨hbytes, hsize⟩ := rangeGroupCopies_bytes r
    rw [hr] at hbytes hsize
    have hregion : (r.flatMap rangeGroupBytes).length = rs.toNat * DDLCreateEntry.rangeLength := by
      rw [← hbytes, length_flatMap_bytes, hsize]
    rw [encode, DDLCreateEntry.construct, if_pos ⟨hrs, by omega⟩]
    exact constructLog_readFields_loop
      (by simp [DDLCreateEntry.fixedLength, hsize, LogField.size]; omega) (by omega) hint
      (by
        rw [hsize, hbytes]
        simp [layout, Fits, ht, hm, hregion, uint64_toNat_lt, show ml < 2 ^ 32 by omega, -Nat.reducePow])
      (by simp [members, srcBytes_of_length hm, hbytes])
  -- The entries without a loop: the copies' sizes add up to `len`, the last copy starts where the
  -- position holds it, the copies fit the layout, and they are the members.
  all_goals
    simp only [WellFormed] at h
    refine constructLog_readFields ?_ (by omega) ?_
      (by simp [layout, Fits, h, uint64_toNat_lt, uint32_toNat_lt, bits64_lt, -Nat.reducePow])
      (by simp [members, srcBytes_of_length, h])
    · simp only [InsertLogTagsEntry.fixedLength, InsertLogMetricsEntry.fixedLength,
        UpdateLogTagsEntry.fixedLength, DeleteLogTagsEntry.fixedLength, MTREntry.fixedLength,
        MTRBeginEntry.fixedLength, TTREntry.fixedLength, DDLDropEntry.fixedLength,
        DDLAlterEntry.fixedLength, sizes_cons, sizes_nil, LogField.size]
      try omega
    · first
      | trivial
      | simp only [MTREntry.fixedLength, MTRBeginEntry.fixedLength, TTREntry.fixedLength,
          DDLDropEntry.fixedLength, DDLAlterEntry.fixedLength, LogField.lastStart, Position.Holds,
          List.dropLast, sizes_cons, sizes_nil, LogField.size] at h ⊢
        omega

end LogRecord


/-- A metrics insert of two data bytes under a one-byte primary tag. -/
def sampleInsert : LogRecord := .insertLogMetrics 1 2 0 (-3) 0 2 [7, 8] 1 [9]

theorem encode_readFields_sampleInsert :
    sampleInsert.WellFormed sampleWidths ∧
      (sampleInsert.encode sampleWidths).bind (readFields (sampleInsert.layout sampleWidths) []) =
        some sampleInsert.members :=
  have h : sampleInsert.WellFormed sampleWidths := by
    simp only [sampleInsert, sampleWidths, LogRecord.WellFormed, InsertLogMetricsEntry.fixedLength]
    decide
  ⟨h, LogRecord.encode_readFields sampleWidths sampleInsert h⟩

end KwdbTs.Storage
