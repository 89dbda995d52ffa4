/-
The wire format of protobuf, as far as messages of numbers and strings need it.

A message is a list of fields: a number, and a varint or some bytes with their length in
front (wire types 0 and 2; what has a fixed width, and groups, are refused). A varint is
the number to the base 128, the lowest digit first, with 128 added to every digit but the
last.

`read_write`: what was written is read back, whatever the fields are. A message type is
then a list of fields and the selection of its own ones (`strings`, `numbers`); the
generated readers keep the last field of a number where the type has one.
-/
import LauSim.Lib.CText

set_option autoImplicit false

namespace Protobuf

open CText

/-! ## Varints -/

/-- `n` with at most `k` digits before the last one. -/
def varintGo : ℕ → ℕ → Text
  | 0, n => [Char.ofNat n]
  | k + 1, n =>
    if n < 128 then [Char.ofNat n] else Char.ofNat (n % 128 + 128) :: varintGo k (n / 128)

def varint (n : ℕ) : Text := varintGo n n

/-- A number, and what comes behind it. -/
def readVarint : Text → Option (ℕ × Text)
  | [] => none
  | c :: cs =>
    if c.toNat < 128 then some (c.toNat, cs)
    else (readVarint cs).map fun out => (c.toNat % 128 + 128 * out.1, out.2)

theorem toNat_ofNat {n : ℕ} (h : n < 256) : (Char.ofNat n).toNat = n := by
  rw [Char.toNat_ofNat, if_pos (Or.inl (by omega))]

theorem readVarint_last {n : ℕ} (h : n < 128) (rest : Text) :
    readVarint (Char.ofNat n :: rest) = some (n, rest) := by
  rw [readVarint, toNat_ofNat (by omega), if_pos h]

theorem readVarint_varintGo (k n : ℕ) (h : n ≤ k) (rest : Text) :
    readVarint (varintGo k n ++ rest) = some (n, rest) := by
  induction k generalizing n with
  | zero => exact readVarint_last (by omega) rest
  | succ k ih =>
      rw [varintGo]
      split
      · next hlt => exact readVarint_last hlt rest
      · -- one digit, and the rest is shorter
        have hbyte : (Char.ofNat (n % 128 + 128)).toNat = n % 128 + 128 := toNat_ofNat (by omega)
        rw [List.cons_append, readVarint, hbyte, if_neg (by omega), ih (n / 128) (by omega),
          Option.map_some]
        congr 2
        omega

theorem readVarint_varint (n : ℕ) (rest : Text) :
    readVarint (varint n ++ rest) = some (n, rest) := readVarint_varintGo n n le_rfl rest

/-! ## Fields -/

inductive Value where
  | number (n : ℕ)
  | bytes (s : Text)
  deriving DecidableEq, Repr

structure Field where
  id : ℕ
  value : Value
  deriving DecidableEq, Repr

def writeField (f : Field) : Text :=
  match f.value with
  | .number n => varint (8 * f.id) ++ varint n
  | .bytes s => varint (8 * f.id + 2) ++ (varint s.length ++ s)

def write (fs : List Field) : Text := fs.flatMap writeField

/-- The value behind a key of the wire type `type`. -/
def readValue (type : ℕ) (x : Text) : Option (Value × Text) :=
  match type with
  | 0 => (readVarint x).map fun out => (.number out.1, out.2)
  | 2 =>
    match readVarint x with
    | none => none
    | some (len, x) => if x.length < len then none else some (.bytes (x.take len), x.drop len)
  | _ => none

def readField (x : Text) : Option (Field × Text) :=
  match readVarint x with
  | none => none
  | some (key, x) => (readValue (key % 8) x).map fun out => (⟨key / 8, out.1⟩, out.2)

/-- At most `k` fields. -/
def readGo : ℕ → Text → Option (List Field)
  | _, [] => some []
  | 0, _ => none
  | k + 1, x =>
    match readField x with
    | none => none
    | some (f, rest) => (readGo k rest).map fun fs => f :: fs

/-- The fields of a message; each of them has a byte at least. -/
def read (x : Text) : Option (List Field) := readGo x.length x

theorem readField_writeField (f : Field) (rest : Text) :
    readField (writeField f ++ rest) = some (f, rest) := by
  obtain ⟨id, value⟩ := f
  cases value with
  | number n =>
      have htype : 8 * id % 8 = 0 := by omega
      have hid : 8 * id / 8 = id := by omega
      rw [writeField, List.append_assoc, readField, readVarint_varint]
      dsimp only
      rw [htype, hid, readValue, readVarint_varint]
      rfl
  | bytes s =>
      have htype : (8 * id + 2) % 8 = 2 := by omega
      have hid : (8 * id + 2) / 8 = id := by omega
      rw [writeField, List.append_assoc, List.append_assoc, readField, readVarint_varint]
      dsimp only
      rw [htype, hid, readValue, readVarint_varint]
      dsimp only
      rw [if_neg (by rw [List.length_append]; omega), List.take_left, List.drop_left]
      rfl

theorem varint_ne_nil (n : ℕ) : varint n ≠ [] := by
  intro hnil
  have hread := readVarint_varint n []
  rw [hnil] at hread
  cases hread

theorem writeField_ne_nil (f : Field) : writeField f ≠ [] := by
  obtain ⟨id, value⟩ := f
  cases value with
  | number n => exact List.append_ne_nil_of_left_ne_nil (varint_ne_nil _) _
  | bytes s => exact List.append_ne_nil_of_left_ne_nil (varint_ne_nil _) _

theorem length_le_length_write (fs : List Field) : fs.length ≤ (write fs).length := by
  induction fs with
  | nil => exact le_rfl
  | cons f fs ih =>
      have hpos := List.length_pos_of_ne_nil (writeField_ne_nil f)
      rw [write, List.flatMap_cons, List.length_append, List.length_cons, ← write]
      omega

theorem readGo_write (fs : List Field) {k : ℕ} (h : fs.length ≤ k) :
    readGo k (write fs) = some fs := by
  induction fs generalizing k with
  | nil => cases k <;> rfl
  | cons f fs ih =>
      rw [List.length_cons] at h
      obtain ⟨j, rfl⟩ : ∃ j, k = j + 1 := ⟨k - 1, by omega⟩
      have hne : writeField f ++ write fs ≠ [] :=
        List.append_ne_nil_of_left_ne_nil (writeField_ne_nil f) _
      have hwrite : write (f :: fs) = writeField f ++ write fs := List.flatMap_cons
      rw [hwrite]
      obtain ⟨c, cs, hcons⟩ := List.exists_cons_of_ne_nil hne
      rw [hcons, readGo, ← hcons, readField_writeField]
      · dsimp only
        rw [ih (by omega)]
        rfl
      · simp

/-- **Round trip.** -/
theorem read_write (fs : List Field) : read (write fs) = some fs :=
  readGo_write fs (length_le_length_write fs)

/-! ## The fields of one number -/

def strings (id : ℕ) (fs : List Field) : List Text :=
  fs.filterMap fun f =>
    match f.value with
    | .bytes s => if f.id = id then some s else none
    | .number _ => none

theorem strings_append (id : ℕ) (fs fs' : List Field) :
    strings id (fs ++ fs') = strings id fs ++ strings id fs' := List.filterMap_append

def numbers (id : ℕ) (fs : List Field) : List ℕ :=
  fs.filterMap fun f =>
    match f.value with
    | .number n => if f.id = id then some n else none
    | .bytes _ => none

end Protobuf
