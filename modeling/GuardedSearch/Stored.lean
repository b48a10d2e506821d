import GuardedSearch.Error
import GuardedSearch.Word

/-!
# Stored values

The retrievable form of a value: text as it is, an integer as big-endian two's complement, a
boolean as one byte, a date as its whole seconds from 1970 in eight bytes.
-/

namespace GuardedSearch

namespace Bytes

/-- The lowest `width` bytes of `n`, most significant first. -/
def bigEndian : Nat → Nat → List UInt8
  | 0, _ => []
  | width + 1, n => bigEndian width (n / 256) ++ [UInt8.ofNat n]

/-- The number that bytes stand for, most significant first. -/
def toNat (bytes : List UInt8) : Nat := bytes.foldl (fun n b => n * 256 + b.toNat) 0

theorem length_bigEndian (width n : Nat) : (bigEndian width n).length = width := by
  induction width generalizing n with
  | zero => rfl
  | succ width ih => simp [bigEndian, ih]

def ofInt32 (v : Int32) : List UInt8 := bigEndian 4 (v.toInt % Word.size32).toNat

def ofInt64 (v : Int64) : List UInt8 := bigEndian 8 (v.toInt % Word.size64).toNat

def ofBool (b : Bool) : List UInt8 := [if b then 1 else 0]

def ofInstant (t : Instant) : List UInt8 := ofInt64 (Int64.ofInt t.seconds)

def toInt32 (bytes : List UInt8) : Except FormatError Int32 :=
  if bytes.length = 4 then .ok (Int32.ofNat (toNat bytes)) else .error (.int32Width bytes.length)

def toInt64 (bytes : List UInt8) : Except FormatError Int64 :=
  if bytes.length = 8 then .ok (Int64.ofNat (toNat bytes)) else .error (.int64Width bytes.length)

def toBool : List UInt8 → Except Error Bool
  | [byte] =>
    if byte = 0 then .ok false
    else if byte = 1 then .ok true
    else .error (.format (.booleanByte byte))
  | bytes => .error (.invalidArgument (.booleanWidth bytes.length))

def toInstant (bytes : List UInt8) : Except FormatError Instant := do
  let seconds ← toInt64 bytes
  match Instant.of? seconds.toInt 0 with
  | some t => .ok t
  | none => .error (.timestampOutOfRange seconds.toInt)

end Bytes

def FieldValue.stored : FieldValue → StoredValue
  | .text s => .text s
  | .int32 v => .binary (Bytes.ofInt32 v)
  | .int64 v => .binary (Bytes.ofInt64 v)
  | .boolean b => .binary (Bytes.ofBool b)
  | .date t => .binary (Bytes.ofInstant t)

def StoredValue.decode (type : FieldType) (stored : StoredValue) : Except Error FieldValue :=
  match type, stored with
  | .text, .text s => .ok (.text s)
  | .int32, .binary bytes => ((Bytes.toInt32 bytes).map .int32).mapError .format
  | .int64, .binary bytes => ((Bytes.toInt64 bytes).map .int64).mapError .format
  | .boolean, .binary bytes => (Bytes.toBool bytes).map .boolean
  | .date, .binary bytes => ((Bytes.toInstant bytes).map .date).mapError .format
  | _, _ => .error (.format (.storedTypeMismatch type))

end GuardedSearch
