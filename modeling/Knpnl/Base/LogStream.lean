import Knpnl.Base.Buffer
import Knpnl.Lib.Numeral

/-!
# `base/LogStream`: formatting of numbers

Numbers are converted digit by digit, in the arithmetic of their own type. A negative number is
not negated: the remainders of a truncating division are negative then, and the table of digits is
read from its middle in both directions.
-/
namespace Knpnl.Base

open Lib
open Lib.CString (Bytes ascii cstr)

/-- The integer types that `convert` is instantiated with. -/
inductive IntType where
  | int | unsignedInt | long | unsignedLong | longLong | unsignedLongLong
  deriving DecidableEq

namespace IntType

def width : IntType → Nat
  | int | unsignedInt => 32
  | long | unsignedLong | longLong | unsignedLongLong => 64

def isSigned : IntType → Bool
  | int | long | longLong => true
  | unsignedInt | unsignedLong | unsignedLongLong => false

/-- A value of the type. -/
abbrev Value (t : IntType) : Type := BitVec t.width

def ten (t : IntType) : t.Value := BitVec.ofNat t.width 10

def toInt (t : IntType) (i : t.Value) : Int := if t.isSigned then BitVec.toInt i else BitVec.toNat i

/-- `i / 10` -/
def div10 (t : IntType) (i : t.Value) : t.Value := if t.isSigned then i.sdiv t.ten else i.udiv t.ten

/-- `i % 10` -/
def mod10 (t : IntType) (i : t.Value) : t.Value := if t.isSigned then i.srem t.ten else i.umod t.ten

theorem toInt_ten (t : IntType) : BitVec.toInt t.ten = 10 := by cases t <;> decide

theorem toNat_ten (t : IntType) : BitVec.toNat t.ten = 10 := by cases t <;> decide

/-- No quotient by ten overflows. -/
theorem toInt_div10 (t : IntType) (i : t.Value) : t.toInt (t.div10 i) = (t.toInt i).tdiv 10 := by
  have hne : t.ten ≠ -1#t.width := by cases t <;> decide
  unfold toInt div10
  by_cases hsigned : t.isSigned = true
  · rw [if_pos hsigned, if_pos hsigned, if_pos hsigned, BitVec.toInt_sdiv_of_ne_or_ne _ _ (Or.inr hne),
      toInt_ten]
  · rw [if_neg hsigned, if_neg hsigned, if_neg hsigned, BitVec.udiv_eq, BitVec.toNat_udiv, toNat_ten]
    rfl

theorem toInt_mod10 (t : IntType) (i : t.Value) : t.toInt (t.mod10 i) = (t.toInt i).tmod 10 := by
  unfold toInt mod10
  by_cases hsigned : t.isSigned = true
  · rw [if_pos hsigned, if_pos hsigned, if_pos hsigned, BitVec.toInt_srem, toInt_ten]
  · rw [if_neg hsigned, if_neg hsigned, if_neg hsigned, BitVec.umod_eq, BitVec.toNat_umod, toNat_ten]
    rfl

theorem toInt_eq_zero (t : IntType) (i : t.Value) : t.toInt i = 0 ↔ i = 0#t.width := by
  unfold toInt
  by_cases hsigned : t.isSigned = true
  · rw [if_pos hsigned, ← BitVec.toInt_inj, BitVec.toInt_zero]
  · rw [if_neg hsigned, ← BitVec.toNat_inj, BitVec.toNat_zero, Int.natCast_eq_zero]

theorem natAbs_toInt_lt (t : IntType) (i : t.Value) : (t.toInt i).natAbs < 2 ^ t.width := by
  have hcast : ((2 ^ t.width : ℕ) : ℤ) = 2 ^ t.width := by push_cast; rfl
  unfold toInt
  by_cases hsigned : t.isSigned = true
  · rw [if_pos hsigned]
    have hlow : -2 ^ t.width ≤ 2 * BitVec.toInt i := BitVec.le_two_mul_toInt
    have hhigh : 2 * BitVec.toInt i < 2 ^ t.width := BitVec.two_mul_toInt_lt
    omega
  · rw [if_neg hsigned]
    exact BitVec.isLt i

theorem width_le (t : IntType) : 0 < t.width ∧ t.width ≤ 64 := by cases t <;> decide

end IntType

/-- The static assertion counts the terminating NUL. -/
def digits : Bytes := ascii "9876543210123456789" ++ [0]

def kMaxNumericSize : Nat := 32

/-- `zero[lsd]`, where `zero` points to the middle of `digits`. -/
def zero (lsd : Int) : Option UInt8 := if 0 ≤ 9 + lsd then digits[(9 + lsd).toNat]? else none

def digitsHex : Bytes := ascii "0123456789ABCDEF" ++ [0]

/-- What a conversion stores from `buf` on, and what it returns. -/
structure Converted where
  bytes : Bytes
  ret : Nat
  deriving DecidableEq

/-- Each round takes a digit off, so there are no more rounds than bits. -/
def convert (t : IntType) (value : t.Value) : Option Converted :=
  (digitLoop (fun i => zero (signed 32 (t.toInt (t.mod10 i)))) t.div10 (fun i => i = 0#t.width) t.width
      value []).map fun stored =>
      let stored := if t.toInt value < 0 then stored ++ ascii "-" else stored
      ⟨stored.reverse ++ [0], stored.length⟩

def convertHex (value : BitVec 64) : Option Converted :=
  (digitLoop (fun i : BitVec 64 => digitsHex[(i % 16).toNat]?) (fun i => i / 16) (fun i => i = 0#64) 64
      value []).map fun stored => ⟨stored.reverse ++ [0], stored.length⟩

def decimalDigit (d : ℕ) : UInt8 := UInt8.ofNat (48 + d)

def hexDigit (d : ℕ) : UInt8 := UInt8.ofNat (if d < 10 then 48 + d else 55 + d)

/-- The sign of a negative number, and the decimal numeral. -/
def decimalText (z : Int) : Bytes := (if z < 0 then ascii "-" else []) ++ (numeral 10 z.natAbs).map decimalDigit

def hexText (n : ℕ) : Bytes := (numeral 16 n).map hexDigit

theorem zero_eq {lsd : Int} (hlow : -10 < lsd) (hhigh : lsd < 10) :
    zero lsd = some (decimalDigit lsd.natAbs) := by
  have hall : ∀ k : Fin 19, zero ((k : ℤ) - 9) = some (decimalDigit ((k : ℤ) - 9).natAbs) := by decide
  have hk := hall ⟨(lsd + 9).toNat, by omega⟩
  have hlsd : (((lsd + 9).toNat : ℕ) : ℤ) - 9 = lsd := by omega
  simpa only [hlsd] using hk

theorem digitsHex_mod (i : BitVec 64) : digitsHex[(i % 16).toNat]? = some (hexDigit (i.toNat % 16)) := by
  have hall : ∀ k : Fin 16, digitsHex[k.val]? = some (hexDigit k) := by decide
  rw [BitVec.toNat_umod]
  exact hall ⟨i.toNat % 16, Nat.mod_lt _ (by decide)⟩

/-- The last digit has the sign of the number, and is read from that side of the table. -/
theorem zero_mod10 (t : IntType) (i : t.Value) :
    zero (signed 32 (t.toInt (t.mod10 i))) = some (decimalDigit ((t.toInt i).natAbs % 10)) := by
  have habs : ((t.toInt i).tmod 10).natAbs = (t.toInt i).natAbs % 10 := Int.natAbs_tmod ..
  have hsmall : signed 32 ((t.toInt i).tmod 10) = (t.toInt i).tmod 10 :=
    Int.bmod_eq_of_le (by omega) (by omega)
  rw [t.toInt_mod10, hsmall, zero_eq (by omega) (by omega), habs]

theorem convert_eq (t : IntType) (value : t.Value) :
    convert t value = some ⟨decimalText (t.toInt value) ++ [0], (decimalText (t.toInt value)).length⟩ := by
  have hlt : (t.toInt value).natAbs < 10 ^ t.width :=
    (t.natAbs_toInt_lt value).trans_le (Nat.pow_le_pow_left (by decide) _)
  have hquot : ∀ i, (t.toInt (t.div10 i)).natAbs = (t.toInt i).natAbs / 10 := fun i => by
    rw [t.toInt_div10, Int.natAbs_tdiv]
    rfl
  have hzero : ∀ i : t.Value, decide (i = 0#t.width) = true ↔ (t.toInt i).natAbs = 0 := fun i => by
    rw [decide_eq_true_iff, Int.natAbs_eq_zero, t.toInt_eq_zero]
  rw [convert, digitLoop_eq (by decide) (zero_mod10 t) hquot hzero value [] hlt t.width_le.1, Option.map_some]
  dsimp only
  unfold decimalText
  split
  · simp [ascii]
  · simp

theorem convertHex_eq (value : BitVec 64) :
    convertHex value = some ⟨hexText value.toNat ++ [0], (hexText value.toNat).length⟩ := by
  have hlt : value.toNat < 16 ^ 64 := value.isLt.trans (by norm_num)
  have hzero : ∀ i : BitVec 64, decide (i = 0#64) = true ↔ i.toNat = 0 := fun i => by
    rw [decide_eq_true_iff, ← BitVec.toNat_inj, BitVec.toNat_zero]
  rw [convertHex,
    digitLoop_eq (by decide) digitsHex_mod (fun i => BitVec.toNat_udiv) hzero value [] hlt (by decide),
    Option.map_some]
  simp [hexText]

/-- A conversion stored the sign and the digits of a number, a NUL, and not too much in all, and
returned the length without the NUL. -/
structure Exact (out : Option Converted) (sign : Bytes) (b n : ℕ) (digit : ℕ → UInt8) : Prop where
  text : ∃ ds, IsNumeral b n ds ∧
    out = some ⟨sign ++ ds.map digit ++ [0], (sign ++ ds.map digit).length⟩
  size : ∀ c ∈ out, c.bytes.length ≤ kMaxNumericSize

theorem length_decimalText_le (t : IntType) (value : t.Value) :
    (decimalText (t.toInt value)).length + 1 ≤ kMaxNumericSize := by
  have hlt : (t.toInt value).natAbs < 10 ^ 20 :=
    (t.natAbs_toInt_lt value).trans_le ((Nat.pow_le_pow_right (by decide) t.width_le.2).trans (by norm_num))
  have hdigits := length_numeral_le (by decide) (by decide) hlt
  have hsign : (if t.toInt value < 0 then ascii "-" else []).length ≤ 1 := by split <;> decide
  rw [decimalText, List.length_append, List.length_map, kMaxNumericSize]
  omega

theorem length_hexText_le (value : BitVec 64) : (hexText value.toNat).length ≤ 16 := by
  rw [hexText, List.length_map]
  exact length_numeral_le (by decide) (by decide) (value.isLt.trans_le (by norm_num))

/-- Every value of every type is formatted exactly, and on the way to it the divisions do not
overflow and the tables are indexed at the digit. -/
theorem formatting_exact :
    (∀ (t : IntType) (value : t.Value),
      Exact (convert t value) (if t.toInt value < 0 then ascii "-" else []) 10 (t.toInt value).natAbs
        decimalDigit) ∧
    (∀ (t : IntType) (i : t.Value),
      t.toInt (t.div10 i) = (t.toInt i).tdiv 10 ∧ t.toInt (t.mod10 i) = (t.toInt i).tmod 10 ∧
        zero (signed 32 (t.toInt (t.mod10 i))) = some (decimalDigit ((t.toInt i).natAbs % 10))) ∧
    (∀ value : BitVec 64, Exact (convertHex value) [] 16 value.toNat hexDigit) ∧
    ∀ i : BitVec 64, digitsHex[(i % 16).toNat]? = some (hexDigit (i.toNat % 16)) := by
  refine ⟨fun t value => ⟨⟨_, isNumeral_numeral (by decide) _, convert_eq t value⟩, fun c hc => ?_⟩,
    fun t i => ⟨t.toInt_div10 i, t.toInt_mod10 i, zero_mod10 t i⟩,
    fun value => ⟨⟨_, isNumeral_numeral (by decide) _, convertHex_eq value⟩, fun c hc => ?_⟩, digitsHex_mod⟩
  · rw [convert_eq] at hc
    obtain rfl := Option.mem_some_iff.mp hc
    rw [List.length_append]
    exact length_decimalText_le t value
  · rw [convertHex_eq] at hc
    obtain rfl := Option.mem_some_iff.mp hc
    have hlen := length_hexText_le value
    rw [List.length_append, kMaxNumericSize]
    exact Nat.succ_le_succ (hlen.trans (by decide))

/-- A conversion always ends with a text. -/
def converted (t : IntType) (value : t.Value) : Converted :=
  (convert t value).get (by rw [convert_eq]; rfl)

def convertedHex (value : BitVec 64) : Converted :=
  (convertHex value).get (by rw [convertHex_eq]; rfl)

/-- What `<<` is given. A `const char *` may be null. -/
inductive LogItem where
  | bool (v : Bool)
  | short (v : BitVec 16)
  | unsignedShort (v : BitVec 16)
  | integer (t : IntType) (v : t.Value)
  | pointer (p : BitVec 64)
  | char (v : UInt8)
  | cstring (str : Option Bytes)
  | string (v : Bytes)
  | piece (str : Bytes)

/-- The buffer, with a record of the regions of it that were written. -/
structure LogStream where
  mBuffer : FixedBuffer
  writes : List Write

namespace LogStream

def new (mem : Bytes) : LogStream := ⟨.fresh mem, []⟩

def append (s : LogStream) (str : Bytes) : LogStream :=
  ⟨(s.mBuffer.append str).buf, s.writes ++ (s.mBuffer.append str).writes⟩

/-- Bytes stored at `writePtr()`, and `len` of them added. -/
def store (s : LogStream) (bytes : Bytes) (len : Nat) : LogStream :=
  ⟨({ s.mBuffer with mem := FixedBuffer.poke s.mBuffer.mem s.mBuffer.mWritePtr bytes }.add len).2,
    s.writes ++ [.copyIn s.mBuffer.mWritePtr bytes.length]⟩

def formatInteger (s : LogStream) (t : IntType) (v : t.Value) : LogStream :=
  if s.mBuffer.avail ≥ kMaxNumericSize then s.store (converted t v).bytes (converted t v).ret else s

/-- `operator<<`. The size of a `StringPiece` is an `int`, and a negative one is a large `size_t`. -/
def put (s : LogStream) : LogItem → LogStream
  | .bool v => s.append (ascii (if v then "1" else "0"))
  | .short v => s.formatInteger .int (v.signExtend 32)
  | .unsignedShort v => s.formatInteger .unsignedInt (v.setWidth 32)
  | .integer t v => s.formatInteger t v
  | .pointer p =>
      if s.mBuffer.avail ≥ kMaxNumericSize then
        s.store (ascii "0x" ++ (convertedHex p).bytes) ((convertedHex p).ret + 2)
      else s
  | .char v => s.append [v]
  | .cstring (some str) => s.append (cstr str)
  | .cstring none => s.append (ascii "(null)")
  | .string v => s.append v
  | .piece str =>
      let size := signed 32 str.length
      if size < 0 then s else s.append (str.take size.toNat)

def run (s : LogStream) (items : List LogItem) : LogStream := items.foldl put s

/-- `~LogStream`, before `mOutput` is called. -/
def destroy (s : LogStream) : LogStream := s.append (ascii "\n")

/-- What `mOutput` is called with. -/
def output (s : LogStream) : Bytes := s.destroy.mBuffer.unread

end LogStream
end Knpnl.Base
