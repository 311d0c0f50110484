import Knpnl.Base.LogStream
import Knpnl.Base.BufferFifo
import Knpnl.Lib.Reach

/-!
# Log records

A record is what fits of the items, each whole, and a newline. The newline is appended like the
items, so it is missing where they fill the buffer to its last byte.
-/
namespace Knpnl.Base

open Lib
open Lib.CString (Bytes ascii cstr)
open FixedBuffer (kBufferSize)

namespace LogItem

def text : LogItem → Bytes
  | bool v => ascii (if v then "1" else "0")
  | short v => decimalText v.toInt
  | unsignedShort v => decimalText v.toNat
  | integer t v => decimalText (t.toInt v)
  | pointer p => ascii "0x" ++ hexText p.toNat
  | char v => [v]
  | cstring (some str) => cstr str
  | cstring none => ascii "(null)"
  | string v => v
  | piece str => str.take (sizeT (signed 32 str.length))

/-- The room that is asked for. -/
def need : LogItem → Nat
  | short _ | unsignedShort _ | integer _ _ | pointer _ => kMaxNumericSize
  | piece str => sizeT (signed 32 str.length)
  | item => item.text.length

/-- The length of the record that takes each item that fits, after `len` bytes. -/
def recordLength (len : Nat) : List LogItem → Nat
  | [] => len
  | item :: items => recordLength (if item.need ≤ kBufferSize - len then len + item.text.length else len) items

end LogItem

namespace LogStream

/-- Nothing is read from the buffer, and nothing has been written past its end. -/
structure Inv (s : LogStream) : Prop where
  ok : s.mBuffer.Ok
  start : s.mBuffer.mReadPtr = 0
  cap : s.mBuffer.cap = kBufferSize
  inside : ∀ w ∈ s.writes, w.stop ≤ kBufferSize

/-- What a call makes of `need` bytes that are asked for and the text that is appended if there
is room for them. -/
structure Takes (s : LogStream) (need : Nat) (text : Bytes) (s' : LogStream) : Prop where
  inv : s'.Inv
  taken : need ≤ kBufferSize - s.mBuffer.used → s'.mBuffer.unread = s.mBuffer.unread ++ text
  left : ¬ need ≤ kBufferSize - s.mBuffer.used → s'.mBuffer.unread = s.mBuffer.unread

variable {s : LogStream}

theorem Inv.left (h : s.Inv) {need : Nat} {text : Bytes} (hneed : ¬ need ≤ kBufferSize - s.mBuffer.used) :
    s.Takes need text s := ⟨h, fun hfit => absurd hfit hneed, fun _ => rfl⟩

theorem Inv.avail_eq (h : s.Inv) : s.mBuffer.avail = kBufferSize - s.mBuffer.used := h.cap ▸ h.ok.avail_eq

theorem inv_new {mem : Bytes} (hmem : mem.length = kBufferSize) : (new mem).Inv where
  ok := FixedBuffer.fresh_ok (by rw [hmem]; decide)
  start := rfl
  cap := hmem
  inside w hw := absurd hw List.not_mem_nil

theorem mReadPtr_append {b : FixedBuffer} (h : b.mReadPtr = 0) (str : Bytes) :
    (b.append str).buf.mReadPtr = 0 := by
  unfold FixedBuffer.append
  split
  · exact h
  · split
    · rfl
    · exact h

theorem Inv.append (h : s.Inv) (str : Bytes) : s.Takes str.length str (s.append str) := by
  have happend := h.ok.append str
  refine ⟨⟨happend.ok, mReadPtr_append h.start str, happend.cap.trans h.cap, fun w hw => ?_⟩, fun hfit => ?_,
    fun hlarge => ?_⟩
  · rcases List.mem_append.mp hw with hold | hnew
    · exact h.inside w hold
    · exact h.cap ▸ happend.writes w hnew
  · exact (happend.accepts (h.cap ▸ hfit)).2
  · exact congrArg _ (happend.refuses (h.cap ▸ hlarge)).2

/-- The last unread byte is given up. -/
theorem retreat {b : FixedBuffer} (h : b.Ok) {bs : Bytes} {c : UInt8} (hunread : b.unread = bs ++ [c]) :
    ({ b with mWritePtr := b.mWritePtr - 1 } : FixedBuffer).Ok ∧
      ({ b with mWritePtr := b.mWritePtr - 1 } : FixedBuffer).unread = bs := by
  have hused := h.used_eq
  have hlen : b.used = bs.length + 1 := by
    rw [← h.unread_length, hunread, List.length_append, List.length_singleton]
  have hend := h.le_end
  have hok : ({ b with mWritePtr := b.mWritePtr - 1 } : FixedBuffer).Ok :=
    ⟨h.mem_length, h.cap_int, h.start_le, by dsimp only; omega, by dsimp only; omega⟩
  refine ⟨hok, ?_⟩
  have hused' : ({ b with mWritePtr := b.mWritePtr - 1 } : FixedBuffer).used = bs.length := by
    rw [hok.used_eq]
    dsimp only
    omega
  calc ({ b with mWritePtr := b.mWritePtr - 1 } : FixedBuffer).unread
      = b.text.take bs.length := by rw [FixedBuffer.unread, hused']; rfl
    _ = b.unread.take bs.length := by
        rw [FixedBuffer.unread, List.take_take, hlen, Nat.min_eq_left (Nat.le_succ _)]
    _ = bs := by rw [hunread]; exact List.take_left' rfl

/-- A number and a NUL are stored behind the unread bytes, and the number is added to them. -/
theorem Inv.store (h : s.Inv) {text : Bytes} (hfit : kMaxNumericSize ≤ kBufferSize - s.mBuffer.used)
    (hlen : text.length + 1 ≤ kMaxNumericSize) :
    (s.store (text ++ [0]) text.length).Inv ∧
      (s.store (text ++ [0]) text.length).mBuffer.unread = s.mBuffer.unread ++ text := by
  have havail := h.avail_eq
  have hused := h.ok.used_eq
  have htail := h.ok.tail_eq
  have hstart := h.start
  have hcap := h.cap
  have hbytes : (text ++ [0]).length = text.length + 1 := List.length_append
  have hplace : (text ++ [0]).length ≤ s.mBuffer.tail := by omega
  obtain ⟨hok, hput⟩ := h.ok.put hplace
  rw [← List.append_assoc] at hput
  obtain ⟨hok', hunread⟩ := retreat hok hput
  -- the NUL stays outside
  have hbuf : (s.store (text ++ [0]) text.length).mBuffer =
      { s.mBuffer.put (text ++ [0]) with mWritePtr := (s.mBuffer.put (text ++ [0])).mWritePtr - 1 } := by
    have hroom : text.length ≤ s.mBuffer.avail := by omega
    have hptr : s.mBuffer.mWritePtr + text.length = s.mBuffer.mWritePtr + (text ++ [0]).length - 1 := by omega
    rw [LogStream.store, FixedBuffer.add_of_le (by exact hroom), FixedBuffer.put]
    dsimp only
    rw [hptr]
  refine ⟨⟨hbuf ▸ hok', hbuf ▸ h.start, hbuf ▸ h.cap, fun w hw => ?_⟩, hbuf ▸ hunread⟩
  rcases List.mem_append.mp hw with hold | hnew
  · exact h.inside w hold
  · obtain rfl := List.mem_singleton.mp hnew
    show s.mBuffer.mWritePtr + ((text ++ [0]).length : ℤ) ≤ kBufferSize
    omega

/-- A number is appended if there is room for the longest. -/
theorem Inv.number (h : s.Inv) {text bytes : Bytes} {len : Nat} (hbytes : bytes = text ++ [0])
    (hlen : len = text.length) (hshort : text.length + 1 ≤ kMaxNumericSize) :
    s.Takes kMaxNumericSize text (if s.mBuffer.avail ≥ kMaxNumericSize then s.store bytes len else s) := by
  subst hbytes hlen
  by_cases hfit : s.mBuffer.avail ≥ kMaxNumericSize
  · rw [if_pos hfit]
    rw [h.avail_eq] at hfit
    obtain ⟨hinv, hunread⟩ := h.store hfit hshort
    exact ⟨hinv, fun _ => hunread, fun hlarge => absurd hfit hlarge⟩
  · rw [if_neg hfit]
    exact h.left fun hneed => hfit (h.avail_eq ▸ hneed)

theorem Inv.formatInteger (h : s.Inv) (t : IntType) (v : t.Value) :
    s.Takes kMaxNumericSize (decimalText (t.toInt v)) (s.formatInteger t v) := by
  have hconverted : converted t v = ⟨decimalText (t.toInt v) ++ [0], (decimalText (t.toInt v)).length⟩ := by
    simp only [converted, convert_eq, Option.get_some]
  exact h.number (by rw [hconverted]) (by rw [hconverted]) (length_decimalText_le t v)

theorem Inv.pointer (h : s.Inv) (p : BitVec 64) :
    s.Takes kMaxNumericSize (ascii "0x" ++ hexText p.toNat) (s.put (.pointer p)) := by
  have hconverted : convertedHex p = ⟨hexText p.toNat ++ [0], (hexText p.toNat).length⟩ := by
    simp only [convertedHex, convertHex_eq, Option.get_some]
  have hprefix : (ascii "0x").length = 2 := rfl
  have hlen : (ascii "0x" ++ hexText p.toNat).length = (hexText p.toNat).length + 2 := by
    rw [List.length_append, hprefix, Nat.add_comm]
  have hshort := length_hexText_le p
  refine h.number (by rw [hconverted, List.append_assoc]) (by rw [hconverted, hlen]) ?_
  rw [hlen, kMaxNumericSize]
  omega

/-- The size of a piece is negative where it is too large for an `int`, and then it does not fit. -/
theorem Inv.piece (h : s.Inv) (str : Bytes) :
    s.Takes (sizeT (signed 32 str.length)) (str.take (sizeT (signed 32 str.length))) (s.put (.piece str)) := by
  have hle := signed_le str.length
  have hlow : -2 ^ 31 ≤ signed 32 str.length := Int.le_bmod (by decide)
  have hhigh : signed 32 str.length < 2 ^ 31 := Int.bmod_lt (by decide)
  rw [LogStream.put]
  split
  · rename_i hneg
    refine h.left fun hfit => ?_
    have hsize : kBufferSize - s.mBuffer.used ≤ 1024 := Nat.sub_le _ _
    unfold sizeT at hfit
    omega
  · rename_i hnonneg
    have hsize : sizeT (signed 32 str.length) = (signed 32 str.length).toNat :=
      sizeT_of_lt (not_lt.mp hnonneg) hhigh
    have hlen : (str.take (signed 32 str.length).toNat).length = (signed 32 str.length).toNat := by
      rw [List.length_take]
      omega
    have happend := h.append (str.take (signed 32 str.length).toNat)
    rw [hlen] at happend
    rw [hsize]
    exact happend

/-- Each item is appended whole if there is the room that is asked for, and left out if not. -/
theorem Inv.put (h : s.Inv) (item : LogItem) : s.Takes item.need item.text (s.put item) := by
  cases item with
  | bool v => exact h.append _
  | short v =>
    have htext : IntType.toInt .int (v.signExtend 32) = v.toInt := BitVec.toInt_signExtend_of_le (by decide)
    show s.Takes kMaxNumericSize (decimalText v.toInt) _
    rw [← htext]
    exact h.formatInteger .int (v.signExtend 32)
  | unsignedShort v =>
    have htext : IntType.toInt .unsignedInt (v.setWidth 32) = v.toNat :=
      congrArg Int.ofNat (BitVec.toNat_setWidth_of_le (by decide))
    show s.Takes kMaxNumericSize (decimalText v.toNat) _
    rw [← htext]
    exact h.formatInteger .unsignedInt (v.setWidth 32)
  | integer t v => exact h.formatInteger t v
  | pointer p => exact h.pointer p
  | char v => exact h.append [v]
  | cstring str =>
    cases str with
    | some str => exact h.append _
    | none => exact h.append _
  | string v => exact h.append v
  | piece str => exact h.piece str

/-- The items of a run that are appended whole, where the others ask for more than is left. -/
inductive Keeps : LogStream → List LogItem → List LogItem → Prop
  | nil (s : LogStream) : Keeps s [] []
  | whole {s : LogStream} {item : LogItem} {items kept : List LogItem}
      (htext : (s.put item).mBuffer.unread = s.mBuffer.unread ++ item.text)
      (hrest : Keeps (s.put item) items kept) : Keeps s (item :: items) (item :: kept)
  | leftOut {s : LogStream} {item : LogItem} {items kept : List LogItem}
      (hsame : (s.put item).mBuffer.unread = s.mBuffer.unread)
      (hneed : kBufferSize - s.mBuffer.unread.length < item.need)
      (hrest : Keeps (s.put item) items kept) : Keeps s (item :: items) kept

/-- No byte is written past the end, and what `mOutput` receives is the texts of some of the
items, in order, and a newline. -/
structure Framed (mem : Bytes) (items : List LogItem) : Prop where
  inside : ∀ w ∈ ((new mem).run items).destroy.writes, w.stop ≤ kBufferSize
  record : ∃ kept, kept.Sublist items ∧ Keeps (new mem) items kept ∧
    ((new mem).run items).output = kept.flatMap LogItem.text ++ ascii "\n"

theorem Keeps.sublist {items kept : List LogItem} (h : Keeps s items kept) : kept.Sublist items := by
  induction h with
  | nil s => exact .slnil
  | whole _ _ ih => exact ih.cons_cons _
  | leftOut _ _ _ ih => exact ih.cons _

theorem Keeps.unread_run {items kept : List LogItem} (h : Keeps s items kept) :
    (s.run items).mBuffer.unread = s.mBuffer.unread ++ kept.flatMap LogItem.text := by
  induction h with
  | nil s => exact (List.append_nil _).symm
  | @whole s item items kept htext _ ih =>
    rw [List.flatMap_cons, ← List.append_assoc, ← htext]
    exact ih
  | @leftOut s item items kept hsame _ _ ih =>
    rw [← hsame]
    exact ih

theorem Inv.run (h : s.Inv) (items : List LogItem) : (s.run items).Inv := by
  induction items generalizing s with
  | nil => exact h
  | cons item items ih => exact ih (h.put item).inv

theorem Inv.keeps (h : s.Inv) (items : List LogItem) : ∃ kept, Keeps s items kept := by
  induction items generalizing s with
  | nil => exact ⟨[], .nil s⟩
  | cons item items ih =>
    obtain ⟨hinv, htaken, hleft⟩ := h.put item
    obtain ⟨kept, hkept⟩ := ih hinv
    by_cases hfit : item.need ≤ kBufferSize - s.mBuffer.used
    · exact ⟨item :: kept, .whole (htaken hfit) hkept⟩
    · refine ⟨kept, .leftOut (hleft hfit) ?_ hkept⟩
      rw [h.ok.unread_length]
      exact not_le.mp hfit

/-- The buffer holds as many bytes as the record of what fits. -/
theorem Inv.used_run (h : s.Inv) (items : List LogItem) :
    (s.run items).mBuffer.used = LogItem.recordLength s.mBuffer.used items := by
  induction items generalizing s with
  | nil => rfl
  | cons item items ih =>
    obtain ⟨hinv, htaken, hleft⟩ := h.put item
    have hused : (s.put item).mBuffer.used =
        if item.need ≤ kBufferSize - s.mBuffer.used then s.mBuffer.used + item.text.length
        else s.mBuffer.used := by
      rw [← hinv.ok.unread_length, ← h.ok.unread_length]
      split
      · rename_i hfit
        rw [h.ok.unread_length] at hfit
        rw [htaken hfit, List.length_append]
      · rename_i hlarge
        rw [h.ok.unread_length] at hlarge
        rw [hleft hlarge]
    rw [LogItem.recordLength, ← hused]
    exact ih hinv

variable {mem : Bytes}

theorem unread_new (hmem : mem.length = kBufferSize) : (new mem).mBuffer.unread = [] :=
  FixedBuffer.unread_fresh (by rw [hmem]; decide)

theorem used_run_new (hmem : mem.length = kBufferSize) (items : List LogItem) :
    ((new mem).run items).mBuffer.used = LogItem.recordLength 0 items := by
  have hnew := inv_new hmem
  have hstart : (new mem).mBuffer.used = 0 := by rw [← hnew.ok.unread_length, unread_new hmem, List.length_nil]
  exact (hnew.used_run items).trans (by rw [hstart])

theorem framed_of_room (hmem : mem.length = kBufferSize) {items : List LogItem}
    (hroom : LogItem.recordLength 0 items ≠ kBufferSize) : Framed mem items := by
  have hnew := inv_new hmem
  have hrun := hnew.run items
  have hle := hrun.ok.used_le
  have hnewline : (ascii "\n").length = 1 := rfl
  obtain ⟨hinv, htaken, _⟩ := hrun.append (ascii "\n")
  obtain ⟨kept, hkept⟩ := hnew.keeps items
  rw [hrun.cap] at hle
  rw [← used_run_new hmem] at hroom
  refine ⟨hinv.inside, kept, hkept.sublist, hkept, ?_⟩
  rw [output, destroy, htaken (by omega), hkept.unread_run, unread_new hmem, List.nil_append]

theorem Framed.room (hmem : mem.length = kBufferSize) {items : List LogItem} (h : Framed mem items) :
    LogItem.recordLength 0 items ≠ kBufferSize := by
  intro hfull
  have hnewline : (ascii "\n").length = 1 := rfl
  obtain ⟨_, _, hleft⟩ := ((inv_new hmem).run items).append (ascii "\n")
  obtain ⟨kept, _, hkept, houtput⟩ := h.record
  rw [← used_run_new hmem] at hfull
  -- the newline has been refused
  rw [output, destroy, hleft (by omega), hkept.unread_run, unread_new hmem, List.nil_append] at houtput
  have hlen := congrArg List.length houtput
  rw [List.length_append, hnewline] at hlen
  omega

/-- A record is well framed if and only if what fits of the items does not fill the buffer. -/
theorem framed_iff (mem : Bytes) (hmem : mem.length = kBufferSize) (items : List LogItem) :
    Framed mem items ↔ LogItem.recordLength 0 items ≠ kBufferSize :=
  ⟨fun h => h.room hmem, framed_of_room hmem⟩

/-- A record in which a number does not fit behind a long string, and a short string does. -/
theorem framed_iff_number :
    Framed (List.replicate 1024 0)
        [.string (List.replicate 1000 120), .integer .int (BitVec.ofInt 32 (-7)), .cstring (some [120, 0])] :=
  (framed_iff (List.replicate 1024 0) List.length_replicate _).mpr (by decide +kernel)

/-- Whatever is logged. -/
def AlwaysFramed : Prop := ∀ (mem : Bytes) (items : List LogItem), mem.length = kBufferSize → Framed mem items

/-- A string as long as the buffer. -/
theorem alwaysFramed_full : ¬ AlwaysFramed := by
  intro hclaim
  refine (hclaim (List.replicate 1024 0) [.string (List.replicate 1024 120)] List.length_replicate).room
    List.length_replicate ?_
  simp only [LogItem.recordLength, LogItem.need, LogItem.text, List.length_replicate]
  rfl

end LogStream
end Knpnl.Base
