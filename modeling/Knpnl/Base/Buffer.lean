import Knpnl.Lib.CString

/-!
# `base/Buffer`: the byte buffer of a connection

Pointers are offsets from `_buf`, and `cap` is `_end - _buf`. The order
`_buf <= mReadPtr <= mWritePtr <= _end` of the header is not built in: it is `Ok`,
and the operations are shown to keep it. Each operation also reports the regions it
writes, and `readFd` reports the `recv` calls it makes.
-/
namespace Knpnl.Base

open Lib.CString (Bytes)

/-- `static_cast<size_t>` of a pointer difference. -/
def sizeT (z : Int) : Nat := (z % 2 ^ 64).toNat

theorem sizeT_of_lt {z : Int} (h0 : 0 ≤ z) (h : z < 2 ^ 31) : sizeT z = z.toNat := by
  unfold sizeT
  rw [Int.emod_eq_of_lt h0 (by omega)]

/-- Conversion to a signed integer of `w` bits. -/
def signed (w : Nat) (z : Int) : Int := z.bmod (2 ^ w)

theorem signed_of_lt {n : Nat} (h : n < 2 ^ 31) : signed 32 n = n := by
  unfold signed
  exact Int.bmod_eq_of_le (by omega) (by omega)

/-- A length is not made longer. -/
theorem signed_le (n : Nat) : signed 32 n ≤ n := by
  unfold signed
  rw [Int.bmod_def]
  omega

structure FixedBuffer where
  mem : Bytes
  cap : Nat
  mReadPtr : Int
  mWritePtr : Int
  deriving DecidableEq

/-- A region of `_buf` that an operation writes. -/
inductive Write where
  | copyIn (dst : Int) (len : Nat)
  | move (dst src : Int) (len : Nat)
  | recvInto (dst : Int) (len : Nat)

/-- The offset just past the region. -/
def Write.stop : Write → Int
  | .copyIn dst len | .move dst _ len | .recvInto dst len => dst + len

namespace FixedBuffer

def kBufferSize : Nat := 1024

/-- `new char[kBufferSize]`: the contents of `mem` are whatever the allocator left. -/
def fresh (mem : Bytes) : FixedBuffer := ⟨mem, mem.length, 0, 0⟩

def used (b : FixedBuffer) : Nat := sizeT (b.mWritePtr - b.mReadPtr)

def avail (b : FixedBuffer) : Nat := sizeT ((b.cap : Int) - b.used)

/-- `_end - mWritePtr` -/
def tail (b : FixedBuffer) : Nat := sizeT (b.cap - b.mWritePtr)

def reset (b : FixedBuffer) : FixedBuffer := { b with mReadPtr := 0, mWritePtr := 0 }

/-- The pointer is moved before the test, so a refused move is not undone. -/
def readPtrMove (b : FixedBuffer) (len : Int) : Int × FixedBuffer :=
  let temp := b.mReadPtr + len
  let b := { b with mReadPtr := temp }
  if 0 ≤ temp ∧ temp ≤ b.mWritePtr then (0, b) else (-1, b)

/-- The length is compared with all the free space, and not with the tail. -/
def add (b : FixedBuffer) (len : Nat) : Int × FixedBuffer :=
  if len > b.avail then (-1, b) else (signed 32 len, { b with mWritePtr := b.mWritePtr + len })

/-- The bytes from `readPtr()` to the end of the allocation. -/
def text (b : FixedBuffer) : Bytes := b.mem.drop b.mReadPtr.toNat

/-- Overwrite the bytes from `readPtr()` on. -/
def setText (b : FixedBuffer) (t : Bytes) : FixedBuffer :=
  { b with mem := b.mem.take b.mReadPtr.toNat ++ t }

/-- The bytes between the two pointers. -/
def unread (b : FixedBuffer) : Bytes := b.text.take b.used

/-- Store bytes from an offset on. A store past the end makes the memory longer. -/
def poke (mem : Bytes) (dst : Int) (bs : Bytes) : Bytes :=
  mem.take dst.toNat ++ bs ++ mem.drop (dst.toNat + bs.length)

/-- Bytes stored at `mWritePtr`, and the pointer moved past them. -/
def put (b : FixedBuffer) (bs : Bytes) : FixedBuffer :=
  { b with mem := poke b.mem b.mWritePtr bs, mWritePtr := b.mWritePtr + bs.length }

/-- The unread bytes moved to the front, read as they were before the move. -/
def compact (b : FixedBuffer) : FixedBuffer :=
  { b with mem := poke b.mem 0 b.unread, mReadPtr := 0, mWritePtr := b.used }

structure AppendOut where
  ret : Int
  buf : FixedBuffer
  writes : List Write

def append (b : FixedBuffer) (str : Bytes) : AppendOut :=
  if b.tail > str.length then
    ⟨str.length, b.put str, [.copyIn b.mWritePtr str.length]⟩
  else if b.avail ≥ str.length then
    ⟨str.length, b.compact.put str,
      [.move 0 b.mReadPtr b.used, .copyIn b.compact.mWritePtr str.length]⟩
  else ⟨0, b, []⟩

/-- The length of a `StringPiece` is an `int`. -/
def appendPiece (b : FixedBuffer) (str : Bytes) : FixedBuffer :=
  let length_ := signed 32 str.length
  if length_ < 0 then b else (b.append (str.take length_.toNat)).buf

end FixedBuffer

/-- One answer of `recv`. No bytes means that the peer has closed. -/
inductive Recv where
  | data (bs : Bytes)
  | eagain
  | error
  deriving DecidableEq

/-- What stays in the socket when `len` of the bytes `bs` are taken. -/
def leave (bs : Bytes) (len : Nat) (rest : List Recv) : List Recv :=
  if bs.length ≤ len then rest else .data (bs.drop len) :: rest

/-- One call asking for `len` bytes: the front of the next answer is returned. A
socket with no further answer has nothing to read. -/
def recv (len : Nat) : List Recv → Recv × List Recv
  | [] => (.eagain, [])
  | .data bs :: rest => (.data (bs.take len), leave bs len rest)
  | r :: rest => (r, rest)

/-- Why `readFd` returned. -/
inductive ReadEnd where
  | full
  | drained
  | closed
  | failed
  | unfinished
  deriving DecidableEq

/-- The state of the loop in `readFd`, with a record of what it did. -/
structure ReadLoop where
  buf : FixedBuffer
  script : List Recv
  received : Bytes
  recvs : Nat
  moves : Nat
  writes : List Write

namespace ReadLoop

def compact (s : ReadLoop) : ReadLoop :=
  { s with
    buf := s.buf.compact
    moves := s.moves + 1
    writes := s.writes ++ [.move 0 s.buf.mReadPtr s.buf.used] }

/-- A call of `recv` that brought `bs` and left `rest` in the socket. -/
def took (s : ReadLoop) (bs : Bytes) (rest : List Recv) : ReadLoop :=
  { buf := s.buf.put bs
    script := rest
    received := s.received ++ bs
    recvs := s.recvs + 1
    moves := s.moves
    writes := s.writes ++ [.recvInto s.buf.mWritePtr s.buf.tail] }

/-- A call of `recv` that brought nothing. -/
def none (s : ReadLoop) (rest : List Recv) : ReadLoop :=
  { s with
    script := rest
    recvs := s.recvs + 1
    writes := s.writes ++ [.recvInto s.buf.mWritePtr s.buf.tail] }

/-- `while(avail()>0)`, at most `fuel` times round. -/
def run : Nat → ReadLoop → ReadEnd × ReadLoop
  | 0, s => (.unfinished, s)
  | fuel + 1, s =>
      if s.buf.avail > 0 then
        if s.buf.tail = 0 then run fuel s.compact
        else match recv s.buf.tail s.script with
          | (.eagain, rest) => (.drained, s.none rest)
          | (.error, rest) => (.failed, s.none rest)
          | (.data [], rest) => (.closed, s.none rest)
          | (.data (c :: bs), rest) => run fuel (s.took (c :: bs) rest)
      else (.full, s)

end ReadLoop

structure ReadOut where
  ret : Int
  ended : ReadEnd
  last : ReadLoop

namespace FixedBuffer

def startRead (b : FixedBuffer) (script : List Recv) : ReadLoop := ⟨b, script, [], 0, 0, []⟩

def readFd (b : FixedBuffer) (script : List Recv) : ReadOut :=
  if b.avail = 0 then ⟨0, .full, b.startRead script⟩
  else
    let last_used := b.used
    let r := (b.startRead script).run (b.avail + 2)
    match r.1 with
    | .failed | .closed => ⟨-1, r.1, r.2⟩
    | e => ⟨(r.2.buf.used : Int) - last_used, e, r.2⟩

/-- The order promised in the header. The capacity is a C++ `int`. -/
structure Ok (b : FixedBuffer) : Prop where
  mem_length : b.mem.length = b.cap
  cap_int : b.cap < 2 ^ 31
  start_le : 0 ≤ b.mReadPtr
  ordered : b.mReadPtr ≤ b.mWritePtr
  le_end : b.mWritePtr ≤ b.cap

theorem readPtrMove_snd (b : FixedBuffer) (n : Int) :
    (b.readPtrMove n).2 = { b with mReadPtr := b.mReadPtr + n } := by
  unfold readPtrMove
  dsimp only
  split <;> rfl

theorem add_of_le {b : FixedBuffer} {len : Nat} (h : len ≤ b.avail) :
    b.add len = (signed 32 len, { b with mWritePtr := b.mWritePtr + len }) := if_neg (by omega)

theorem add_of_lt {b : FixedBuffer} {len : Nat} (h : b.avail < len) : b.add len = (-1, b) := if_pos h

theorem fresh_ok {mem : Bytes} (h : mem.length < 2 ^ 31) : (fresh mem).Ok :=
  ⟨rfl, h, by simp [fresh], by simp [fresh], by simp [fresh]⟩

namespace Ok

variable {b : FixedBuffer}

theorem used_eq (h : b.Ok) : b.used = (b.mWritePtr - b.mReadPtr).toNat := by
  obtain ⟨_, hc, h0, ho, he⟩ := h
  exact sizeT_of_lt (by omega) (by omega)

theorem used_le (h : b.Ok) : b.used ≤ b.cap := by
  have hu := h.used_eq
  obtain ⟨_, _, h0, ho, he⟩ := h
  omega

theorem avail_eq (h : b.Ok) : b.avail = b.cap - b.used := by
  have hu := h.used_le
  have hc := h.cap_int
  unfold avail
  rw [sizeT_of_lt (by omega) (by omega)]
  omega

theorem tail_eq (h : b.Ok) : b.tail = (b.cap - b.mWritePtr).toNat := by
  obtain ⟨_, hc, h0, ho, he⟩ := h
  exact sizeT_of_lt (by omega) (by omega)

theorem tail_le_avail (h : b.Ok) : b.tail ≤ b.avail := by
  rw [h.tail_eq, h.avail_eq, h.used_eq]
  obtain ⟨_, _, h0, ho, he⟩ := h
  omega

theorem text_length (h : b.Ok) : b.text.length = b.cap - b.mReadPtr.toNat := by
  simp [text, h.mem_length]

theorem unread_length (h : b.Ok) : b.unread.length = b.used := by
  have hu := h.used_eq
  obtain ⟨hm, _, h0, ho, he⟩ := h
  simp only [unread, text, List.length_take, List.length_drop, hm]
  omega

/-- The loop of `processRead` ends when nothing is unread. -/
theorem unread_eq_nil (h : b.Ok) (hused : b.used = 0) : b.unread = [] :=
  List.eq_nil_of_length_eq_zero (h.unread_length.trans hused)

theorem text_eq (_h : b.Ok) : b.text = b.unread ++ b.text.drop b.used :=
  (List.take_append_drop _ _).symm

/-- Bytes overwritten in place leave the pointers alone. -/
theorem setText (h : b.Ok) {t : Bytes} (ht : t.length = b.text.length) :
    (b.setText t).Ok ∧ (b.setText t).text = t := by
  have hl := h.text_length
  obtain ⟨hm, hc, h0, ho, he⟩ := h
  have htake : (b.mem.take b.mReadPtr.toNat).length = b.mReadPtr.toNat := by
    rw [List.length_take, hm]; omega
  refine ⟨⟨?_, hc, h0, ho, he⟩, ?_⟩
  · simp only [FixedBuffer.setText, List.length_append, htake, ht, hl]
    omega
  · simp only [FixedBuffer.setText, text]
    exact List.drop_left' htake

theorem setText_setText (h : b.Ok) (t t' : Bytes) : (b.setText t).setText t' = b.setText t' := by
  obtain ⟨hm, _, h0, ho, he⟩ := h
  have htake : (b.mem.take b.mReadPtr.toNat).length = b.mReadPtr.toNat := by
    rw [List.length_take, hm]; omega
  simp only [FixedBuffer.setText, List.take_left' htake]

theorem reset (h : b.Ok) : b.reset.Ok :=
  ⟨h.mem_length, h.cap_int, by simp [FixedBuffer.reset], by simp [FixedBuffer.reset],
    by simp [FixedBuffer.reset]⟩

theorem unread_reset (h : b.Ok) : b.reset.unread = [] := by
  apply h.reset.unread_eq_nil
  rw [h.reset.used_eq]
  simp [FixedBuffer.reset]

/-- A move within the unread bytes is not refused. -/
theorem readPtrMove (h : b.Ok) {n : Nat} (hn : n ≤ b.used) :
    (b.readPtrMove n).1 = 0 ∧ (b.readPtrMove n).2.Ok ∧
      (b.readPtrMove n).2.unread = b.unread.drop n := by
  have hu := h.used_eq
  have hok : ({ b with mReadPtr := b.mReadPtr + n } : FixedBuffer).Ok := by
    obtain ⟨hm, hc, h0, ho, he⟩ := h
    exact ⟨hm, hc, by simp; omega, by simp; omega, he⟩
  have hu' := hok.used_eq
  obtain ⟨hm, hc, h0, ho, he⟩ := h
  have hmove : b.readPtrMove n = (0, { b with mReadPtr := b.mReadPtr + n }) := by
    simp only [FixedBuffer.readPtrMove]
    rw [if_pos (by omega)]
  rw [hmove]
  refine ⟨rfl, hok, ?_⟩
  simp only [unread, text, hu', hu, List.drop_take, List.drop_drop]
  congr 1
  · omega
  · congr 1; omega

theorem cap_readPtrMove (b : FixedBuffer) (n : Int) : (b.readPtrMove n).2.cap = b.cap := by
  rw [readPtrMove_snd]

/-- Overwriting in place and then consuming `k` bytes. -/
theorem consume (h : b.Ok) {t rest junk : Bytes} {k : Nat} (ht : t.length = b.text.length)
    (hdrop : t.drop k = rest ++ junk) (hused : b.used = k + rest.length) :
    ((b.setText t).readPtrMove k).2.Ok ∧ ((b.setText t).readPtrMove k).2.cap = b.cap ∧
      ((b.setText t).readPtrMove k).2.unread = rest := by
  obtain ⟨hok, htext⟩ := h.setText ht
  have hu : (b.setText t).used = b.used := rfl
  obtain ⟨_, hok', hunread⟩ := hok.readPtrMove (n := k) (by omega)
  refine ⟨hok', cap_readPtrMove _ _, ?_⟩
  rw [hunread, unread, htext, hu, List.drop_take, hdrop, hused, Nat.add_sub_cancel_left]
  exact List.take_left' rfl

/-- Storing at the write pointer within the free tail. -/
theorem put (h : b.Ok) {bs : Bytes} (hn : bs.length ≤ b.tail) :
    (b.put bs).Ok ∧ (b.put bs).unread = b.unread ++ bs := by
  have hu := h.used_eq
  rw [h.tail_eq] at hn
  have hok : (b.put bs).Ok := by
    obtain ⟨hm, hc, h0, ho, he⟩ := h
    refine ⟨?_, hc, h0, by simp only [FixedBuffer.put]; omega, by simp only [FixedBuffer.put]; omega⟩
    simp only [FixedBuffer.put, poke, List.length_append, List.length_take, List.length_drop, hm]
    omega
  refine ⟨hok, ?_⟩
  have hu' := hok.used_eq
  obtain ⟨hm, hc, h0, ho, he⟩ := h
  have hw : (b.mem.take b.mWritePtr.toNat).length = b.mWritePtr.toNat := by
    rw [List.length_take, hm]; omega
  have hlen : (b.put bs).used = b.used + bs.length := by
    rw [hu', hu]; simp only [FixedBuffer.put]; omega
  have hfront : (b.mem.take b.mWritePtr.toNat).drop b.mReadPtr.toNat = b.unread := by
    rw [List.drop_take, unread, text]
    congr 1
    omega
  have htext : (b.put bs).text = b.unread ++ (bs ++ b.mem.drop (b.mWritePtr.toNat + bs.length)) := by
    simp only [text, FixedBuffer.put, poke]
    rw [List.append_assoc, List.drop_append_of_le_length (by rw [hw]; omega), hfront]
  rw [unread, htext, hlen, ← List.append_assoc]
  exact List.take_left' (by simp [Ok.unread_length ⟨hm, hc, h0, ho, he⟩])

/-- Compaction keeps the unread bytes and makes all the free space the tail. -/
theorem compact (h : b.Ok) : b.compact.Ok ∧ b.compact.unread = b.unread ∧
    b.compact.used = b.used ∧ b.compact.tail = b.avail := by
  have hl := h.unread_length
  have hle := h.used_le
  have hav := h.avail_eq
  have hok : b.compact.Ok := by
    obtain ⟨hm, hc, h0, ho, he⟩ := h
    refine ⟨?_, hc, by simp [FixedBuffer.compact], by simp [FixedBuffer.compact],
      by simp only [FixedBuffer.compact]; omega⟩
    simp only [FixedBuffer.compact, poke, List.length_append, List.length_take, List.length_drop, hm, hl]
    simp
    omega
  have hused : b.compact.used = b.used := by
    rw [hok.used_eq]; simp [FixedBuffer.compact]
  refine ⟨hok, ?_, hused, ?_⟩
  · rw [unread, hused]
    simp only [text, FixedBuffer.compact, poke]
    simpa using List.take_left' hl
  · rw [hok.tail_eq, hav]
    simp only [FixedBuffer.compact]
    omega

end Ok

theorem unread_fresh {mem : Bytes} (h : mem.length < 2 ^ 31) : (fresh mem).unread = [] := by
  have hok := fresh_ok h
  apply hok.unread_eq_nil
  rw [hok.used_eq]
  simp [fresh]

end FixedBuffer
end Knpnl.Base
