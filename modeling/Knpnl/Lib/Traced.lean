import Knpnl.Lib.CString

/-!
# Programs with the places they touch

A result comes with the list of the places that were read or overwritten on the way to it.
Sequencing joins the lists, so a bound on the places of a program is proved piece by piece. The
memory is a list of bytes, and a function that takes a C string may read the string and its
terminator.
-/
namespace Knpnl.Lib

universe u

structure Traced (ι α : Type u) where
  val : α
  touched : List ι

namespace Traced

variable {ι κ α β : Type u}

instance : Monad (Traced ι) where
  pure a := ⟨a, []⟩
  bind t f := ⟨(f t.val).val, t.touched ++ (f t.val).touched⟩

@[simp] theorem val_pure (a : α) : (pure a : Traced ι α).val = a := rfl

@[simp] theorem val_bind (t : Traced ι α) (f : α → Traced ι β) : (t >>= f).val = (f t.val).val := rfl

@[simp ↓] theorem val_ite {c : Prop} [Decidable c] (s t : Traced ι α) :
    (if c then s else t).val = if c then s.val else t.val := apply_ite val c s t

/-- Every place that is touched satisfies `P`. -/
def Within (t : Traced ι α) (P : ι → Prop) : Prop := ∀ p ∈ t.touched, P p

variable {P Q : ι → Prop}

@[simp] theorem within_pure (a : α) : (pure a : Traced ι α).Within P := fun _ h => (by cases h)

@[simp] theorem within_bind (t : Traced ι α) (f : α → Traced ι β) :
    (t >>= f).Within P ↔ t.Within P ∧ (f t.val).Within P := by
  show (∀ p ∈ t.touched ++ (f t.val).touched, P p) ↔ _
  simp only [List.mem_append, or_imp, forall_and]
  rfl

theorem within_ite {c : Prop} [Decidable c] {s t : Traced ι α} (hs : c → s.Within P)
    (ht : ¬ c → t.Within P) : (if c then s else t).Within P := by
  split
  · exact hs ‹_›
  · exact ht ‹_›

theorem Within.mono {t : Traced ι α} (h : t.Within P) (hPQ : ∀ p, P p → Q p) : t.Within Q :=
  fun p hp => hPQ p (h p hp)

/-- The same places under other addresses. -/
def relocate (f : ι → κ) (t : Traced ι α) : Traced κ α := ⟨t.val, t.touched.map f⟩

@[simp] theorem val_relocate (f : ι → κ) (t : Traced ι α) : (t.relocate f).val = t.val := rfl

theorem within_relocate {P : κ → Prop} (f : ι → κ) (t : Traced ι α) :
    (t.relocate f).Within P ↔ t.Within fun p => P (f p) := by
  simp [Within, relocate]

end Traced

namespace CString

def readAt (text : Bytes) (i : Nat) : Traced Nat UInt8 := ⟨text.getD i 0, [i]⟩

def writeAt (text : Bytes) (i : Nat) (c : UInt8) : Traced Nat Bytes := ⟨text.set i c, [i]⟩

/-- The string at `text + off`, as any function of the C library may read it. -/
def stringAt (text : Bytes) (off : Nat) : Traced Nat Bytes :=
  ⟨cstr (text.drop off), List.range' off ((cstr (text.drop off)).length + 1)⟩

/-- The first `n` bytes, NULs included. -/
def readN (text : Bytes) (n : Nat) : Traced Nat Bytes := ⟨text.take n, List.range n⟩

@[simp] theorem val_readAt (text : Bytes) (i : Nat) : (readAt text i).val = text.getD i 0 := rfl

@[simp] theorem val_writeAt (text : Bytes) (i : Nat) (c : UInt8) :
    (writeAt text i c).val = text.set i c := rfl

@[simp] theorem val_stringAt (text : Bytes) (off : Nat) :
    (stringAt text off).val = cstr (text.drop off) := rfl

@[simp] theorem val_readN (text : Bytes) (n : Nat) : (readN text n).val = text.take n := rfl

variable {P : Nat → Prop}

@[simp] theorem within_readAt (text : Bytes) (i : Nat) : (readAt text i).Within P ↔ P i := by
  simp [readAt, Traced.Within]

@[simp] theorem within_writeAt (text : Bytes) (i : Nat) (c : UInt8) : (writeAt text i c).Within P ↔ P i := by
  simp [writeAt, Traced.Within]

theorem within_readN (text : Bytes) (n : Nat) : (readN text n).Within (· < n) := by
  simp [readN, Traced.Within]

/-- A terminator for every string that begins at `m` or before. -/
def NulAt (text : Bytes) (m : Nat) : Prop := text[m]? = some 0

namespace NulAt

variable {text : Bytes} {m off : Nat}

theorem set (h : NulAt text m) (i : Nat) : NulAt (text.set i 0) m := by
  unfold NulAt at h ⊢
  rw [List.getElem?_set]
  split
  · rw [if_pos (by rename_i heq; subst heq; exact (List.getElem?_eq_some_iff.mp h).1)]
  · exact h

/-- A string ends at the terminator, or before. -/
theorem cstr_length_le (h : NulAt text m) (hoff : off ≤ m) : off + (cstr (text.drop off)).length ≤ m := by
  by_contra hlt
  have hin : m - off < (cstr (text.drop off)).length := by omega
  have hprefix : cstr (text.drop off) <+: text.drop off := List.takeWhile_prefix _
  have hbyte : (cstr (text.drop off))[m - off]? = some 0 := by
    rw [List.getElem?_eq_getElem hin, hprefix.getElem hin, ← List.getElem?_eq_getElem,
      List.getElem?_drop, Nat.add_sub_cancel' hoff]
    exact h
  exact nulFree_cstr _ (List.mem_of_getElem? hbyte)

theorem stringAt (h : NulAt text m) (hoff : off ≤ m) : (stringAt text off).Within (· ≤ m) := by
  intro p hp
  have hle := h.cstr_length_le hoff
  obtain ⟨hlo, hhi⟩ := List.mem_range'_1.mp hp
  omega

end NulAt

/-- A string that is read stays in the text only if there is a terminator for it. -/
theorem within_stringAt_iff (text : Bytes) (off : Nat) :
    (stringAt text off).Within (· < text.length) ↔ 0 ∈ text.drop off := by
  have hlast : off + (cstr (text.drop off)).length ∈ (stringAt text off).touched :=
    List.mem_range'_1.mpr ⟨Nat.le_add_right _ _, by omega⟩
  constructor
  · intro hwithin
    by_contra hfree
    have hlt : off + (cstr (text.drop off)).length < text.length := hwithin _ hlast
    rw [cstr_of_nulFree hfree, List.length_drop] at hlt
    omega
  · intro hnul p hp
    obtain ⟨t, ht⟩ := exists_eq_cstr_append hnul
    have hlen := congrArg List.length ht
    rw [List.length_append, List.length_cons, List.length_drop] at hlen
    obtain ⟨_, hhi⟩ := List.mem_range'_1.mp hp
    omega

end CString
end Knpnl.Lib
