import TinyScript.Text

namespace TinyScript

/-- A text with its bytes side by side, so that texts are joined in blocks and any byte is found at once. -/
structure Packed where
  bytes : ByteArray

instance : DecidableEq Packed
  | ⟨p⟩, ⟨q⟩ =>
    match ByteArray.decEq p q with
    | .isTrue same => .isTrue (congrArg Packed.mk same)
    | .isFalse different => .isFalse fun same => different (Packed.mk.inj same)

def Text.packed (t : Text) : Packed := ⟨⟨t.toArray⟩⟩

namespace Packed

def text (p : Packed) : Text := p.bytes.data.toList

def size (p : Packed) : Nat := p.bytes.size

def singleton (b : Byte) : Packed := ⟨⟨#[b]⟩⟩

instance : Append Packed := ⟨fun p q => ⟨p.bytes ++ q.bytes⟩⟩

/-- The byte at a place, if the text is long enough. -/
def get? (p : Packed) (k : Nat) : Option Byte := if h : k < p.bytes.size then some p.bytes[k] else none

/-- The text without its first byte. -/
def tail (p : Packed) : Packed := ⟨p.bytes.extract 1 p.bytes.size⟩

@[simp] theorem text_packed (t : Text) : t.packed.text = t := rfl

@[simp] theorem packed_text (p : Packed) : p.text.packed = p := rfl

@[simp] theorem text_singleton (b : Byte) : (singleton b).text = [b] := rfl

@[simp] theorem length_text (p : Packed) : p.text.length = p.size := rfl

@[simp] theorem text_append (p q : Packed) : (p ++ q).text = p.text ++ q.text :=
  ByteArray.toList_data_append

theorem get?_eq (p : Packed) (k : Nat) : p.get? k = p.text[k]? := by
  unfold get? text
  split
  · rename_i inside
    rw [Array.getElem?_toList, Array.getElem?_eq_getElem inside]
    rfl
  · rename_i outside
    exact (List.getElem?_eq_none (Nat.le_of_not_lt outside)).symm

@[simp] theorem text_tail (p : Packed) : p.tail.text = p.text.tail := by
  unfold tail text
  rw [ByteArray.data_extract, Array.toList_extract, List.extract_eq_drop_take', List.drop_one]
  exact congrArg List.tail (List.take_length ..)

end Packed

end TinyScript
