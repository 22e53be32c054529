import Mathlib

/-! Streams of items of one width, as `fwrite` and `fread` see them, and the
little-endian layout of the words. -/
namespace WordStream

/-- A layout of the items of `α` in `width` cells each. -/
structure Layout (α β : Type*) where
  width : Nat
  encode : α → List β
  decode : List β → α
  width_pos : 0 < width
  length_encode : ∀ a, (encode a).length = width
  decode_encode : ∀ a, decode (encode a) = a

namespace Layout

variable {α β : Type*} (layout : Layout α β)

/-- The cells of a sequence of items. -/
def write (items : List α) : List β := items.flatMap layout.encode

/-- Take up to `count` items from a stream. A last item that is not complete is
consumed and lost. -/
def read : Nat → List β → List α × List β
  | 0, stream => ([], stream)
  | count + 1, stream =>
      if stream.length < layout.width then ([], [])
      else
        let (items, rest) := read count (stream.drop layout.width)
        (layout.decode (stream.take layout.width) :: items, rest)

@[simp] theorem write_cons (a : α) (items : List α) :
    layout.write (a :: items) = layout.encode a ++ layout.write items :=
  List.flatMap_cons

@[simp] theorem write_append (items later : List α) :
    layout.write (items ++ later) = layout.write items ++ layout.write later :=
  List.flatMap_append

/-- What was written is read back, and the reader stands behind it. -/
theorem read_write (items : List α) (rest : List β) :
    layout.read items.length (layout.write items ++ rest) = (items, rest) := by
  induction items with
  | nil => rfl
  | cons a items ih =>
      have hWidth := layout.length_encode a
      have hStream : layout.write (a :: items) ++ rest =
          layout.encode a ++ (layout.write items ++ rest) := by
        rw [write_cons, List.append_assoc]
      have hEnough : ¬ (layout.encode a ++ (layout.write items ++ rest)).length < layout.width := by
        rw [List.length_append]
        omega
      rw [hStream, List.length_cons, read, if_neg hEnough, ← hWidth, List.drop_left,
        List.take_left, ih, layout.decode_encode]

/-- A stream that has all the items loses exactly their cells. -/
theorem length_read_snd {count : Nat} {stream : List β}
    (hFull : (layout.read count stream).1.length = count) :
    (layout.read count stream).2.length + count * layout.width = stream.length := by
  induction count generalizing stream with
  | zero => exact Nat.add_eq_left.mpr (Nat.zero_mul _)
  | succ count ih =>
      rw [read] at hFull ⊢
      by_cases hShort : stream.length < layout.width
      · rw [if_pos hShort] at hFull
        exact absurd hFull (Nat.zero_ne_add_one count)
      · rw [if_neg hShort] at hFull ⊢
        have hTail := ih (Nat.succ.inj hFull)
        rw [List.length_drop] at hTail
        rw [Nat.succ_mul]
        dsimp only
        omega

/-- At the end of the stream nothing is read. -/
theorem read_nil (count : Nat) : layout.read count [] = ([], []) := by
  cases count with
  | zero => rfl
  | succ count => exact if_pos layout.width_pos

/-- The item with this number. -/
def item (stream : List β) (i : Nat) : α :=
  layout.decode ((stream.drop (i * layout.width)).take layout.width)

theorem item_drop (stream : List β) (count i : Nat) :
    layout.item (stream.drop (count * layout.width)) i = layout.item stream (count + i) := by
  rw [item, List.drop_drop, ← Nat.add_mul, item]

/-- A stream that is long enough delivers all the items. -/
theorem read_of_le {count : Nat} {stream : List β} (hLong : count * layout.width ≤ stream.length) :
    layout.read count stream =
      ((List.range count).map (layout.item stream), stream.drop (count * layout.width)) := by
  induction count generalizing stream with
  | zero => rw [Nat.zero_mul]; rfl
  | succ count ih =>
      rw [Nat.succ_mul] at hLong
      have hFirst : ¬ stream.length < layout.width := by omega
      have hRest : count * layout.width ≤ (stream.drop layout.width).length := by
        rw [List.length_drop]
        omega
      have hShift : layout.item (stream.drop layout.width) = layout.item stream ∘ Nat.succ := by
        funext i
        have hDrop := layout.item_drop stream 1 i
        rwa [Nat.one_mul, Nat.add_comm] at hDrop
      rw [read, if_neg hFirst, ih hRest, hShift, List.drop_drop, List.range_succ_eq_map,
        List.map_cons, List.map_map, Nat.succ_mul, Nat.add_comm layout.width, item, Nat.zero_mul,
        List.drop_zero]

end Layout

section LittleEndian

/-- The `width` bytes of a number, the least significant first. -/
def bytesOf : Nat → Nat → List (BitVec 8)
  | 0, _ => []
  | width + 1, n => BitVec.ofNat 8 n :: bytesOf width (n / 256)

/-- The number with these bytes. -/
def ofBytes (bytes : List (BitVec 8)) : Nat :=
  bytes.foldr (fun byte n => byte.toNat + 256 * n) 0

theorem length_bytesOf (width n : Nat) : (bytesOf width n).length = width := by
  induction width generalizing n with
  | zero => rfl
  | succ width ih => exact congrArg (· + 1) (ih (n / 256))

theorem ofBytes_bytesOf (width n : Nat) : ofBytes (bytesOf width n) = n % 256 ^ width := by
  induction width generalizing n with
  | zero => exact (Nat.mod_one n).symm
  | succ width ih =>
      have hByte : (BitVec.ofNat 8 n).toNat = n % 256 := BitVec.toNat_ofNat n 8
      change (BitVec.ofNat 8 n).toNat + 256 * ofBytes (bytesOf width (n / 256)) = _
      rw [ih, hByte, Nat.pow_succ', Nat.mod_mul]

/-- Words of `width` bytes, as a little-endian machine stores them. -/
def littleEndian (width : Nat) (hPos : 0 < width) : Layout (BitVec (8 * width)) (BitVec 8) where
  width := width
  encode w := bytesOf width w.toNat
  decode bytes := BitVec.ofNat (8 * width) (ofBytes bytes)
  width_pos := hPos
  length_encode w := length_bytesOf width w.toNat
  decode_encode w := by
    have hRange : w.toNat < 256 ^ width := by
      rw [show 256 = 2 ^ 8 from rfl, ← Nat.pow_mul]
      exact w.isLt
    rw [ofBytes_bytesOf, Nat.mod_eq_of_lt hRange, BitVec.ofNat_toNat, BitVec.setWidth_eq]

end LittleEndian

end WordStream
