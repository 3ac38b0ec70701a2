import EnumWire.Proofs.Wire.TagWord
import EnumWire.Proofs.Wire.VarintWriting
import EnumWire.Wire.Output

/-! # Reading where something has been written

A write appends as many bytes as its size says, wherever the output stands. An input that is placed
before these bytes, with anything behind them, takes them back and stops right after them. -/
namespace EnumWire.Wire

/-! ### Words and their sizes -/

namespace Varint

theorem word64_encode (v : UInt64) : word64 (encode v) = v := by
  rw [word64, value_encode, UInt64.ofNat_toNat]

theorem ofInt32_of_nonneg {v : Int32} (h : 0 ≤ v) : ofInt32 v = v.toUInt32.toUInt64 := by
  have hzero : (0 : Int32).toInt = 0 := rfl
  have hmsb : v.toBitVec.msb = false := by
    rw [BitVec.msb_eq_toInt, decide_eq_false_iff_not, Int.not_lt]
    rw [Int32.le_iff_toInt_le, hzero] at h
    exact h
  apply UInt64.eq_of_toBitVec_eq
  exact BitVec.signExtend_eq_setWidth_of_msb_false hmsb

/-- Where the sign extends by zeros, the two ways of writing an integer are the same. -/
theorem encodeInt32_eq (v : Int32) : encodeInt32 v = encode (ofInt32 v) := by
  rw [encodeInt32]
  split
  · rename_i h
    rw [ofInt32_of_nonneg h]
  · rfl

theorem int32Size_eq_maxSize_iff (v : Int32) : int32Size v = maxSize ↔ v < 0 := by
  rw [← Int32.not_le]
  constructor
  · intro hten hle
    have hfive := (length_encode_le_iff 4 v.toUInt32.toUInt64).mpr
      (Nat.lt_of_lt_of_le v.toUInt32.toNat_lt (by decide))
    rw [int32Size, if_pos hle, size32_eq] at hten
    rw [hten] at hfive
    exact absurd hfive (by decide)
  · intro hneg
    rw [int32Size, if_neg hneg]

end Varint

namespace Tag

/-- The bits of the wire type lie below the first seven bits that the size of a tag goes by. -/
theorem size32_make (number : UInt32) (w : WireType) :
    Varint.size32 (make number w) = Tag.size number := by
  rw [Tag.size, Varint.size32_eq, Varint.size32_eq]
  have hcode := w.toNat_code_lt
  have hle (k : Nat) : (Varint.encode (make number w).toUInt64).length ≤ k + 1 ↔
      (Varint.encode (make number .varint).toUInt64).length ≤ k + 1 := by
    have hpow : 2 ^ (7 * (k + 1)) = 8 * 2 ^ (7 * k + 4) := by
      rw [show 7 * (k + 1) = 3 + (7 * k + 4) by omega, Nat.pow_add]
    have hvarint : WireType.varint.code.toNat = 0 := rfl
    rw [Varint.length_encode_le_iff, Varint.length_encode_le_iff, UInt32.toNat_toUInt64,
      UInt32.toNat_toUInt64, toNat_make, toNat_make, hvarint, hpow]
    omega
  have hpos := Varint.length_encode_pos (make number w).toUInt64
  have hpos' := Varint.length_encode_pos (make number .varint).toUInt64
  have hforth := (hle ((Varint.encode (make number .varint).toUInt64).length - 1)).mpr (by omega)
  have hback := (hle ((Varint.encode (make number w).toUInt64).length - 1)).mp (by omega)
  omega

theorem length_encode (number : UInt32) (w : WireType) :
    (Varint.encode (make number w).toUInt64).length = Tag.size number := by
  rw [← Varint.size32_eq, size32_make]

end Tag

/-! ### Writes in an output -/

namespace Output

/-- The output keeps its bytes and takes so many more. -/
def Appends (out : Output) (w : Write) (count : Nat) : Prop :=
  ∃ written : Bytes, written.length = count ∧ (out.write w).bytes = out.bytes ++ written

/-- The input before the bytes of a write, with any bytes behind them and a limit that is not before
their end. -/
def inputBefore (out : Output) (w : Write) (behind : Bytes) (room : Nat) : Input where
  bytes := ((out.write w).bytes ++ behind).toArray
  pos := out.size
  limit := (out.write w).size + room

/-- The input right after the bytes of a write. -/
def inputAfter (out : Output) (w : Write) (behind : Bytes) (room : Nat) : Input :=
  { out.inputBefore w behind room with pos := (out.write w).size }

variable (out : Output) (w : Write) (behind : Bytes) (room : Nat)

theorem appends_length : out.Appends w w.bytes.length := ⟨w.bytes, rfl, rfl⟩

theorem size_write : (out.write w).size = out.size + w.bytes.length := by
  rw [size, bytes_write, List.length_append, size]

theorem pending_inputBefore :
    (out.inputBefore w behind room).pending = w.bytes ++ behind.take room := by
  have hleft : (out.inputBefore w behind room).left = w.bytes.length + room := by
    simp only [inputBefore, Input.left, size_write]
    omega
  rw [Input.pending, hleft, inputBefore, List.toList_toArray, bytes_write, List.append_assoc, size,
    List.drop_left, List.take_length_add_append]

theorem advance_inputBefore :
    (out.inputBefore w behind room).advance w.bytes.length = out.inputAfter w behind room := by
  rw [inputAfter, size_write]
  rfl

theorem readVarint64_inputBefore (v : UInt64) :
    (out.inputBefore (.varint64 v) behind room).readVarint64 =
      (.ok v, out.inputAfter (.varint64 v) behind room) := by
  rw [Input.readVarint64_of_encoding (pending_inputBefore out (.varint64 v) behind room)
    (Varint.isEncoding_encode v), advance_inputBefore, Write.bytes, Varint.word64_encode]

theorem readInt32_inputBefore (v : Int32) :
    (out.inputBefore (.int32 v) behind room).readInt32 =
      (.ok v, out.inputAfter (.int32 v) behind room) := by
  rw [Input.readInt32_of_encoding (pending_inputBefore out (.int32 v) behind room)
    (Varint.isEncoding_encodeInt32 v), advance_inputBefore, Write.bytes, Varint.int32_encodeInt32]

/-- Each write takes the bytes that its size computation counts, and the two computations for words
agree where both apply. A signed integer is written as the word that extends its sign, in ten bytes
exactly if it is negative, and is read back from there. -/
theorem appends_computed_sizes :
    (∀ (out : Output) (v : UInt64), out.Appends (.varint64 v) (Varint.size64 v)) ∧
    (∀ (out : Output) (v : UInt32), Varint.size32 v = Varint.size64 v.toUInt64 ∧
      out.Appends (.varint32 v) (Varint.size32 v)) ∧
    (∀ (out : Output) (v : Int32) (behind : Bytes) (room : Nat),
      out.Appends (.int32 v) (Varint.int32Size v) ∧
      (out.inputBefore (.int32 v) behind room).readInt32 =
        (.ok v, out.inputAfter (.int32 v) behind room) ∧
      (out.write (.int32 v)).bytes = (out.write (.varint64 v.toInt64.toUInt64)).bytes ∧
      (Varint.int32Size v = 10 ↔ v < 0)) ∧
    ∀ (out : Output) (number : UInt32) (w : WireType),
      out.Appends (.tag number w) (Tag.size number) := by
  refine ⟨fun out v => ?_, fun out v => ⟨?_, ?_⟩, fun out v behind room => ⟨?_, ?_, ?_, ?_⟩,
    fun out number w => ?_⟩
  · rw [Varint.size64_eq]
    exact appends_length out (.varint64 v)
  · rw [Varint.size32_eq, Varint.size64_eq]
  · rw [Varint.size32_eq]
    exact appends_length out (.varint32 v)
  · rw [← Varint.length_encodeInt32]
    exact appends_length out (.int32 v)
  · exact readInt32_inputBefore out behind room v
  · exact congrArg (out.bytes ++ ·) (Varint.encodeInt32_eq v)
  · exact Varint.int32Size_eq_maxSize_iff v
  · rw [← Tag.length_encode number w]
    exact appends_length out (.tag number w)

end Output
end EnumWire.Wire
