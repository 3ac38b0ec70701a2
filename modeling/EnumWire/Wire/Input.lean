import EnumWire.Text.Decimal
import EnumWire.Wire.Varint

/-! # Reading: a cursor with a limit

An input is a buffer, a position and an absolute limit that no read crosses. Every read answers a
value or a `DecodeError` together with the input after it: a failed read keeps the bytes that it has
consumed. A read never moves backwards, never past the limit, and a successful one moves on. -/
namespace EnumWire.Wire

inductive DecodeError where
  | truncated (needed available : Nat)
  | malformedVarint (offset : Nat)
  | invalidTag (tag : Tag)
  | unsupportedWireType (tag : Tag)
  | limitExceeded (length available : Nat)
  deriving DecidableEq

def DecodeError.message : DecodeError → Text
  | .truncated needed available =>
    "Truncated message: need " ++ Text.ofNat needed ++ " bytes, have " ++ Text.ofNat available
  | .malformedVarint offset => "Malformed varint at offset " ++ Text.ofNat offset
  | .invalidTag tag => "Invalid tag value: " ++ Text.ofNat tag.toNat
  | .unsupportedWireType tag =>
    "Unsupported wire type " ++ Text.ofNat (Tag.wireCode tag).toNat ++ " in tag " ++
      Text.ofNat tag.toNat
  | .limitExceeded length available =>
    "Length prefix " ++ Text.ofNat length ++ " exceeds the " ++ Text.ofNat available ++
      " bytes left in the current limit"

structure Input where
  bytes : Array UInt8
  pos : Nat
  /-- Absolute offset that reads may not cross. -/
  limit : Nat
  deriving DecidableEq

/-- What a read answers, and the input after it. -/
abbrev Outcome (α : Type) := Except DecodeError α × Input

/-- Goes on with the answer of a read, or passes its failure on. -/
def Outcome.andThen {α β : Type} (outcome : Outcome α) (next : α → Input → Outcome β) : Outcome β :=
  match outcome with
  | (.error e, s) => (.error e, s)
  | (.ok a, s) => next a s

theorem Outcome.andThen_eq_ok {α β : Type} {outcome : Outcome α} {next : α → Input → Outcome β}
    {b : β} {t : Input} (h : outcome.andThen next = (.ok b, t)) :
    ∃ a u, outcome = (.ok a, u) ∧ next a u = (.ok b, t) := by
  obtain ⟨result, u⟩ := outcome
  cases result with
  | error e => simp [Outcome.andThen] at h
  | ok a => exact ⟨a, u, rfl, h⟩

namespace Input

def ofBytes (bytes : Array UInt8) : Input := ⟨bytes, 0, bytes.size⟩

/-- The number of bytes before the limit. -/
def left (s : Input) : Nat := s.limit - s.pos

def atEnd (s : Input) : Bool := s.pos = s.limit

def advance (s : Input) (count : Nat) : Input := { s with pos := s.pos + count }

/-- Back to a position that was reached before. -/
def rewind (s : Input) (position : Nat) : Input := { s with pos := position }

def readByte (s : Input) : Outcome UInt8 :=
  if s.pos < s.limit then
    match s.bytes[s.pos]? with
    | some b => (.ok b, s.advance 1)
    | none => (.error (.truncated 1 0), s)
  else (.error (.truncated 1 0), s)

/-- Reads at most `count` more groups of a varint that began at `start`; `shift` is the place of the
next group in the word and `word` holds the groups before it. -/
def readGroups (start : Nat) : (count : Nat) → (shift word : UInt64) → Input → Outcome UInt64
  | 0, _, _, s => (.error (.malformedVarint start), s)
  | count + 1, shift, word, s =>
    s.readByte.andThen fun b s =>
      let word := word ||| ((b &&& 0x7f).toUInt64 <<< shift)
      if b < 0x80 then (.ok word, s) else readGroups start count (shift + 7) word s

/-- Ten groups hold 70 bits: the six highest bits of the tenth group are lost. -/
def readVarint64 (s : Input) : Outcome UInt64 :=
  readGroups s.pos Varint.maxSize 0 0 s

/-- The low 32 bits of a varint; longer encodings are accepted. -/
def readVarint32 (s : Input) : Outcome UInt32 :=
  s.readVarint64.andThen fun v s => (.ok v.toUInt32, s)

def readInt32 (s : Input) : Outcome Int32 :=
  s.readVarint64.andThen fun v s => (.ok v.toUInt32.toInt32, s)

/-- The next tag, or 0 at the limit. -/
def readTag (s : Input) : Outcome Tag :=
  if s.atEnd then (.ok 0, s)
  else s.readVarint32.andThen fun tag s =>
    if Tag.fieldNumber tag = 0 then (.error (.invalidTag tag), s) else (.ok tag, s)

def skipBytes (count : Nat) (s : Input) : Outcome Unit :=
  if s.left < count then (.error (.truncated count s.left), s) else (.ok (), s.advance count)

/-- Skips the value that follows a tag; groups are not supported. -/
def skipField (tag : Tag) (s : Input) : Outcome Unit :=
  match Tag.wireType? tag with
  | some .varint => s.readVarint64.andThen fun _ s => (.ok (), s)
  | some .fixed64 => s.skipBytes 8
  | some .lengthDelimited => s.readVarint32.andThen fun length s => s.skipBytes length.toNat
  | some .fixed32 => s.skipBytes 4
  | _ => (.error (.unsupportedWireType tag), s)

/-- Restricts reads to the next `length` bytes; answers the limit to restore. -/
def pushLimit (length : Nat) (s : Input) : Outcome Nat :=
  if s.left < length then (.error (.limitExceeded length s.left), s)
  else (.ok s.limit, { s with limit := s.pos + length })

def popLimit (s : Input) (limit : Nat) : Input := { s with limit := limit }

/-! ### How far a read moves -/

/-- The same buffer and limit, and a position that has stayed or moved on within the limit. -/
structure Reaches (s t : Input) : Prop where
  bytes_eq : t.bytes = s.bytes
  limit_eq : t.limit = s.limit
  pos_le : s.pos ≤ t.pos
  within : t.pos = s.pos ∨ t.pos ≤ s.limit

theorem Reaches.refl (s : Input) : Reaches s s := ⟨rfl, rfl, Nat.le_refl _, Or.inl rfl⟩

theorem Reaches.trans {s t u : Input} (h : Reaches s t) (k : Reaches t u) : Reaches s u where
  bytes_eq := k.bytes_eq.trans h.bytes_eq
  limit_eq := k.limit_eq.trans h.limit_eq
  pos_le := Nat.le_trans h.pos_le k.pos_le
  within := by
    have := h.within; have := k.within; have := h.limit_eq; have := h.pos_le; have := k.pos_le
    omega

theorem Reaches.left_lt {s t : Input} (h : Reaches s t) (moved : s.pos < t.pos) : t.left < s.left := by
  have := h.within; have := h.limit_eq
  simp only [left]
  omega

/-- A read that reaches every input it leaves, and moves on when it succeeds. -/
structure Advances {α : Type} (s : Input) (outcome : Outcome α) : Prop where
  reaches : Reaches s outcome.2
  moves : outcome.1.isOk = true → s.pos < outcome.2.pos

theorem Advances.andThen {α β : Type} {s : Input} {outcome : Outcome α}
    {next : α → Input → Outcome β} (h : Advances s outcome)
    (k : ∀ a, outcome.1 = .ok a → Reaches outcome.2 (next a outcome.2).2) :
    Advances s (outcome.andThen next) := by
  obtain ⟨result, t⟩ := outcome
  cases result with
  | error e => exact ⟨h.reaches, by simp [Outcome.andThen, Except.isOk, Except.toBool]⟩
  | ok a =>
    have hk := k a rfl
    refine ⟨h.reaches.trans hk, fun _ => ?_⟩
    exact Nat.lt_of_lt_of_le (h.moves rfl) hk.pos_le

theorem advances_readByte (s : Input) : Advances s s.readByte := by
  unfold readByte
  split
  · rename_i h
    split
    · refine ⟨⟨rfl, rfl, Nat.le_succ _, Or.inr h⟩, fun _ => Nat.lt_succ_self _⟩
    · exact ⟨Reaches.refl s, by simp [Except.isOk, Except.toBool]⟩
  · exact ⟨Reaches.refl s, by simp [Except.isOk, Except.toBool]⟩

theorem reaches_readGroups (start count : Nat) (shift word : UInt64) (s : Input) :
    Reaches s (readGroups start count shift word s).2 := by
  induction count generalizing shift word s with
  | zero => exact Reaches.refl s
  | succ count ih =>
    refine (Advances.andThen (advances_readByte s) fun b _ => ?_).reaches
    dsimp only
    split
    · exact Reaches.refl _
    · exact ih _ _ _

theorem advances_readGroups (start count : Nat) (shift word : UInt64) (s : Input) :
    Advances s (readGroups start count shift word s) := by
  cases count with
  | zero => exact ⟨Reaches.refl s, by simp [readGroups, Except.isOk, Except.toBool]⟩
  | succ count =>
    refine Advances.andThen (advances_readByte s) fun b _ => ?_
    dsimp only
    split
    · exact Reaches.refl _
    · exact reaches_readGroups _ _ _ _ _

theorem advances_readVarint64 (s : Input) : Advances s s.readVarint64 :=
  advances_readGroups _ _ _ _ s

theorem advances_readVarint32 (s : Input) : Advances s s.readVarint32 :=
  (advances_readVarint64 s).andThen fun _ _ => Reaches.refl _

theorem advances_readInt32 (s : Input) : Advances s s.readInt32 :=
  (advances_readVarint64 s).andThen fun _ _ => Reaches.refl _

theorem advances_readTag {s : Input} (h : s.atEnd = false) : Advances s s.readTag := by
  simp only [readTag, h, Bool.false_eq_true, if_false]
  refine (advances_readVarint32 s).andThen fun tag _ => ?_
  split <;> exact Reaches.refl _

theorem reaches_skipBytes (count : Nat) (s : Input) : Reaches s (s.skipBytes count).2 := by
  unfold skipBytes
  split
  · exact Reaches.refl s
  · rename_i h
    refine ⟨rfl, rfl, Nat.le_add_right _ _, ?_⟩
    simp only [left, advance] at *
    omega

theorem advances_skipBytes {count : Nat} (h : 0 < count) (s : Input) :
    Advances s (s.skipBytes count) := by
  refine ⟨reaches_skipBytes count s, ?_⟩
  unfold skipBytes
  split
  · simp [Except.isOk, Except.toBool]
  · intro _
    simp only [advance]
    omega

theorem advances_skipField (tag : Tag) (s : Input) : Advances s (s.skipField tag) := by
  unfold skipField
  split
  · exact (advances_readVarint64 s).andThen fun _ _ => Reaches.refl _
  · exact advances_skipBytes (by decide) s
  · exact (advances_readVarint32 s).andThen fun _ _ => reaches_skipBytes _ _
  · exact advances_skipBytes (by decide) s
  · exact ⟨Reaches.refl s, by simp [Except.isOk, Except.toBool]⟩

end Input
end EnumWire.Wire
