import EnumWire.Proofs.Wire.Pending
import EnumWire.Wire.Session

/-! # Reading where arithmetic can stop

The same reads once more, with nothing for an answer where a difference would fall below zero, a sum
would pass the end of the buffer, an index would lie outside of it, a position to go back to would
lie ahead, a limit to restore would be the smaller one, or a round of a loop would not come nearer to
the limit. In bounds none of this comes up. -/
namespace EnumWire.Wire.Guarded

def andThen {α β : Type} (guarded : Option (Outcome α)) (next : α → Input → Option (Outcome β)) :
    Option (Outcome β) :=
  match guarded with
  | none => none
  | some (.error e, s) => some (.error e, s)
  | some (.ok a, s) => next a s

def left (s : Input) : Option Nat := if s.limit < s.pos then none else some (s.limit - s.pos)

def advance (s : Input) (count : Nat) : Option Input :=
  if s.bytes.size < s.pos + count then none else some { s with pos := s.pos + count }

def rewind (s : Input) (position : Nat) : Option Input :=
  if s.pos < position then none else some { s with pos := position }

def readByte (s : Input) : Option (Outcome UInt8) :=
  if s.pos < s.limit then
    match s.bytes[s.pos]?, advance s 1 with
    | some b, some t => some (.ok b, t)
    | _, _ => none
  else some (.error (.truncated 1 0), s)

def readGroups (start : Nat) :
    (count : Nat) → (shift word : UInt64) → Input → Option (Outcome UInt64)
  | 0, _, _, s => some (.error (.malformedVarint start), s)
  | count + 1, shift, word, s =>
    andThen (readByte s) fun b s =>
      let word := word ||| ((b &&& 0x7f).toUInt64 <<< shift)
      if b < 0x80 then some (.ok word, s) else readGroups start count (shift + 7) word s

def readVarint64 (s : Input) : Option (Outcome UInt64) := readGroups s.pos Varint.maxSize 0 0 s

def readVarint32 (s : Input) : Option (Outcome UInt32) :=
  andThen (readVarint64 s) fun v s => some (.ok v.toUInt32, s)

def readInt32 (s : Input) : Option (Outcome Int32) :=
  andThen (readVarint64 s) fun v s => some (.ok v.toUInt32.toInt32, s)

def readTag (s : Input) : Option (Outcome Tag) :=
  if s.atEnd then some (.ok 0, s)
  else andThen (readVarint32 s) fun tag s =>
    if Tag.fieldNumber tag = 0 then some (.error (.invalidTag tag), s) else some (.ok tag, s)

def skipBytes (count : Nat) (s : Input) : Option (Outcome Unit) :=
  match left s with
  | none => none
  | some available =>
    if available < count then some (.error (.truncated count available), s)
    else (advance s count).map fun t => (.ok (), t)

def skipField (tag : Tag) (s : Input) : Option (Outcome Unit) :=
  match Tag.wireType? tag with
  | some .varint => andThen (readVarint64 s) fun _ s => some (.ok (), s)
  | some .fixed64 => skipBytes 8 s
  | some .lengthDelimited => andThen (readVarint32 s) fun length s => skipBytes length.toNat s
  | some .fixed32 => skipBytes 4 s
  | _ => some (.error (.unsupportedWireType tag), s)

def pushLimit (length : Nat) (s : Input) : Option (Outcome Nat) :=
  match left s with
  | none => none
  | some available =>
    if available < length then some (.error (.limitExceeded length available), s)
    else (advance s length).map fun t => (.ok s.limit, { s with limit := t.pos })

def popLimit (s : Input) (limit : Nat) : Option Input :=
  if limit < s.limit then none else some { s with limit := limit }

/-- A read followed by going back to where it began. -/
def peek {α : Type} (read : Input → Option (Outcome α)) (s : Input) : Option (Outcome α) :=
  match read s with
  | none => none
  | some (answer, after) => (rewind after s.pos).map fun t => (answer, t)

def countTagged (tag : Tag) (count : Nat) (s : Input) : Option (Outcome Nat) :=
  if s.atEnd then some (.ok count, s)
  else
    match readTag s with
    | none => none
    | some (.error e, t) => some (.error e, t)
    | some (.ok next, t) =>
      if next ≠ tag then some (.ok count, t)
      else
        match skipField tag t with
        | none => none
        | some (.error e, u) => some (.error e, u)
        | some (.ok _, u) => if u.left < s.left then countTagged tag (count + 1) u else none
termination_by s.left

def countUnpacked (tag : Tag) : Input → Option (Outcome Nat) :=
  peek fun s => andThen (skipField tag s) fun _ s => countTagged tag 1 s

def countVarints (count : Nat) (s : Input) : Option (Outcome Nat) :=
  if s.atEnd then some (.ok count, s)
  else
    match readVarint64 s with
    | none => none
    | some (.error e, t) => some (.error e, t)
    | some (.ok _, t) => if t.left < s.left then countVarints (count + 1) t else none
termination_by s.left

def countPacked : Input → Option (Outcome Nat) := peek (countVarints 0)

/-! ### Nothing stops in bounds -/

open Input (InBounds Reaches)

variable {s : Input}

theorem left_eq (h : s.InBounds) : left s = some s.left :=
  if_neg (Nat.not_lt.mpr h.pos_le)

theorem advance_eq (h : s.InBounds) {count : Nat} (hcount : count ≤ s.left) :
    advance s count = some (s.advance count) := by
  have hpos := h.pos_le
  have hlimit := h.limit_le
  rw [Input.left] at hcount
  exact if_neg (by omega)

theorem rewind_eq {position : Nat} (h : position ≤ s.pos) :
    rewind s position = some (s.rewind position) :=
  if_neg (Nat.not_lt.mpr h)

theorem popLimit_eq {limit : Nat} (h : s.limit ≤ limit) :
    popLimit s limit = some (s.popLimit limit) :=
  if_neg (Nat.not_lt.mpr h)

theorem readByte_eq (h : s.InBounds) : readByte s = some s.readByte := by
  by_cases hlt : s.pos < s.limit
  · have hindex : s.pos < s.bytes.size := Nat.lt_of_lt_of_le hlt h.limit_le
    have hone : 1 ≤ s.left := by
      rw [Input.left]
      omega
    rw [readByte, Input.readByte, if_pos hlt, if_pos hlt, advance_eq h hone,
      Array.getElem?_eq_getElem hindex]
  · rw [readByte, Input.readByte, if_neg hlt, if_neg hlt]

theorem andThen_some {α β : Type} {outcome : Outcome α} {next : α → Input → Option (Outcome β)}
    {next' : α → Input → Outcome β}
    (h : ∀ a t, outcome = (.ok a, t) → next a t = some (next' a t)) :
    andThen (some outcome) next = some (outcome.andThen next') := by
  rcases outcome with ⟨e | a, t⟩
  · rfl
  · exact h a t rfl

/-- What comes after a read in bounds is in bounds again. -/
theorem andThen_eq {α β : Type} {guarded : Option (Outcome α)} {outcome : Outcome α}
    {next : α → Input → Option (Outcome β)} {next' : α → Input → Outcome β} (h : s.InBounds)
    (hread : Reaches s outcome.2) (hguarded : guarded = some outcome)
    (hnext : ∀ a t, t.InBounds → next a t = some (next' a t)) :
    andThen guarded next = some (outcome.andThen next') := by
  rw [hguarded]
  apply andThen_some
  intro a t houtcome
  exact hnext a t (h.after hread houtcome)

theorem readGroups_eq (start count : Nat) (shift word : UInt64) (h : s.InBounds) :
    readGroups start count shift word s = some (Input.readGroups start count shift word s) := by
  induction count generalizing shift word s with
  | zero => rfl
  | succ count ih =>
    apply andThen_eq h (Input.advances_readByte s).reaches (readByte_eq h)
    intro b t ht
    dsimp only
    split
    · rfl
    · exact ih _ _ ht

theorem readVarint64_eq (h : s.InBounds) : readVarint64 s = some s.readVarint64 :=
  readGroups_eq _ _ _ _ h

theorem readVarint32_eq (h : s.InBounds) : readVarint32 s = some s.readVarint32 :=
  andThen_eq h (Input.advances_readVarint64 s).reaches (readVarint64_eq h) fun _ _ _ => rfl

theorem readInt32_eq (h : s.InBounds) : readInt32 s = some s.readInt32 :=
  andThen_eq h (Input.advances_readVarint64 s).reaches (readVarint64_eq h) fun _ _ _ => rfl

theorem readTag_eq (h : s.InBounds) : readTag s = some s.readTag := by
  unfold readTag Input.readTag
  split
  · rfl
  · apply andThen_eq h (Input.advances_readVarint32 s).reaches (readVarint32_eq h)
    intro tag t ht
    split <;> rfl

theorem skipBytes_eq (count : Nat) (h : s.InBounds) :
    skipBytes count s = some (s.skipBytes count) := by
  rw [skipBytes, Input.skipBytes, left_eq h]
  dsimp only
  split
  · rfl
  · rename_i hlt
    rw [advance_eq h (Nat.not_lt.mp hlt), Option.map_some]

theorem skipField_eq (tag : Tag) (h : s.InBounds) : skipField tag s = some (s.skipField tag) := by
  unfold skipField Input.skipField
  cases tag.wireType? with
  | none => rfl
  | some wireType =>
    cases wireType with
    | varint =>
      exact andThen_eq h (Input.advances_readVarint64 s).reaches (readVarint64_eq h) fun _ _ _ => rfl
    | fixed64 => exact skipBytes_eq 8 h
    | lengthDelimited =>
      exact andThen_eq h (Input.advances_readVarint32 s).reaches (readVarint32_eq h)
        fun length t ht => skipBytes_eq length.toNat ht
    | startGroup => rfl
    | endGroup => rfl
    | fixed32 => exact skipBytes_eq 4 h

theorem pushLimit_eq (length : Nat) (h : s.InBounds) :
    pushLimit length s = some (s.pushLimit length) := by
  rw [pushLimit, Input.pushLimit, left_eq h]
  dsimp only
  split
  · rfl
  · rename_i hlt
    rw [advance_eq h (Nat.not_lt.mp hlt), Option.map_some]
    rfl

theorem peek_eq {α : Type} {read : Input → Option (Outcome α)} {read' : Input → Outcome α}
    (hread : read s = some (read' s)) (hreaches : Reaches s (read' s).2) :
    peek read s = some (Input.peek read' s) := by
  rw [peek, hread]
  dsimp only
  rw [rewind_eq hreaches.pos_le, Option.map_some, Input.peek]

theorem left_lt_of_advances {α : Type} {outcome : Outcome α} {a : α} {t : Input}
    (h : Input.Advances s outcome) (houtcome : outcome = (.ok a, t)) : t.left < s.left := by
  subst houtcome
  exact h.reaches.left_lt (h.moves rfl)

theorem countTagged_eq (tag : Tag) (count : Nat) (h : s.InBounds) :
    countTagged tag count s = some (Input.countTagged tag count s) := by
  fun_induction Input.countTagged tag count s with
  | case1 count s hend => rw [countTagged, if_pos hend]
  | case2 count s hend e t hnext => rw [countTagged, if_neg hend, readTag_eq h, hnext]
  | case3 count s hend next t hnext hne =>
    rw [countTagged, if_neg hend, readTag_eq h, hnext]
    exact if_pos hne
  | case4 count s hend next t hnext hne e u hskip =>
    have ht := h.after (Input.reaches_readTag s) hnext
    rw [countTagged, if_neg hend, readTag_eq h, hnext]
    dsimp only
    rw [if_neg hne, skipField_eq tag ht, hskip]
  | case5 count s hend next t hnext hne v u hskip ih =>
    have ht := h.after (Input.reaches_readTag s) hnext
    have hs := left_lt_of_advances (Input.advances_readTag (Bool.eq_false_iff.mpr hend)) hnext
    have hlt := Nat.lt_trans (left_lt_of_advances (Input.advances_skipField tag t) hskip) hs
    rw [countTagged, if_neg hend, readTag_eq h, hnext]
    dsimp only
    rw [if_neg hne, skipField_eq tag ht, hskip]
    dsimp only
    rw [if_pos hlt]
    exact ih (ht.after (Input.advances_skipField tag t).reaches hskip)

theorem countUnpacked_eq (tag : Tag) (h : s.InBounds) :
    countUnpacked tag s = some (s.countUnpacked tag) := by
  have hskip := Input.advances_skipField tag s
  apply peek_eq
  · exact andThen_eq h hskip.reaches (skipField_eq tag h) fun _ t ht => countTagged_eq tag 1 ht
  · exact (hskip.andThen fun _ _ => Input.reaches_countTagged tag 1 _).reaches

theorem countVarints_eq (count : Nat) (h : s.InBounds) :
    countVarints count s = some (Input.countVarints count s) := by
  fun_induction Input.countVarints count s with
  | case1 count s hend => rw [countVarints, if_pos hend]
  | case2 count s hend e t hread => rw [countVarints, if_neg hend, readVarint64_eq h, hread]
  | case3 count s hend v t hread ih =>
    have hlt := left_lt_of_advances (Input.advances_readVarint64 s) hread
    rw [countVarints, if_neg hend, readVarint64_eq h, hread]
    dsimp only
    rw [if_pos hlt]
    exact ih (h.after (Input.advances_readVarint64 s).reaches hread)

theorem countPacked_eq (h : s.InBounds) : countPacked s = some s.countPacked :=
  peek_eq (countVarints_eq 0 h) (Input.reaches_countVarints 0 s)

/-! ### Sessions -/

/-- Takes over the input after a read and wraps its answer. -/
def after {α : Type} (session : Session) (guarded : Option (Outcome α)) (wrap : α → Answer) :
    Option (Except DecodeError Answer × Session) :=
  guarded.map fun outcome => session.after outcome wrap

def step (session : Session) : ReadOp → Option (Except DecodeError Answer × Session)
  | .readTag => after session (readTag session.input) .word32
  | .readByte => after session (readByte session.input) .byte
  | .readVarint32 => after session (readVarint32 session.input) .word32
  | .readVarint64 => after session (readVarint64 session.input) .word64
  | .readInt32 => after session (readInt32 session.input) .int32
  | .skipBytes count => after session (skipBytes count session.input) fun _ => .nothing
  | .skipField tag => after session (skipField tag session.input) fun _ => .nothing
  | .pushLimit length =>
    (pushLimit length session.input).map fun outcome =>
      match outcome with
      | (.ok old, s) =>
        (.ok (.offset old), { session with input := s, limits := old :: session.limits })
      | (.error e, s) => (.error e, { session with input := s })
  | .popLimit =>
    match session.limits with
    | [] => none
    | limit :: limits =>
      (popLimit session.input limit).map fun s =>
        (.ok (.offset limit), { session with input := s, limits := limits })
  | .mark =>
    some (.ok (.offset session.input.pos),
      { session with marks := session.input.pos :: session.marks })
  | .rewind =>
    match session.marks with
    | [] => none
    | position :: marks =>
      (rewind session.input position).map fun s =>
        (.ok (.offset position), { session with input := s, marks := marks })
  | .countUnpacked tag => after session (countUnpacked tag session.input) .offset
  | .countPacked => after session (countPacked session.input) .offset

/-- A run with nothing for an answer where an operation stops or has nothing to restore. -/
def run (session : Session) : List ReadOp → Option (List (Except DecodeError Answer × Session))
  | [] => some []
  | op :: ops =>
    (step session op).bind fun (answer, next) => (run next ops).map ((answer, next) :: ·)

end EnumWire.Wire.Guarded
