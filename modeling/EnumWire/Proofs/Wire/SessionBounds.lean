import EnumWire.Proofs.Wire.Guarded

/-! # Positions and limits of a session

The marks, the position, the limit and the limits to restore stay in this order and inside of the
buffer, whatever is read between a limit and its restoring and whichever reads fail. -/
namespace EnumWire.Wire.Session

def start (buffer : Array UInt8) : Session := { input := Input.ofBytes buffer }

/-- From the oldest mark over the position and the limit to the oldest saved limit nothing
decreases, and nothing lies outside of the buffer. -/
structure Ordered (buffer : Array UInt8) (session : Session) : Prop where
  bytes_eq : session.input.bytes = buffer
  pos_le : session.input.pos ≤ session.input.limit
  marks : (session.input.pos :: session.marks).Pairwise (· ≥ ·)
  limits : (session.input.limit :: session.limits).Pairwise (· ≤ ·)
  limits_le : ∀ limit ∈ session.input.limit :: session.limits, limit ≤ buffer.size

variable {buffer : Array UInt8} {session : Session}

theorem ordered_start (buffer : Array UInt8) : (start buffer).Ordered buffer := by
  refine ⟨rfl, Nat.zero_le _, ?_, ?_, ?_⟩
  all_goals simp [start, Input.ofBytes]

theorem Ordered.inBounds (h : session.Ordered buffer) : session.input.InBounds where
  pos_le := h.pos_le
  limit_le := by
    rw [h.bytes_eq]
    exact h.limits_le _ List.mem_cons_self

/-! ### One operation -/

theorem Ordered.input_of_reaches {t : Input} (h : session.Ordered buffer)
    (hreaches : Input.Reaches session.input t) : Ordered buffer { session with input := t } where
  bytes_eq := hreaches.bytes_eq.trans h.bytes_eq
  pos_le := (hreaches.inBounds h.inBounds).pos_le
  marks := by
    obtain ⟨hpos, hmarks⟩ := List.pairwise_cons.mp h.marks
    refine List.pairwise_cons.mpr ⟨fun mark hmark => ?_, hmarks⟩
    exact Nat.le_trans (hpos mark hmark) hreaches.pos_le
  limits := by
    rw [hreaches.limit_eq]
    exact h.limits
  limits_le := by
    rw [hreaches.limit_eq]
    exact h.limits_le

theorem Ordered.pushLimit {length old : Nat} {t : Input} (h : session.Ordered buffer)
    (hpush : session.input.pushLimit length = (.ok old, t)) :
    Ordered buffer { session with input := t, limits := old :: session.limits } := by
  obtain ⟨hle, rfl, rfl⟩ := Input.le_left_of_pushLimit hpush
  have hpos := h.pos_le
  have hnew : session.input.pos + length ≤ session.input.limit := by
    rw [Input.left] at hle
    omega
  refine ⟨h.bytes_eq, Nat.le_add_right _ _, h.marks, List.pairwise_cons.mpr ⟨?_, h.limits⟩, ?_⟩
  · intro limit hlimit
    rcases List.mem_cons.mp hlimit with rfl | hlimit
    · exact hnew
    · exact Nat.le_trans hnew ((List.pairwise_cons.mp h.limits).1 limit hlimit)
  · intro limit hlimit
    rcases List.mem_cons.mp hlimit with rfl | hlimit
    · exact Nat.le_trans hnew (h.limits_le _ List.mem_cons_self)
    · exact h.limits_le limit hlimit

theorem Ordered.pushLimit_error {length : Nat} {e : DecodeError} {t : Input}
    (h : session.Ordered buffer) (hpush : session.input.pushLimit length = (.error e, t)) :
    Ordered buffer { session with input := t } := by
  unfold Input.pushLimit at hpush
  split at hpush
  · cases hpush
    exact h
  · cases hpush

theorem Ordered.popLimit {limit : Nat} {limits : List Nat} (h : session.Ordered buffer)
    (hlimits : session.limits = limit :: limits) :
    session.input.limit ≤ limit ∧
      Ordered buffer { session with input := session.input.popLimit limit, limits := limits } := by
  obtain ⟨hle, hsaved⟩ := List.pairwise_cons.mp h.limits
  rw [hlimits] at hle hsaved
  have hlimit := hle limit List.mem_cons_self
  refine ⟨hlimit, h.bytes_eq, Nat.le_trans h.pos_le hlimit, h.marks, hsaved, ?_⟩
  intro other hother
  have hmem : other ∈ session.limits := hlimits ▸ hother
  exact h.limits_le other (List.mem_cons_of_mem _ hmem)

theorem Ordered.mark (h : session.Ordered buffer) :
    Ordered buffer { session with marks := session.input.pos :: session.marks } := by
  refine ⟨h.bytes_eq, h.pos_le, List.pairwise_cons.mpr ⟨?_, h.marks⟩, h.limits, h.limits_le⟩
  intro mark hmark
  rcases List.mem_cons.mp hmark with rfl | hmark
  · exact Nat.le_refl _
  · exact (List.pairwise_cons.mp h.marks).1 mark hmark

theorem Ordered.rewind {position : Nat} {marks : List Nat} (h : session.Ordered buffer)
    (hmarks : session.marks = position :: marks) :
    position ≤ session.input.pos ∧
      Ordered buffer { session with input := session.input.rewind position, marks := marks } := by
  obtain ⟨hle, hsaved⟩ := List.pairwise_cons.mp h.marks
  rw [hmarks] at hle hsaved
  have hposition := hle position List.mem_cons_self
  exact ⟨hposition, h.bytes_eq, Nat.le_trans hposition h.pos_le, hsaved, h.limits, h.limits_le⟩

theorem ordered_step {op : ReadOp} {answer : Except DecodeError Answer} {next : Session}
    (h : session.Ordered buffer) (hstep : session.step op = some (answer, next)) :
    next.Ordered buffer := by
  cases op with
  | readTag => cases hstep; exact h.input_of_reaches (Input.reaches_readTag _)
  | readByte => cases hstep; exact h.input_of_reaches (Input.advances_readByte _).reaches
  | readVarint32 => cases hstep; exact h.input_of_reaches (Input.advances_readVarint32 _).reaches
  | readVarint64 => cases hstep; exact h.input_of_reaches (Input.advances_readVarint64 _).reaches
  | readInt32 => cases hstep; exact h.input_of_reaches (Input.advances_readInt32 _).reaches
  | skipBytes count => cases hstep; exact h.input_of_reaches (Input.reaches_skipBytes count _)
  | skipField tag => cases hstep; exact h.input_of_reaches (Input.advances_skipField tag _).reaches
  | pushLimit length =>
    rw [step] at hstep
    rcases hpush : session.input.pushLimit length with ⟨e | old, t⟩
    · rw [hpush] at hstep
      cases hstep
      exact h.pushLimit_error hpush
    · rw [hpush] at hstep
      cases hstep
      exact h.pushLimit hpush
  | popLimit =>
    rw [step] at hstep
    cases hlimits : session.limits with
    | nil =>
      rw [hlimits] at hstep
      cases hstep
    | cons limit limits =>
      rw [hlimits] at hstep
      cases hstep
      exact (h.popLimit hlimits).2
  | mark => cases hstep; exact h.mark
  | rewind =>
    rw [step] at hstep
    cases hmarks : session.marks with
    | nil =>
      rw [hmarks] at hstep
      cases hstep
    | cons position marks =>
      rw [hmarks] at hstep
      cases hstep
      exact (h.rewind hmarks).2
  | countUnpacked tag =>
    cases hstep
    apply h.input_of_reaches
    rw [Input.countUnpacked_snd]
    exact Input.Reaches.refl _
  | countPacked =>
    cases hstep
    apply h.input_of_reaches
    rw [Input.countPacked_snd]
    exact Input.Reaches.refl _

theorem guarded_step (op : ReadOp) (h : session.Ordered buffer) :
    Guarded.step session op = session.step op := by
  have hbounds := h.inBounds
  cases op with
  | readTag => rw [Guarded.step, Guarded.readTag_eq hbounds]; rfl
  | readByte => rw [Guarded.step, Guarded.readByte_eq hbounds]; rfl
  | readVarint32 => rw [Guarded.step, Guarded.readVarint32_eq hbounds]; rfl
  | readVarint64 => rw [Guarded.step, Guarded.readVarint64_eq hbounds]; rfl
  | readInt32 => rw [Guarded.step, Guarded.readInt32_eq hbounds]; rfl
  | skipBytes count => rw [Guarded.step, Guarded.skipBytes_eq count hbounds]; rfl
  | skipField tag => rw [Guarded.step, Guarded.skipField_eq tag hbounds]; rfl
  | pushLimit length =>
    rw [Guarded.step, Guarded.pushLimit_eq length hbounds, step]
    rcases session.input.pushLimit length with ⟨e | old, t⟩ <;> rfl
  | popLimit =>
    rw [Guarded.step, step]
    cases hlimits : session.limits with
    | nil => rfl
    | cons limit limits =>
      dsimp only
      rw [Guarded.popLimit_eq (h.popLimit hlimits).1, Option.map_some]
  | mark => rfl
  | rewind =>
    rw [Guarded.step, step]
    cases hmarks : session.marks with
    | nil => rfl
    | cons position marks =>
      dsimp only
      rw [Guarded.rewind_eq (h.rewind hmarks).1, Option.map_some]
  | countUnpacked tag => rw [Guarded.step, Guarded.countUnpacked_eq tag hbounds]; rfl
  | countPacked => rw [Guarded.step, Guarded.countPacked_eq hbounds]; rfl

/-! ### Runs -/

theorem ordered_run {ops : List ReadOp} {steps : List (Except DecodeError Answer × Session)}
    (h : session.Ordered buffer) (hrun : session.run ops = some steps) :
    ∀ step ∈ steps, step.2.Ordered buffer := by
  induction ops generalizing session steps with
  | nil =>
    cases hrun
    simp
  | cons op ops ih =>
    obtain ⟨⟨answer, next⟩, hstep, hops⟩ := Option.bind_eq_some_iff.mp hrun
    obtain ⟨rest, hrest, rfl⟩ := Option.map_eq_some_iff.mp hops
    have hnext := ordered_step h hstep
    intro step hmem
    rcases List.mem_cons.mp hmem with rfl | hmem
    · exact hnext
    · exact ih hnext hrest step hmem

theorem guarded_run (ops : List ReadOp) (h : session.Ordered buffer) :
    Guarded.run session ops = session.run ops := by
  induction ops generalizing session with
  | nil => rfl
  | cons op ops ih =>
    rw [Guarded.run, run, guarded_step op h]
    cases hstep : session.step op with
    | none => rfl
    | some result =>
      obtain ⟨answer, next⟩ := result
      simp only [Option.bind_some]
      rw [ih (ordered_step h hstep)]

/-- After every operation of a run the position is not past the limit, the limit not past the
buffer, no limit to restore is below it and no mark is past the position. So nothing stops the run:
no difference falls below zero, no sum passes the end of the buffer, and every byte that is read is
in the buffer. -/
theorem run_inBounds {buffer : Array UInt8} {ops : List ReadOp}
    {steps : List (Except DecodeError Answer × Session)}
    (hrun : (start buffer).run ops = some steps) :
    (∀ step ∈ steps, step.2.input.bytes = buffer ∧
      step.2.input.pos ≤ step.2.input.limit ∧ step.2.input.limit ≤ buffer.size ∧
      (∀ limit ∈ step.2.limits, step.2.input.limit ≤ limit) ∧
      ∀ mark ∈ step.2.marks, mark ≤ step.2.input.pos) ∧
    Guarded.run (start buffer) ops = some steps := by
  have hstart := ordered_start buffer
  refine ⟨fun step hstep => ?_, (guarded_run ops hstart).trans hrun⟩
  have h := ordered_run hstart hrun step hstep
  refine ⟨h.bytes_eq, h.pos_le, h.limits_le _ List.mem_cons_self, ?_, ?_⟩
  · exact (List.pairwise_cons.mp h.limits).1
  · exact (List.pairwise_cons.mp h.marks).1

/-- Two marks and a limit, restored in each other's midst, with reads that fail at the limit, in a
varint that does not end and at the end of the buffer. -/
theorem run_inBounds_interleaved :
    ∃ steps,
      (start #[0x08, 0x96, 0x01, 0xff]).run
        [.mark, .readTag, .mark, .pushLimit 1, .readInt32, .pushLimit 3, .rewind, .popLimit, .readInt32,
          .readVarint64, .skipBytes 2, .rewind, .readByte] = some steps ∧
      (∀ step ∈ steps, step.2.input.bytes = #[0x08, 0x96, 0x01, 0xff] ∧
        step.2.input.pos ≤ step.2.input.limit ∧ step.2.input.limit ≤ 4 ∧
        (∀ limit ∈ step.2.limits, step.2.input.limit ≤ limit) ∧
        ∀ mark ∈ step.2.marks, mark ≤ step.2.input.pos) ∧
      Guarded.run (start #[0x08, 0x96, 0x01, 0xff])
        [.mark, .readTag, .mark, .pushLimit 1, .readInt32, .pushLimit 3, .rewind, .popLimit, .readInt32,
          .readVarint64, .skipBytes 2, .rewind, .readByte] = some steps :=
  ⟨_, rfl, run_inBounds rfl⟩

end EnumWire.Wire.Session
