import Mathlib.Logic.Function.Iterate
import RtosXrce.Xrce.MsgsRoundTrip

/-!
# Encoders and counts above the arrays

The messages with arrays once more, as they lie in memory: an array of fixed size and a count that
nothing ties to it. The decoders test each count against the array, the encoders loop up to it. An
element past its array has no value in C, so an encoder that loads one has `overrun` and stops.
-/

namespace RtosXrce.Xrce.Msgs.Raw

open Library Library.Fallible Cdr

/-- An array field and its count. -/
structure Slots (α : Type) (n : Nat) where
  elems : Vector α n
  count : UInt32

/-- The writer, and whether an element past its array was loaded. -/
structure Encoder where
  writer : Writer
  overrun : Bool

abbrev Encode := Fallible Encoder

/-- A call of one of the `xrce_cdr_write` functions with values already loaded. -/
def put (m : Write Unit) : Encode Unit :=
  OptionT.mk fun s => ((m.exec s.writer).1, { s with writer := (m.exec s.writer).2 })

/-- A load from outside the array. -/
def stray {α : Type} : Encode α := do
  modify fun s => { s with overrun := true }
  failure

/-- `elems[i]`. -/
def Slots.load {α : Type} {n : Nat} (a : Slots α n) (i : Nat) : Encode α :=
  if h : i < n then return a.elems[i] else stray

/-- `for (uint32_t i = 0; i < count; i++)`, with a pointer to `elems[i]` handed to `write`. -/
def Slots.forEach {α : Type} {n : Nat} (a : Slots α n) (write : Encode α → Encode Unit) :
    Encode Unit :=
  (List.range a.count.toNat).forM fun i => write (a.load i)

/-- `xrce_cdr_write_bytes`, which loads `data` only when there is room for it. -/
def writeBytes {len : Nat} (data : Encode (Vector UInt8 len)) : Encode Unit := do
  let s ← get
  if ensure s.writer.cap s.writer.pos len then
    put (Cdr.writeBytes (← data).toList)
  else failure

/-- `xrce_cdr_write_seq_i32`. -/
def writeSeqI32 {n : Nat} (a : Slots Int32 n) : Encode Unit := do
  put (writeU32 a.count)
  a.forEach fun v => do put (writeI32 (← v))

/-! ## The messages -/

/-- What an `_encode` leaves behind. -/
structure Outcome where
  outLen : Option Nat
  buf : Nat → UInt8
  overrun : Bool

/-- The frame of every `_encode`. -/
def encode (body : Encode Unit) (buf : Nat → UInt8) (cap : Nat) : Outcome :=
  let (result, s) := Fallible.exec (do put writeHeader; body) ⟨writerInit buf cap, false⟩
  { outLen := result.map fun _ => s.writer.pos, buf := s.writer.buf, overrun := s.overrun }

structure FibonacciResult where
  sequence : Slots Int32 seqI32Max

/-- `write_fibonacci_result`. -/
def writeFibonacciResult (v : FibonacciResult) : Encode Unit := writeSeqI32 v.sequence

structure FibonacciGetResultResponse where
  status : Int8
  result : FibonacciResult

def FibonacciGetResultResponse.write (msg : FibonacciGetResultResponse) : Encode Unit := do
  put (writeU8 msg.status.toUInt8)
  writeFibonacciResult msg.result

def FibonacciGetResultResponse.encode (msg : FibonacciGetResultResponse) := Raw.encode msg.write

structure FibonacciFeedbackMessage where
  goalId : Uuid
  feedback : FibonacciResult

def FibonacciFeedbackMessage.write (msg : FibonacciFeedbackMessage) : Encode Unit := do
  writeBytes (return msg.goalId)
  writeFibonacciResult msg.feedback

def FibonacciFeedbackMessage.encode (msg : FibonacciFeedbackMessage) := Raw.encode msg.write

/-- `write_goal_info`. -/
def writeGoalInfo (v : Encode ActionMsgsGoalInfo) : Encode Unit := do
  writeBytes (return (← v).goalId)
  put (writeI32 (← v).stamp.sec)
  put (writeU32 (← v).stamp.nanosec)

/-- `write_goal_status`. -/
def writeGoalStatus (v : Encode ActionMsgsGoalStatus) : Encode Unit := do
  writeGoalInfo (return (← v).goalInfo)
  put (writeU8 (← v).status.toUInt8)

structure ActionMsgsGoalStatusArray where
  statusList : Slots ActionMsgsGoalStatus goalStatusMax

def ActionMsgsGoalStatusArray.write (msg : ActionMsgsGoalStatusArray) : Encode Unit := do
  put (writeU32 msg.statusList.count)
  msg.statusList.forEach writeGoalStatus

def ActionMsgsGoalStatusArray.encode (msg : ActionMsgsGoalStatusArray) := Raw.encode msg.write

structure ActionMsgsCancelGoalResponse where
  returnCode : Int8
  goalsCanceling : Slots ActionMsgsGoalInfo goalStatusMax

def ActionMsgsCancelGoalResponse.write (msg : ActionMsgsCancelGoalResponse) : Encode Unit := do
  put (writeU8 msg.returnCode.toUInt8)
  put (writeU32 msg.goalsCanceling.count)
  msg.goalsCanceling.forEach writeGoalInfo

def ActionMsgsCancelGoalResponse.encode (msg : ActionMsgsCancelGoalResponse) := Raw.encode msg.write

structure DiagnosticMsgsDiagnosticStatus where
  level : UInt8
  name : FixedString diagStrMax
  message : FixedString diagStrMax
  hardwareId : FixedString diagStrMax
  values : Slots DiagnosticMsgsKeyValue kvMax

structure DiagnosticMsgsDiagnosticArray where
  header : StdMsgsHeader
  status : Slots DiagnosticMsgsDiagnosticStatus diagStatusMax

/-- `write_key_value`. -/
def writeKeyValue (kv : Encode DiagnosticMsgsKeyValue) : Encode Unit := do
  put (writeString (← kv).key.toCString)
  put (writeString (← kv).value.toCString)

/-- `write_diagnostic_status`. -/
def writeDiagnosticStatus (s : Encode DiagnosticMsgsDiagnosticStatus) : Encode Unit := do
  put (writeU8 (← s).level)
  put (writeString (← s).name.toCString)
  put (writeString (← s).message.toCString)
  put (writeString (← s).hardwareId.toCString)
  put (writeU32 (← s).values.count)
  (← s).values.forEach writeKeyValue

def DiagnosticMsgsDiagnosticArray.write (msg : DiagnosticMsgsDiagnosticArray) : Encode Unit := do
  put (writeI32 msg.header.stamp.sec)
  put (writeU32 msg.header.stamp.nanosec)
  put (writeString msg.header.frameId.toCString)
  put (writeU32 msg.status.count)
  msg.status.forEach writeDiagnosticStatus

def DiagnosticMsgsDiagnosticArray.encode (msg : DiagnosticMsgsDiagnosticArray) :=
  Raw.encode msg.write

/-! ## How far an encoder gets

`Runs p next overrunAt`: `p` writes from an offset `off` up to `next off`, or up to `overrunAt off`,
where it loads an element past its array. If that point lies behind the capacity, it fails first.
-/

def Encoder.off (s : Encoder) : Nat := s.writer.off

/-- The offset of the capacity. -/
def Encoder.limit (s : Encoder) : Nat := s.writer.cap - s.writer.alignBase

structure Encoder.Ready (s : Encoder) : Prop where
  wf : s.writer.Wf
  clean : s.overrun = false

theorem Encoder.Ready.off_add_room {s : Encoder} (h : s.Ready) :
    s.off + s.writer.room = s.limit := by
  have hbase := h.wf.base_le
  have hpos := h.wf.pos_le
  simp only [Encoder.off, Encoder.limit, Writer.off, Writer.room]
  omega

structure Runs (p : Encode Unit) (next : Nat → Nat) (overrunAt : Nat → Option Nat) : Prop where
  le_next : ∀ off, off ≤ next off
  le_overrunAt : ∀ {off o}, overrunAt off = some o → off ≤ o
  completes : ∀ {s : Encoder}, s.Ready → overrunAt s.off = none → next s.off ≤ s.limit →
    ∃ s', p.exec s = (some (), s') ∧ s'.Ready ∧ s'.off = next s.off ∧ s'.limit = s.limit
  fails : ∀ {s : Encoder}, s.Ready → overrunAt s.off = none → s.limit < next s.off →
    ∃ s', p.exec s = (none, s') ∧ s'.overrun = false
  overruns : ∀ {s : Encoder} {o}, s.Ready → overrunAt s.off = some o →
    ∃ s', p.exec s = (none, s') ∧ (s'.overrun = true ↔ o ≤ s.limit)

theorem Runs.pure : Runs (Pure.pure ()) id fun _ => none where
  le_next off := Nat.le_refl off
  le_overrunAt h := by simp at h
  completes ready _ _ := ⟨_, rfl, ready, rfl, rfl⟩
  fails ready _ hlong := by
    have := ready.off_add_room
    simp only [id_eq] at hlong
    omega
  overruns _ h := by simp at h

theorem exec_put (m : Write Unit) (s : Encoder) :
    (put m).exec s = ((m.exec s.writer).1, { s with writer := (m.exec s.writer).2 }) := rfl

theorem runs_put {m : Write Unit} {f : Format} {next : Nat → Nat} (hm : Emits m f)
    (spans : ∀ off, f.Spans off (next off)) : Runs (put m) next fun _ => none where
  le_next off := by
    obtain ⟨e, -, hstop⟩ := spans off
    omega
  le_overrunAt h := by simp at h
  completes {s} ready _ hfits := by
    obtain ⟨e, he, hstop⟩ := spans s.off
    have hroom := ready.off_add_room
    have hlen : e.length ≤ s.writer.room := by omega
    refine ⟨{ s with writer := s.writer.put e }, ?_, ⟨ready.wf.put hlen, ready.clean⟩, ?_, rfl⟩
    · rw [exec_put, hm.fits ready.wf he hlen]
    · exact (ready.wf.off_put e).trans hstop
  fails {s} ready _ hlong := by
    obtain ⟨e, he, hstop⟩ := spans s.off
    have hroom := ready.off_add_room
    have hlen : s.writer.room < e.length := by omega
    obtain ⟨w, hexec, -⟩ := hm.fails ready.wf fun e' he' => by
      obtain rfl : e = e' := Option.some.inj (he.symm.trans he')
      exact hlen
    refine ⟨{ s with writer := w }, ?_, ready.clean⟩
    rw [exec_put, hexec]
  overruns _ h := by simp at h

theorem Runs.seq {p q : Encode Unit} {next next' : Nat → Nat}
    {overrunAt overrunAt' : Nat → Option Nat} (hp : Runs p next overrunAt)
    (hq : Runs q next' overrunAt') :
    Runs (do p; q) (fun off => next' (next off))
      (fun off => (overrunAt off).or (overrunAt' (next off))) where
  le_next off := (hp.le_next off).trans (hq.le_next _)
  le_overrunAt {off o} h := by
    rcases Option.or_eq_some_iff.mp h with hfirst | ⟨-, hsecond⟩
    · exact hp.le_overrunAt hfirst
    · exact (hp.le_next off).trans (hq.le_overrunAt hsecond)
  completes {s} ready hnone hfits := by
    obtain ⟨hnone, hnone'⟩ := Option.or_eq_none_iff.mp hnone
    obtain ⟨s', hexec, ready', hoff, hlimit⟩ :=
      hp.completes ready hnone ((hq.le_next _).trans hfits)
    rw [← hoff] at hnone' hfits
    obtain ⟨s'', hexec', ready'', hoff', hlimit'⟩ := hq.completes ready' hnone' (by omega)
    refine ⟨s'', (exec_bind_of_some hexec).trans hexec', ready'', ?_, hlimit'.trans hlimit⟩
    rw [hoff', hoff]
  fails {s} ready hnone hlong := by
    obtain ⟨hnone, hnone'⟩ := Option.or_eq_none_iff.mp hnone
    rcases Nat.lt_or_ge s.limit (next s.off) with hshort | hfits
    · obtain ⟨s', hexec, hclean⟩ := hp.fails ready hnone hshort
      exact ⟨s', exec_bind_of_none hexec, hclean⟩
    · obtain ⟨s', hexec, ready', hoff, hlimit⟩ := hp.completes ready hnone hfits
      rw [← hoff] at hnone' hlong
      obtain ⟨s'', hexec', hclean⟩ := hq.fails ready' hnone' (by omega)
      exact ⟨s'', (exec_bind_of_some hexec).trans hexec', hclean⟩
  overruns {s o} ready hsome := by
    rcases Option.or_eq_some_iff.mp hsome with hfirst | ⟨hnone, hsecond⟩
    · obtain ⟨s', hexec, hover⟩ := hp.overruns ready hfirst
      exact ⟨s', exec_bind_of_none hexec, hover⟩
    · rcases Nat.lt_or_ge s.limit (next s.off) with hshort | hfits
      · -- `p` runs out of room before `q` can load anything
        obtain ⟨s', hexec, hclean⟩ := hp.fails ready hnone hshort
        have hlate := hq.le_overrunAt hsecond
        refine ⟨s', exec_bind_of_none hexec, ?_⟩
        rw [hclean]
        simp only [Bool.false_eq_true, false_iff]
        omega
      · obtain ⟨s', hexec, ready', hoff, hlimit⟩ := hp.completes ready hnone hfits
        rw [← hoff] at hsecond
        obtain ⟨s'', hexec', hover⟩ := hq.overruns ready' hsecond
        rw [hlimit] at hover
        exact ⟨s'', (exec_bind_of_some hexec).trans hexec', hover⟩

/-- An encoder that never completes. -/
theorem Runs.of_overrun {p : Encode Unit} {at' : Nat → Nat} (hle : ∀ off, off ≤ at' off)
    (h : ∀ {s : Encoder}, s.Ready →
      ∃ s', p.exec s = (none, s') ∧ (s'.overrun = true ↔ at' s.off ≤ s.limit)) :
    Runs p id fun off => some (at' off) where
  le_next off := Nat.le_refl off
  le_overrunAt {off o} ho := by
    obtain rfl := Option.some.inj ho
    exact hle off
  completes _ h := by simp at h
  fails _ h := by simp at h
  overruns {s o} ready ho := by
    obtain rfl := Option.some.inj ho
    exact h ready

/-- What stands behind a certain overrun does not matter. -/
theorem Runs.halt {p : Encode Unit} {at' : Nat → Nat} (hp : Runs p id fun off => some (at' off))
    (k : Unit → Encode Unit) : Runs (p >>= k) id fun off => some (at' off) := by
  refine .of_overrun (fun _ => hp.le_overrunAt rfl) fun ready => ?_
  obtain ⟨s', hexec, hover⟩ := hp.overruns ready rfl
  exact ⟨s', exec_bind_of_none hexec, hover⟩

theorem runs_stray {α : Type} (k : α → Encode Unit) :
    Runs (stray >>= k) id fun off => some off := by
  refine .of_overrun Nat.le_refl fun {s} ready => ⟨{ s with overrun := true }, rfl, ?_⟩
  have hroom := ready.off_add_room
  simp only [true_iff]
  omega

theorem put_seq (m n : Write Unit) : put (do m; n) = (do put m; put n) := by
  funext s
  change (put (do m; n)).exec s = (do put m; put n : Encode Unit).exec s
  rw [exec_bind, exec_put, exec_put, exec_bind]
  rcases m.exec s.writer with ⟨_ | _, w⟩ <;> rfl

theorem put_pure : put (Pure.pure ()) = Pure.pure () := rfl

theorem writeBytes_pure {len : Nat} (data : Vector UInt8 len) :
    writeBytes (Pure.pure data) = put (Cdr.writeBytes data.toList) := by
  funext s
  change (if ensure s.writer.cap s.writer.pos len then put (Cdr.writeBytes data.toList)
    else failure : Encode Unit).exec s = (put (Cdr.writeBytes data.toList)).exec s
  rw [exec_ite]
  split
  next => rfl
  next full =>
    have hfull : ¬ len ≤ s.writer.room := full
    rw [exec_put, Cdr.writeBytes, exec_emit, Vector.length_toList, if_neg hfull]
    rfl

theorem runs_writeBytes_stray {α : Type} {len : Nat} (g : α → Vector UInt8 len) :
    Runs (writeBytes (do return g (← stray))) id fun off => some (off + len) := by
  refine .of_overrun (fun off => Nat.le_add_right off len) fun {s} ready => ?_
  have hroom := ready.off_add_room
  change ∃ s', (if ensure s.writer.cap s.writer.pos len then _ else failure :
    Encode Unit).exec s = (none, s') ∧ _
  rw [exec_ite]
  split
  next fits =>
    have hfits : len ≤ s.writer.room := fits
    refine ⟨{ s with overrun := true }, rfl, ?_⟩
    simp only [true_iff]
    omega
  next full =>
    have hfull : ¬ len ≤ s.writer.room := full
    refine ⟨s, rfl, ?_⟩
    rw [ready.clean]
    simp only [Bool.false_eq_true, false_iff]
    omega

/-! ## Loops -/

section

variable {α : Type} {n : Nat}

/-- The elements in use, as many of them as the array has. -/
def Slots.inUse (a : Slots α n) : Counted α n where
  elems := a.elems.toList.take a.count.toNat
  count_lt := by
    rw [List.length_take]
    exact Nat.lt_of_le_of_lt (Nat.min_le_left _ _) a.count.toNat_lt
  fits := by
    rw [List.length_take, Vector.length_toList]
    exact Nat.min_le_right _ _

theorem Slots.map_load (a : Slots α n) :
    (List.range a.count.toNat).map a.load =
      a.inUse.elems.map Pure.pure ++ List.replicate (a.count.toNat - n) stray := by
  apply List.ext_getElem
  · simp [Slots.inUse]
    omega
  · intro i hi hi'
    simp only [List.getElem_map, List.getElem_range, Slots.load]
    split
    next inside =>
      have hi : i < a.count.toNat := by simpa using hi
      rw [List.getElem_append_left (by simp [Slots.inUse]; omega)]
      simp [Slots.inUse]
    next outside =>
      rw [List.getElem_append_right (by simp [Slots.inUse]; omega), List.getElem_replicate]

theorem Slots.forEach_eq (a : Slots α n) (write : Encode α → Encode Unit) :
    a.forEach write =
      (a.inUse.elems.map Pure.pure ++ List.replicate (a.count.toNat - n) stray).forM write := by
  rw [← a.map_load]
  exact List.forM_map.symm

/-- The offset behind a list of elements. -/
def nextEach (next : α → Nat → Nat) (l : List α) (off : Nat) : Nat :=
  l.foldl (fun off a => next a off) off

/-- The first overrun of a list of elements, and else that of the element behind them. -/
def overrunEach (next : α → Nat → Nat) (overrunAt : α → Nat → Option Nat)
    (last : Nat → Option Nat) : List α → Nat → Option Nat
  | [], off => last off
  | a :: l, off => (overrunAt a off).or (overrunEach next overrunAt last l (next a off))

theorem runs_forM {write : Encode α → Encode Unit} {next : α → Nat → Nat}
    {overrunAt : α → Nat → Option Nat} (h : ∀ a, Runs (write (Pure.pure a)) (next a) (overrunAt a))
    {behind : List (Encode α)} {last : Nat → Option Nat}
    (hlast : Runs (behind.forM write) id last) (l : List α) :
    Runs ((l.map Pure.pure ++ behind).forM write) (nextEach next l)
      (overrunEach next overrunAt last l) := by
  induction l with
  | nil => exact hlast
  | cons a l ih => exact (h a).seq ih

/-- The overrun of the element behind the array, if the loop gets to it. -/
def Slots.overrunAt (a : Slots α n) (first : Nat) (off : Nat) : Option Nat :=
  if a.count.toNat ≤ n then none else some (off + first)

theorem runs_replicate_stray (a : Slots α n) {write : Encode α → Encode Unit} {first : Nat}
    (h : Runs (write stray) id fun off => some (off + first)) :
    Runs ((List.replicate (a.count.toNat - n) stray).forM write) id (a.overrunAt first) := by
  by_cases hle : a.count.toNat ≤ n
  · have hnone : a.overrunAt first = fun _ => none := by
      funext off
      exact if_pos hle
    rw [Nat.sub_eq_zero_of_le hle, hnone]
    exact .pure
  · obtain ⟨k, hk⟩ : ∃ k, a.count.toNat - n = k + 1 := ⟨a.count.toNat - n - 1, by omega⟩
    have hsome : a.overrunAt first = fun off => some (off + first) := by
      funext off
      exact if_neg hle
    rw [hk, hsome]
    exact h.halt _

theorem Slots.runs_forEach (a : Slots α n) {write : Encode α → Encode Unit} {next : α → Nat → Nat}
    {overrunAt : α → Nat → Option Nat} {first : Nat}
    (h : ∀ a, Runs (write (Pure.pure a)) (next a) (overrunAt a))
    (hstray : Runs (write stray) id fun off => some (off + first)) :
    Runs (a.forEach write) (nextEach next a.inUse.elems)
      (overrunEach next overrunAt (a.overrunAt first) a.inUse.elems) := by
  rw [a.forEach_eq]
  exact runs_forM h (runs_replicate_stray a hstray) _

/-- Within the array the loop is the one over the elements in use. -/
theorem Slots.forEach_eq_put (a : Slots α n) (hcount : a.count.toNat ≤ n)
    {write : Encode α → Encode Unit} {β : Type} {write' : β → Write Unit} {g : α → β}
    (h : ∀ x ∈ a.inUse.elems, write (Pure.pure x) = put (write' (g x))) :
    a.forEach write = put ((a.inUse.elems.map g).forM write') := by
  rw [a.forEach_eq, Nat.sub_eq_zero_of_le hcount, List.replicate_zero, List.append_nil]
  revert h
  induction a.inUse.elems with
  | nil => exact fun _ => put_pure.symm
  | cons x l ih =>
    intro h
    have hhead := h x List.mem_cons_self
    have hrest := ih fun y hy => h y (List.mem_cons_of_mem x hy)
    change (do write (Pure.pure x); (l.map Pure.pure).forM write) =
      put (do write' (g x); (l.map g).forM write')
    rw [put_seq, hhead, hrest]

end

theorem overrunEach_none {α : Type} (next : α → Nat → Nat) (last : Nat → Option Nat) (l : List α)
    (off : Nat) :
    overrunEach next (fun _ _ => none) last l off = last (nextEach next l off) := by
  induction l generalizing off with
  | nil => rfl
  | cons a l ih => exact ih (next a off)

/-! ## The fields and their sizes -/

/-- The offset behind a word of `k` bytes. -/
def afterWord (k off : Nat) : Nat := off + Format.padding k off + k

/-- The offset behind a string. -/
def afterString (s : CString) (off : Nat) : Nat := afterWord 4 off + (s.chars.length + 1)

def afterKeyValue (kv : DiagnosticMsgsKeyValue) (off : Nat) : Nat :=
  afterString kv.value.toCString (afterString kv.key.toCString off)

/-- The offset behind a status and those of its values that the array has. -/
def afterDiagnosticStatus (s : DiagnosticMsgsDiagnosticStatus) (off : Nat) : Nat :=
  nextEach afterKeyValue s.values.inUse.elems (afterWord 4 (afterString s.hardwareId.toCString
    (afterString s.message.toCString (afterString s.name.toCString (afterWord 1 off)))))

def afterGoalInfo (off : Nat) : Nat := afterWord 4 (afterWord 4 (off + uuidSize))

def afterGoalStatus (off : Nat) : Nat := afterWord 1 (afterGoalInfo off)

theorem runs_u8 (v : UInt8) : Runs (put (writeU8 v)) (afterWord 1) fun _ => none :=
  runs_put (emits_u8 v) (spans_word 1 _)

theorem runs_u32 (v : UInt32) : Runs (put (writeU32 v)) (afterWord 4) fun _ => none :=
  runs_put (emits_u32 v) (spans_word 4 _)

theorem runs_i32 (v : Int32) : Runs (put (writeI32 v)) (afterWord 4) fun _ => none :=
  runs_put (emits_i32 v) (spans_word 4 _)

theorem runs_string {n : Nat} (hn : n < 2 ^ 32) (s : FixedString n) :
    Runs (put (writeString s.toCString)) (afterString s.toCString) fun _ => none := by
  have hfits := s.fits
  exact runs_put (emits_string s.toCString) (spans_string (by omega))

theorem runs_bytes {len : Nat} (v : Vector UInt8 len) :
    Runs (writeBytes (Pure.pure v)) (· + len) fun _ => none := by
  rw [writeBytes_pure]
  refine runs_put (emits_emit v.toList) fun off => ?_
  have hspans := Format.spans_raw v.toList off
  rwa [Vector.length_toList] at hspans

theorem runs_goalInfo (v : ActionMsgsGoalInfo) :
    Runs (writeGoalInfo (Pure.pure v)) afterGoalInfo fun _ => none :=
  (runs_bytes v.goalId).seq ((runs_i32 v.stamp.sec).seq (runs_u32 v.stamp.nanosec))

theorem runs_goalStatus (v : ActionMsgsGoalStatus) :
    Runs (writeGoalStatus (Pure.pure v)) afterGoalStatus fun _ => none :=
  (runs_goalInfo v.goalInfo).seq (runs_u8 v.status.toUInt8)

theorem runs_keyValue (kv : DiagnosticMsgsKeyValue) :
    Runs (writeKeyValue (Pure.pure kv)) (afterKeyValue kv) fun _ => none :=
  (runs_string (by decide) kv.key).seq (runs_string (by decide) kv.value)

/-- The sixteen bytes of the identifier are loaded once there is room for them. -/
theorem runs_goalInfo_stray :
    Runs (writeGoalInfo stray) id fun off => some (off + uuidSize) :=
  (runs_writeBytes_stray ActionMsgsGoalInfo.goalId).halt _

theorem runs_goalStatus_stray :
    Runs (writeGoalStatus stray) id fun off => some (off + uuidSize) :=
  ((runs_writeBytes_stray fun v : ActionMsgsGoalStatus => v.goalInfo.goalId).halt _).halt _

/-! ## Within the arrays -/

theorem writeGoalInfo_pure (v : ActionMsgsGoalInfo) :
    writeGoalInfo (Pure.pure v) = put (Msgs.writeGoalInfo v) := by
  rw [Msgs.writeGoalInfo, put_seq, put_seq, ← writeBytes_pure]
  rfl

theorem writeGoalStatus_pure (v : ActionMsgsGoalStatus) :
    writeGoalStatus (Pure.pure v) = put (Msgs.writeGoalStatus v) := by
  rw [Msgs.writeGoalStatus, put_seq, ← writeGoalInfo_pure]
  rfl

theorem writeKeyValue_pure (kv : DiagnosticMsgsKeyValue) :
    writeKeyValue (Pure.pure kv) = put (Msgs.writeKeyValue kv) := by
  rw [Msgs.writeKeyValue, put_seq]
  rfl

theorem Slots.length_inUse {α : Type} {n : Nat} (a : Slots α n) :
    a.inUse.elems.length = min a.count.toNat n := by
  rw [Slots.inUse, List.length_take, Vector.length_toList]

theorem Slots.sequence_eq_put {α β : Type} {n : Nat} (a : Slots α n) (hcount : a.count.toNat ≤ n)
    {write : Encode α → Encode Unit} {write' : β → Write Unit} {g : α → β} {s : Sequence β}
    (helems : s.elems = a.inUse.elems.map g)
    (h : ∀ x ∈ a.inUse.elems, write (Pure.pure x) = put (write' (g x))) :
    (do put (writeU32 a.count); a.forEach write) = put (writeSequence write' s) := by
  have hlen : UInt32.ofNat s.elems.length = a.count := by
    rw [helems, List.length_map, a.length_inUse, Nat.min_eq_left hcount, UInt32.ofNat_toNat]
  rw [writeSequence, hlen, put_seq, helems, ← a.forEach_eq_put hcount h]

/-! ## From a fresh writer -/

/-- No element past an array is loaded, and the decoder accepts what was encoded. -/
def Outcome.Accepted {α : Type} (o : Outcome) (decode : (Nat → UInt8) → Nat → Option α) : Prop :=
  o.overrun = false ∧ ∀ len, o.outLen = some len → (decode o.buf len).isSome

section

variable {α : Type} {body : Encode Unit} {next : Nat → Nat} {overrunAt : Nat → Option Nat}
  {m : Write Unit} {read : Read α} {a : α}

theorem encode_put (m : Write Unit) (buf : Nat → UInt8) (cap : Nat) :
    Raw.encode (put m) buf cap =
      ⟨(Msgs.encode m buf cap).1, (Msgs.encode m buf cap).2, false⟩ := by
  rw [Raw.encode, ← put_seq]
  rfl

theorem accepted_of_coded (coded : Coded m read a) (buf : Nat → UInt8) (cap : Nat) :
    (Raw.encode (put m) buf cap).Accepted (Msgs.decode read) := by
  obtain ⟨f, hemits, hreads, -⟩ := coded
  rw [encode_put]
  refine ⟨rfl, fun len hlen => ?_⟩
  have hexact := hemits.writes_header.exact buf cap
  rcases hrun : Fallible.exec (do writeHeader; m) (writerInit buf cap) with ⟨result, w⟩
  rw [hrun] at hexact
  simp only [Msgs.encode, hrun, Option.map_eq_some_iff] at hlen
  obtain ⟨_, hresult, rfl⟩ := hlen
  have hrest : (readerInit w.buf w.pos).rest = w.written ++ [] := by
    rw [rest_readerInit, List.append_nil]
    rfl
  obtain ⟨r, hread, -⟩ := hreads.parses_header.takes w.buf w.pos (hexact.2.1 hresult) hrest
  simp only [Msgs.decode, Msgs.encode, hrun, hread, Option.isSome_some]

/-- An encoder and its decoder agree exactly when the capacity ends before the first overrun. -/
theorem accepted_iff (runs : Runs body next overrunAt) (same : overrunAt 0 = none → body = put m)
    (coded : Coded m read a) (buf : Nat → UInt8) (cap : Nat) :
    (Raw.encode body buf cap).Accepted (Msgs.decode read) ↔
      ∀ o, overrunAt 0 = some o → cap < 4 + o := by
  cases hover : overrunAt 0 with
  | none =>
    rw [same hover]
    exact ⟨by simp, fun _ => accepted_of_coded coded buf cap⟩
  | some o =>
    by_cases hcap : 4 ≤ cap
    · have hheader : (put writeHeader).exec ⟨writerInit buf cap, false⟩ =
          (some (), ⟨headed buf cap, false⟩) := by
        rw [exec_put, exec_writeHeader, if_pos hcap]
      obtain ⟨s, hexec, hs⟩ :=
        runs.overruns (s := ⟨headed buf cap, false⟩) ⟨⟨Nat.le_refl 4, hcap⟩, rfl⟩ hover
      have hlimit : (⟨headed buf cap, false⟩ : Encoder).limit = cap - 4 := rfl
      have hencode : Raw.encode body buf cap = ⟨none, s.writer.buf, s.overrun⟩ := by
        rw [Raw.encode, exec_bind_of_some hheader, hexec]
        rfl
      rw [hlimit] at hs
      rw [hencode, Outcome.Accepted, ← Bool.not_eq_true, hs]
      simp only [reduceCtorEq, false_implies, implies_true, and_true, Option.some.injEq]
      refine ⟨fun hnot o' ho' => ?_, fun h => ?_⟩
      · omega
      · have := h o rfl
        omega
    · have hheader : (put writeHeader).exec ⟨writerInit buf cap, false⟩ =
          (none, ⟨writerInit buf cap, false⟩) := by
        rw [exec_put, exec_writeHeader, if_neg hcap]
      have hencode : Raw.encode body buf cap = ⟨none, buf, false⟩ := by
        rw [Raw.encode, exec_bind_of_none hheader]
        rfl
      rw [hencode]
      refine ⟨fun _ o' _ => by omega, fun _ => ⟨rfl, fun len hlen => ?_⟩⟩
      simp at hlen

end

/-! ## One array of elements of one size -/

theorem nextEach_const {α : Type} (f : Nat → Nat) (l : List α) (off : Nat) :
    nextEach (fun _ => f) l off = f^[l.length] off := by
  induction l generalizing off with
  | nil => rfl
  | cons a l ih => exact ih (f off)

theorem Slots.runs_forEach_const {α : Type} {n : Nat} (a : Slots α n)
    {write : Encode α → Encode Unit} {f : Nat → Nat} {first : Nat}
    (h : ∀ x, Runs (write (Pure.pure x)) f fun _ => none)
    (hstray : Runs (write stray) id fun off => some (off + first)) :
    Runs (a.forEach write) (f^[a.inUse.elems.length]) fun off => a.overrunAt first (f^[n] off) := by
  have hruns : Runs (a.forEach write) (nextEach (fun _ => f) a.inUse.elems)
      (overrunEach (fun _ => f) (fun _ _ => none) (a.overrunAt first) a.inUse.elems) :=
    a.runs_forEach h hstray
  have hnext : nextEach (fun _ => f) a.inUse.elems = f^[a.inUse.elems.length] :=
    funext (nextEach_const f a.inUse.elems)
  have hover : overrunEach (fun _ => f) (fun _ _ => none) (a.overrunAt first) a.inUse.elems =
      fun off => a.overrunAt first (f^[n] off) := by
    funext off
    rw [overrunEach_none, nextEach_const, a.length_inUse, Slots.overrunAt, Slots.overrunAt]
    split
    next => rfl
    next hlt => rw [Nat.min_eq_right (by omega)]
  rwa [hnext, hover] at hruns

theorem Slots.overrunAt_iff {α : Type} {n : Nat} (a : Slots α n) (first off cap : Nat) :
    (∀ o, a.overrunAt first off = some o → cap < 4 + o) ↔
      a.count.toNat ≤ n ∨ cap < 4 + (off + first) := by
  rw [Slots.overrunAt]
  split
  next hle => simp [hle]
  next hlt => simp [hlt]

theorem Slots.le_of_overrunAt_eq_none {α : Type} {n : Nat} {a : Slots α n} {first off : Nat}
    (h : a.overrunAt first off = none) : a.count.toNat ≤ n := by
  by_contra hlt
  rw [Slots.overrunAt, if_neg hlt] at h
  simp at h

theorem runs_seqI32 {n : Nat} (a : Slots Int32 n) :
    Runs (writeSeqI32 a) (fun off => (afterWord 4)^[a.inUse.elems.length] (afterWord 4 off))
      fun off => a.overrunAt 0 ((afterWord 4)^[n] (afterWord 4 off)) :=
  (runs_u32 a.count).seq (a.runs_forEach_const runs_i32 (runs_stray _))

theorem writeSeqI32_eq_put {n : Nat} (a : Slots Int32 n) (hcount : a.count.toNat ≤ n) :
    writeSeqI32 a = put (Cdr.writeSeqI32 a.inUse.toSequence) :=
  a.sequence_eq_put hcount (List.map_id _).symm fun _ _ => rfl

theorem goalStatusArray_accepted_iff (msg : ActionMsgsGoalStatusArray) (buf : Nat → UInt8)
    (cap : Nat) :
    (msg.encode buf cap).Accepted Msgs.ActionMsgsGoalStatusArray.decode ↔
      msg.statusList.count.toNat ≤ goalStatusMax ∨ cap < 245 := by
  have hruns := (runs_u32 msg.statusList.count).seq
    (msg.statusList.runs_forEach_const runs_goalStatus runs_goalStatus_stray)
  refine (accepted_iff hruns (fun hnone => ?_)
    ((coded_sequence coded_goalStatus msg.statusList.inUse).map _) buf cap).trans
    (msg.statusList.overrunAt_iff _ _ cap)
  exact msg.statusList.sequence_eq_put (Slots.le_of_overrunAt_eq_none hnone) (List.map_id _).symm
    fun v _ => writeGoalStatus_pure v

theorem cancelGoalResponse_accepted_iff (msg : ActionMsgsCancelGoalResponse) (buf : Nat → UInt8)
    (cap : Nat) :
    (msg.encode buf cap).Accepted Msgs.ActionMsgsCancelGoalResponse.decode ↔
      msg.goalsCanceling.count.toNat ≤ goalStatusMax ∨ cap < 220 := by
  have hruns := (runs_u8 msg.returnCode.toUInt8).seq ((runs_u32 msg.goalsCanceling.count).seq
    (msg.goalsCanceling.runs_forEach_const runs_goalInfo runs_goalInfo_stray))
  refine Iff.trans (accepted_iff hruns (fun hnone => ?_) ((coded_u8 msg.returnCode.toUInt8).seq <|
      (coded_sequence coded_goalInfo msg.goalsCanceling.inUse).map
        (Msgs.ActionMsgsCancelGoalResponse.mk msg.returnCode)) buf cap)
    (msg.goalsCanceling.overrunAt_iff _ _ cap)
  rw [put_seq, ← msg.goalsCanceling.sequence_eq_put (Slots.le_of_overrunAt_eq_none hnone)
    (List.map_id _).symm fun v _ => writeGoalInfo_pure v]

theorem getResultResponse_accepted_iff (msg : FibonacciGetResultResponse) (buf : Nat → UInt8)
    (cap : Nat) :
    (msg.encode buf cap).Accepted Msgs.FibonacciGetResultResponse.decode ↔
      msg.result.sequence.count.toNat ≤ seqI32Max ∨ cap < 76 := by
  have hruns := (runs_u8 msg.status.toUInt8).seq (runs_seqI32 msg.result.sequence)
  refine Iff.trans (accepted_iff hruns (fun hnone => ?_) ((coded_u8 msg.status.toUInt8).seq <|
      (coded_fibonacciResult ⟨msg.result.sequence.inUse⟩).map
        (Msgs.FibonacciGetResultResponse.mk msg.status)) buf cap)
    (msg.result.sequence.overrunAt_iff _ _ cap)
  rw [put_seq, writeSeqI32_eq_put _ (Slots.le_of_overrunAt_eq_none hnone)]
  rfl

theorem feedbackMessage_accepted_iff (msg : FibonacciFeedbackMessage) (buf : Nat → UInt8)
    (cap : Nat) :
    (msg.encode buf cap).Accepted Msgs.FibonacciFeedbackMessage.decode ↔
      msg.feedback.sequence.count.toNat ≤ seqI32Max ∨ cap < 88 := by
  have hruns := (runs_bytes msg.goalId).seq (runs_seqI32 msg.feedback.sequence)
  refine Iff.trans (accepted_iff hruns (fun hnone => ?_) ((coded_bytes msg.goalId).seq <|
      (coded_fibonacciResult ⟨msg.feedback.sequence.inUse⟩).map _) buf cap)
    (msg.feedback.sequence.overrunAt_iff _ _ cap)
  rw [put_seq, writeSeqI32_eq_put _ (Slots.le_of_overrunAt_eq_none hnone), writeBytes_pure]
  rfl

/-! ## Diagnostics, where an array lies in the elements of another -/

theorem runs_keyValue_stray : Runs (writeKeyValue stray) id fun off => some (off + 0) :=
  runs_stray _

theorem runs_diagnosticStatus_stray :
    Runs (writeDiagnosticStatus stray) id fun off => some (off + 0) :=
  runs_stray _

theorem runs_diagnosticStatus (s : DiagnosticMsgsDiagnosticStatus) :
    Runs (writeDiagnosticStatus (Pure.pure s)) (afterDiagnosticStatus s)
      fun off => s.values.overrunAt 0 (afterDiagnosticStatus s off) := by
  have hvalues : Runs (s.values.forEach writeKeyValue)
      (nextEach afterKeyValue s.values.inUse.elems) fun off =>
        s.values.overrunAt 0 (nextEach afterKeyValue s.values.inUse.elems off) := by
    have hruns := s.values.runs_forEach runs_keyValue runs_keyValue_stray
    rwa [funext (overrunEach_none _ _ s.values.inUse.elems)] at hruns
  exact (runs_u8 s.level).seq <| (runs_string (by decide) s.name).seq <|
    (runs_string (by decide) s.message).seq <| (runs_string (by decide) s.hardwareId).seq <|
    (runs_u32 s.values.count).seq hvalues

def DiagnosticMsgsDiagnosticStatus.inUse (s : DiagnosticMsgsDiagnosticStatus) :
    Msgs.DiagnosticMsgsDiagnosticStatus where
  level := s.level
  name := s.name
  message := s.message
  hardwareId := s.hardwareId
  values := s.values.inUse

theorem writeDiagnosticStatus_pure (s : DiagnosticMsgsDiagnosticStatus)
    (hcount : s.values.count.toNat ≤ kvMax) :
    writeDiagnosticStatus (Pure.pure s) = put (Msgs.writeDiagnosticStatus s.inUse) := by
  have hvalues : (do put (writeU32 s.values.count); s.values.forEach writeKeyValue) =
      put (writeSequence Msgs.writeKeyValue s.values.inUse.toSequence) :=
    s.values.sequence_eq_put hcount (List.map_id _).symm fun kv _ => writeKeyValue_pure kv
  rw [Msgs.writeDiagnosticStatus, put_seq, put_seq, put_seq, put_seq]
  change _ = (do
    put (writeU8 s.level)
    put (writeString s.name.toCString)
    put (writeString s.message.toCString)
    put (writeString s.hardwareId.toCString)
    put (writeSequence Msgs.writeKeyValue s.values.inUse.toSequence))
  rw [← hvalues]
  rfl

/-- The elements are turned into what they hold. -/
def Slots.map {α β : Type} {n : Nat} (g : α → β) (a : Slots α n) : Slots β n where
  elems := a.elems.map g
  count := a.count

theorem Slots.inUse_map {α β : Type} {n : Nat} (g : α → β) (a : Slots α n) :
    (a.map g).inUse.elems = a.inUse.elems.map g := by
  change (a.elems.map g).toList.take a.count.toNat = _
  rw [Vector.toList_map, ← List.map_take]
  rfl

/-- The bytes up to the first status. -/
def DiagnosticMsgsDiagnosticArray.start (msg : DiagnosticMsgsDiagnosticArray) : Nat :=
  afterWord 4 (afterString msg.header.frameId.toCString (afterWord 4 (afterWord 4 0)))

/-- The size of the message up to its status `k`, with the header and without what its arrays have
no room for. -/
def DiagnosticMsgsDiagnosticArray.sizeUpTo (msg : DiagnosticMsgsDiagnosticArray) (k : Nat) : Nat :=
  4 + nextEach afterDiagnosticStatus (msg.status.elems.toList.take k) msg.start

theorem le_nextEach {α : Type} {next : α → Nat → Nat} (h : ∀ a off, off ≤ next a off) (l : List α)
    (off : Nat) : off ≤ nextEach next l off := by
  induction l generalizing off with
  | nil => exact Nat.le_refl off
  | cons a l ih => exact (h a off).trans (ih (next a off))

/-- The first overrun lies behind the capacity if and only if each one does. -/
theorem overrunEach_iff {α β γ : Type} {k n : Nat} {next : α → Nat → Nat} (inner : α → Slots β k)
    (outer : Slots γ n) (progress : ∀ a off, off ≤ next a off) (cap : Nat) (l : List α)
    (off : Nat) :
    (∀ o, overrunEach next (fun a off => (inner a).overrunAt 0 (next a off)) (outer.overrunAt 0) l
        off = some o → cap < 4 + o) ↔
      (∀ (j : Nat) a, l[j]? = some a → k < (inner a).count.toNat →
        cap < 4 + nextEach next (l.take (j + 1)) off) ∧
        (n < outer.count.toNat → cap < 4 + nextEach next l off) := by
  induction l generalizing off with
  | nil =>
    refine (outer.overrunAt_iff 0 off cap).trans ⟨fun h => ⟨by simp, fun hlt => ?_⟩, fun h => ?_⟩
    · exact h.resolve_left (Nat.not_le_of_lt hlt)
    · exact (Nat.lt_or_ge n outer.count.toNat).symm.imp id h.2
  | cons a l ih =>
    rw [overrunEach]
    by_cases ha : (inner a).count.toNat ≤ k
    · have hnone : (inner a).overrunAt 0 (next a off) = none := if_pos ha
      rw [hnone, Option.none_or, ih (next a off)]
      constructor
      · rintro ⟨h, h'⟩
        refine ⟨fun j b hj hb => ?_, h'⟩
        cases j with
        | zero =>
          obtain rfl : a = b := by simpa using hj
          omega
        | succ j => exact h j b (by simpa using hj) hb
      · rintro ⟨h, h'⟩
        exact ⟨fun j b hj hb => h (j + 1) b (by simpa using hj) hb, h'⟩
    · -- the overrun of `a` comes before everything behind it
      have hsome : (inner a).overrunAt 0 (next a off) = some (next a off) := if_neg ha
      rw [hsome, Option.some_or]
      constructor
      · intro h
        have hfirst := h _ rfl
        refine ⟨fun j b _ _ => ?_, fun _ => ?_⟩
        · have hlater := le_nextEach progress (l.take j) (next a off)
          exact hfirst.trans_le (Nat.add_le_add_left hlater 4)
        · have hlater := le_nextEach progress l (next a off)
          exact hfirst.trans_le (Nat.add_le_add_left hlater 4)
      · rintro ⟨h, -⟩ o ho
        obtain rfl := Option.some.inj ho
        exact h 0 a rfl (Nat.lt_of_not_le ha)

theorem within_of_overrunEach_eq_none {α β γ : Type} {k n : Nat} {next : α → Nat → Nat}
    {inner : α → Slots β k} {outer : Slots γ n} {l : List α} {off : Nat}
    (h : overrunEach next (fun a off => (inner a).overrunAt 0 (next a off)) (outer.overrunAt 0) l
      off = none) :
    outer.count.toNat ≤ n ∧ ∀ a ∈ l, (inner a).count.toNat ≤ k := by
  induction l generalizing off with
  | nil => exact ⟨Slots.le_of_overrunAt_eq_none h, by simp⟩
  | cons a l ih =>
    obtain ⟨hfirst, hrest⟩ := Option.or_eq_none_iff.mp h
    obtain ⟨houter, hinner⟩ := ih hrest
    refine ⟨houter, fun b hb => ?_⟩
    rcases List.mem_cons.mp hb with rfl | hb
    · exact Slots.le_of_overrunAt_eq_none hfirst
    · exact hinner b hb

theorem sizeUpTo_iff (msg : DiagnosticMsgsDiagnosticArray) (cap : Nat) :
    ((∀ (j : Nat) s, msg.status.inUse.elems[j]? = some s → kvMax < s.values.count.toNat →
        cap < 4 + nextEach afterDiagnosticStatus (msg.status.inUse.elems.take (j + 1)) msg.start) ∧
      (diagStatusMax < msg.status.count.toNat →
        cap < 4 + nextEach afterDiagnosticStatus msg.status.inUse.elems msg.start)) ↔
      (∀ j : Fin diagStatusMax, j < msg.status.count.toNat →
        kvMax < (msg.status.elems.get j).values.count.toNat → cap < msg.sizeUpTo (j + 1)) ∧
        (diagStatusMax < msg.status.count.toNat → cap < msg.sizeUpTo diagStatusMax) := by
  have htake {j : Nat} (hj : j < msg.status.count.toNat) :
      msg.status.inUse.elems.take (j + 1) = msg.status.elems.toList.take (j + 1) := by
    change (msg.status.elems.toList.take _).take (j + 1) = _
    rw [List.take_take, Nat.min_eq_left hj]
  have helem {j : Nat} (hj : j < msg.status.count.toNat) :
      msg.status.inUse.elems[j]? = msg.status.elems.toList[j]? := List.getElem?_take_of_lt hj
  refine and_congr ⟨fun h j hj hbad => ?_, fun h j s hs hbad => ?_⟩ (imp_congr_right fun hlt => ?_)
  · rw [DiagnosticMsgsDiagnosticArray.sizeUpTo, ← htake hj]
    refine h j _ ?_ hbad
    rw [helem hj, Vector.getElem?_toList]
    exact Vector.getElem?_eq_getElem j.isLt
  · obtain ⟨hj, -⟩ := List.getElem?_eq_some_iff.mp hs
    rw [msg.status.length_inUse, Nat.lt_min] at hj
    rw [helem hj.1, Vector.getElem?_toList, Vector.getElem?_eq_getElem hj.2] at hs
    obtain rfl := Option.some.inj hs
    rw [htake hj.1]
    exact h ⟨j, hj.2⟩ hj.1 hbad
  · have hall : msg.status.inUse.elems = msg.status.elems.toList.take diagStatusMax := by
      change msg.status.elems.toList.take _ = _
      rw [List.take_of_length_le (by simpa using hlt.le), List.take_of_length_le (by simp)]
    rw [hall]
    rfl

theorem diagnosticArray_accepted_iff (msg : DiagnosticMsgsDiagnosticArray) (buf : Nat → UInt8)
    (cap : Nat) :
    (msg.encode buf cap).Accepted Msgs.DiagnosticMsgsDiagnosticArray.decode ↔
      (∀ j : Fin diagStatusMax, j < msg.status.count.toNat →
        kvMax < (msg.status.elems.get j).values.count.toNat → cap < msg.sizeUpTo (j + 1)) ∧
        (diagStatusMax < msg.status.count.toNat → cap < msg.sizeUpTo diagStatusMax) := by
  have hruns := (runs_i32 msg.header.stamp.sec).seq <| (runs_u32 msg.header.stamp.nanosec).seq <|
    (runs_string (by decide) msg.header.frameId).seq <| (runs_u32 msg.status.count).seq <|
    msg.status.runs_forEach runs_diagnosticStatus runs_diagnosticStatus_stray
  refine Iff.trans (accepted_iff hruns (fun hnone => ?_) ((coded_i32 msg.header.stamp.sec).seq <|
      (coded_u32 msg.header.stamp.nanosec).seq <|
      (coded_string (by decide) msg.header.frameId).seq <|
      (coded_sequence coded_diagnosticStatus (msg.status.map (·.inUse)).inUse).map _) buf cap)
    ((overrunEach_iff DiagnosticMsgsDiagnosticStatus.values msg.status
      (fun s => (runs_diagnosticStatus s).le_next) cap msg.status.inUse.elems msg.start).trans
      (sizeUpTo_iff msg cap))
  obtain ⟨houter, hinner⟩ := within_of_overrunEach_eq_none hnone
  rw [put_seq, put_seq, put_seq, ← msg.status.sequence_eq_put houter (msg.status.inUse_map _)
    fun s hs => writeDiagnosticStatus_pure s (hinner s hs)]

/-- Exactly when an encoder stays inside its arrays and its decoder accepts what it wrote: each
count is within its array, or the capacity ends before an element past the array is loaded. -/
theorem encoders_accepted_iff (buf : Nat → UInt8) (cap : Nat) :
    (∀ msg : ActionMsgsGoalStatusArray,
      (msg.encode buf cap).Accepted Msgs.ActionMsgsGoalStatusArray.decode ↔
        msg.statusList.count.toNat ≤ goalStatusMax ∨ cap < 245) ∧
    (∀ msg : ActionMsgsCancelGoalResponse,
      (msg.encode buf cap).Accepted Msgs.ActionMsgsCancelGoalResponse.decode ↔
        msg.goalsCanceling.count.toNat ≤ goalStatusMax ∨ cap < 220) ∧
    (∀ msg : FibonacciGetResultResponse,
      (msg.encode buf cap).Accepted Msgs.FibonacciGetResultResponse.decode ↔
        msg.result.sequence.count.toNat ≤ seqI32Max ∨ cap < 76) ∧
    (∀ msg : FibonacciFeedbackMessage,
      (msg.encode buf cap).Accepted Msgs.FibonacciFeedbackMessage.decode ↔
        msg.feedback.sequence.count.toNat ≤ seqI32Max ∨ cap < 88) ∧
    (∀ msg : DiagnosticMsgsDiagnosticArray,
      (msg.encode buf cap).Accepted Msgs.DiagnosticMsgsDiagnosticArray.decode ↔
        (∀ j : Fin diagStatusMax, j < msg.status.count.toNat →
          kvMax < (msg.status.elems.get j).values.count.toNat → cap < msg.sizeUpTo (j + 1)) ∧
          (diagStatusMax < msg.status.count.toNat → cap < msg.sizeUpTo diagStatusMax)) :=
  ⟨fun msg => goalStatusArray_accepted_iff msg buf cap,
    fun msg => cancelGoalResponse_accepted_iff msg buf cap,
    fun msg => getResultResponse_accepted_iff msg buf cap,
    fun msg => feedbackMessage_accepted_iff msg buf cap,
    fun msg => diagnosticArray_accepted_iff msg buf cap⟩

/-- Nine statuses claimed of eight. -/
def overstated : ActionMsgsGoalStatusArray where
  statusList := {
    elems := Vector.replicate 8 ⟨⟨Vector.replicate 16 7, ⟨1, 2⟩⟩, 4⟩
    count := 9 }

/-- In a buffer of 256 bytes the ninth status is loaded from behind the array. -/
theorem ninth_status_overruns :
    (overstated.encode (fun _ => 0) 256).overrun = true ∧
      ¬ (overstated.encode (fun _ => 0) 256).Accepted Msgs.ActionMsgsGoalStatusArray.decode := by
  have hover : (overstated.encode (fun _ => 0) 256).overrun = true := by decide +kernel
  refine ⟨hover, fun h => ?_⟩
  have hclean := h.1
  rw [hover] at hclean
  simp at hclean

end RtosXrce.Xrce.Msgs.Raw
