import Mathlib.Algebra.GroupWithZero.Nat
import RtosXrce.Xrce.SerialFrames

/-!
# The size and shape of encoded frames

Every stuffed octet is tested against the capacity on its own. `Leaves` follows what stands in the
buffer at whichever test the encoder stops, so one invariant covers the calls that fail.
-/

namespace RtosXrce.Xrce.Serial

open Library

/-- The bytes an octet takes on the wire. -/
def octetLen (octet : UInt8) : Nat := if octet = flag ∨ octet = esc then 2 else 1

/-- The flag and the stuffed header, payload and CRC octets. -/
def encodedLen (src dst : UInt8) (payload : Bytes) : Nat :=
  1 + ((frameOctets src dst payload).map octetLen).sum

theorem length_stuffOne (octet : UInt8) : (stuffing.stuffOne octet).length = octetLen octet := by
  unfold Stuffing.stuffOne octetLen
  by_cases special : octet = flag ∨ octet = esc
  · have special' : octet = stuffing.flag ∨ octet = stuffing.esc := special
    rw [if_pos special, if_pos special']
    rfl
  · have special' : ¬ (octet = stuffing.flag ∨ octet = stuffing.esc) := special
    rw [if_neg special, if_neg special']
    rfl

theorem length_stuff (octets : Bytes) :
    (stuffing.stuff octets).length = (octets.map octetLen).sum := by
  induction octets with
  | nil => rfl
  | cons x xs ih =>
    rw [Stuffing.stuff_cons, List.length_append, length_stuffOne, ih, List.map_cons, List.sum_cons]

theorem length_wire_eq (src dst : UInt8) (payload : Bytes) :
    (wire src dst payload).length = encodedLen src dst payload := by
  rw [wire, List.length_cons, length_stuff, encodedLen, Nat.add_comm]

/-! ## What a call leaves in the buffer -/

/-- `P` holds of the buffer in whichever way the step ends. -/
def Leaves {β : Type} (P : Bytes → Prop) (out : β → Bytes) : Except Bytes β → Prop
  | .ok res => P (out res)
  | .error bytes => P bytes

theorem Leaves.bind {β γ : Type} {P : Bytes → Prop} {out : β → Bytes} {out' : γ → Bytes}
    {x : Except Bytes β} {f : β → Except Bytes γ} (hx : Leaves P out x)
    (hf : ∀ res, P (out res) → Leaves P out' (f res)) : Leaves P out' (x >>= f) := by
  cases x with
  | error bytes => exact hx
  | ok res => exact hf res hx

/-- A flag and stuffed octets, within the capacity. -/
def Written (outCap : Nat) (bytes : Bytes) : Prop :=
  bytes.length ≤ outCap ∧ ∃ octets, bytes = flag :: stuffing.stuff octets

theorem leaves_putStuffed {outCap : Nat} {out : Bytes} (h : Written outCap out) (byte : UInt8) :
    Leaves (Written outCap) id (putStuffed outCap byte out) := by
  rw [putStuffed_eq]
  split
  next room =>
    obtain ⟨-, octets, rfl⟩ := h
    exact ⟨by rwa [id, List.length_append], octets ++ [byte], by simp⟩
  next => exact h

theorem leaves_putPayload {outCap : Nat} (payload : Bytes) (crc : UInt16) {out : Bytes}
    (h : Written outCap out) :
    Leaves (Written outCap) Prod.snd (putPayload outCap payload crc out) := by
  induction payload generalizing crc out with
  | nil => exact h
  | cons byte payload ih => exact (leaves_putStuffed h byte).bind fun _ h => ih _ h

theorem leaves_putFrame {outCap : Nat} (room : 1 ≤ outCap) (src dst : UInt8) (payload : Bytes) :
    Leaves (Written outCap) id (putFrame outCap src dst payload) := by
  have start : Written outCap [flag] := ⟨room, [], rfl⟩
  simp only [putFrame, if_neg (Nat.not_lt.mpr room)]
  refine (leaves_putStuffed start _).bind fun _ h => ?_
  refine (leaves_putStuffed h _).bind fun _ h => ?_
  refine (leaves_putStuffed h _).bind fun _ h => ?_
  refine (leaves_putStuffed h _).bind fun _ h => ?_
  refine (leaves_putPayload payload 0 h).bind fun res h => ?_
  exact (leaves_putStuffed h _).bind fun _ h => leaves_putStuffed h _

/-- Whether the call succeeds or not, the bytes written are a flag and stuffed octets within the
capacity; without capacity there are none. -/
theorem frameEncode_written (outCap : Nat) (src dst : UInt8) (payload : Bytes) :
    (frameEncode outCap src dst payload).2 = [] ∨
      Written outCap (frameEncode outCap src dst payload).2 := by
  by_cases room : 1 ≤ outCap
  · refine Or.inr ?_
    have left := leaves_putFrame room src dst payload
    unfold frameEncode
    cases h : putFrame outCap src dst payload with
    | ok out => rwa [h] at left
    | error out => rwa [h] at left
  · refine Or.inl ?_
    have none : outCap = 0 := by omega
    subst none
    rfl

theorem length_frameEncode_le (outCap : Nat) (src dst : UInt8) (payload : Bytes) :
    (frameEncode outCap src dst payload).2.length ≤ outCap := by
  rcases frameEncode_written outCap src dst payload with none | written
  · simp [none]
  · exact written.1

/-- The call succeeds exactly when its frame fits. -/
theorem frameEncode_fst (outCap : Nat) (src dst : UInt8) (payload : Bytes) :
    (frameEncode outCap src dst payload).1 =
      if encodedLen src dst payload ≤ outCap then encodedLen src dst payload else 0 := by
  have hlen := length_wire_eq src dst payload
  split
  next fits => rw [frameEncode_of_le (by omega), hlen]
  next small =>
    by_contra success
    have bytes := frameEncode_bytes success
    have bound := length_frameEncode_le outCap src dst payload
    rw [bytes] at bound
    omega

/-- The second half of an escape pair is not an escape, and neither is an octet sent as it is. -/
theorem getLast?_stuffOne_ne (octet : UInt8) : (stuffing.stuffOne octet).getLast? ≠ some esc := by
  unfold Stuffing.stuffOne
  split
  next special => rcases special with rfl | rfl <;> decide
  next plain =>
    intro last
    have same : octet = esc := by simpa using last
    exact plain (Or.inr same)

theorem getLast?_stuff_ne (octets : Bytes) : (stuffing.stuff octets).getLast? ≠ some esc := by
  rcases List.eq_nil_or_concat octets with rfl | ⟨octets, x, rfl⟩
  · simp
  · have last := getLast?_stuffOne_ne x
    have ne : stuffing.stuffOne x ≠ [] := List.ne_nil_of_length_pos (stuffing.length_stuffOne_pos x)
    rw [List.concat_eq_append, Stuffing.stuff_append, Stuffing.stuff_cons, Stuffing.stuff_nil,
      List.append_nil, List.getLast?_append_of_ne_nil _ ne]
    exact last

/-- A frame takes one byte and one or two more for every octet. The encoder returns that number
when the capacity allows it and 0 otherwise, and never writes past the capacity; the bytes have
their flag in front and no other, and no escape at the end. -/
theorem frameEncode_shape (outCap : Nat) (src dst : UInt8) (payload : Bytes) :
    (frameEncode outCap src dst payload).1 =
        (if encodedLen src dst payload ≤ outCap then encodedLen src dst payload else 0) ∧
      (frameEncode outCap src dst payload).2.length ≤ outCap ∧
      encodedLen src dst payload ≤ maxEncodedLen payload.length ∧
      (encodedLen src dst payload ≤ outCap →
        (frameEncode outCap src dst payload).2.length = encodedLen src dst payload ∧
        (frameEncode outCap src dst payload).2.head? = some flag) ∧
      (∀ i, (frameEncode outCap src dst payload).2[i]? = some flag → i = 0) ∧
      (frameEncode outCap src dst payload).2.getLast? ≠ some esc := by
  have hlen := length_wire_eq src dst payload
  refine ⟨frameEncode_fst outCap src dst payload, length_frameEncode_le outCap src dst payload,
    ?_, fun fits => ?_, fun i hi => ?_, ?_⟩
  · rw [← hlen]
    exact length_wire_le src dst payload
  · rw [frameEncode_of_le (by omega)]
    exact ⟨hlen, rfl⟩
  · rcases frameEncode_written outCap src dst payload with none | ⟨-, octets, written⟩
    · simp [none] at hi
    · rw [written] at hi
      cases i with
      | zero => rfl
      | succ i =>
        rw [List.getElem?_cons_succ] at hi
        exact absurd (List.mem_of_getElem? hi) (stuffing.flag_not_mem_stuff octets)
  · rcases frameEncode_written outCap src dst payload with none | ⟨-, octets, written⟩
    · simp [none]
    · rw [written, List.getLast?_cons]
      have last := getLast?_stuff_ne octets
      cases h : (stuffing.stuff octets).getLast? with
      | none => decide
      | some x => simpa [h] using last

end RtosXrce.Xrce.Serial
