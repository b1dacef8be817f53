import RtosXrce.Library.Transition
import RtosXrce.Xrce.SecureFrames

/-!
# The two directions of the secured link

The board and the gateway each hold one context to send with and one to receive with, all four
initialised with one key (`rtos/arm/ros2_demo.c`, `host/secure_gateway.c`). The channel in between
is the attacker's: any string may be delivered to either side, except one that verifies and
carries a counter and payload nobody wrapped.
-/

namespace RtosXrce.Xrce.Secure

open Library

inductive Side where
  | board
  | gateway
  deriving DecidableEq

def Side.peer : Side → Side
  | board => gateway
  | gateway => board

/-- The four contexts, and for each side what it has wrapped and what it has accepted. -/
structure Link where
  sender : Side → Ctx
  receiver : Side → Ctx
  wrapped : Side → List (UInt32 × Bytes)
  accepted : Side → List (UInt32 × Bytes)

namespace Link

inductive Action where
  | wrap (side : Side) (payload : Bytes) (outCap : Nat)
  | deliver (side : Side) (s : Bytes)

/-- The counter and payload a string claims. -/
def claims (s : Bytes) : UInt32 × Bytes := (getCounterBe s, plain s)

theorem claims_frame (key : Bytes) (counter : UInt32) (payload : Bytes) :
    claims (frame key counter payload) = (counter, payload) := by
  rw [claims, getCounterBe_frame, plain_frame]

/-- `s` is not a forgery: if `side` would verify it, then somebody wrapped it. -/
def Unforged (l : Link) (side : Side) (s : Bytes) : Prop :=
  Verifies (l.receiver side).key s → ∃ w, claims s ∈ l.wrapped w

instance (l : Link) (side : Side) (s : Bytes) : Decidable (l.Unforged side s) :=
  decidable_of_iff (Verifies (l.receiver side).key s →
      claims s ∈ l.wrapped .board ∨ claims s ∈ l.wrapped .gateway) <| by
    unfold Unforged
    refine imp_congr_right fun _ => ⟨fun h => h.elim (fun h => ⟨_, h⟩) fun h => ⟨_, h⟩, ?_⟩
    rintro ⟨w, hw⟩
    cases w with
    | board => exact Or.inl hw
    | gateway => exact Or.inr hw

/-- A wrap call of `side`; a call that returns 0 wraps nothing. -/
def wrap (l : Link) (side : Side) (payload : Bytes) (outCap : Nat) : Link :=
  let out := (l.sender side).wrap payload outCap
  { l with
    sender := Function.update l.sender side out.1
    wrapped := if out.2 = [] then l.wrapped else
      Function.update l.wrapped side (((l.sender side).sendCounter, payload) :: l.wrapped side) }

/-- An unwrap call of `side` on `s`. -/
def deliver (l : Link) (side : Side) (s : Bytes) : Link :=
  let out := (l.receiver side).unwrap s
  { l with
    receiver := Function.update l.receiver side out.1
    accepted := match out.2 with
      | .ok p => Function.update l.accepted side ((getCounterBe s, p) :: l.accepted side)
      | _ => l.accepted }

def system : System Link Action where
  step l a := match a with
    | .wrap side payload outCap => some (l.wrap side payload outCap)
    | .deliver side s => if l.Unforged side s then some (l.deliver side s) else none

def start (key : Bytes) : Link where
  sender _ := Ctx.init key
  receiver _ := Ctx.init key
  wrapped _ := []
  accepted _ := []

/-- Everything a side accepted was wrapped by the other side. -/
def Authentic (l : Link) : Prop :=
  ∀ side, ∀ x ∈ l.accepted side, x ∈ l.wrapped side.peer

/-- What is delivered to `side` it has wrapped itself, and its peer has not. -/
def HandsBack (l : Link) (side : Side) (s : Bytes) : Prop :=
  claims s ∈ l.wrapped side ∧ claims s ∉ l.wrapped side.peer

/-- No side is handed back what it has wrapped. -/
def Direct (l : Link) : Action → Prop
  | .wrap .. => True
  | .deliver side s => ¬l.HandsBack side s

/-- A delivery that hands a payload back to a side that takes it: the tag verifies, and the counter
is above all that the side has accepted. -/
def Reflects (l : Link) (side : Side) (s : Bytes) : Prop :=
  l.HandsBack side s ∧ Verifies (l.receiver side).key s ∧
    (l.receiver side).floor ≤ (getCounterBe s).toNat

theorem wrapped_wrap_of_fits {l : Link} {side : Side} {payload : Bytes} {outCap : Nat}
    (h : Ctx.Fits payload outCap) :
    (l.wrap side payload outCap).wrapped =
      Function.update l.wrapped side
        (((l.sender side).sendCounter, payload) :: l.wrapped side) := by
  have hne := frame_ne_nil (l.sender side).key (l.sender side).sendCounter payload
  simp only [wrap, Ctx.wrap_of_fits h, if_neg hne]

theorem mem_wrapped_wrap {l : Link} {w : Side} {x : UInt32 × Bytes} (h : x ∈ l.wrapped w)
    (side : Side) (payload : Bytes) (outCap : Nat) :
    x ∈ (l.wrap side payload outCap).wrapped w := by
  by_cases hfits : Ctx.Fits payload outCap
  · rw [wrapped_wrap_of_fits hfits]
    by_cases hw : w = side
    · subst hw
      simp [h]
    · simpa [hw] using h
  · unfold wrap
    rw [Ctx.wrap_of_not_fits hfits]
    exact h

theorem accepted_deliver (l : Link) (side : Side) (s : Bytes) :
    (l.deliver side s).accepted =
      if Verifies (l.receiver side).key s ∧
          (l.receiver side).floor ≤ (getCounterBe s).toNat then
        Function.update l.accepted side (claims s :: l.accepted side)
      else l.accepted := by
  unfold deliver
  dsimp only
  split
  case h_1 p hp =>
    obtain ⟨hv, hfloor, rfl⟩ := Ctx.unwrap_ok_iff.mp hp
    rw [if_pos ⟨hv, hfloor⟩]
    rfl
  case h_2 hno =>
    rw [if_neg]
    rintro ⟨hv, hfloor⟩
    exact hno _ (Ctx.unwrap_ok_iff.mpr ⟨hv, hfloor, rfl⟩)

theorem authentic_deliver_iff {l : Link} (auth : l.Authentic) {side : Side} {s : Bytes}
    (unforged : l.Unforged side s) :
    (l.deliver side s).Authentic ↔ ¬l.Reflects side s := by
  have hwrapped : (l.deliver side s).wrapped = l.wrapped := rfl
  unfold Authentic
  rw [accepted_deliver, hwrapped]
  by_cases hacc : Verifies (l.receiver side).key s ∧
      (l.receiver side).floor ≤ (getCounterBe s).toNat
  · rw [if_pos hacc]
    constructor
    · rintro h ⟨⟨-, hpeer⟩, -⟩
      exact hpeer (h side (claims s) (by simp))
    · intro direct w x hx
      by_cases hw : w = side
      · subst hw
        rw [Function.update_self] at hx
        rcases List.mem_cons.mp hx with rfl | hx
        · by_contra hpeer
          obtain ⟨v, hv⟩ := unforged hacc.1
          refine direct ⟨⟨?_, hpeer⟩, hacc⟩
          cases v <;> cases w <;> first | exact hv | exact absurd hv hpeer
        · exact auth w x hx
      · rw [Function.update_of_ne hw] at hx
        exact auth w x hx
  · rw [if_neg hacc]
    exact iff_of_true auth fun h => hacc h.2

/-- Both directions stay authentic as long as no side is handed back what it has wrapped. What is
handed back ends it exactly when the side has accepted no counter as high. -/
theorem authentic_of_direct (key : Bytes) {l : Link} (h : system.Reach Direct (start key) l) :
    l.Authentic ∧ ∀ side s, l.Unforged side s →
      ((l.deliver side s).Authentic ↔ ¬l.Reflects side s) := by
  suffices auth : l.Authentic from ⟨auth, fun _ _ => authentic_deliver_iff auth⟩
  refine h.invariant (I := Authentic) (fun _ _ hx => by cases hx) fun l a t auth direct hstep => ?_
  cases a with
  | wrap side payload outCap =>
    cases hstep
    exact fun w x hx => mem_wrapped_wrap (auth w x hx) side payload outCap
  | deliver side s =>
    simp only [system] at hstep
    split at hstep
    case isTrue unforged =>
      cases hstep
      exact (authentic_deliver_iff auth unforged).mpr fun hreflects => direct hreflects.1
    case isFalse => cases hstep

/-- A second delivery of the same string adds nothing. -/
theorem accepted_again (l : Link) (side : Side) (s : Bytes) :
    ((l.deliver side s).deliver side s).accepted = (l.deliver side s).accepted := by
  have hreceiver : (l.deliver side s).receiver side = ((l.receiver side).unwrap s).1 :=
    Function.update_self _ _ _
  rw [accepted_deliver (l.deliver side s), hreceiver, Ctx.unwrap_key, Ctx.unwrap_offer.1]
  refine if_neg ?_
  rintro ⟨hv, hfloor⟩
  rw [number, if_pos hv, Record.offer] at hfloor
  split at hfloor <;> omega

/-- `g_secure_key` of the firmware, the gateway's default key too. -/
def secureKey : Bytes :=
  [0xDE, 0xAD, 0xBE, 0xEF, 0xCA, 0xFE, 0xBA, 0xBE,
    0x13, 0x37, 0xC0, 0xDE, 0xF0, 0x0D, 0x5E, 0xED]

/-- The link after the board has wrapped its first payload. -/
def wrappedOnce : Link := (start secureKey).wrap .board [1] 64

theorem wrapped_wrappedOnce :
    wrappedOnce.wrapped = Function.update (fun _ => []) Side.board [(0, [1])] :=
  wrapped_wrap_of_fits (by decide)

theorem unforged_wrappedOnce (side : Side) :
    wrappedOnce.Unforged side (frame secureKey 0 [1]) := by
  intro _
  refine ⟨.board, ?_⟩
  rw [wrapped_wrappedOnce, Function.update_self, claims_frame]
  exact List.mem_singleton_self _

/-- Both sides have wrapped a payload. -/
def exchange : Link := wrappedOnce.wrap .gateway [2] 64

theorem wrapped_exchange : exchange.wrapped = fun
    | .board => [(0, [1])]
    | .gateway => [(0, [2])] := by
  have hwrap : exchange.wrapped = Function.update wrappedOnce.wrapped .gateway
      (((wrappedOnce.sender .gateway).sendCounter, [2]) :: wrappedOnce.wrapped .gateway) :=
    wrapped_wrap_of_fits (by decide)
  rw [hwrap, wrapped_wrappedOnce]
  funext side
  cases side <;> rfl

/-- The gateway gets the board's payload twice, the board that of the gateway. -/
theorem authentic_of_direct_exchange :
    ∃ l, system.Reach Direct (start secureKey) l ∧ l.accepted .gateway = [(0, [1])] ∧
      l.accepted .board = [(0, [2])] ∧ l.Authentic := by
  let up := frame secureKey 0 [1]
  let down := frame secureKey 0 [2]
  have hwraps : system.Reach Direct (start secureKey) exchange :=
    (System.Reach.refl.tail (a := .wrap .board [1] 64) trivial rfl).tail
      (a := .wrap .gateway [2] 64) trivial rfl
  -- a delivery to the peer of the side that has wrapped the string
  have deliver {l : Link} (h : system.Reach Direct (start secureKey) l)
      (hwrapped : l.wrapped = exchange.wrapped) (side : Side) (s : Bytes)
      (hpeer : claims s ∈ exchange.wrapped side.peer) :
      system.Reach Direct (start secureKey) (l.deliver side s) := by
    refine h.tail (a := .deliver side s) (fun hback => ?_) (if_pos fun _ => ⟨side.peer, ?_⟩)
    · exact hback.2 (hwrapped ▸ hpeer)
    · exact hwrapped ▸ hpeer
  have hup : claims up ∈ exchange.wrapped .board := by
    rw [wrapped_exchange, claims_frame]
    exact List.mem_singleton_self _
  have hdown : claims down ∈ exchange.wrapped .gateway := by
    rw [wrapped_exchange, claims_frame]
    exact List.mem_singleton_self _
  have hfirst := deliver hwraps rfl .gateway up hup
  have hagain := deliver hfirst rfl .gateway up hup
  have hreach := deliver hagain rfl .board down hdown
  have hgateway : (exchange.deliver .gateway up).accepted =
      Function.update exchange.accepted .gateway [(0, [1])] := by
    rw [accepted_deliver, if_pos ⟨verifies_frame secureKey 0 (by decide), Nat.zero_le _⟩,
      claims_frame]
    rfl
  have hboard :
      (((exchange.deliver .gateway up).deliver .gateway up).deliver .board down).accepted =
        Function.update (exchange.deliver .gateway up).accepted .board [(0, [2])] := by
    rw [accepted_deliver, if_pos ⟨verifies_frame secureKey 0 (by decide), Nat.zero_le _⟩,
      claims_frame, accepted_again, hgateway]
    rfl
  refine ⟨_, hreach, ?_, ?_, (authentic_of_direct secureKey hreach).1⟩
  · rw [hboard, hgateway]
    rfl
  · rw [hboard]
    rfl

/-- The board's first payload comes back to the board, which accepts it. -/
theorem reflection_accepted :
    ∃ l, system.Reachable (start secureKey) l ∧ (0, [1]) ∈ l.accepted .board ∧
      l.wrapped .gateway = [] ∧ ¬l.Authentic := by
  have hwrap : system.Reachable (start secureKey) wrappedOnce :=
    .tail (a := .wrap .board [1] 64) .refl trivial rfl
  have hacc : (0, [1]) ∈
      (wrappedOnce.deliver .board (frame secureKey 0 [1])).accepted .board := by
    rw [accepted_deliver, if_pos ⟨verifies_frame secureKey 0 (by decide), Nat.zero_le _⟩,
      Function.update_self, claims_frame]
    exact List.mem_cons_self
  have hnone : wrappedOnce.wrapped .gateway = [] := by
    rw [wrapped_wrappedOnce]
    rfl
  refine ⟨_, hwrap.tail (a := .deliver .board _) trivial (if_pos (unforged_wrappedOnce .board)),
    hacc, hnone, fun auth => ?_⟩
  have hpeer := auth .board _ hacc
  rw [show (wrappedOnce.deliver .board (frame secureKey 0 [1])).wrapped Side.board.peer =
    wrappedOnce.wrapped .gateway from rfl, hnone] at hpeer
  cases hpeer

end Link

end RtosXrce.Xrce.Secure
