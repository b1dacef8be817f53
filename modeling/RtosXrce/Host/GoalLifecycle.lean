import RtosXrce.Host.LiveAction

/-!
# The life of a goal

The sequence that the server stores is a beginning of the Fibonacci sequence and stays inside its
array, over any number of goals and for any order of requests and steps. A running goal cannot be
replaced, and a goal that is being canceled gets no more values.
-/

namespace RtosXrce.Host

open Library Xrce.Msgs

namespace LiveAction

/-- The first `n` Fibonacci numbers. -/
def fibs (n : Nat) : List Int32 := (List.range n).map fun i => Int32.ofNat (Nat.fib i)

@[simp]
theorem length_fibs (n : Nat) : (fibs n).length = n := by simp [fibs]

theorem fibs_succ (n : Nat) : fibs (n + 1) = fibs n ++ [Int32.ofNat (Nat.fib n)] := by
  simp [fibs, List.range_succ]

theorem getD_fibs {n i : Nat} (h : i < n) : (fibs n).getD i 0 = Int32.ofNat (Nat.fib i) := by
  simp [fibs, List.getD, h]

theorem nextValue_fibs (n : Nat) :
    Server.nextValue (fibs n) = Int32.ofNat (Nat.fib n) := by
  unfold Server.nextValue
  rw [length_fibs]
  split
  case isTrue h =>
    obtain rfl | rfl : n = 0 ∨ n = 1 := by omega
    · rfl
    · rfl
  case isFalse h =>
    obtain ⟨m, rfl⟩ : ∃ m, n = m + 2 := ⟨n - 2, by omega⟩
    rw [getD_fibs (by omega), getD_fibs (by omega), Nat.fib_add_two, ← Int32.ofNat_add,
      Nat.add_comm]
    rfl

namespace Server

variable {s s' : Server} {e : Event} {sent : List Sent}

/-- The order of the goal is one the array has room for. -/
def OrderFits (s : Server) : Prop := 1 ≤ s.order.toInt ∧ s.order.toInt ≤ seqI32Max

theorem OrderFits.toNat (h : s.OrderFits) : (s.order.toUInt32.toNat : Int) = s.order.toInt := by
  have hnonneg : 0 ≤ s.order := Int32.le_iff_toInt_le.mpr (Int.le_trans (by decide) h.1)
  rw [Int32.toNat_toUInt32_of_le hnonneg, Int32.toNatClampNeg]
  exact Int.toNat_of_nonneg (Int.le_trans (by decide) h.1)

/-- What is true of the goal between two events. -/
structure Lifecycle (s : Server) : Prop where
  fibonacci : s.sequence = fibs s.sequence.length
  bound : s.sequence.length ≤ seqI32Max
  done : s.goalDone = true ↔ s.status = goalStatusSucceeded ∨ s.status = goalStatusCanceled
  room : s.goalDone = false → s.sequence.length < seqI32Max
  short : s.goalDone = false → s.OrderFits → s.sequence.length < s.order.toInt
  exact : s.status = goalStatusSucceeded → s.OrderFits → s.sequence.length = s.order.toInt

theorem lifecycle_init : Lifecycle .init where
  fibonacci := rfl
  bound := by decide
  done := by decide
  room := by decide
  short _ h := absurd h.1 (by decide)
  exact h := absurd h (by decide)

/-- Another value keeps the sequence a beginning of the Fibonacci sequence. -/
theorem Lifecycle.fibonacci_advance (h : Lifecycle s) (now : UInt64) :
    (s.advance now).sequence = fibs (s.advance now).sequence.length := by
  have hfib := h.fibonacci
  generalize hn : s.sequence.length = n at hfib
  rw [advance_sequence, hfib, nextValue_fibs, ← fibs_succ, length_fibs]

/-- The status is not one that a goal ends with. -/
def Pending (status : Int8) : Prop := status ≠ goalStatusSucceeded ∧ status ≠ goalStatusCanceled

instance (status : Int8) : Decidable (Pending status) := inferInstanceAs (Decidable (_ ∧ _))

/-- A goal that is not done. -/
theorem Lifecycle.of_pending (unfinished : s.goalDone = false) (status : Pending s.status)
    (fibonacci : s.sequence = fibs s.sequence.length) (room : s.sequence.length < seqI32Max)
    (short : s.OrderFits → s.sequence.length < s.order.toInt) : Lifecycle s where
  fibonacci := fibonacci
  bound := room.le
  done := iff_of_false (by simp [unfinished]) (by simp [status.1, status.2])
  room _ := room
  short _ := short
  exact h := absurd h status.1

theorem Lifecycle.step (h : Lifecycle s) (hs : Outcome s e s' sent) : Lifecycle s' := by
  cases hs with
  | dropped | waited | refused | notCanceled | answered => exact h
  | accepted =>
    refine .of_pending rfl (by decide : Pending goalStatusAccepted) rfl
      (by decide : 0 < seqI32Max) fun fits => ?_
    exact Int.lt_of_lt_of_le Int.zero_lt_one fits.1
  | canceling running =>
    exact .of_pending running.2 (by decide : Pending goalStatusCanceling) h.fibonacci
      (h.room running.2) (h.short running.2)
  | held => exact ⟨h.fibonacci, h.bound, h.done, h.room, h.short, h.exact⟩
  | @advanced now now' running go more =>
    obtain ⟨hmore, hroom⟩ : (s.advance now').sequence.length < s.order.toUInt32.toNat ∧
        (s.advance now').sequence.length < seqI32Max := by
      simpa only [Enough, not_or, Nat.not_le, advance_order] using more
    refine .of_pending running.2 (by decide : Pending goalStatusExecuting)
      (h.fibonacci_advance now') hroom fun fits => ?_
    have hnat : (s.order.toUInt32.toNat : Int) = s.order.toInt := OrderFits.toNat fits
    have hgoal : ((s.advance now').sequence.length : Int) < s.order.toInt := by omega
    exact hgoal
  | @succeeded now now' running go enough =>
    have hlength : (s.advance now').sequence.length = s.sequence.length + 1 := by simp
    have hroom := h.room running.2
    refine ⟨h.fibonacci_advance now', ?_, by simp, by simp, by simp, fun _ fits => ?_⟩
    · rw [finished_sequence, hlength]
      exact hroom
    · -- the goal was not long enough a step ago
      have hnat := OrderFits.toNat (s := s) fits
      have hshort := h.short running.2 fits
      have hbound : s.order.toInt ≤ seqI32Max := fits.2
      rw [Enough, hlength, advance_order] at enough
      rw [finished_sequence, hlength, finished_order, advance_order]
      omega
  | canceled running =>
    refine ⟨h.fibonacci, h.bound, by simp, by simp, by simp, fun hstatus => ?_⟩
    exact absurd hstatus (by decide : goalStatusCanceled ≠ goalStatusSucceeded)

theorem lifecycle_of_reach (h : system.Reachable .init s) : Lifecycle s := by
  refine h.invariant lifecycle_init fun s e t hs _ hstep => ?_
  obtain rfl := Option.some.inj hstep
  exact hs.step (s.handle_outcome e)

theorem lifecycle_serve (turns : List Turn) : (Server.init.serve turns).Lifecycle :=
  lifecycle_of_reach (reachable_serve .refl turns)

/-! ## Cancellation -/

/-- The event starts a new goal. -/
def Accepts (s : Server) : Event → Prop
  | .sendGoal _ request _ => uuidSize + 4 ≤ request.length ∧ ¬s.Running
  | _ => False

instance (s : Server) (e : Event) : Decidable (s.Accepts e) :=
  match e with
  | .sendGoal .. => inferInstanceAs (Decidable (_ ∧ _))
  | .cancelGoal .. | .getResult .. | .step .. => isFalse id

/-- The goal of `s` has been told to stop, or has stopped. -/
structure Stopping (s t : Server) : Prop where
  goalId : t.goalId = s.goalId
  sequence : t.sequence = s.sequence
  active : t.goalActive = true
  told : t.cancelRequested = true
  ends : t.goalDone = true → t.status = goalStatusCanceled

theorem Stopping.step {t t' : Server} (h : Stopping s t) (same : ¬t.Accepts e)
    (ht : Outcome t e t' sent) : Stopping s t' := by
  cases ht with
  | dropped | waited | refused | notCanceled | answered => exact h
  | accepted free long => exact absurd ⟨long, free⟩ same
  | canceling running =>
    refine ⟨h.goalId, h.sequence, h.active, rfl, fun done => ?_⟩
    cases running.2.symm.trans done
  | held => exact ⟨h.goalId, h.sequence, h.active, h.told, h.ends⟩
  | advanced _ go | succeeded _ go => cases h.told.symm.trans go
  | canceled => exact ⟨h.goalId, h.sequence, h.active, h.told, fun _ => rfl⟩

/-- The reply tells whether a request to cancel was accepted. -/
theorem stopping_of_accepted {id : SampleIdentity} {request : Bytes} {goals : List Uuid}
    (accepted : .cancelGoalResponse id 0 goals ∈ (s.handleCancelGoal id request).2) :
    Stopping s (s.handleCancelGoal id request).1 := by
  have houtcome := s.handleCancelGoal_outcome id request
  generalize (s.handleCancelGoal id request).1 = s' at houtcome ⊢
  generalize (s.handleCancelGoal id request).2 = sent at houtcome accepted
  cases houtcome with
  | dropped => cases accepted
  | notCanceled => simp at accepted
  | canceling running =>
    refine ⟨rfl, rfl, running.1, rfl, fun done => ?_⟩
    cases running.2.symm.trans done

theorem stopping_of_reach {t : Server} {start : Server} (h : Stopping s start)
    (run : system.Reach (fun t e => ¬t.Accepts e) start t) : Stopping s t := by
  refine run.invariant h fun t e t' ht same hstep => ?_
  obtain rfl := Option.some.inj hstep
  exact ht.step same (t.handle_outcome e)

/-- A request for another goal; one that is too short goes without a reply. -/
theorem handleSendGoal_of_running (running : s.Running) (id : SampleIdentity) (request : Bytes)
    (now : UInt64) :
    s.handleSendGoal id request now =
      (s, if request.length < uuidSize + 4 then [] else [.sendGoalResponse id false]) := by
  unfold handleSendGoal
  split
  case isTrue => rfl
  case isFalse => simp [running.1, running.2]

end Server

/-- In every state of every run: the sequence is a beginning of the Fibonacci sequence and fits its
array; a request for another goal is refused while one is running, and changes nothing; the goal is
done exactly when its status is SUCCEEDED or CANCELED; once a request to cancel it has been accepted
it gets no more values and can only end CANCELED; and a goal that ends SUCCEEDED has as many values
as it was to have, if the array has room for them. -/
theorem goal_lifecycle {s : Server} (h : system.Reachable .init s) :
    (s.sequence.length ≤ seqI32Max ∧ s.sequence = fibs s.sequence.length) ∧
    (s.Running → ∀ id request now, s.handleSendGoal id request now =
      (s, if request.length < uuidSize + 4 then [] else [.sendGoalResponse id false])) ∧
    (s.goalDone = true ↔ s.status = goalStatusSucceeded ∨ s.status = goalStatusCanceled) ∧
    (∀ id request goals, .cancelGoalResponse id 0 goals ∈ (s.handleCancelGoal id request).2 →
      ∀ t, system.Reach (fun t e => ¬t.Accepts e) (s.handleCancelGoal id request).1 t →
        t.goalId = s.goalId ∧ t.sequence = s.sequence ∧
          (t.goalDone = true → t.status = goalStatusCanceled)) ∧
    (1 ≤ s.order.toInt → s.order.toInt ≤ seqI32Max → s.status = goalStatusSucceeded →
      s.sequence.length = s.order.toInt) := by
  have life := Server.lifecycle_of_reach h
  refine ⟨⟨life.bound, life.fibonacci⟩, Server.handleSendGoal_of_running, life.done, ?_, ?_⟩
  · intro id request goals accepted t run
    have stopping := Server.stopping_of_reach (Server.stopping_of_accepted accepted) run
    exact ⟨stopping.goalId, stopping.sequence, stopping.ends⟩
  · intro hpos hbound hstatus
    exact life.exact hstatus ⟨hpos, hbound⟩

/-- A request of any kind for the goal `n`, whose order would be `n` as well. -/
def requestFor (n : UInt8) : Bytes := List.replicate 16 n ++ [n, 0, 0, 0]

/-- The goal 2 runs to its end. -/
def twoValues : List Event :=
  let client := .replicate sampleIdentitySize 1
  [.sendGoal client (requestFor 2) 0, .step 500 500, .sendGoal client [] 0, .step 1000 1001]

theorem goal_lifecycle_two_values :
    ∃ s, system.runGuarded (fun _ _ => True) .init twoValues = some s ∧ s.goalDone = true ∧
      s.status = goalStatusSucceeded ∧ s.sequence = [0, 1] ∧
      s.sequence.length = s.order.toInt := by
  obtain ⟨s, hrun, hdone, hstatus, hsequence, horder⟩ :
      ∃ s, system.runGuarded (fun _ _ => True) .init twoValues = some s ∧ s.goalDone = true ∧
        s.status = goalStatusSucceeded ∧ s.sequence = [0, 1] ∧ s.order = 2 :=
    System.exists_of_runGuarded (by decide +kernel)
  have life := goal_lifecycle (System.reach_of_runGuarded hrun)
  refine ⟨s, hrun, hdone, hstatus, hsequence, ?_⟩
  exact life.2.2.2.2 (by rw [horder]; decide) (by rw [horder]; decide) hstatus

end LiveAction

end RtosXrce.Host
