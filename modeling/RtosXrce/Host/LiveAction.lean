import Mathlib.Data.Nat.Fib.Basic
import RtosXrce.Library.Transition
import RtosXrce.Xrce.Msgs
import RtosXrce.Xrce.Session

/-!
# The action server

`host/live_action_demo.c`. The server runs one goal at a time. It answers three kinds of requests,
whose bytes it parses by hand, and advances the goal by one value of its sequence when enough time
has passed. What it sends goes out as typed messages; the log lines are left out.
-/

namespace RtosXrce.Host

open Library Xrce Xrce.Cdr Xrce.Msgs

namespace LiveAction

/-- `STEP_INTERVAL_MS`. -/
abbrev stepIntervalMs : UInt64 := 500

/-- The `GOAL_STATUS_` constants. -/
abbrev goalStatusAccepted : Int8 := 1
abbrev goalStatusExecuting : Int8 := 2
abbrev goalStatusCanceling : Int8 := 3
abbrev goalStatusSucceeded : Int8 := 4
abbrev goalStatusCanceled : Int8 := 5

/-- `XRCE_SAMPLE_IDENTITY_SIZE`. -/
abbrev sampleIdentitySize : Nat := 24

/-- The bytes that name a request, handed back with its reply. -/
abbrev SampleIdentity := Vector UInt8 sampleIdentitySize

/-- `XRCE_OBJK_REPLIER`. -/
abbrev objkReplier : UInt8 := 0x08

/-- The objects that the requests come from. -/
abbrev sendGoalReplier : ObjectId := ⟨0x001, objkReplier⟩
abbrev cancelGoalReplier : ObjectId := ⟨0x002, objkReplier⟩
abbrev getResultReplier : ObjectId := ⟨0x003, objkReplier⟩

/-- The statics of the goal. `sequence` is what `g_feedback` holds below its `sequence_count`; the
array has `XRCE_MSGS_SEQ_I32_MAX` places. -/
structure Server where
  goalActive : Bool
  goalDone : Bool
  cancelRequested : Bool
  goalId : Uuid
  order : Int32
  sequence : List Int32
  status : Int8
  lastStepMs : UInt64
  resultPending : Bool
  resultSampleIdentity : SampleIdentity
  deriving DecidableEq

/-- The statics before the first request. -/
def Server.init : Server where
  goalActive := false
  goalDone := false
  cancelRequested := false
  goalId := .replicate uuidSize 0
  order := 0
  sequence := []
  status := 0
  lastStepMs := 0
  resultPending := false
  resultSampleIdentity := .replicate sampleIdentitySize 0

/-- The messages that the server sends: a reply to each kind of request, with the identity of the
request it answers, and the two topics. -/
inductive Sent where
  | sendGoalResponse (sampleIdentity : SampleIdentity) (accepted : Bool)
  | cancelGoalResponse (sampleIdentity : SampleIdentity) (returnCode : Int8)
      (goalsCanceling : List Uuid)
  | getResultResponse (sampleIdentity : SampleIdentity) (status : Int8) (result : List Int32)
  | goalStatus (goalId : Uuid) (status : Int8)
  | feedbackMessage (goalId : Uuid) (feedback : List Int32)
  deriving DecidableEq

/-- The goal id at the start of a request. -/
def goalIdOf (request : Bytes) (h : uuidSize ≤ request.length) : Uuid :=
  ⟨(request.take uuidSize).toArray, by simpa using h⟩

/-- The four bytes behind the goal id. -/
def orderOf (request : Bytes) (h : uuidSize + 4 ≤ request.length) : Int32 :=
  (gatherU32 ⟨((request.drop uuidSize).take 4).toArray, by simp; omega⟩).toInt32

namespace Server

variable (s : Server)

/-- `publish_status`. -/
def publishStatus : List Sent :=
  if !s.goalActive then [] else [.goalStatus s.goalId s.status]

/-- `handle_send_goal`; `now` is what `now_ms` returns. -/
def handleSendGoal (sampleIdentity : SampleIdentity) (request : Bytes) (now : UInt64) :
    Server × List Sent :=
  if h : request.length < uuidSize + 4 then (s, [])
  else
    let goalId := goalIdOf request (by omega)
    let order := orderOf request (by omega)
    let canAccept := !s.goalActive || s.goalDone
    let reply := [.sendGoalResponse sampleIdentity canAccept]
    if !canAccept then (s, reply)
    else
      let s := { s with
        goalActive := true
        goalDone := false
        cancelRequested := false
        goalId := goalId
        order := order
        sequence := []
        status := goalStatusAccepted
        lastStepMs := now }
      (s, reply ++ s.publishStatus)

/-- `handle_cancel_goal`. -/
def handleCancelGoal (sampleIdentity : SampleIdentity) (request : Bytes) : Server × List Sent :=
  if request.length < uuidSize then (s, [])
  else if s.goalActive && !s.goalDone then
    let s := { s with cancelRequested := true, status := goalStatusCanceling }
    (s, s.publishStatus ++ [.cancelGoalResponse sampleIdentity 0 [s.goalId]])
  else (s, [.cancelGoalResponse sampleIdentity 2 []])

/-- `reply_result`. -/
def replyResult (sampleIdentity : SampleIdentity) : Sent :=
  .getResultResponse sampleIdentity s.status s.sequence

/-- `handle_get_result`. -/
def handleGetResult (sampleIdentity : SampleIdentity) (request : Bytes) : Server × List Sent :=
  if request.length < uuidSize then (s, [])
  else if !s.goalDone then
    ({ s with resultPending := true, resultSampleIdentity := sampleIdentity }, [])
  else (s, [s.replyResult sampleIdentity])

/-- `maybe_reply_pending_result`. -/
def maybeReplyPendingResult : Server × List Sent :=
  if s.resultPending && s.goalDone then
    ({ s with resultPending := false }, [s.replyResult s.resultSampleIdentity])
  else (s, [])

/-- The two ends of `step_goal`: the goal is done, with the status given. -/
def finish (status : Int8) : Server × List Sent :=
  let s := { s with status := status, goalDone := true }
  let (s', replies) := s.maybeReplyPendingResult
  (s', s.publishStatus ++ replies)

/-- `next` of `step_goal`. -/
def nextValue (sequence : List Int32) : Int32 :=
  if sequence.length < 2 then Int32.ofNat sequence.length
  else sequence.getD (sequence.length - 1) 0 + sequence.getD (sequence.length - 2) 0

/-- `step_goal`; `now` and `now'` are what its two calls of `now_ms` return. -/
def stepGoal (now now' : UInt64) : Server × List Sent :=
  if !s.goalActive || s.goalDone then (s, [])
  else if now - s.lastStepMs < stepIntervalMs then (s, [])
  else
    let s := { s with lastStepMs := now' }
    if s.cancelRequested then s.finish goalStatusCanceled
    else
      let s := { s with sequence := s.sequence ++ [nextValue s.sequence] }
      let feedback := [.feedbackMessage s.goalId s.sequence]
      let s := { s with status := goalStatusExecuting }
      let sent := feedback ++ s.publishStatus
      if s.order.toUInt32.toNat ≤ s.sequence.length ∨ seqI32Max ≤ s.sequence.length then
        let (s, more) := s.finish goalStatusSucceeded
        (s, sent ++ more)
      else (s, sent)

end Server

/-- What can happen to the server. -/
inductive Event where
  | sendGoal (sampleIdentity : SampleIdentity) (request : Bytes) (now : UInt64)
  | cancelGoal (sampleIdentity : SampleIdentity) (request : Bytes)
  | getResult (sampleIdentity : SampleIdentity) (request : Bytes)
  | step (now now' : UInt64)
  deriving DecidableEq

def Server.handle (s : Server) : Event → Server × List Sent
  | .sendGoal sampleIdentity request now => s.handleSendGoal sampleIdentity request now
  | .cancelGoal sampleIdentity request => s.handleCancelGoal sampleIdentity request
  | .getResult sampleIdentity request => s.handleGetResult sampleIdentity request
  | .step now now' => s.stepGoal now now'

/-- The request in a sample that came from `fromId`; `now` is what `now_ms` returns. -/
def requestIn (fromId : ObjectId) (sample : Bytes) (now : UInt64) : Option Event :=
  if h : sample.length < sampleIdentitySize then none
  else
    let sampleIdentity : SampleIdentity :=
      ⟨(sample.take sampleIdentitySize).toArray, by simpa using Nat.not_lt.mp h⟩
    let request := sample.drop sampleIdentitySize
    if fromId = sendGoalReplier then some (.sendGoal sampleIdentity request now)
    else if fromId = cancelGoalReplier then some (.cancelGoal sampleIdentity request)
    else if fromId = getResultReplier then some (.getResult sampleIdentity request)
    else none

/-- What one turn of the loop of `main` gets: the bytes that `recv` has put into `buf`, if any, and
the clock readings. -/
structure Turn where
  received : Option ((Nat → UInt8) × Nat)
  now : UInt64 × UInt64 × UInt64

/-- The events of a turn. -/
def Turn.events (turn : Turn) : List Event :=
  let request := do
    let (buf, n) ← turn.received
    let data ← Session.parseData buf n
    let sample := (List.range data.sampleLen).map fun i => buf (data.sampleStart + i)
    requestIn data.objectId sample turn.now.1
  request.toList ++ [.step turn.now.2.1 turn.now.2.2]

/-- The loop of `main`. -/
def Server.serve (s : Server) (turns : List Turn) : Server :=
  (turns.flatMap Turn.events).foldl (fun s e => (s.handle e).1) s

/-- The request is too short to be parsed. -/
def Event.TooShort : Event → Prop
  | .sendGoal _ request _ => request.length < uuidSize + 4
  | .cancelGoal _ request | .getResult _ request => request.length < uuidSize
  | .step .. => False

def system : System Server Event where
  step s e := some (s.handle e).1

/-- Every state of the loop is one of a run of the system. -/
theorem reachable_serve {s : Server} (h : system.Reachable .init s) (turns : List Turn) :
    system.Reachable .init (s.serve turns) := by
  unfold Server.serve
  generalize turns.flatMap Turn.events = events
  induction events generalizing s with
  | nil => exact h
  | cons e events ih => exact ih (h.tail trivial rfl)

/-! ## What an event can do -/

namespace Server

variable {s : Server} {e : Event}

/-- A goal is active and not done. -/
def Running (s : Server) : Prop := s.goalActive = true ∧ s.goalDone = false

instance (s : Server) : Decidable s.Running := inferInstanceAs (Decidable (_ ∧ _))

/-- A goal is accepted. -/
@[simps]
def accept (s : Server) (goalId : Uuid) (order : Int32) (now : UInt64) : Server :=
  { s with
    goalActive := true
    goalDone := false
    cancelRequested := false
    goalId := goalId
    order := order
    sequence := []
    status := goalStatusAccepted
    lastStepMs := now }

/-- The goal gets another value. -/
@[simps]
def advance (s : Server) (now : UInt64) : Server :=
  { s with
    sequence := s.sequence ++ [nextValue s.sequence]
    status := goalStatusExecuting
    lastStepMs := now }

/-- The goal is done; a held request has been answered. -/
@[simps]
def finished (s : Server) (status : Int8) (now : UInt64) : Server :=
  { s with status := status, goalDone := true, resultPending := false, lastStepMs := now }

/-- The test at the end of `step_goal`. -/
def Enough (s : Server) : Prop :=
  s.order.toUInt32.toNat ≤ s.sequence.length ∨ seqI32Max ≤ s.sequence.length

instance (s : Server) : Decidable s.Enough := inferInstanceAs (Decidable (_ ∨ _))

/-- The reply to a held request. -/
def heldReply (s : Server) (status : Int8) : List Sent :=
  if s.resultPending then [.getResultResponse s.resultSampleIdentity status s.sequence] else []

/-- The ways an event can go. -/
inductive Outcome (s : Server) : Event → Server → List Sent → Prop where
  | dropped {e : Event} (short : e.TooShort) : Outcome s e s []
  | waited {now now' : UInt64} : Outcome s (.step now now') s []
  | refused {id : SampleIdentity} {request : Bytes} {now : UInt64} (running : s.Running) :
      Outcome s (.sendGoal id request now) s [.sendGoalResponse id false]
  | accepted {id : SampleIdentity} {request : Bytes} {now : UInt64} (free : ¬s.Running)
      (h : uuidSize + 4 ≤ request.length) :
      Outcome s (.sendGoal id request now)
        (s.accept (goalIdOf request (by omega)) (orderOf request h) now)
        [.sendGoalResponse id true, .goalStatus (goalIdOf request (by omega)) goalStatusAccepted]
  | canceling {id : SampleIdentity} {request : Bytes} (running : s.Running) :
      Outcome s (.cancelGoal id request)
        { s with cancelRequested := true, status := goalStatusCanceling }
        [.goalStatus s.goalId goalStatusCanceling, .cancelGoalResponse id 0 [s.goalId]]
  | notCanceled {id : SampleIdentity} {request : Bytes} (free : ¬s.Running) :
      Outcome s (.cancelGoal id request) s [.cancelGoalResponse id 2 []]
  | held {id : SampleIdentity} {request : Bytes} (h : uuidSize ≤ request.length)
      (unfinished : s.goalDone = false) :
      Outcome s (.getResult id request)
        { s with resultPending := true, resultSampleIdentity := id } []
  | answered {id : SampleIdentity} {request : Bytes} (h : uuidSize ≤ request.length)
      (done : s.goalDone = true) : Outcome s (.getResult id request) s [s.replyResult id]
  | advanced {now now' : UInt64} (running : s.Running) (go : s.cancelRequested = false)
      (more : ¬(s.advance now').Enough) :
      Outcome s (.step now now') (s.advance now')
        [.feedbackMessage s.goalId (s.advance now').sequence,
          .goalStatus s.goalId goalStatusExecuting]
  | succeeded {now now' : UInt64} (running : s.Running) (go : s.cancelRequested = false)
      (enough : (s.advance now').Enough) :
      Outcome s (.step now now') ((s.advance now').finished goalStatusSucceeded now')
        ([.feedbackMessage s.goalId (s.advance now').sequence,
            .goalStatus s.goalId goalStatusExecuting, .goalStatus s.goalId goalStatusSucceeded] ++
          (s.advance now').heldReply goalStatusSucceeded)
  | canceled {now now' : UInt64} (running : s.Running) (stop : s.cancelRequested = true) :
      Outcome s (.step now now') (s.finished goalStatusCanceled now')
        (.goalStatus s.goalId goalStatusCanceled :: s.heldReply goalStatusCanceled)

theorem finish_eq (s : Server) (active : s.goalActive = true) (status : Int8) :
    s.finish status =
      (s.finished status s.lastStepMs, .goalStatus s.goalId status :: s.heldReply status) := by
  cases hp : s.resultPending <;>
    simp [finish, maybeReplyPendingResult, finished, heldReply, publishStatus, replyResult, hp,
      active]

theorem handleSendGoal_outcome (id : SampleIdentity) (request : Bytes) (now : UInt64) :
    Outcome s (.sendGoal id request now) (s.handleSendGoal id request now).1
      (s.handleSendGoal id request now).2 := by
  unfold handleSendGoal
  split
  case isTrue short => exact .dropped short
  case isFalse h =>
    by_cases running : s.Running
    · simpa [running.1, running.2] using Outcome.refused running
    · have free : (!s.goalActive || s.goalDone) = true := by
        simpa [Running, or_iff_not_imp_left] using running
      have accepted : Outcome s (.sendGoal id request now) _ _ :=
        .accepted running (Nat.not_lt.mp h)
      simpa [free, publishStatus, accept] using accepted

theorem handleCancelGoal_outcome (id : SampleIdentity) (request : Bytes) :
    Outcome s (.cancelGoal id request) (s.handleCancelGoal id request).1
      (s.handleCancelGoal id request).2 := by
  unfold handleCancelGoal
  split
  case isTrue short => exact .dropped short
  case isFalse =>
    by_cases running : s.Running
    · simpa [running.1, running.2, publishStatus] using Outcome.canceling running
    · have free : (s.goalActive && !s.goalDone) = false := by
        simpa [Running] using running
      simpa [free] using Outcome.notCanceled running

theorem handleGetResult_outcome (id : SampleIdentity) (request : Bytes) :
    Outcome s (.getResult id request) (s.handleGetResult id request).1
      (s.handleGetResult id request).2 := by
  unfold handleGetResult
  split
  case isTrue short => exact .dropped short
  case isFalse h =>
    have h := Nat.not_lt.mp h
    split
    case isTrue unfinished => exact .held h (by simpa using unfinished)
    case isFalse done => exact .answered h (by simpa using done)

theorem stepGoal_outcome (now now' : UInt64) :
    Outcome s (.step now now') (s.stepGoal now now').1 (s.stepGoal now now').2 := by
  unfold stepGoal
  split
  case isTrue => exact .waited
  case isFalse free =>
    have running : s.Running := by simpa [Running] using free
    split
    case isTrue => exact .waited
    case isFalse =>
      dsimp only
      split
      case isTrue stop =>
        rw [finish_eq { s with lastStepMs := now' } running.1]
        exact .canceled running stop
      case isFalse go =>
        have go := eq_false_of_ne_true go
        split
        case isTrue enough =>
          have hfinish := finish_eq (s.advance now') running.1 goalStatusSucceeded
          have hsucceeded : Outcome s (.step now now') _ _ := .succeeded running go enough
          dsimp only [advance] at hfinish
          rw [hfinish]
          simpa [publishStatus, running.1, advance] using hsucceeded
        case isFalse more =>
          have hadvanced : Outcome s (.step now now') _ _ := .advanced running go more
          simpa [publishStatus, running.1, advance] using hadvanced

theorem handle_outcome (s : Server) (e : Event) : Outcome s e (s.handle e).1 (s.handle e).2 := by
  cases e with
  | sendGoal id request now => exact handleSendGoal_outcome id request now
  | cancelGoal id request => exact handleCancelGoal_outcome id request
  | getResult id request => exact handleGetResult_outcome id request
  | step now now' => exact stepGoal_outcome now now'

end Server

end LiveAction

end RtosXrce.Host
