import RtosXrce.Host.GoalLifecycle

/-!
# The results of goals

The server holds a request for a result until the goal is done, in one slot, and answers it with
the goal it has then; it does not look at the goal that the request names. An observer keeps the
requests, the replies to them and the goals that have ended. An id may be used for a goal again once
the last goal is done; the observer tells the goals of one id apart by their number. A second
request that arrives while one is held takes its place, and the first is never answered.
-/

namespace RtosXrce.Host

open Library Xrce.Msgs

namespace LiveAction

/-- What a goal ended with. -/
structure Result where
  status : Int8
  sequence : List Int32
  deriving DecidableEq

/-- A goal that was accepted: `number` goals had this id when it was, itself among them. -/
structure Goal where
  id : Uuid
  number : Nat
  deriving DecidableEq

/-- The ids of the goals accepted, the goals that have ended, the requests for results with the
goals they name, and the replies to such requests. -/
structure History where
  goals : List Uuid
  ended : List (Goal × Result)
  requests : List (SampleIdentity × Goal)
  replies : List (SampleIdentity × Result)
  deriving DecidableEq

def History.start : History where
  goals := []
  ended := []
  requests := []
  replies := []

/-- A status that a goal ends with. -/
def Terminal (status : Int8) : Prop := status = goalStatusSucceeded ∨ status = goalStatusCanceled

instance (status : Int8) : Decidable (Terminal status) := inferInstanceAs (Decidable (_ ∨ _))

/-- The request for a result. -/
def Event.request : Event → List (SampleIdentity × Uuid)
  | .getResult id request =>
    if h : uuidSize ≤ request.length then [(id, goalIdOf request h)] else []
  | _ => []

/-- The reply to a request for a result. -/
def Sent.reply : Sent → List (SampleIdentity × Result)
  | .getResultResponse id status sequence => [(id, ⟨status, sequence⟩)]
  | _ => []

def Server.result (s : Server) : Result := ⟨s.status, s.sequence⟩

/-- The last goal that was accepted with the id. -/
def History.latest (h : History) (id : Uuid) : Goal := ⟨id, h.goals.count id⟩

/-- What an event that leads from `s` to `s'` adds. -/
def History.add (h : History) (s : Server) (e : Event) (s' : Server) (sent : List Sent) :
    History where
  goals := if s.Accepts e then h.goals ++ [s'.goalId] else h.goals
  ended := if ¬Terminal s.status ∧ Terminal s'.status then
      h.ended ++ [(h.latest s'.goalId, s'.result)] else h.ended
  requests := h.requests ++ e.request.map (Prod.map id h.latest)
  replies := h.replies ++ sent.flatMap Sent.reply

def Server.noteEvent (s : Server) (e : Event) (h : History) : History :=
  h.add s e (s.handle e).1 (s.handle e).2

def observed : System (Server × History) Event := system.watch Server.noteEvent

/-- A request for a result has an identity of its own, names the goal that the server has, and finds
no other request held. -/
def Orderly (s : Server) (h : History) : Event → Prop
  | .getResult id request => ∀ hl : uuidSize ≤ request.length,
      id ∉ h.requests.map Prod.fst ∧ s.goalActive = true ∧ goalIdOf request hl = s.goalId ∧
        s.resultPending = false
  | _ => True

instance (s : Server) (h : History) (e : Event) : Decidable (Orderly s h e) :=
  match e with
  | .getResult .. => inferInstanceAs (Decidable (∀ _, _))
  | .sendGoal .. | .cancelGoal .. | .step .. => isTrue trivial

/-- The replies to the request `id`. -/
def History.repliesTo (h : History) (id : SampleIdentity) : List (SampleIdentity × Result) :=
  h.replies.filter fun reply => reply.1 = id

/-- What the server and the history know of each other. -/
structure Answering (s : Server) (h : History) : Prop where
  known : ∀ g r, (g, r) ∈ h.ended → g.number ≤ h.goals.count g.id
  unique : ∀ g r r', (g, r) ∈ h.ended → (g, r') ∈ h.ended → r = r'
  running : s.Running → ∀ r, (h.latest s.goalId, r) ∉ h.ended
  done : s.goalActive = true → s.goalDone = true → (h.latest s.goalId, s.result) ∈ h.ended
  pending : s.resultPending = true → s.Running ∧ h.repliesTo s.resultSampleIdentity = [] ∧
    s.resultSampleIdentity ∈ h.requests.map Prod.fst
  replied : ∀ id, h.repliesTo id ≠ [] → id ∈ h.requests.map Prod.fst
  answered : ∀ id g, (id, g) ∈ h.requests →
    (s.resultPending = true ∧ id = s.resultSampleIdentity ∧ g = h.latest s.goalId) ∨
      ∃ r, (g, r) ∈ h.ended ∧ h.repliesTo id = [(id, r)]

section Answering

variable {s s' : Server} {h : History}

theorem answering_start : Answering .init .start where
  known := nofun
  unique := nofun
  running h := nomatch h.1
  done := nofun
  pending := nofun
  replied _ h := absurd rfl h
  answered := nofun

/-- The request that is held, or none. -/
theorem Answering.all_answered (hA : Answering s h) (none : s.resultPending = false)
    {id : SampleIdentity} {g : Goal} (hreq : (id, g) ∈ h.requests) :
    ∃ r, (g, r) ∈ h.ended ∧ h.repliesTo id = [(id, r)] := by
  obtain ⟨pending, -⟩ | answered := hA.answered id g hreq
  · cases none.symm.trans pending
  · exact answered

/-- A request that has not arrived has no reply. -/
theorem Answering.fresh (hA : Answering s h) {id : SampleIdentity}
    (new : id ∉ h.requests.map Prod.fst) : h.repliesTo id = [] := by
  by_contra hid
  exact new (hA.replied id hid)

/-- A request is held for a running goal only. -/
theorem Answering.none_held (hA : Answering s h) (idle : ¬s.Running) :
    s.resultPending = false := by
  by_contra hp
  exact idle (hA.pending (by simpa using hp)).1

/-- A running goal goes on. -/
theorem Answering.goes_on (hA : Answering s h) (running : s.Running)
    (active : s'.goalActive = s.goalActive) (unfinished : s'.goalDone = s.goalDone)
    (goalId : s'.goalId = s.goalId) (pending : s'.resultPending = s.resultPending)
    (identity : s'.resultSampleIdentity = s.resultSampleIdentity) : Answering s' h where
  known := hA.known
  unique := hA.unique
  running _ := goalId ▸ hA.running running
  done _ done := nomatch (unfinished.trans running.2).symm.trans done
  pending hp := by
    rw [identity]
    exact ⟨⟨active.trans running.1, unfinished.trans running.2⟩, (hA.pending (pending ▸ hp)).2⟩
  replied := hA.replied
  answered := by
    rw [pending, identity, goalId]
    exact hA.answered

/-- A new goal is accepted, with an id that may have been used before. -/
theorem Answering.accept (hA : Answering s h) (free : ¬s.Running) (goalId : Uuid) (order : Int32)
    (now : UInt64) :
    Answering (s.accept goalId order now) { h with goals := h.goals ++ [goalId] } := by
  have none := hA.none_held free
  refine ⟨fun g r hr => ?_, hA.unique, fun _ r hr => ?_, fun _ done => (by cases done),
    fun hp => ?_, hA.replied, fun id g hreq => Or.inr (hA.all_answered none hreq)⟩
  · rw [List.count_append]
    exact Nat.le_add_right_of_le (hA.known g r hr)
  · -- a goal that has ended was counted before this one
    have counted : (h.goals ++ [goalId]).count goalId ≤ h.goals.count goalId := hA.known _ r hr
    simp at counted
  · cases none.symm.trans hp

/-- A request is held. -/
theorem Answering.hold (hA : Answering s h) (running : s.Running) (none : s.resultPending = false)
    {id : SampleIdentity} (new : id ∉ h.requests.map Prod.fst) :
    Answering { s with resultPending := true, resultSampleIdentity := id }
      { h with requests := h.requests ++ [(id, h.latest s.goalId)] } := by
  have more : ∀ id' ∈ h.requests.map Prod.fst,
      id' ∈ (h.requests ++ [(id, h.latest s.goalId)]).map Prod.fst := by
    intro id' hid
    rw [List.map_append]
    exact List.mem_append_left _ hid
  refine ⟨hA.known, hA.unique, hA.running, hA.done,
    fun _ => ⟨running, hA.fresh new, by simp⟩, fun id' hid => more id' (hA.replied id' hid),
    fun id' g hreq => ?_⟩
  rcases List.mem_append.mp hreq with hreq | hreq
  · exact Or.inr (hA.all_answered none hreq)
  · cases List.mem_singleton.mp hreq
    exact Or.inl ⟨rfl, rfl, rfl⟩

/-- A request is answered at once. -/
theorem Answering.answer (hA : Answering s h) (active : s.goalActive = true)
    (done : s.goalDone = true) {id : SampleIdentity} (new : id ∉ h.requests.map Prod.fst) :
    Answering s { h with
      requests := h.requests ++ [(id, h.latest s.goalId)],
      replies := h.replies ++ [(id, s.result)] } := by
  have none := hA.none_held fun running => by cases running.2.symm.trans done
  have fresh := hA.fresh new
  refine ⟨hA.known, hA.unique, hA.running, hA.done, fun hp => ?_, fun id' hid => ?_,
    fun id' g hreq => Or.inr ?_⟩
  · cases none.symm.trans hp
  · rw [List.map_append, List.mem_append]
    by_cases hsame : id' = id
    · exact Or.inr (by simp [hsame])
    · refine Or.inl (hA.replied id' fun hnil => hid ?_)
      simpa [History.repliesTo, Ne.symm hsame] using hnil
  · rcases List.mem_append.mp hreq with hreq | hreq
    · obtain ⟨r, hr, hreplies⟩ := hA.all_answered none hreq
      have hne : id ≠ id' := by
        rintro rfl
        cases fresh.symm.trans hreplies
      refine ⟨r, hr, ?_⟩
      simpa [History.repliesTo, hne] using hreplies
    · cases List.mem_singleton.mp hreq
      refine ⟨s.result, hA.done active done, ?_⟩
      simpa [History.repliesTo] using fresh

/-- The goal ends, and the request that was held is answered. -/
theorem Answering.finish (hA : Answering s h) (s' : Server) (running : s.Running)
    (done : s'.goalDone = true) (goalId : s'.goalId = s.goalId) (none : s'.resultPending = false)
    {replies : List (SampleIdentity × Result)}
    (reply : replies = if s.resultPending then [(s.resultSampleIdentity, s'.result)] else []) :
    Answering s' { h with
      ended := h.ended ++ [(h.latest s'.goalId, s'.result)],
      replies := h.replies ++ replies } := by
  have first := hA.running running
  -- only a held request gets a reply
  have others : ∀ id, (s.resultPending = true → id ≠ s.resultSampleIdentity) →
      ({ h with ended := h.ended ++ [(h.latest s'.goalId, s'.result)],
                replies := h.replies ++ replies } : History).repliesTo id = h.repliesTo id := by
    intro id hid
    rw [reply]
    split
    case isTrue hp => simp [History.repliesTo, Ne.symm (hid hp)]
    case isFalse => simp [History.repliesTo]
  refine ⟨fun g r hr => ?_, fun g r r' hr hr' => ?_,
    fun still => ?_, fun _ _ => List.mem_append_right _ (List.mem_singleton.mpr rfl),
    fun hp => ?_, fun id hid => ?_, fun id g hreq => ?_⟩
  · rcases List.mem_append.mp hr with hr | hr
    · exact hA.known g r hr
    · cases List.mem_singleton.mp hr
      exact Nat.le_refl _
  · rcases List.mem_append.mp hr with hr | hr <;> rcases List.mem_append.mp hr' with hr' | hr'
    · exact hA.unique g r r' hr hr'
    · cases List.mem_singleton.mp hr'
      exact absurd hr (goalId ▸ first r)
    · cases List.mem_singleton.mp hr
      exact absurd hr' (goalId ▸ first r')
    · cases List.mem_singleton.mp hr
      cases List.mem_singleton.mp hr'
      rfl
  · cases still.2.symm.trans done
  · cases none.symm.trans hp
  · by_cases hheld : s.resultPending = true ∧ id = s.resultSampleIdentity
    · rw [hheld.2]
      exact (hA.pending hheld.1).2.2
    · rw [others id fun hp hid => hheld ⟨hp, hid⟩] at hid
      exact hA.replied id hid
  · obtain ⟨hp, rfl, rfl⟩ | ⟨r, hr, hreplies⟩ := hA.answered id g hreq
    · refine Or.inr ⟨s'.result, by simp [goalId], ?_⟩
      have fresh := (hA.pending hp).2.1
      simpa [History.repliesTo, reply, hp] using fresh
    · refine Or.inr ⟨r, List.mem_append_left _ hr, ?_⟩
      rw [others id fun hp hid => ?_, hreplies]
      rw [hid, (hA.pending hp).2.1] at hreplies
      cases hreplies

theorem terminal_succeeded : Terminal goalStatusSucceeded := Or.inl rfl

theorem terminal_canceled : Terminal goalStatusCanceled := Or.inr rfl

theorem not_terminal_accepted : ¬Terminal goalStatusAccepted := by decide

theorem not_terminal_executing : ¬Terminal goalStatusExecuting := by decide

theorem not_terminal_canceling : ¬Terminal goalStatusCanceling := by decide

/-- A held request gets the result that the goal ends with. -/
theorem reply_heldReply (s : Server) (status : Int8) :
    (s.heldReply status).flatMap Sent.reply =
      if s.resultPending then [(s.resultSampleIdentity, ⟨status, s.sequence⟩)] else [] := by
  unfold Server.heldReply
  split <;> rfl

theorem not_accepts_of_tooShort {e : Event} (short : e.TooShort) : ¬s.Accepts e := by
  cases e with
  | sendGoal => exact fun accepts => Nat.not_le.mpr short accepts.1
  | cancelGoal | getResult | step => exact id

theorem request_of_tooShort {e : Event} (short : e.TooShort) : e.request = [] := by
  cases e with
  | getResult => exact dif_neg (Nat.not_le.mpr short)
  | sendGoal | cancelGoal | step => rfl

theorem Answering.step (hA : Answering s h) (life : s.Lifecycle) {e : Event} {sent : List Sent}
    (orderly : Orderly s h e) (ho : s.Outcome e s' sent) : Answering s' (h.add s e s' sent) := by
  have pending (running : s.Running) : ¬Terminal s.status := fun ends => by
    cases running.2.symm.trans (life.done.mpr ends)
  cases ho with
  | dropped short =>
    simpa [History.add, not_accepts_of_tooShort short, request_of_tooShort short] using hA
  | waited => simpa [History.add, Server.Accepts, Event.request] using hA
  | refused running =>
    simpa [History.add, Server.Accepts, Event.request, Sent.reply, running] using hA
  | notCanceled => simpa [History.add, Server.Accepts, Event.request, Sent.reply] using hA
  | canceling running =>
    have hgoes : Answering { s with cancelRequested := true, status := goalStatusCanceling } h :=
      hA.goes_on running rfl rfl rfl rfl rfl
    simpa [History.add, Server.Accepts, Event.request, Sent.reply, not_terminal_canceling] using
      hgoes
  | @advanced now now' running =>
    have hgoes : Answering (s.advance now') h := hA.goes_on running rfl rfl rfl rfl rfl
    simpa [History.add, Server.Accepts, Event.request, Sent.reply, not_terminal_executing] using
      hgoes
  | @accepted id request now free long =>
    have haccept := hA.accept free (goalIdOf request (Nat.le_trans (by decide) long))
      (orderOf request long) now
    simpa [History.add, Server.Accepts, Event.request, Sent.reply, free, long,
      not_terminal_accepted] using haccept
  | held long unfinished =>
    obtain ⟨new, active, hgoal, none⟩ := orderly long
    have hhold := hA.hold ⟨active, unfinished⟩ none new
    simpa [History.add, Server.Accepts, Event.request, Sent.reply, long, hgoal] using hhold
  | answered long done =>
    obtain ⟨new, active, hgoal, -⟩ := orderly long
    have hanswer := hA.answer active done new
    simpa [History.add, Server.Accepts, Event.request, Sent.reply, Server.replyResult,
      Server.result, long, hgoal] using hanswer
  | @succeeded now now' running =>
    have hfinish := hA.finish ((s.advance now').finished goalStatusSucceeded now') running rfl rfl
      rfl (reply_heldReply (s.advance now') goalStatusSucceeded)
    simpa [History.add, Server.Accepts, Event.request, Sent.reply, pending running,
      terminal_succeeded] using hfinish
  | @canceled now now' running =>
    have hfinish := hA.finish (s.finished goalStatusCanceled now') running rfl rfl rfl
      (reply_heldReply s goalStatusCanceled)
    simpa [History.add, Server.Accepts, Event.request, Sent.reply, pending running,
      terminal_canceled] using hfinish

end Answering

theorem answering_of_reach {w : Server × History}
    (h : observed.Reach (fun w e => Orderly w.1 w.2 e) (.init, .start) w) :
    w.1.Lifecycle ∧ Answering w.1 w.2 := by
  refine h.invariant (I := fun w => w.1.Lifecycle ∧ Answering w.1 w.2)
    ⟨Server.lifecycle_init, answering_start⟩ ?_
  rintro w e w' ⟨life, hA⟩ orderly hstep
  obtain ⟨hstep, hnote⟩ := System.watch_step hstep
  have hs : (w.1.handle e).1 = w'.1 := Option.some.inj hstep
  have houtcome := w.1.handle_outcome e
  rw [hnote, Server.noteEvent]
  rw [hs] at houtcome ⊢
  exact ⟨life.step houtcome, hA.step life orderly houtcome⟩

/-- In every run in which each request for a result has an identity of its own, names the goal that
the server has and finds no other request held: a request whose goal has ended has exactly one
reply, and that has the status and the sequence of the goal. Where the id has been used for several
goals, the goal of the request is the last one accepted before it. -/
theorem results_answered_once {w : Server × History}
    (h : observed.Reach (fun w e => Orderly w.1 w.2 e) (.init, .start) w) {id : SampleIdentity}
    {g : Goal} (request : (id, g) ∈ w.2.requests) {r : Result} (ended : (g, r) ∈ w.2.ended) :
    w.2.repliesTo id = [(id, r)] := by
  obtain ⟨-, hA⟩ := answering_of_reach h
  obtain ⟨hp, -, rfl⟩ | ⟨r', hr', hreplies⟩ := hA.answered id g request
  · exact absurd ended (hA.running (hA.pending hp).1 r)
  · rwa [hA.unique g r r' ended hr']

/-- The identity of the requests of a client. -/
def identityOf (client : UInt8) : SampleIdentity := .replicate sampleIdentitySize client

/-- The goal whose id is made of `n`, accepted for the `k`-th time. -/
def goalOf (n : UInt8) (k : Nat) : Goal := ⟨.replicate uuidSize n, k⟩

/-- A client sends the goal 2 and asks for its result at once; another one asks once it is done.
Then the id is used again, for a goal that is canceled while a client waits for its result. -/
def twoClients : List Event :=
  [.sendGoal (identityOf 1) (requestFor 2) 0, .getResult (identityOf 2) (requestFor 2),
    .step 500 500, .step 1000 1000, .getResult (identityOf 3) (requestFor 2),
    .sendGoal (identityOf 1) (requestFor 2) 2000, .getResult (identityOf 4) (requestFor 2),
    .cancelGoal (identityOf 1) (requestFor 2), .step 2500 2500]

theorem results_answered_once_two_clients :
    ∃ w, observed.runGuarded (fun w e => Orderly w.1 w.2 e) (.init, .start) twoClients = some w ∧
      w.2.requests = [(identityOf 2, goalOf 2 1), (identityOf 3, goalOf 2 1),
        (identityOf 4, goalOf 2 2)] ∧
      w.2.repliesTo (identityOf 2) = [(identityOf 2, ⟨goalStatusSucceeded, [0, 1]⟩)] ∧
      w.2.repliesTo (identityOf 4) = [(identityOf 4, ⟨goalStatusCanceled, []⟩)] := by
  obtain ⟨w, hrun, hrequests, hended⟩ : ∃ w, observed.runGuarded (fun w e => Orderly w.1 w.2 e)
      (.init, .start) twoClients = some w ∧
      w.2.requests = [(identityOf 2, goalOf 2 1), (identityOf 3, goalOf 2 1),
        (identityOf 4, goalOf 2 2)] ∧
      w.2.ended = [(goalOf 2 1, ⟨goalStatusSucceeded, [0, 1]⟩),
        (goalOf 2 2, ⟨goalStatusCanceled, []⟩)] :=
    System.exists_of_runGuarded (by decide +kernel)
  have h := System.reach_of_runGuarded hrun
  refine ⟨w, hrun, hrequests, ?_, ?_⟩
  · exact results_answered_once h (g := goalOf 2 1) (by simp [hrequests]) (by simp [hended])
  · exact results_answered_once h (g := goalOf 2 2) (by simp [hrequests]) (by simp [hended])

/-- Both clients ask while the goal is running. -/
def bothWait : List Event :=
  [.sendGoal (identityOf 1) (requestFor 2) 0, .getResult (identityOf 2) (requestFor 2),
    .getResult (identityOf 3) (requestFor 2), .step 500 500, .step 1000 1000]

/-- The goal has ended, and the request that was held first has no reply. -/
theorem held_request_overwritten :
    ∃ w, observed.Reach (fun _ _ => True) (.init, .start) w ∧
      (identityOf 2, goalOf 2 1) ∈ w.2.requests ∧
      (goalOf 2 1, ⟨goalStatusSucceeded, [0, 1]⟩) ∈ w.2.ended ∧
      w.2.repliesTo (identityOf 2) = [] ∧ w.1.resultPending = false := by
  obtain ⟨w, hrun, hrequest, hended, hreplies, hpending⟩ : ∃ w, observed.runGuarded
      (fun _ _ => True) (.init, .start) bothWait = some w ∧
      (identityOf 2, goalOf 2 1) ∈ w.2.requests ∧
      (goalOf 2 1, ⟨goalStatusSucceeded, [0, 1]⟩) ∈ w.2.ended ∧
      w.2.repliesTo (identityOf 2) = [] ∧ w.1.resultPending = false :=
    System.exists_of_runGuarded (by decide +kernel)
  exact ⟨w, System.reach_of_runGuarded hrun, hrequest, hended, hreplies, hpending⟩

end LiveAction

end RtosXrce.Host
