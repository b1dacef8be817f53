import RtosXrce.Kernel.PromptSends
import RtosXrce.Xrce.Session

/-!
# The dispatch pools of the priority demo

`host/live_priority_demo.c`. `poll_once` copies the sample of a datagram into the next entry of its
topic's pool and sends the address of the entry through the topic's queue; a consumer reads the
entry when `queue_receive` has returned its address. A pool has as many entries as its queue has
slots, and `poll_once` writes the entry before it may have to wait in `queue_send`. An entry is
safe from that as long as `poll_once` finds a free slot in the queue.
-/

namespace RtosXrce.Host

open Library Xrce Kernel

namespace PriorityDemo

/-- `QUEUE_CAPACITY`. -/
abbrev queueCapacity : Nat := 8

/-- `XRCE_OBJK_DATAREADER`. -/
abbrev objkDatareader : UInt8 := 0x06

/-- `sizeof(in)` in `poll_once`. -/
abbrev inSize : Nat := 256

/-- `dispatch_item_t`. -/
structure DispatchItem where
  value : Int32
  enqueuedUs : UInt64
  deriving DecidableEq

inductive Topic where
  | high
  | low
  deriving DecidableEq

/-- `g_high_queue` and `g_low_queue`. -/
def Topic.queue : Topic → Nat
  | high => 0
  | low => 1

theorem Topic.queue_ne {topic topic' : Topic} (h : topic' ≠ topic) :
    topic'.queue ≠ topic.queue := by
  cases topic <;> cases topic' <;> first | exact absurd rfl h | decide

/-- `g_high_reader` and `g_low_reader`. -/
def Topic.reader : Topic → ObjectId
  | high => { id := 0x001, kind := objkDatareader }
  | low => { id := 0x002, kind := objkDatareader }

/-- The first four bytes of a sample, little-endian. -/
def sampleValue (sample : Nat → UInt8) : Int32 :=
  ((sample 0).toUInt32 ||| (sample 1).toUInt32 <<< 8 ||| (sample 2).toUInt32 <<< 16 |||
    (sample 3).toUInt32 <<< 24).toInt32

/-- `poll_once` up to the choice of the pool. `recv` cuts the datagram off at the size of its
buffer; without a datagram it returns like for an empty one. -/
def pollSample (datagram : Bytes) : Option (Topic × Int32) :=
  let received := datagram.take inSize
  let buf i := received.getD i 0
  if received.length = 0 then none else
  match Session.parseData buf received.length with
  | none => none
  | some data =>
    if data.sampleLen < 4 then none else
    let value := sampleValue fun i => buf (data.sampleStart + i)
    let fromId := data.objectId
    if fromId.id = Topic.high.reader.id ∧ fromId.kind = objkDatareader then some (.high, value)
    else if fromId.id = Topic.low.reader.id ∧ fromId.kind = objkDatareader then some (.low, value)
    else none

/-- `g_high_pool` with `g_high_pool_next`, or the same of the low topic. The address of an entry is
its index. -/
structure Pool where
  entries : Nat → DispatchItem
  next : Nat

def Pool.init : Pool where
  entries _ := ⟨0, 0⟩
  next := 0

/-- The entry at `next` is written, and `next` moves on. -/
def Pool.put (pool : Pool) (item : DispatchItem) : Pool where
  entries := Function.update pool.entries pool.next item
  next := (pool.next + 1) % queueCapacity

/-- The kernel, the pools, and two histories of each topic: the items that `poll_once` was given,
and the items that consumers have read. -/
structure Demo where
  kernel : Machine
  pools : Topic → Pool
  polled : Topic → List DispatchItem
  read : Topic → List DispatchItem

inductive Action where
  | kernel (a : Machine.Action)
  /-- a call of `poll_once` for which this datagram is there -/
  | poll (datagram : Bytes) (nowUs : UInt64)

namespace Demo

def start (cfg : Config) : Demo where
  kernel := cfg.start
  pools _ := .init
  polled _ := []
  read _ := []

/-- A step of the kernel; where it is the return of `queue_receive`, the consumer reads the entry
behind the address. -/
def stepKernel (s : Demo) (a : Machine.Action) : Option Demo :=
  (Machine.system.step s.kernel a).map fun k =>
    { s with
      kernel := k
      read := fun topic => s.read topic ++
        (s.kernel.returned topic.queue a).toList.map (s.pools topic).entries }

/-- `poll_once`, up to the start of its `queue_send`. -/
def pollOnce (s : Demo) (datagram : Bytes) (nowUs : UInt64) : Option Demo :=
  match pollSample datagram with
  | none => if s.kernel.current.handlers = [] ∧ s.kernel.next = some .body then some s else none
  | some (topic, value) =>
    let pool := s.pools topic
    let item : DispatchItem := ⟨value, nowUs⟩
    (Machine.system.step s.kernel (.call (.send topic.queue pool.next))).map fun k =>
      { s with
        kernel := k
        pools := Function.update s.pools topic (pool.put item)
        polled := Function.update s.polled topic (s.polled topic ++ [item]) }

def step (s : Demo) : Action → Option Demo
  | .kernel a => s.stepKernel a
  | .poll datagram nowUs => s.pollOnce datagram nowUs

def system : System Demo Action where
  step := step

/-- The scheduling is cooperative, and the tasks use the topic's queue as the demo does: they send
to it in `poll_once` only, and go to its parts through `queue_send` and `queue_receive` only. -/
def Dispatches (topic : Topic) : Action → Prop
  | .kernel a =>
    Machine.Cooperative a ∧ Machine.CallsQueue topic.queue a ∧ a.sendsTo ≠ some topic.queue
  | .poll _ _ => True

instance (topic : Topic) : (a : Action) → Decidable (Dispatches topic a)
  | .kernel a => inferInstanceAs (Decidable (Machine.Cooperative a ∧
      Machine.CallsQueue topic.queue a ∧ a.sendsTo ≠ some topic.queue))
  | .poll _ _ => .isTrue trivial

/-- A poll that has a sample for the topic finds a free slot in the topic's queue. -/
def HasRoom (topic : Topic) (s : Demo) : Action → Prop
  | .kernel _ => True
  | .poll datagram _ => (pollSample datagram).map Prod.fst = some topic →
      (s.kernel.vars.pending topic.queue).length < queueCapacity

instance (topic : Topic) (s : Demo) : (a : Action) → Decidable (HasRoom topic s a)
  | .kernel _ => .isTrue trivial
  | .poll datagram _ => inferInstanceAs (Decidable (
      (pollSample datagram).map Prod.fst = some topic →
        (s.kernel.vars.pending topic.queue).length < queueCapacity))

variable {s s' : Demo} {topic : Topic} {a : Action}

/-- The addresses of the first `n` entries that are put into a pool. -/
def addresses (n : Nat) : List Item := (List.range n).map (· % queueCapacity)

@[simp] theorem length_addresses (n : Nat) : (addresses n).length = n := by
  simp [addresses]

theorem addresses_succ (n : Nat) : addresses (n + 1) = addresses n ++ [n % queueCapacity] := by
  simp [addresses, List.range_succ]

theorem eq_of_prefix_addresses {xs : List Item} {x : Item} {n : Nat}
    (h : xs ++ [x] <+: addresses n) : xs.length < n ∧ x = xs.length % queueCapacity := by
  have hlt : xs.length < n := by
    have hle := h.length_le
    rw [List.length_append, length_addresses] at hle
    exact hle
  obtain ⟨rest, hrest⟩ := h
  have hget : (xs ++ [x] ++ rest)[xs.length]? = (addresses n)[xs.length]? := by rw [hrest]
  refine ⟨hlt, ?_⟩
  simpa [addresses, hlt] using hget

/-- The entries that are polled and not yet read still hold what was polled. -/
structure Intact (topic : Topic) (s : Demo) : Prop where
  fifo : s.kernel.Fifo queueCapacity topic.queue
  issued : s.kernel.Issued topic.queue (addresses (s.polled topic).length)
  next : (s.pools topic).next = (s.polled topic).length % queueCapacity
  received : (s.kernel.vars.queues topic.queue).received.length = (s.read topic).length
  unread : ∃ n, s.read topic ++
    Ring.slots (s.pools topic).entries queueCapacity (s.read topic).length n = s.polled topic

theorem intact_start {cfg : Config} (hc : cfg.capacity topic.queue = queueCapacity) :
    Intact topic (start cfg) where
  fifo := hc ▸ Machine.fifo_start cfg (by rw [hc]; decide)
  issued := Machine.issued_start cfg
  next := rfl
  received := rfl
  unread := ⟨0, rfl⟩

/-- The item a consumer reads is the oldest one that is not yet read. -/
theorem Intact.stepKernel (h : Intact topic s) {a : Machine.Action}
    (ok : Dispatches topic (.kernel a)) (hstep : s.stepKernel a = some s') :
    Intact topic s' := by
  obtain ⟨k, hk, rfl⟩ := Option.map_eq_some_iff.mp hstep
  obtain ⟨coop, calls, sends⟩ := ok
  have hreceived := Machine.received_step hk topic.queue
  obtain ⟨n, hunread⟩ := h.unread
  have hlength := congrArg List.length hunread
  rw [List.length_append, Ring.length_slots] at hlength
  refine { fifo := h.fifo.step coop calls hk, issued := h.issued.step coop sends hk,
           next := h.next, received := ?_, unread := ?_ }
  · simp [hreceived, h.received]
  · cases hx : s.kernel.returned topic.queue a with
    | none => exact ⟨n, by simpa [hx] using hunread⟩
    | some x =>
      -- the address that is returned is the one the oldest unread item was sent under
      obtain ⟨hlt, haddress⟩ :=
        eq_of_prefix_addresses ((h.fifo.returned hx).trans h.issued.sent_prefix)
      rw [h.received] at hlt haddress
      obtain ⟨m, rfl⟩ : ∃ m, n = m + 1 := ⟨n - 1, by omega⟩
      rw [Ring.slots_succ] at hunread
      refine ⟨m, ?_⟩
      simpa [hx, haddress] using hunread

/-- An item put into a pool while its queue has a free slot goes to an entry that is not waiting to
be read. -/
theorem Intact.put (h : Intact topic s) {item : DispatchItem} {k : Machine}
    (room : (s.kernel.vars.pending topic.queue).length < queueCapacity)
    (hk : Machine.system.step s.kernel (.call (.send topic.queue (s.pools topic).next)) = some k) :
    Intact topic { s with
      kernel := k
      pools := Function.update s.pools topic ((s.pools topic).put item)
      polled := Function.update s.polled topic (s.polled topic ++ [item]) } := by
  have hreceived := Machine.received_step hk topic.queue
  have hissued := h.issued.send h.fifo room hk
  obtain ⟨n, hunread⟩ := h.unread
  have hlength := congrArg List.length hunread
  rw [List.length_append, Ring.length_slots] at hlength
  have hroom : n < queueCapacity := by
    cases Machine.step_cases hk with
    | call _ hc =>
      have hall := congrArg List.length (h.issued.pending h.fifo hc).1
      rw [List.length_append, length_addresses, h.received] at hall
      omega
  have hnext : (s.pools topic).next = ((s.read topic).length + n) % queueCapacity := by
    rw [h.next, hlength]
  refine { fifo := h.fifo.send hk, issued := ?_, next := ?_, received := ?_,
           unread := ⟨n + 1, ?_⟩ }
  · simpa [addresses_succ, h.next] using hissued
  · simp [Pool.put, h.next]
  · simpa [hreceived, Machine.returned] using h.received
  · simp only [Function.update_self, Pool.put, hnext]
    rw [Ring.slots_push hroom, ← List.append_assoc, hunread]

theorem Intact.pollOnce (h : Intact topic s) {datagram : Bytes} {nowUs : UInt64}
    (room : HasRoom topic s (.poll datagram nowUs))
    (hstep : s.pollOnce datagram nowUs = some s') : Intact topic s' := by
  unfold Demo.pollOnce at hstep
  split at hstep
  case h_1 =>
    split at hstep <;> cases hstep
    exact h
  case h_2 topic' value hsample =>
    obtain ⟨k, hk, rfl⟩ := Option.map_eq_some_iff.mp hstep
    by_cases htopic : topic' = topic
    · subst htopic
      exact h.put (room (by rw [hsample]; rfl)) hk
    · have hreceived := Machine.received_step hk topic.queue
      have hissued := h.issued.send_other (Topic.queue_ne htopic) hk
      refine { fifo := h.fifo.send hk, issued := ?_, next := ?_, received := ?_, unread := ?_ }
      · simpa [Ne.symm htopic] using hissued
      · simpa [Ne.symm htopic] using h.next
      · simpa [hreceived, Machine.returned] using h.received
      · simpa [Ne.symm htopic] using h.unread

/-- A poll on a full queue writes over the entry of the oldest pending address. -/
theorem Intact.overwritten (h : Intact topic s) {datagram : Bytes} {nowUs : UInt64} {value : Int32}
    (hsample : pollSample datagram = some (topic, value))
    (full : (s.kernel.vars.pending topic.queue).length = queueCapacity)
    (hstep : s.pollOnce datagram nowUs = some s') :
    ∃ x ∈ (s.kernel.vars.pending topic.queue).head?,
      (s'.pools topic).entries x = ⟨value, nowUs⟩ := by
  simp only [Demo.pollOnce, hsample, Option.map_eq_some_iff] at hstep
  obtain ⟨k, hk, rfl⟩ := hstep
  cases Machine.step_cases hk with
  | call _ hc =>
    have hall := (h.issued.pending h.fifo hc).1
    have hlength := congrArg List.length hall
    rw [List.length_append, length_addresses, full] at hlength
    obtain ⟨x, rest, hpending⟩ := List.exists_cons_of_length_pos (by rw [full]; decide)
    rw [hpending] at hall ⊢
    have haddress := (eq_of_prefix_addresses ⟨rest, by simpa using hall⟩).2
    have hnext : (s.pools topic).next = x := by
      rw [h.next, haddress, ← hlength, Nat.add_mod_right]
    exact ⟨x, rfl, by simp [Pool.put, hnext]⟩

theorem Intact.step (h : Intact topic s) (ok : Dispatches topic a ∧ HasRoom topic s a)
    (hstep : system.step s a = some s') : Intact topic s' := by
  cases a with
  | kernel a => exact h.stepKernel ok.1 hstep
  | poll datagram nowUs => exact h.pollOnce ok.2 hstep

/-- In every cooperative run in which `poll_once` has a sample for the topic only while the topic's
queue has a free slot, the values read are the first of the values polled. -/
theorem read_prefix_polled (cfg : Config) (topic : Topic)
    (hc : cfg.capacity topic.queue = queueCapacity) {s : Demo}
    (h : system.Reach (fun s a => Dispatches topic a ∧ HasRoom topic s a) (start cfg) s) :
    (s.read topic).map DispatchItem.value <+: (s.polled topic).map DispatchItem.value := by
  have intact : Intact topic s :=
    h.invariant (intact_start hc) fun _ _ _ intact ok hstep => intact.step ok hstep
  obtain ⟨n, hunread⟩ := intact.unread
  exact List.IsPrefix.map _ ⟨_, hunread⟩

/-- What `main` sets up: the poller and the two consumers. -/
def setup : Config where
  priorities := [100, 50, 10]
  few := by decide
  preemptEnabled := true
  tickMs := 5
  ticksPerSlice := 1
  inheritance _ := true
  initialCount _ := 0
  capacity _ := queueCapacity
  buffer _ _ := 0

/-- A DATA message of the agent for the high reader. -/
def sampleHigh (value : UInt8) : Bytes :=
  [0x81, 0x01, 0x00, 0x00, 0x09, 0x01, 0x08, 0x00, 0x00, 0x00, 0x00, 0x16, value, 0x00, 0x00, 0x00]

/-- The poller polls the values, one after the other, and gives the processor up in its last
action; the high consumer receives once. -/
def pollThenReceive (values : List UInt8) (last : Action) : List Action :=
  let execs n := List.replicate n (.kernel .exec)
  execs 7 ++ (values.flatMap fun v => .poll (sampleHigh v) 0 :: execs 19) ++ last :: execs 18 ++
    .kernel (.call (.receive Topic.high.queue)) :: execs 22

theorem read_prefix_polled_two :
    ∃ s, system.runGuarded (fun s a => Dispatches .high a ∧ HasRoom .high s a) (start setup)
        (pollThenReceive [1, 2] (.kernel (.call (.sleep 1)))) = some s ∧
      (s.read .high).map DispatchItem.value = [1] ∧
      (s.polled .high).map DispatchItem.value = [1, 2] ∧
      (s.read .high).map DispatchItem.value <+: (s.polled .high).map DispatchItem.value := by
  obtain ⟨s, hrun, hread, hpolled⟩ : ∃ s, system.runGuarded
      (fun s a => Dispatches .high a ∧ HasRoom .high s a) (start setup)
      (pollThenReceive [1, 2] (.kernel (.call (.sleep 1)))) = some s ∧
      (s.read .high).map DispatchItem.value = [1] ∧
      (s.polled .high).map DispatchItem.value = [1, 2] :=
    System.exists_of_runGuarded (by decide +kernel)
  exact ⟨s, hrun, hread, hpolled,
    read_prefix_polled setup .high rfl (System.reach_of_runGuarded hrun)⟩

/-- With eight items pending the ninth poll writes over the oldest of them before it blocks, and
the consumer reads the ninth value first. -/
theorem full_queue_overwritten :
    ¬∀ s, system.Reach (fun _ a => Dispatches .high a) (start setup) s →
      (s.read .high).map DispatchItem.value <+: (s.polled .high).map DispatchItem.value := by
  obtain ⟨s, hrun, hread⟩ : ∃ s, system.runGuarded (fun _ a => Dispatches .high a) (start setup)
      (pollThenReceive [1, 2, 3, 4, 5, 6, 7, 8] (.poll (sampleHigh 9) 0)) = some s ∧
      (s.read .high).map DispatchItem.value = [9] ∧
      (s.polled .high).map DispatchItem.value = [1, 2, 3, 4, 5, 6, 7, 8, 9] :=
    System.exists_of_runGuarded (by decide +kernel)
  intro h
  have hprefix := h s (System.reach_of_runGuarded hrun)
  rw [hread.1, hread.2] at hprefix
  exact absurd hprefix (by decide)

end Demo

end PriorityDemo

end RtosXrce.Host
