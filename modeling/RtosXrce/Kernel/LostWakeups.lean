import RtosXrce.Kernel.Wakeups

/-!
# Blocked tasks are attended to

A forced switch between the test of a wait loop and the block loses a wakeup, and so does one inside
a wake loop that has woken a waiter or has come to its end. In every run without such a switch,
whatever the priorities and whatever else is preempted, a blocked task that is off the processor is
registered with the object it waits for, and that object is unavailable or its release is still
under way.
-/

namespace RtosXrce.Kernel

open Library

namespace Machine

variable {k k' : Machine} {a : Action}

/-- Some execution is between the store that makes the object available and the end of its wake
loop. -/
def Releasing (k : Machine) (o : Obj) : Prop :=
  ∃ e, ∃ s ∈ (k.threads e).code.head?, s.releases = some o

/-- The blocked task `i`, with `code` left to run, will be woken: by a release of the object it
waits for, or by the timer. -/
def Supported (k : Machine) (code : List Stmt) (i : Nat) : Prop :=
  match awaited code with
  | some o => i ∈ k.vars.waiters o ∧ (k.vars.Unavailable o ∨ k.Releasing o)
  | none => (k.vars.tasks i).wakeTick ≠ 0

/-- The blocked task `i` is in `task_yield`, and off the processor from its `swapcontext` on. -/
def Parked (k : Machine) (code : List Stmt) (i : Nat) : Prop :=
  ∃ s ∈ code.head?, s.yields = true ∨ (∃ b, s = .restoreMask b) ∧ k.cpu ≠ .task i

/-- The conditions on the statement that a thread of `e` runs next. -/
structure HeadOk (k : Machine) (e : Exec) (code : List Stmt) : Prop where
  knows : ∀ s ∈ code.head?, s.Knows k.vars
  alone : ∀ s ∈ code.head?, s.entersWait = true ∨ s.midWake = true → e = k.cpu
  sleeping : ∀ s ∈ code.head?, s.sleeps = true → awaited code = none

structure Attended (k : Machine) : Prop where
  slots : ∀ o, (k.vars.waiters o).Ok k.vars.numTasks
  head : ∀ e, k.HeadOk e (k.threads e).code
  parked : ∀ i, (k.vars.tasks i).state = .blocked → k.Parked (k.threads (.task i)).code i
  supported : ∀ i, (k.vars.tasks i).state = .blocked → k.Supported (k.threads (.task i)).code i

/-- What a step does for the blocked tasks, and for the tasks that do not have the processor. -/
structure Others (k k' : Machine) : Prop where
  numTasks : k.vars.numTasks ≤ k'.vars.numTasks
  blocked : ∀ j, k.cpu ≠ .task j → (k'.vars.tasks j).state = .blocked →
    (k.vars.tasks j).state = .blocked ∧ k'.cpu ≠ .task j ∧
      (k'.vars.tasks j).wakeTick = (k.vars.tasks j).wakeTick
  awake : ∀ j < k.vars.numTasks, k.cpu ≠ .task j → (k.vars.tasks j).state ≠ .blocked →
    (k'.vars.tasks j).wakeTick = (k.vars.tasks j).wakeTick
  mem : ∀ o j, (k'.vars.tasks j).state = .blocked → j ∈ k.vars.waiters o → j ∈ k'.vars.waiters o
  release : ∀ o j, (k'.vars.tasks j).state = .blocked → j ∈ k.vars.waiters o →
    k.vars.Unavailable o ∨ k.Releasing o → k'.vars.Unavailable o ∨ k'.Releasing o

theorem Others.supported (others : Others k k') {i : Nat} {code code' : List Stmt}
    (hb : (k'.vars.tasks i).state = .blocked) (same : awaited code' = awaited code)
    (wake : (k'.vars.tasks i).wakeTick = (k.vars.tasks i).wakeTick)
    (support : k.Supported code i) : k'.Supported code' i := by
  unfold Supported at support ⊢
  rw [same]
  split at support
  case h_1 o ho => exact ⟨others.mem o i hb support.1, others.release o i hb support.1 support.2⟩
  case h_2 => rwa [wake]

theorem Attended.of_others (att : Attended k) (wf : Wf k) (others : Others k k') {th : Thread}
    (hk : k'.threads = Function.update k.threads k.cpu th)
    (slots : ∀ o, (k'.vars.waiters o).Ok k'.vars.numTasks) (head : k'.HeadOk k.cpu th.code)
    (self : ∀ i, k.cpu = .task i → (k'.vars.tasks i).state = .blocked →
      k'.Parked th.code i ∧ k'.Supported th.code i) : Attended k' := by
  have hself : k'.threads k.cpu = th := thread_self hk
  have hother : ∀ e, e ≠ k.cpu → k'.threads e = k.threads e := fun _ => thread_other hk
  refine ⟨slots, fun e => ?_, fun i hb => ?_, fun i hb => ?_⟩
  · by_cases he : e = k.cpu
    · rw [he, hself]
      exact head
    · rw [hother e he]
      have old := att.head e
      have quiet : ∀ s ∈ (k.threads e).code.head?, ¬(s.entersWait = true ∨ s.midWake = true) :=
        fun s hs hcrit => he (old.alone s hs hcrit)
      refine ⟨fun s hs => ?_, fun s hs hcrit => absurd hcrit (quiet s hs), old.sleeping⟩
      obtain ⟨henter, hwake⟩ := not_or.mp (quiet s hs)
      refine Stmt.knows_of_quiet (by simpa using henter) (by simpa using hwake) ?_
      rintro c rfl
      have hcpu : k.cpu ≠ .task c := fun h => he ((wf.exec_of_cur hs rfl).trans h.symm)
      obtain ⟨hlt, hwakeTick, hstate⟩ := old.knows _ hs
      refine ⟨Nat.lt_of_lt_of_le hlt others.numTasks, ?_, fun hb => ?_⟩
      · rwa [others.awake c hlt hcpu hstate]
      · exact hstate (others.blocked c hcpu hb).1
  · by_cases hi : k.cpu = .task i
    · rw [← hi, hself]
      exact (self i hi hb).1
    · obtain ⟨hold, hcpu, -⟩ := others.blocked i hi hb
      rw [hother _ (Ne.symm hi)]
      obtain ⟨s, hs, hyield | ⟨hrestore, -⟩⟩ := att.parked i hold
      · exact ⟨s, hs, Or.inl hyield⟩
      · exact ⟨s, hs, Or.inr ⟨hrestore, hcpu⟩⟩
  · by_cases hi : k.cpu = .task i
    · rw [← hi, hself]
      exact (self i hi hb).2
    · obtain ⟨hold, -, hwake⟩ := others.blocked i hi hb
      rw [hother _ (Ne.symm hi)]
      exact others.supported hb rfl hwake (att.supported i hold)

/-- A step that runs no plain statement and keeps its thread's release going. -/
theorem Others.of_frame (frame : k.vars.Frame k'.vars) {th : Thread}
    (hk : k'.threads = Function.update k.threads k.cpu th)
    (cpu : ∀ j, k.cpu ≠ .task j → (k'.vars.tasks j).state = .blocked → k'.cpu ≠ .task j)
    (keep : ∀ o, ∀ s ∈ k.next, s.releases = some o → ∃ s' ∈ th.code.head?, s'.releases = some o) :
    Others k k' := by
  refine ⟨Nat.le_of_eq frame.numTasks.symm, fun j hj hb => ?_, fun j _ _ hs => ?_,
    fun o j _ hmem => ?_, fun o j _ _ h => ?_⟩
  · exact ⟨frame.blocked j hb, cpu j hj hb, frame.wakeTick j (Or.inr hb)⟩
  · exact frame.wakeTick j (Or.inl hs)
  · rwa [frame.waiters]
  · rw [frame.unavailable]
    refine h.imp_right ?_
    rintro ⟨e, s, hs, hr⟩
    by_cases he : e = k.cpu
    · subst he
      obtain ⟨s', hs', hr'⟩ := keep o s hs hr
      exact ⟨k.cpu, s', by simpa [hk] using hs', hr'⟩
    · exact ⟨e, s, by simpa [hk, he] using hs, hr⟩

theorem Others.of_exec (wf : Wf k) (att : Attended k) {s : Stmt} {rest succ : List Stmt}
    {th : Thread} (hk : k'.threads = Function.update k.threads k.cpu th)
    (hc : k.current.code = s :: rest) (he : s.exec k.vars = some (k'.vars, succ))
    (cpu : k'.cpu = k.cpu) (code : th.code = succ ++ rest) : Others k k' := by
  have hhead : s ∈ (k.threads k.cpu).code.head? := next_eq hc
  have hknows := (att.head k.cpu).knows s hhead
  have hcur : ∀ j, k.cpu ≠ .task j → j ∉ s.cur := fun j hj hcur => hj (wf.exec_of_cur hhead hcur)
  have moved : ∀ o, (∃ s' ∈ succ.head?, s'.releases = some o) → k'.Releasing o := by
    rintro o ⟨s', hs', hr⟩
    refine ⟨k.cpu, s', ?_, hr⟩
    simpa [hk, code] using head_append_of_some hs'
  refine ⟨(Stmt.exec_table he wf.few wf.contexts).1, fun j hj hb => ?_, fun j hlt hj _ => ?_,
    fun o j hb hmem => Stmt.exec_mem he hknows hmem hb, fun o j hb hmem h => ?_⟩
  · obtain ⟨hold, hwake⟩ := Stmt.exec_blocked he (hcur j hj) hb
    exact ⟨hold, cpu ▸ hj, hwake⟩
  · refine Stmt.exec_wakeTick he hlt fun ms hs => hcur j hj ?_
    rw [hs]
    rfl
  · obtain hun | ⟨e, s', hs', hr⟩ := h
    · exact (Stmt.exec_unavailable he hun).imp_right (moved o)
    · refine Or.inr ?_
      by_cases hecpu : e = k.cpu
      · subst hecpu
        have hsame : s' = s := Option.some.inj (hs'.symm.trans hhead)
        exact moved o (Stmt.exec_releases he hknows hmem hb (hsame ▸ hr))
      · exact ⟨e, s', by simpa [hk, hecpu] using hs', hr⟩

theorem Attended.exec_slots (wf : Wf k) (att : Attended k) {s : Stmt} {succ : List Stmt}
    {g : Globals} (hcur : ∀ c ∈ s.cur, c < k.vars.numTasks)
    (he : s.exec k.vars = some (g, succ)) : ∀ o, (g.waiters o).Ok g.numTasks := by
  intro o
  refine Waiters.Ok.mono ?_ (Stmt.exec_table he wf.few wf.contexts).1
  by_cases hs : s.listsWaiters = false
  · rw [Stmt.exec_waiters he hs]
    exact att.slots o
  · cases s <;> simp only [Stmt.listsWaiters, not_true_eq_false, Bool.true_eq_false] at hs
    case lockAddWaiter m c =>
      cases he
      rw [Globals.waiters_modifyWaiters]
      split
      · exact ((att.slots _).add (hcur c rfl) wf.few).1
      · exact att.slots o
    case waitAddWaiter s c =>
      cases he
      rw [Globals.waiters_modifyWaiters]
      split
      · exact ((att.slots _).add (hcur c rfl) wf.few).1
      · exact att.slots o
    case wakeClear o' =>
      cases he
      rw [Globals.waiters_modifyWaiters]
      split
      · exact Waiters.ok_empty _ _
      · exact att.slots o

/-- The tick does not take the processor from an execution that has found its object unavailable
and is not BLOCKED yet. -/
def SparesWait (k : Machine) (a : Action) : Prop :=
  a = .tick → k.tick.cpu ≠ k.cpu → ∀ s ∈ k.next, s.entersWait = false

instance (k : Machine) (a : Action) : Decidable (SparesWait k a) :=
  inferInstanceAs (Decidable (_ → _ → _))

/-- The tick does not take the processor from an execution in the middle of a wake loop: from its
first store of READY on, or from its last test. -/
def SparesWake (k : Machine) (a : Action) : Prop :=
  a = .tick → k.tick.cpu ≠ k.cpu → ∀ s ∈ k.next, s.midWake = false

instance (k : Machine) (a : Action) : Decidable (SparesWake k a) :=
  inferInstanceAs (Decidable (_ → _ → _))

theorem Cooperative.spares (h : Cooperative a) (k : Machine) : SparesWait k a ∧ SparesWake k a :=
  ⟨fun ha => absurd ha h, fun ha => absurd ha h⟩

theorem headOk_quiet {e : Exec} {code : List Stmt} (h : ∀ s ∈ code.head?, s.Quiet) :
    k.HeadOk e code := by
  refine ⟨fun s hs => (h s hs).knows k.vars, fun s hs hcrit => ?_, fun s hs hsleep => ?_⟩
  · simp [(h s hs).entersWait, Stmt.midWake_of_wakes (h s hs).wakes] at hcrit
  · rw [(h s hs).sleeps] at hsleep
    cases hsleep

theorem attended_start (c : Config) : Attended c.start where
  slots o := by
    cases o with
    | mutex m => cases m <;> exact Waiters.ok_empty _ _
    | sem s => cases s <;> exact Waiters.ok_empty _ _
  head e := by
    cases e <;> exact headOk_quiet (by rintro _ ⟨rfl⟩; exact Stmt.quiet_returnPoint rfl)
  parked i hb := by cases hb
  supported i hb := by cases hb

/-- A blocked task that has the processor is still in `task_yield`. -/
theorem Attended.yields (att : Attended k) {i : Nat} (hcpu : k.cpu = .task i)
    (hb : (k.vars.tasks i).state = .blocked) : ∃ s ∈ k.next, s.yields = true := by
  obtain ⟨s, hs, hyield | ⟨-, hoff⟩⟩ := att.parked i hb
  · exact ⟨s, by rw [next, current, hcpu]; exact hs, hyield⟩
  · exact absurd hcpu hoff

theorem Attended.supported_current (att : Attended k) {i : Nat} (hcpu : k.cpu = .task i)
    (hb : (k.vars.tasks i).state = .blocked) : k.Supported k.current.code i := by
  rw [current, hcpu]
  exact att.supported i hb

theorem slots_of_frame (slots : ∀ o, (k.vars.waiters o).Ok k.vars.numTasks)
    (frame : k.vars.Frame k'.vars) (o : Obj) : (k'.vars.waiters o).Ok k'.vars.numTasks := by
  rw [frame.numTasks, frame.waiters]
  exact slots o

/-- A step that leaves its thread's code as it is. -/
theorem Attended.keep (att : Attended k) (wf : Wf k) (frame : k.vars.Frame k'.vars) {th : Thread}
    (hk : k'.threads = Function.update k.threads k.cpu th) (code : th.code = k.current.code)
    (cpu : ∀ j, k.cpu ≠ .task j → (k'.vars.tasks j).state = .blocked → k'.cpu ≠ .task j)
    (alone : ∀ s ∈ k.next, s.entersWait = true ∨ s.midWake = true → k'.cpu = k.cpu) :
    Attended k' := by
  have others : Others k k' := .of_frame frame hk cpu fun o s hs hr =>
    ⟨s, by rw [code]; exact hs, hr⟩
  have old := att.head k.cpu
  refine att.of_others wf others hk (slots_of_frame att.slots frame) ?_ fun i hcpu hb => ?_
  · rw [code]
    exact ⟨fun s hs => (old.knows s hs).of_frame frame, fun s hs hcrit => (alone s hs hcrit).symm,
      old.sleeping⟩
  · have hold := frame.blocked i hb
    obtain ⟨s, hs, hyield⟩ := att.yields hcpu hold
    rw [code]
    exact ⟨⟨s, hs, Or.inl hyield⟩,
      others.supported hb rfl (frame.wakeTick i (Or.inr hb)) (att.supported_current hcpu hold)⟩

theorem Attended.control (att : Attended k) (wf : Wf k) (stacked : Stacked k)
    (frame : k.vars.Frame k'.vars) {s : Stmt} {rest succ : List Stmt} {th : Thread}
    (hk : k'.threads = Function.update k.threads k.cpu th) (hc : k.current.code = s :: rest)
    (hs : s.control k.current.masked = some succ) (code : th.code = succ ++ rest)
    (hcpu : k'.cpu = s.goesTo k)
    (cpu : ∀ j, k.cpu ≠ .task j → (k'.vars.tasks j).state = .blocked → k'.cpu ≠ .task j) :
    Attended k' := by
  obtain ⟨quiet, hsucc⟩ := Stmt.quiet_control hs
  have others : Others k k' := .of_frame frame hk cpu fun o s' hs' hr => by
    rw [eq_of_next hc hs', quiet.releases] at hr
    cases hr
  refine att.of_others wf others hk (slots_of_frame att.slots frame) ?_ fun i hi hb => ?_
  · rw [code]
    exact headOk_quiet (head_append hsucc fun s hs => Stmt.quiet_returnPoint (stacked.rest hc s hs))
  · have hold := frame.blocked i hb
    obtain ⟨s', hs', hyield⟩ := att.yields hi hold
    rw [eq_of_next hc hs'] at hyield
    obtain ⟨s'', rfl, hpark⟩ := Stmt.control_yields (k := k) hs hyield
    have support := att.supported_current hi hold
    rw [hc] at support
    rw [code]
    refine ⟨⟨s'', rfl, hpark.imp_right ?_⟩, others.supported hb rfl
      (frame.wakeTick i (Or.inr hb)) support⟩
    rintro ⟨hrestore, hgoes⟩
    refine ⟨hrestore, ?_⟩
    rw [hcpu, hgoes, (wf.running i hi).2.2.1]
    exact Exec.noConfusion

theorem Attended.exit (att : Attended k) (wf : Wf k) (frame : k.vars.Frame k'.vars)
    {rest : List Stmt} {th : Thread} (hk : k'.threads = Function.update k.threads k.cpu th)
    (hc : k.current.code = .exit :: rest) (code : th.code = [])
    (cpu : ∀ j, k.cpu ≠ .task j → (k'.vars.tasks j).state = .blocked → k'.cpu ≠ .task j) :
    Attended k' := by
  have others : Others k k' := .of_frame frame hk cpu fun o s hs hr => by
    rw [eq_of_next hc hs] at hr
    cases hr
  refine att.of_others wf others hk (slots_of_frame att.slots frame) ?_ fun i hi hb => ?_
  · rw [code]
    exact headOk_quiet nofun
  · obtain ⟨s, hs, hyield⟩ := att.yields hi (frame.blocked i hb)
    rw [eq_of_next hc hs] at hyield
    cases hyield

theorem Attended.call (att : Attended k) (wf : Wf k) (frame : k.vars.Frame k'.vars) {op : Op}
    {rest : List Stmt} {th : Thread} (hk : k'.threads = Function.update k.threads k.cpu th)
    (hc : k.current.code = .body :: rest) (code : th.code = op.code ++ .body :: rest)
    (cpu : k'.cpu = k.cpu) : Attended k' := by
  have others : Others k k' := .of_frame frame hk (fun j hj _ => cpu ▸ hj) fun o s hs hr => by
    rw [eq_of_next hc hs] at hr
    cases hr
  refine att.of_others wf others hk (slots_of_frame att.slots frame) ?_ fun i hi hb => ?_
  · rw [code]
    cases op with
    | sleep ms =>
      refine ⟨?_, ?_, fun _ _ _ => rfl⟩
      · rintro _ ⟨rfl⟩
        trivial
      · rintro _ ⟨rfl⟩ (h | h) <;> cases h
    | _ => exact headOk_quiet (by rintro _ ⟨rfl⟩; exact ⟨fun _ => trivial, rfl, rfl, rfl, rfl⟩)
  · obtain ⟨s, hs, hyield⟩ := att.yields hi (frame.blocked i hb)
    rw [eq_of_next hc hs] at hyield
    cases hyield

/-- A task that has just stored BLOCKED is registered with what it waits for, or has a deadline. -/
theorem Attended.blocks (att : Attended k) {s : Stmt} {rest succ : List Stmt} {c : Nat}
    (hc : k.current.code = s :: rest) (he : s.exec k.vars = some (k'.vars, succ))
    (hcur : ∀ i ∈ s.cur, i = c) (hs : s.blocks = true) :
    k'.Parked (succ ++ rest) c ∧ k'.Supported (succ ++ rest) c := by
  have old := att.head k.cpu
  have hhead : s ∈ (k.threads k.cpu).code.head? := next_eq hc
  have hknows := old.knows s hhead
  cases s <;> cases hs
  case lockBlock m i =>
    obtain rfl := hcur i rfl
    obtain ⟨hvars, rfl⟩ := Prod.mk.inj (Option.some.inj he)
    refine ⟨⟨_, rfl, Or.inl rfl⟩, ?_, Or.inl ?_⟩ <;> rw [← hvars]
    · simpa using hknows.2
    · exact hknows.1
  case waitBlock s i =>
    obtain rfl := hcur i rfl
    obtain ⟨hvars, rfl⟩ := Prod.mk.inj (Option.some.inj he)
    refine ⟨⟨_, rfl, Or.inl rfl⟩, ?_, Or.inl ?_⟩ <;> rw [← hvars]
    · simpa using hknows.2
    · exact hknows.1
  case sleepBlock i =>
    obtain rfl := hcur i rfl
    obtain ⟨hvars, rfl⟩ := Prod.mk.inj (Option.some.inj he)
    have hnone : awaited k.current.code = none := old.sleeping _ hhead rfl
    rw [hc] at hnone
    change awaited (.yieldTest :: rest) = none at hnone
    refine ⟨⟨_, rfl, Or.inl rfl⟩, ?_⟩
    simp only [Supported, List.singleton_append, hnone, ← hvars]
    simpa using hknows.2.1

theorem Attended.plain (att : Attended k) (wf : Wf k) (stacked : Stacked k) {s : Stmt}
    {rest succ : List Stmt} {th : Thread} (hk : k'.threads = Function.update k.threads k.cpu th)
    (hc : k.current.code = s :: rest) (he : s.exec k.vars = some (k'.vars, succ))
    (cpu : k'.cpu = k.cpu) (code : th.code = succ ++ rest) : Attended k' := by
  have old := att.head k.cpu
  have hhead : s ∈ (k.threads k.cpu).code.head? := next_eq hc
  have hcur : ∀ c ∈ s.cur, k.cpu = .task c := fun c hs => wf.exec_of_cur hhead hs
  have hlt : ∀ c ∈ s.cur, c < k.vars.numTasks := fun c hs => (wf.running c (hcur c hs)).1
  have hyields : ∀ i, k.cpu = .task i → (k.vars.tasks i).state = .blocked → s.yields = true := by
    intro i hi hb
    obtain ⟨s', hs', hyield⟩ := att.yields hi hb
    rwa [eq_of_next hc hs'] at hyield
  have hquiet : ∀ s' ∈ rest, s'.Quiet := fun s' hs' =>
    Stmt.quiet_returnPoint (stacked.rest hc s' hs')
  have others := Others.of_exec wf att hk hc he cpu code
  refine att.of_others wf others hk (att.exec_slots wf hlt he) ?_ fun i hi hb => ?_
  · rw [code]
    refine ⟨head_append (Stmt.exec_knows he (old.knows s hhead) hlt (fun hsleep c hs hb => ?_)
      wf.few att.slots) fun s' hs' => (hquiet s' hs').knows _, fun _ _ _ => cpu.symm,
      fun s' hs' hsleep => ?_⟩
    · have := hyields c (hcur c hs) hb
      cases s <;> simp [Stmt.sleeps, Stmt.yields] at hsleep this
    · cases succ with
      | nil =>
        rw [(hquiet s' (List.mem_of_head? hs')).sleeps] at hsleep
        cases hsleep
      | cons s'' more =>
        obtain ⟨hold, hone⟩ := Stmt.exec_sleeps he hs' hsleep
        have hnone : awaited k.current.code = none := old.sleeping s hhead hold
        rw [hc] at hnone
        rw [hone]
        exact hnone
  · rw [code]
    by_cases hblocks : s.blocks = true
    · exact att.blocks hc he (fun c hs => (Exec.task.inj (hi.symm.trans (hcur c hs))).symm) hblocks
    · have hold := Stmt.exec_state he (by simpa using hblocks) hb
      obtain ⟨⟨s', rfl, hyield⟩, hsame⟩ := Stmt.exec_yields he (hyields i hi hold)
        (by simp [(wf.running i hi).2.1])
      have support := att.supported_current hi hold
      rw [hc] at support
      obtain hsame | ⟨c, rfl, hawake⟩ := hsame
      · exact ⟨⟨s', rfl, Or.inl hyield⟩, others.supported hb rfl (by rw [hsame]) support⟩
      · obtain rfl := Exec.task.inj (hi.symm.trans (hcur c rfl))
        exact absurd hb hawake

theorem Attended.step (att : Attended k) (wf : Wf k) (stacked : Stacked k)
    (wait : SparesWait k a) (wake : SparesWake k a) (h : system.step k a = some k') :
    Attended k' := by
  have cpu : ∀ j, k.cpu ≠ .task j → (k'.vars.tasks j).state = .blocked → k'.cpu ≠ .task j :=
    fun j => wf.blocked_off_cpu (step_cases h)
  obtain ⟨th, hth, moves⟩ := step_moves h
  cases moves with
  | resume frame same code => exact att.keep wf frame hth code cpu fun _ _ _ => same
  | tick frame ticked code =>
    refine att.keep wf frame hth code cpu fun s hs hcrit => ?_
    by_contra hne
    rw [ticked] at hne
    rw [wait rfl hne s hs, wake rfl hne s hs] at hcrit
    simp at hcrit
  | control frame hc hs hgoes code => exact att.control wf stacked frame hth hc hs code hgoes cpu
  | exit frame hc _ code => exact att.exit wf frame hth hc code cpu
  | plain _ hc he same code => exact att.plain wf stacked hth hc he same code
  | call frame same hc code => exact att.call wf frame hth hc code same

theorem attended_of_reach {c : Config} {ok : Machine → Action → Prop}
    (wf : ∀ k, system.Reach ok c.start k → Wf k)
    (spares : ∀ k a, ok k a → SparesWait k a ∧ SparesWake k a)
    (h : system.Reach ok c.start k) : Attended k :=
  h.invariant_with (fun k h => And.intro (wf k h) (stacked_of_reach h)) (attended_start c)
    fun k a _ ⟨wf, stacked⟩ att hok hstep =>
      att.step wf stacked (spares k a hok).1 (spares k a hok).2 hstep

/-- The task `t` is BLOCKED without a deadline and has handed the processor over. -/
def Waiting (k : Machine) (t : Nat) : Prop :=
  (k.vars.tasks t).state = .blocked ∧ (k.vars.tasks t).wakeTick = 0 ∧ k.cpu ≠ .task t

instance (k : Machine) (t : Nat) : Decidable (k.Waiting t) :=
  inferInstanceAs (Decidable (_ ∧ _ ∧ _))

/-- `t` is registered with the object it waits for, and that is unavailable. -/
def Registered (k : Machine) (t : Nat) : Prop :=
  ∃ o, awaited (k.threads (.task t)).code = some o ∧ t ∈ k.vars.waiters o ∧ k.vars.Unavailable o

/-- In a run without a forced switch between the test of a wait loop and the block, or inside a
wake loop, a waiting task is registered with the object it waits for, and that is unavailable or
its release is under way. -/
theorem no_lost_wakeup (c : Config) {k : Machine}
    (h : system.Reach (fun k a => TicksTasks k a ∧ SparesWait k a ∧ SparesWake k a) c.start k)
    {t : Nat} (waiting : k.Waiting t) :
    ∃ o, awaited (k.threads (.task t)).code = some o ∧ t ∈ k.vars.waiters o ∧
      (k.vars.Unavailable o ∨ k.Releasing o) := by
  obtain ⟨hb, hwake, -⟩ := waiting
  have att := attended_of_reach (fun _ => wf_of_reach fun _ _ hok => hok.1)
    (fun _ _ hok => hok.2) h
  have support := att.supported t hb
  unfold Supported at support
  split at support
  case h_1 o ho => exact ⟨o, ho, support⟩
  case h_2 => exact absurd hwake support

theorem not_registered_of_free {t : Nat} {m : MutexId}
    (hwait : awaited (k.threads (.task t)).code = some (.mutex m))
    (free : (k.vars.mutexes m).locked = false) : ¬k.Registered t := by
  rintro ⟨o, ho, -, hun⟩
  obtain rfl := Option.some.inj (hwait.symm.trans ho)
  rw [Globals.Unavailable, free] at hun
  cases hun

/-- The first task locks the mutex and is preempted, the second blocks on it, and the first stores
`locked = 0`. -/
def releaseRun : List Action :=
  script 7 [(.call (.lock (.named 0)), 5), (.tick, 0), (.call (.lock (.named 0)), 20),
    (.call (.unlock (.named 0)), 3)]

/-- The first task locks the mutex and is preempted, the second finds it locked and is preempted,
the first unlocks it and is preempted, and the second blocks. -/
def lateBlockRun : List Action :=
  script 7 [(.call (.lock (.named 0)), 5), (.tick, 0), (.call (.lock (.named 0)), 2), (.tick, 1),
    (.call (.unlock (.named 0)), 6), (.tick, 9)]

theorem no_lost_wakeup_release :
    ∃ k, system.runGuarded (fun k a => TicksTasks k a ∧ SparesWait k a ∧ SparesWake k a)
        Config.twoTasks.start releaseRun = some k ∧ k.Waiting 1 ∧
      ∃ o, awaited (k.threads (.task 1)).code = some o ∧ 1 ∈ k.vars.waiters o ∧
        (k.vars.Unavailable o ∨ k.Releasing o) := by
  obtain ⟨k, hrun, hwaiting⟩ : ∃ k, system.runGuarded
      (fun k a => TicksTasks k a ∧ SparesWait k a ∧ SparesWake k a)
        Config.twoTasks.start releaseRun = some k ∧ k.Waiting 1 :=
    System.exists_of_runGuarded (by decide +kernel)
  exact ⟨k, hrun, hwaiting, no_lost_wakeup .twoTasks (System.reach_of_runGuarded hrun) hwaiting⟩

/-- Between the store `locked = 0` and the wake loop a waiter is blocked on a free mutex in any
run; blocked after the wake loop it was too late for, it stays so. -/
theorem blocked_on_free_mutex :
    (∃ k, system.Reach (fun k a => TicksTasks k a ∧ SparesWait k a ∧ SparesWake k a)
        Config.twoTasks.start k ∧ k.Waiting 1 ∧ ¬k.Registered 1) ∧
    ∃ k, system.Reach TicksTasks Config.twoTasks.start k ∧ k.Waiting 1 ∧ ¬k.Registered 1 ∧
      (k.threads (.task 0)).code = [.body, .terminate 0, .exit] := by
  obtain ⟨k, hrun, hwaiting, hawaited, hfree⟩ : ∃ k, system.runGuarded
      (fun k a => TicksTasks k a ∧ SparesWait k a ∧ SparesWake k a)
        Config.twoTasks.start releaseRun = some k ∧ k.Waiting 1 ∧
      awaited (k.threads (.task 1)).code = some (.mutex (.named 0)) ∧
      (k.vars.mutexes (.named 0)).locked = false :=
    System.exists_of_runGuarded (by decide +kernel)
  obtain ⟨k', hrun', hwaiting', hawaited', hfree', hcode⟩ : ∃ k, system.runGuarded TicksTasks
        Config.twoTasks.start lateBlockRun = some k ∧ k.Waiting 1 ∧
      awaited (k.threads (.task 1)).code = some (.mutex (.named 0)) ∧
      (k.vars.mutexes (.named 0)).locked = false ∧
      (k.threads (.task 0)).code = [.body, .terminate 0, .exit] :=
    System.exists_of_runGuarded (by decide +kernel)
  exact ⟨⟨k, System.reach_of_runGuarded hrun, hwaiting, not_registered_of_free hawaited hfree⟩,
    k', System.reach_of_runGuarded hrun', hwaiting', not_registered_of_free hawaited' hfree', hcode⟩

/-- The first task posts and is preempted behind the last test of its wake loop, the second takes
the permit, waits once more and blocks, and the first drops the waiters and posts again. -/
def droppedRun : List Action :=
  script 7 [(.call (.post (.named 0)), 2), (.tick, 0), (.call (.wait (.named 0)), 3),
    (.call (.wait (.named 0)), 20), (.call (.post (.named 0)), 3)]

/-- A forced switch inside the wake loop alone loses a wakeup too: the second task registers there,
is dropped with the others, and stays blocked on a semaphore that has a permit. -/
theorem waiter_dropped :
    ∃ k, system.Reach (fun k a => TicksTasks k a ∧ SparesWait k a) Config.twoTasks.start k ∧
      k.Waiting 1 ∧ ¬k.Registered 1 ∧ 0 < (k.vars.sems (.named 0)).count ∧
      (k.threads (.task 0)).code = [.body, .terminate 0, .exit] := by
  obtain ⟨k, hrun, hwaiting, hawaited, hcount, hcode⟩ : ∃ k, system.runGuarded
      (fun k a => TicksTasks k a ∧ SparesWait k a) Config.twoTasks.start droppedRun = some k ∧
      k.Waiting 1 ∧ awaited (k.threads (.task 1)).code = some (.sem (.named 0)) ∧
      0 < (k.vars.sems (.named 0)).count ∧
      (k.threads (.task 0)).code = [.body, .terminate 0, .exit] :=
    System.exists_of_runGuarded (by decide +kernel)
  refine ⟨k, System.reach_of_runGuarded hrun, hwaiting, ?_, hcount, hcode⟩
  rintro ⟨o, ho, -, hun⟩
  obtain rfl := Option.some.inj (hawaited.symm.trans ho)
  exact absurd hun (Int.not_le.mpr hcount)

end Machine

end RtosXrce.Kernel
