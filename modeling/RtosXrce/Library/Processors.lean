import Mathlib.Logic.Function.Iterate
import RtosXrce.Library.Transition

/-!
# One processor or one for each thread

`Reach.simulate` carries the runs of one system over to another. The other system used here gives
every thread registers of its own: handing the turn over touches no context at all. What is true
there for free is then true of a machine that has one set of registers and saves and restores it.
`Territory.undisturbed` goes further: a thread whose words the others leave alone computes what it
would compute alone.
-/

namespace RtosXrce.Library

/-- Every accepted step of the first system is matched by a run of the second. -/
theorem System.Reach.simulate {σ α τ β : Type} {S : System σ α} {T : System τ β}
    {ok : σ → α → Prop} {ok' : τ → β → Prop} {R : σ → τ → Prop} {start s : σ} {start' : τ}
    (init : R start start')
    (matched : ∀ s a s' t, R s t → ok s a → S.step s a = some s' →
      ∃ t', T.Reach ok' t t' ∧ R s' t')
    (h : S.Reach ok start s) : ∃ t, T.Reach ok' start' t ∧ R s t := by
  induction h with
  | refl => exact ⟨start', .refl, init⟩
  | tail _ hok hstep ih =>
    obtain ⟨t, ht, hR⟩ := ih
    obtain ⟨t', ht', hR'⟩ := matched _ _ _ _ hR hok hstep
    exact ⟨t', ht.trans ht', hR'⟩

/-- Threads with a context each and one store. -/
structure Processors (ι κ μ : Type) where
  running : ι
  context : ι → κ
  store : μ

namespace Processors

variable {ι κ μ : Type} [DecidableEq ι]

inductive Act (μ : Type) where
  /-- One instruction of the running thread. -/
  | execute
  /-- The next thread gets the turn, and finds this store. -/
  | handOver (store : μ)

def execute (exec : κ → μ → κ × μ) (v : Processors ι κ μ) : Processors ι κ μ where
  running := v.running
  context := Function.update v.context v.running (exec (v.context v.running) v.store).1
  store := (exec (v.context v.running) v.store).2

def handOver (next : ι → ι) (v : Processors ι κ μ) (store : μ) : Processors ι κ μ where
  running := next v.running
  context := v.context
  store := store

def system (exec : κ → μ → κ × μ) (next : ι → ι) : System (Processors ι κ μ) (Act μ) where
  step v
    | .execute => some (v.execute exec)
    | .handOver m => some (v.handOver next m)

/-- What the hand-overs of a run may do to the store. -/
def HandsOver (changes : Processors ι κ μ → μ → Prop) (v : Processors ι κ μ) : Act μ → Prop
  | .execute => True
  | .handOver m => changes v m

end Processors

section Alone

variable {ι κ α β : Type} [DecidableEq ι]

/-- A context and the store after so many instructions with nothing in between. -/
def alone (exec : κ → (α → β) → κ × (α → β)) (n : Nat) (c : κ) (m : α → β) : κ × (α → β) :=
  (fun p => exec p.1 p.2)^[n] (c, m)

theorem alone_succ (exec : κ → (α → β) → κ × (α → β)) (n : Nat) (c : κ) (m : α → β) :
    alone exec (n + 1) c m = exec (alone exec n c m).1 (alone exec n c m).2 :=
  Function.iterate_succ_apply' _ n (c, m)

/-- Which words matter to a thread that starts with this context and this store, once it has
executed so many instructions. Only its own instructions are asked about, so it may have words in
which the other threads keep theirs at other addresses. -/
structure Territory (exec : κ → (α → β) → κ × (α → β)) (c : κ) (m : α → β) where
  owns : Nat → α → Prop
  /-- An instruction reads only words that matter, and what matters next was written by it or
  mattered before. -/
  reads : ∀ n m', (∀ a, owns n a → m' a = (alone exec n c m).2 a) →
    (exec (alone exec n c m).1 m').1 = (alone exec (n + 1) c m).1 ∧
    ∀ a, owns (n + 1) a → (exec (alone exec n c m).1 m').2 a = (alone exec (n + 1) c m).2 a

/-- How many instructions thread `i` has executed. -/
def Processors.count (i : ι) (v : Processors ι κ (α → β)) :
    Processors.Act (α → β) → Nat → Nat
  | .execute, n => if v.running = i then n + 1 else n
  | .handOver _, n => n

variable {exec : κ → (α → β) → κ × (α → β)} {next : ι → ι} {c : κ} {m : α → β}

/-- A step changes no word that matters to thread `i`, unless it is a step of `i`. -/
def Territory.Spares (T : Territory exec c m) (i : ι) (v : Processors ι κ (α → β)) (n : Nat) :
    Processors.Act (α → β) → Prop
  | .execute => i ≠ v.running → ∀ a, T.owns n a →
      (exec (v.context v.running) v.store).2 a = v.store a
  | .handOver m' => ∀ a, T.owns n a → m' a = v.store a

/-- The thread is where it would be after `n` instructions alone. -/
def Territory.Undisturbed (T : Territory exec c m) (i : ι) (v : Processors ι κ (α → β))
    (n : Nat) : Prop :=
  v.context i = (alone exec n c m).1 ∧ ∀ a, T.owns n a → v.store a = (alone exec n c m).2 a

theorem Territory.Undisturbed.step {T : Territory exec c m} {v v' : Processors ι κ (α → β)}
    {a : Processors.Act (α → β)} {i : ι} {n : Nat} (h : T.Undisturbed i v n)
    (hok : T.Spares i v n a) (hstep : (Processors.system exec next).step v a = some v') :
    T.Undisturbed i v' (v.count i a n) := by
  obtain ⟨hcontext, hstore⟩ := h
  cases a with
  | handOver m' =>
    cases hstep
    refine ⟨hcontext, ?_⟩
    intro a ha
    exact (hok a ha).trans (hstore a ha)
  | execute =>
    cases hstep
    by_cases hi : v.running = i
    · subst hi
      obtain ⟨hsame, hnext⟩ := T.reads n v.store hstore
      simp only [Processors.count, if_true]
      constructor
      · simpa [Processors.execute, hcontext] using hsame
      · intro a ha
        simpa [Processors.execute, hcontext] using hnext a ha
    · have hkeep : (v.execute exec).context i = v.context i := by
        simp [Processors.execute, Ne.symm hi]
      simp only [Processors.count, if_neg hi]
      refine ⟨hkeep.trans hcontext, ?_⟩
      intro a ha
      exact (hok (Ne.symm hi) a ha).trans (hstore a ha)

/-- A thread does not notice the others where they leave its words alone. Whether they do is asked
only as long as it is where it would be alone. -/
theorem Territory.undisturbed (T : Territory exec c m) {i : ι} {start : Processors ι κ (α → β)}
    (context : start.context i = c) (store : start.store = m)
    {v : Processors ι κ (α → β) × Nat}
    (h : ((Processors.system exec next).watch (Processors.count i)).Reach
      (fun p a => T.Undisturbed i p.1 p.2 → T.Spares i p.1 p.2 a) (start, 0) v) :
    T.Undisturbed i v.1 v.2 := by
  apply h.invariant (I := fun p => T.Undisturbed i p.1 p.2)
  · exact ⟨context, fun a _ => congrFun store a⟩
  · intro p a q hp hok hstep
    obtain ⟨hmove, hnote⟩ := System.watch_step hstep
    rw [hnote]
    exact hp.step (hok hp) hmove

end Alone

end RtosXrce.Library
