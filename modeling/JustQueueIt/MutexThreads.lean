/-
Threads that call the operations of a guarded object.  A call waits for the
mutex, makes its accesses while it holds it, and returns after it has let go.
Every run is linearizable to the operations as a whole: a call takes effect
when it acquires the mutex.
-/
import JustQueueIt.Linearization
import JustQueueIt.SharedMutex

universe u v w x y z

namespace SharedMutex

open Linearization

variable {Access : Type u} {Answer : Access → Type v} {State : Type w}
  {memory : Memory Access Answer State} {Op : Type y} {Ret : Op → Type x}
  {Thread : Type z}

/-- Where a thread is with its call. -/
inductive Phase (Answer : Access → Type v) (Ret : Op → Type x) where
  | idle
  | waiting (op : Op)
  | inside (op : Op) (code : Code Answer (Ret op))
  | left (op : Op) (ret : Ret op)

def Phase.holder : Phase Answer Ret → Option (Holder Answer Ret)
  | .inside op code => some ⟨op, code⟩
  | _ => none

/-- The guarded memory and the threads, which number their calls. -/
structure Threads (Answer : Access → Type v) (State : Type w)
    (Ret : Op → Type x) (Thread : Type z) where
  state : State
  phases : Thread → Phase Answer Ret
  answered : Thread → Nat

namespace Threads

def init (state : State) : Threads Answer State Ret Thread :=
  ⟨state, fun _ => .idle, fun _ => 0⟩

def inside (threads : Threads Answer State Ret Thread) (thread : Thread) :
    Option (Holder Answer Ret) :=
  (threads.phases thread).holder

theorem inside_of_phase {threads : Threads Answer State Ret Thread}
    {thread : Thread} {op : Op} {code : Code Answer (Ret op)}
    (hphase : threads.phases thread = .inside op code) :
    threads.inside thread = some ⟨op, code⟩ := by
  rw [inside, hphase]
  rfl

def set [DecidableEq Thread] (threads : Threads Answer State Ret Thread)
    (thread : Thread) (phase : Phase Answer Ret) :
    Threads Answer State Ret Thread :=
  { threads with phases := Function.update threads.phases thread phase }

section

variable [DecidableEq Thread] (threads : Threads Answer State Ret Thread)
  (thread : Thread) (phase : Phase Answer Ret)

theorem inside_set : (threads.set thread phase).inside =
    Function.update threads.inside thread phase.holder := by
  funext other
  by_cases heq : other = thread
  · subst heq
    simp [inside, set]
  · simp [inside, set, heq]

variable {threads thread} in
/-- A thread outside the mutex may move there. -/
theorem update_outside (houtside : threads.inside thread = none) :
    Function.update threads.inside thread none = threads.inside := by
  rw [← houtside, Function.update_eq_self]

end

end Threads

inductive ThreadLabel (Access : Type u) (Ret : Op → Type x)
    (Thread : Type z) where
  | call (id : Thread × Nat) (op : Op)
  | acquire (thread : Thread)
  | access (thread : Thread) (act : Access)
  | release (thread : Thread)
  | answer (id : Thread × Nat) (op : Op) (ret : Ret op)

/-- One step of one thread. -/
inductive ThreadStep [DecidableEq Thread] (guarded : Guarded memory Op Ret) :
    Threads Answer State Ret Thread → ThreadLabel Access Ret Thread →
      Threads Answer State Ret Thread → Prop
  | call {threads : Threads Answer State Ret Thread} {thread : Thread}
      (op : Op) (hphase : threads.phases thread = .idle) :
      ThreadStep guarded threads (.call (thread, threads.answered thread) op)
        (threads.set thread (.waiting op))
  | acquire {threads : Threads Answer State Ret Thread} {thread : Thread}
      {op : Op} (hphase : threads.phases thread = .waiting op)
      (hfree : guarded.Free threads.inside (guarded.mode op)) :
      ThreadStep guarded threads (.acquire thread)
        (threads.set thread (.inside op (guarded.code op)))
  | access {threads : Threads Answer State Ret Thread} {thread : Thread}
      {op : Op} {act : Access} {next : Answer act → Code Answer (Ret op)}
      {answer : Answer act} {after : State}
      (hphase : threads.phases thread = .inside op (.access act next))
      (hperform : memory.perform threads.state act = some (answer, after)) :
      ThreadStep guarded threads (.access thread act)
        { threads.set thread (.inside op (next answer)) with state := after }
  | release {threads : Threads Answer State Ret Thread} {thread : Thread}
      {op : Op} {ret : Ret op}
      (hphase : threads.phases thread = .inside op (.done ret)) :
      ThreadStep guarded threads (.release thread)
        (threads.set thread (.left op ret))
  | answer {threads : Threads Answer State Ret Thread} {thread : Thread}
      {op : Op} {ret : Ret op}
      (hphase : threads.phases thread = .left op ret) :
      ThreadStep guarded threads
        (.answer (thread, threads.answered thread) op ret)
        { threads.set thread .idle with
          answered := Function.update threads.answered thread
            (threads.answered thread + 1) }

/-- The runs from a state of the memory, in any interleaving. -/
inductive ThreadRun [DecidableEq Thread] (guarded : Guarded memory Op Ret)
    (start : State) : List (ThreadLabel Access Ret Thread) →
      Threads Answer State Ret Thread → Prop
  | init : ThreadRun guarded start [] (.init start)
  | step {labels : List (ThreadLabel Access Ret Thread)}
      {threads after : Threads Answer State Ret Thread}
      {label : ThreadLabel Access Ret Thread}
      (hrun : ThreadRun guarded start labels threads)
      (hstep : ThreadStep guarded threads label after) :
      ThreadRun guarded start (labels ++ [label]) after

/-- What the callers see of a run. -/
def callHistory (labels : List (ThreadLabel Access Ret Thread)) :
    List (Event (Thread × Nat) Op ((op : Op) × Ret op)) :=
  labels.filterMap fun
    | .call id op => some (.invoke id op)
    | .answer id op ret => some (.respond id ⟨op, ret⟩)
    | _ => none

theorem callHistory_append
    (first second : List (ThreadLabel Access Ret Thread)) :
    callHistory (first ++ second) = callHistory first ++ callHistory second :=
  List.filterMap_append

/-- The operations as a whole, as a sequential object. -/
def Guarded.object (guarded : Guarded memory Op Ret) (start : State) :
    Object Op ((op : Op) × Ret op) State where
  init := start
  apply state op := (⟨op, (guarded.apply state op).1⟩,
    (guarded.apply state op).2)

abbrev Order (Thread : Type z) (Op : Type y) := List ((Thread × Nat) × Op)

variable {guarded : Guarded memory Op Ret} {start : State}

/-- Where a call stands that has its thread's next number: not made, waiting to
take effect, or with an effect and an answer to come. -/
def Phase.Stands (guarded : Guarded memory Op Ret) (start : State)
    (history : List (Event (Thread × Nat) Op ((op : Op) × Ret op)))
    (order : Order Thread Op) (id : Thread × Nat) (state : State) :
    Phase Answer Ret → Prop
  | .idle => ∀ op, .invoke id op ∉ history
  | .waiting op => .invoke id op ∈ history ∧ id ∉ order.map Prod.fst
  | .inside op code => ∃ ret after, code.run memory state = some (ret, after) ∧
      (guarded.object start).Returns order id ⟨op, ret⟩
  | .left op ret => (guarded.object start).Returns order id ⟨op, ret⟩

/-- An order of effects explains the threads. -/
structure Explained (guarded : Guarded memory Op Ret) (start : State)
    (labels : List (ThreadLabel Access Ret Thread)) (order : Order Thread Op)
    (threads : Threads Answer State Ret Thread) : Prop where
  linearizes : (guarded.object start).Linearizes (callHistory labels) order
  sound : guarded.Sound threads.inside threads.state
    ((guarded.object start).stateAfter order)
  fresh : ∀ thread n op, .invoke (thread, n) op ∈ callHistory labels →
    n ≤ threads.answered thread
  stands : ∀ thread, (threads.phases thread).Stands guarded start
    (callHistory labels) order (thread, threads.answered thread) threads.state

/-- A call stands where it stood when only others took steps. -/
theorem Phase.Stands.append {phase : Phase Answer Ret}
    {history more : List (Event (Thread × Nat) Op ((op : Op) × Ret op))}
    {order added : Order Thread Op} {id : Thread × Nat} {state : State}
    (hstands : phase.Stands guarded start history order id state)
    (hmore : ∀ op, .invoke id op ∉ more)
    (hadded : ∀ entry ∈ added, entry.1 ≠ id) :
    phase.Stands guarded start (history ++ more) (order ++ added) id state := by
  cases phase with
  | idle =>
      intro op hmem
      rcases List.mem_append.mp hmem with hmem | hmem
      · exact hstands op hmem
      · exact hmore op hmem
  | waiting op =>
      refine ⟨List.mem_append_left _ hstands.1, ?_⟩
      intro hmem
      rw [List.map_append, List.mem_append] at hmem
      rcases hmem with hmem | hmem
      · exact hstands.2 hmem
      · obtain ⟨entry, hentry, hid⟩ := List.mem_map.mp hmem
        exact hadded entry hentry hid
  | inside op code =>
      obtain ⟨ret, after, hrun, hreturns⟩ := hstands
      exact ⟨ret, after, hrun, hreturns.append added⟩
  | left op ret => exact Object.Returns.append hstands added

/-- Outside the mutex it does not matter what the memory holds. -/
theorem Phase.Stands.of_outside {phase : Phase Answer Ret}
    {history : List (Event (Thread × Nat) Op ((op : Op) × Ret op))}
    {order : Order Thread Op} {id : Thread × Nat} {state : State}
    (hstands : phase.Stands guarded start history order id state)
    (houtside : phase.holder = none) (after : State) :
    phase.Stands guarded start history order id after := by
  cases phase with
  | idle => exact hstands
  | waiting op => exact hstands
  | inside op code => simp [Phase.holder] at houtside
  | left op ret => exact hstands

theorem Explained.init (guarded : Guarded memory Op Ret) (start : State) :
    Explained guarded start ([] : List (ThreadLabel Access Ret Thread)) []
      (.init start) where
  linearizes := .nil
  sound := .nobody guarded start
  fresh _ _ _ hmem := by simp [callHistory] at hmem
  stands _ _ hmem := by simp [callHistory] at hmem

section

variable [DecidableEq Thread] {labels : List (ThreadLabel Access Ret Thread)}
  {label : ThreadLabel Access Ret Thread} {order added : Order Thread Op}
  {threads after : Threads Answer State Ret Thread} {thread : Thread}

/-- One thread moves on, with the memory and its number of answered calls. -/
theorem Explained.move
    (hexplained : Explained guarded start labels order threads)
    {phase : Phase Answer Ret} {state : State} {n : Nat}
    (hlin : (guarded.object start).Linearizes (callHistory (labels ++ [label]))
      (order ++ added))
    (hsound : guarded.Sound
      (Function.update threads.inside thread phase.holder) state
      ((guarded.object start).stateAfter (order ++ added)))
    (hstands : phase.Stands guarded start (callHistory (labels ++ [label]))
      (order ++ added) (thread, n) state)
    (hcount : threads.answered thread ≤ n)
    (hmore : ∀ id op, .invoke id op ∈ callHistory [label] →
      id = (thread, threads.answered thread))
    (hadded : ∀ entry ∈ added, entry.1.1 = thread)
    (hkeep : ∀ other, other ≠ thread → threads.inside other ≠ none →
      state = threads.state) :
    Explained guarded start (labels ++ [label]) (order ++ added)
      { threads.set thread phase with
        state := state
        answered := Function.update threads.answered thread n } where
  linearizes := hlin
  sound := by
    rw [← threads.inside_set] at hsound
    exact hsound
  fresh other m op hmem := by
    have hle : m ≤ threads.answered other := by
      rw [callHistory_append] at hmem
      rcases List.mem_append.mp hmem with hmem | hmem
      · exact hexplained.fresh other m op hmem
      · obtain ⟨rfl, rfl⟩ := Prod.mk.inj (hmore _ op hmem)
        exact Nat.le_refl _
    by_cases heq : other = thread
    · subst heq
      simpa using Nat.le_trans hle hcount
    · simpa [heq] using hle
  stands other := by
    by_cases heq : other = thread
    · subst heq
      simpa [Threads.set] using hstands
    · have hold := hexplained.stands other
      have hmoved : (threads.phases other).Stands guarded start
          (callHistory labels ++ callHistory [label]) (order ++ added)
          (other, threads.answered other) threads.state := by
        apply hold.append
        · intro op hmem
          exact heq (congrArg Prod.fst (hmore _ op hmem))
        · intro entry hentry hid
          exact heq ((congrArg Prod.fst hid).symm.trans (hadded entry hentry))
      rw [← callHistory_append] at hmoved
      simp only [Threads.set, Function.update_of_ne heq]
      by_cases hinside : threads.inside other = none
      · exact hmoved.of_outside hinside state
      · rw [hkeep other heq hinside]
        exact hmoved

/-- A step that the callers do not see and that has no effect of its own. -/
theorem Explained.silent
    (hexplained : Explained guarded start labels order threads)
    (hsilent : callHistory [label] = []) {phase : Phase Answer Ret}
    {state : State}
    (hsound : guarded.Sound
      (Function.update threads.inside thread phase.holder) state
      ((guarded.object start).stateAfter order))
    (hstands : phase.Stands guarded start (callHistory labels) order
      (thread, threads.answered thread) state)
    (hkeep : ∀ other, other ≠ thread → threads.inside other ≠ none →
      state = threads.state) :
    Explained guarded start (labels ++ [label]) order
      { threads.set thread phase with state := state } := by
  have hhistory : callHistory (labels ++ [label]) = callHistory labels := by
    rw [callHistory_append, hsilent, List.append_nil]
  have hmoved : Explained guarded start (labels ++ [label]) (order ++ [])
      { threads.set thread phase with
        state := state
        answered := Function.update threads.answered thread
          (threads.answered thread) } := by
    apply hexplained.move
    · rw [hhistory, List.append_nil]
      exact hexplained.linearizes
    · rw [List.append_nil]
      exact hsound
    · rw [hhistory, List.append_nil]
      exact hstands
    · exact Nat.le_refl _
    · simp [hsilent]
    · simp
    · exact hkeep
  rw [Function.update_eq_self, List.append_nil] at hmoved
  exact hmoved

/-- A call is made. -/
theorem Explained.call
    (hexplained : Explained guarded start labels order threads)
    (op : Op) (hphase : threads.phases thread = .idle) :
    Explained guarded start
      (labels ++ [.call (thread, threads.answered thread) op]) order
      (threads.set thread (.waiting op)) := by
  have hstands := hexplained.stands thread
  rw [hphase] at hstands
  have hfresh : (thread, threads.answered thread) ∉
      invocations (callHistory labels) := by
    intro hmem
    obtain ⟨its, hits⟩ := mem_invocations.mp hmem
    exact hstands its hits
  have hinside : threads.inside thread = none := by
    simp [Threads.inside, hphase, Phase.holder]
  have hmoved : Explained guarded start
      (labels ++ [.call (thread, threads.answered thread) op]) (order ++ [])
      { threads.set thread (.waiting op) with
        state := threads.state
        answered := Function.update threads.answered thread
          (threads.answered thread) } := by
    apply hexplained.move
    · rw [callHistory_append, List.append_nil]
      exact hexplained.linearizes.invoke hfresh op
    · rw [List.append_nil]
      exact (Threads.update_outside hinside).symm ▸ hexplained.sound
    · rw [callHistory_append, List.append_nil]
      refine ⟨List.mem_append_right _ List.mem_cons_self, ?_⟩
      intro hmem
      obtain ⟨entry, hentry, hid⟩ := List.mem_map.mp hmem
      have hinvoked := hexplained.linearizes.invoked entry hentry
      rw [hid] at hinvoked
      exact hstands entry.2 hinvoked
    · exact Nat.le_refl _
    · simp [callHistory]
    · simp
    · simp
  rw [Function.update_eq_self, List.append_nil] at hmoved
  exact hmoved

/-- The mutex is acquired: the call takes effect. -/
theorem Explained.acquire
    (hexplained : Explained guarded start labels order threads)
    {op : Op} (hphase : threads.phases thread = .waiting op)
    (hfree : guarded.Free threads.inside (guarded.mode op)) :
    Explained guarded start (labels ++ [.acquire thread])
      (order ++ [((thread, threads.answered thread), op)])
      (threads.set thread (.inside op (guarded.code op))) := by
  have hstands := hexplained.stands thread
  rw [hphase] at hstands
  have hwhole := hexplained.sound.eq_of_free hfree
  have hhistory : callHistory (labels ++ [ThreadLabel.acquire thread]) =
      callHistory labels := by
    rw [callHistory_append]
    exact List.append_nil _
  have hmoved : Explained guarded start (labels ++ [.acquire thread])
      (order ++ [((thread, threads.answered thread), op)])
      { threads.set thread (.inside op (guarded.code op)) with
        state := threads.state
        answered := Function.update threads.answered thread
          (threads.answered thread) } := by
    apply hexplained.move
    · rw [hhistory]
      exact hexplained.linearizes.perform hstands.1 hstands.2
    · rw [Object.stateAfter_concat]
      exact hexplained.sound.acquire thread op hfree
    · refine ⟨_, _, guarded.run_code op _, ?_⟩
      rw [← hwhole]
      exact Object.returns_concat ..
    · exact Nat.le_refl _
    · simp [callHistory]
    · simp
    · simp
  rw [Function.update_eq_self] at hmoved
  exact hmoved

/-- A holder makes an access. -/
theorem Explained.access
    (hexplained : Explained guarded start labels order threads)
    {op : Op} {act : Access} {next : Answer act → Code Answer (Ret op)}
    {answer : Answer act} {state : State}
    (hphase : threads.phases thread = .inside op (.access act next))
    (hperform : memory.perform threads.state act = some (answer, state)) :
    Explained guarded start (labels ++ [.access thread act]) order
      { threads.set thread (.inside op (next answer)) with
        state := state } := by
  have hinside := Threads.inside_of_phase hphase
  apply hexplained.silent rfl
  · obtain ⟨its, after, hits, hsound⟩ := hexplained.sound.access hinside
    rw [hperform] at hits
    obtain ⟨rfl, rfl⟩ := Prod.mk.inj (Option.some.inj hits)
    exact hsound
  · have hstands := hexplained.stands thread
    rw [hphase] at hstands
    obtain ⟨ret, after, hrun, hreturns⟩ := hstands
    rw [Code.run_access hperform] at hrun
    exact ⟨ret, after, hrun, hreturns⟩
  · intro other hne hother
    exact hexplained.sound.keeps hinside hne hother hperform

/-- A holder lets go of the mutex. -/
theorem Explained.release
    (hexplained : Explained guarded start labels order threads)
    {op : Op} {ret : Ret op}
    (hphase : threads.phases thread = .inside op (.done ret)) :
    Explained guarded start (labels ++ [.release thread]) order
      (threads.set thread (.left op ret)) := by
  have hinside := Threads.inside_of_phase hphase
  have hstands := hexplained.stands thread
  rw [hphase] at hstands
  obtain ⟨its, after, hrun, hreturns⟩ := hstands
  obtain ⟨rfl, -⟩ := Prod.mk.inj (Option.some.inj hrun)
  have hmoved : Explained guarded start (labels ++ [.release thread]) order
      { threads.set thread (.left op ret) with state := threads.state } := by
    apply hexplained.silent rfl
    · exact hexplained.sound.release hinside
    · exact hreturns
    · intro other _ _
      rfl
  exact hmoved

/-- A call returns. -/
theorem Explained.answer
    (hexplained : Explained guarded start labels order threads)
    {op : Op} {ret : Ret op} (hphase : threads.phases thread = .left op ret) :
    Explained guarded start
      (labels ++ [.answer (thread, threads.answered thread) op ret]) order
      { threads.set thread .idle with
        answered := Function.update threads.answered thread
          (threads.answered thread + 1) } := by
  have hstands := hexplained.stands thread
  rw [hphase] at hstands
  have hinside : threads.inside thread = none := by
    simp [Threads.inside, hphase, Phase.holder]
  have hmoved : Explained guarded start
      (labels ++ [.answer (thread, threads.answered thread) op ret])
      (order ++ [])
      { threads.set thread .idle with
        state := threads.state
        answered := Function.update threads.answered thread
          (threads.answered thread + 1) } := by
    apply hexplained.move
    · rw [callHistory_append, List.append_nil]
      exact hexplained.linearizes.respond hstands
    · rw [List.append_nil]
      exact (Threads.update_outside hinside).symm ▸ hexplained.sound
    · intro its hits
      rw [callHistory_append, List.mem_append] at hits
      rcases hits with hits | hits
      · have hle := hexplained.fresh thread _ its hits
        omega
      · simp [callHistory] at hits
    · exact Nat.le_succ _
    · simp [callHistory]
    · simp
    · simp
  rw [List.append_nil] at hmoved
  exact hmoved

/-- Every run is explained by an order of effects. -/
theorem ThreadRun.explained (hrun : ThreadRun guarded start labels threads) :
    ∃ order, Explained guarded start labels order threads := by
  induction hrun with
  | init => exact ⟨[], .init guarded start⟩
  | step hrun hstep ih =>
      obtain ⟨order, hexplained⟩ := ih
      cases hstep with
      | call op hphase => exact ⟨_, hexplained.call op hphase⟩
      | acquire hphase hfree => exact ⟨_, hexplained.acquire hphase hfree⟩
      | access hphase hperform => exact ⟨_, hexplained.access hphase hperform⟩
      | release hphase => exact ⟨_, hexplained.release hphase⟩
      | answer hphase => exact ⟨_, hexplained.answer hphase⟩

end

end SharedMutex
