/-
Code that runs under a shared mutex, one access to the guarded memory at a
time.  Whoever holds the mutex exclusively is alone, whoever shares it only
reads; so a section can be taken to happen as a whole when the mutex is
acquired, though its accesses come later and those of other readers between
them.
-/
import Mathlib.Data.Option.Basic
import Mathlib.Logic.Function.Basic
import Mathlib.Tactic.Push

universe u v w x y z

namespace SharedMutex

inductive Mode where
  | exclusive
  | shared
deriving Repr, DecidableEq

/-- A memory: what an access answers and what it leaves.  An access without an
answer is undefined, and only the accesses that write leave a change. -/
structure Memory (Access : Type u) (Answer : Access → Type v)
    (State : Type w) where
  writes : Access → Bool
  perform : State → (act : Access) → Option (Answer act × State)
  keeps : ∀ {state after : State} {act : Access} {answer : Answer act},
    writes act = false → perform state act = some (answer, after) →
      after = state

/-- Code that touches the memory only through accesses. -/
inductive Code {Access : Type u} (Answer : Access → Type v)
    (Ret : Type x) where
  | done (ret : Ret)
  | access (act : Access) (next : Answer act → Code Answer Ret)

variable {Access : Type u} {Answer : Access → Type v} {State : Type w}

namespace Code

variable {α β : Type x}

def bind : Code Answer α → (α → Code Answer β) → Code Answer β
  | .done ret, f => f ret
  | .access act next, f => .access act fun answer => (next answer).bind f

instance : Monad (Code Answer) where
  pure := .done
  bind := bind

/-- One access, as code. -/
def perform (act : Access) : Code Answer (Answer act) :=
  .access act .done

variable (memory : Memory Access Answer State)

/-- Run code with nothing in between its accesses. -/
def run : Code Answer α → State → Option (α × State)
  | .done ret, state => some (ret, state)
  | .access act next, state =>
      match memory.perform state act with
      | none => none
      | some (answer, after) => (next answer).run after

/-- How many accesses a run makes. -/
def steps : Code Answer α → State → Nat
  | .done _, _ => 0
  | .access act next, state =>
      match memory.perform state act with
      | none => 0
      | some (answer, after) => (next answer).steps after + 1

/-- The code makes no access that writes. -/
def ReadOnly : Code Answer α → Prop
  | .done _ => True
  | .access act next =>
      memory.writes act = false ∧ ∀ answer, (next answer).ReadOnly

variable {memory}

@[simp] theorem run_pure (ret : α) (state : State) :
    (pure ret : Code Answer α).run memory state = some (ret, state) := rfl

theorem run_access {act : Access} {next : Answer act → Code Answer α}
    {state after : State} {answer : Answer act}
    (hperform : memory.perform state act = some (answer, after)) :
    (Code.access act next).run memory state =
      (next answer).run memory after := by
  simp only [run, hperform]

theorem steps_access {act : Access} {next : Answer act → Code Answer α}
    {state after : State} {answer : Answer act}
    (hperform : memory.perform state act = some (answer, after)) :
    (Code.access act next).steps memory state =
      (next answer).steps memory after + 1 := by
  simp only [steps, hperform]

/-- Code that runs to its end makes a defined access first. -/
theorem perform_of_run {act : Access} {next : Answer act → Code Answer α}
    {state : State} {result : α × State}
    (hrun : (Code.access act next).run memory state = some result) :
    ∃ answer after, memory.perform state act = some (answer, after) ∧
      (next answer).run memory after = some result := by
  cases hperform : memory.perform state act with
  | none => simp [run, hperform] at hrun
  | some performed =>
      exact ⟨performed.1, performed.2, rfl,
        (run_access hperform).symm.trans hrun⟩

theorem run_bind (code : Code Answer α) (f : α → Code Answer β)
    (state : State) :
    (code >>= f).run memory state =
      (code.run memory state).bind fun result =>
        (f result.1).run memory result.2 := by
  induction code generalizing state with
  | done ret => rfl
  | access act next ih =>
      change (Code.access act fun answer => next answer >>= f).run memory
        state = _
      cases hperform : memory.perform state act with
      | none => simp [run, hperform]
      | some performed =>
          rw [run_access hperform, run_access hperform]
          exact ih performed.1 performed.2

/-- Code that ran to its end is followed by what comes next. -/
theorem run_bind_of_run {code : Code Answer α} {f : α → Code Answer β}
    {state after : State} {ret : α}
    (hrun : code.run memory state = some (ret, after)) :
    (code >>= f).run memory state = (f ret).run memory after := by
  rw [run_bind, hrun]
  rfl

theorem ReadOnly.bind {code : Code Answer α} {f : α → Code Answer β}
    (hcode : code.ReadOnly memory) (hf : ∀ ret, (f ret).ReadOnly memory) :
    (code >>= f).ReadOnly memory := by
  induction code with
  | done ret => exact hf ret
  | access act next ih =>
      exact ⟨hcode.1, fun answer => ih answer (hcode.2 answer)⟩

/-- Code that only reads leaves the memory as it found it. -/
theorem ReadOnly.run_snd {code : Code Answer α}
    (hcode : code.ReadOnly memory) {state after : State} {ret : α}
    (hrun : code.run memory state = some (ret, after)) : after = state := by
  induction code generalizing state with
  | done its =>
      obtain ⟨-, rfl⟩ := Prod.mk.inj (Option.some.inj hrun)
      rfl
  | access act next ih =>
      obtain ⟨answer, between, hperform, hrest⟩ := perform_of_run hrun
      rw [ih answer (hcode.2 answer) hrest, memory.keeps hcode.1 hperform]

end Code

variable (memory : Memory Access Answer State)

/-- The operations of a guarded object: how each holds the mutex, its code, and
the operation it is as a whole.  Shared code only reads, and no code makes an
undefined access when it runs alone. -/
structure Guarded (Op : Type y) (Ret : Op → Type x) where
  mode : Op → Mode
  code : (op : Op) → Code Answer (Ret op)
  apply : State → (op : Op) → Ret op × State
  readOnly : ∀ {op}, mode op = .shared → (code op).ReadOnly memory
  run_code : ∀ op state, (code op).run memory state = some (apply state op)

variable {memory} {Op : Type y} {Ret : Op → Type x} {Thread : Type z}

/-- A holder of the mutex: its operation and the code it has left. -/
abbrev Holder (Answer : Access → Type v) (Ret : Op → Type x) :=
  (op : Op) × Code Answer (Ret op)

/-- Nobody holds the mutex in a way that excludes this mode. -/
def Guarded.Free (guarded : Guarded memory Op Ret)
    (inside : Thread → Option (Holder Answer Ret)) : Mode → Prop
  | .exclusive => ∀ thread, inside thread = none
  | .shared => ∀ thread holder, inside thread = some holder →
      guarded.mode holder.1 = .shared

theorem Guarded.free_of_nobody (guarded : Guarded memory Op Ret)
    {inside : Thread → Option (Holder Answer Ret)}
    (hnobody : ∀ thread, inside thread = none) (mode : Mode) :
    guarded.Free inside mode := by
  cases mode with
  | exclusive => exact hnobody
  | shared =>
      intro thread holder hinside
      rw [hnobody thread] at hinside
      simp at hinside

/-- The memory as the holders left it, and the one that has their sections
behind it: every holder ends in the second, and the two are the same when
nobody writes. -/
structure Guarded.Sound (guarded : Guarded memory Op Ret)
    (inside : Thread → Option (Holder Answer Ret)) (state whole : State) :
    Prop where
  alone : ∀ {thread other holder}, inside thread = some holder →
    guarded.mode holder.1 = .exclusive → inside other ≠ none → other = thread
  readOnly : ∀ {thread holder}, inside thread = some holder →
    guarded.mode holder.1 = .shared → holder.2.ReadOnly memory
  ends : ∀ {thread holder}, inside thread = some holder →
    ∃ ret, holder.2.run memory state = some (ret, whole)
  quiet : (∀ thread, inside thread = none) → whole = state

namespace Guarded.Sound

variable {guarded : Guarded memory Op Ret}
  {inside : Thread → Option (Holder Answer Ret)} {state whole : State}

theorem nobody (guarded : Guarded memory Op Ret) (state : State) :
    guarded.Sound (fun _ : Thread => none) state state where
  alone hinside := by simp at hinside
  readOnly hinside := by simp at hinside
  ends hinside := by simp at hinside
  quiet _ := rfl

/-- A holder that shares the mutex sees all sections behind it. -/
theorem eq_of_shared (hsound : guarded.Sound inside state whole)
    {thread : Thread} {holder : Holder Answer Ret}
    (hinside : inside thread = some holder)
    (hshared : guarded.mode holder.1 = .shared) : whole = state := by
  obtain ⟨ret, hrun⟩ := hsound.ends hinside
  exact (hsound.readOnly hinside hshared).run_snd hrun

/-- Where the mutex can be acquired, all sections lie behind. -/
theorem eq_of_free (hsound : guarded.Sound inside state whole) {mode : Mode}
    (hfree : guarded.Free inside mode) : whole = state := by
  by_cases hnobody : ∀ thread, inside thread = none
  · exact hsound.quiet hnobody
  · push Not at hnobody
    obtain ⟨thread, hthread⟩ := hnobody
    obtain ⟨holder, hinside⟩ := Option.ne_none_iff_exists'.mp hthread
    cases mode with
    | exclusive => exact absurd (hfree thread) hthread
    | shared => exact hsound.eq_of_shared hinside (hfree thread holder hinside)

/-- While others hold the mutex too, an access leaves the memory alone. -/
theorem keeps (hsound : guarded.Sound inside state whole)
    {thread other : Thread} {op : Op} {act : Access}
    {next : Answer act → Code Answer (Ret op)}
    (hinside : inside thread = some ⟨op, .access act next⟩)
    (hne : other ≠ thread) (hother : inside other ≠ none) {after : State}
    {answer : Answer act}
    (hperform : memory.perform state act = some (answer, after)) :
    after = state := by
  cases hmode : guarded.mode op with
  | exclusive => exact absurd (hsound.alone hinside hmode hother) hne
  | shared => exact memory.keeps (hsound.readOnly hinside hmode).1 hperform

/-- Two holders at an access both read. -/
theorem reads (hsound : guarded.Sound inside state whole)
    {thread other : Thread} {op : Op} {act : Access}
    {next : Answer act → Code Answer (Ret op)}
    (hinside : inside thread = some ⟨op, .access act next⟩)
    (hne : other ≠ thread) (hother : inside other ≠ none) :
    memory.writes act = false := by
  cases hmode : guarded.mode op with
  | exclusive => exact absurd (hsound.alone hinside hmode hother) hne
  | shared => exact (hsound.readOnly hinside hmode).1

variable [DecidableEq Thread]

/-- A holder after one thread moved is that thread or was a holder before. -/
theorem holder_update {thread other : Thread}
    {entry : Option (Holder Answer Ret)} {holder : Holder Answer Ret}
    (hholder : Function.update inside thread entry other = some holder) :
    (other = thread ∧ entry = some holder) ∨
      (other ≠ thread ∧ inside other = some holder) := by
  by_cases heq : other = thread
  · subst heq
    rw [Function.update_self] at hholder
    exact Or.inl ⟨rfl, hholder⟩
  · rw [Function.update_of_ne heq] at hholder
    exact Or.inr ⟨heq, hholder⟩

/-- The mutex is acquired: the section lies behind at once. -/
theorem acquire (hsound : guarded.Sound inside state whole) (thread : Thread)
    (op : Op) (hfree : guarded.Free inside (guarded.mode op)) :
    guarded.Sound (Function.update inside thread (some ⟨op, guarded.code op⟩))
      state (guarded.apply whole op).2 := by
  obtain rfl := hsound.eq_of_free hfree
  have hrun := guarded.run_code op whole
  -- another holder shares the mutex, and so does the new one
  have hboth : ∀ {other holder}, inside other = some holder →
      guarded.mode holder.1 = .shared ∧ guarded.mode op = .shared := by
    intro other holder hinside
    cases hmode : guarded.mode op with
    | exclusive =>
        rw [hmode] at hfree
        rw [hfree other] at hinside
        simp at hinside
    | shared =>
        rw [hmode] at hfree
        exact ⟨hfree other holder hinside, rfl⟩
  constructor
  · intro first second holder hfirst hmode hsecond
    rcases holder_update hfirst with ⟨rfl, heq⟩ | ⟨-, hfirst⟩
    · obtain rfl := Option.some.inj heq
      obtain ⟨its, hits⟩ := Option.ne_none_iff_exists'.mp hsecond
      rcases holder_update hits with ⟨rfl, -⟩ | ⟨-, hits⟩
      · rfl
      · rw [(hboth hits).2] at hmode
        simp at hmode
    · rw [(hboth hfirst).1] at hmode
      simp at hmode
  · intro other holder hholder hmode
    rcases holder_update hholder with ⟨rfl, heq⟩ | ⟨-, hinside⟩
    · obtain rfl := Option.some.inj heq
      exact guarded.readOnly hmode
    · exact hsound.readOnly hinside hmode
  · intro other holder hholder
    rcases holder_update hholder with ⟨rfl, heq⟩ | ⟨-, hinside⟩
    · obtain rfl := Option.some.inj heq
      exact ⟨(guarded.apply whole op).1, hrun⟩
    · have hkept := (guarded.readOnly (hboth hinside).2).run_snd hrun
      rw [hkept]
      exact hsound.ends hinside
  · intro hnobody
    have hnone := hnobody thread
    simp at hnone

/-- The next access of a holder is defined, and every holder ends as before. -/
theorem access (hsound : guarded.Sound inside state whole) {thread : Thread}
    {op : Op} {act : Access} {next : Answer act → Code Answer (Ret op)}
    (hinside : inside thread = some ⟨op, .access act next⟩) :
    ∃ answer after, memory.perform state act = some (answer, after) ∧
      guarded.Sound (Function.update inside thread (some ⟨op, next answer⟩))
        after whole := by
  obtain ⟨ret, hrun⟩ := hsound.ends hinside
  obtain ⟨answer, after, hperform, hrest⟩ := Code.perform_of_run hrun
  refine ⟨answer, after, hperform, ?_⟩
  have hheld : ∀ {other}, Function.update inside thread
      (some ⟨op, next answer⟩) other ≠ none → inside other ≠ none := by
    intro other hupdate
    obtain ⟨its, hits⟩ := Option.ne_none_iff_exists'.mp hupdate
    rcases holder_update hits with ⟨rfl, -⟩ | ⟨-, hits⟩
    · simp [hinside]
    · simp [hits]
  constructor
  · intro first second holder hfirst hmode hsecond
    rcases holder_update hfirst with ⟨rfl, heq⟩ | ⟨-, hfirst⟩
    · obtain rfl := Option.some.inj heq
      exact hsound.alone hinside hmode (hheld hsecond)
    · exact hsound.alone hfirst hmode (hheld hsecond)
  · intro other holder hholder hmode
    rcases holder_update hholder with ⟨rfl, heq⟩ | ⟨-, hother⟩
    · obtain rfl := Option.some.inj heq
      exact (hsound.readOnly hinside hmode).2 answer
    · exact hsound.readOnly hother hmode
  · intro other holder hholder
    rcases holder_update hholder with ⟨rfl, heq⟩ | ⟨hne, hother⟩
    · obtain rfl := Option.some.inj heq
      exact ⟨ret, hrest⟩
    · have hkept := hsound.keeps hinside hne (by simp [hother]) hperform
      rw [hkept]
      exact hsound.ends hother
  · intro hnobody
    have hnone := hnobody thread
    simp at hnone

/-- A holder that is done releases the mutex. -/
theorem release (hsound : guarded.Sound inside state whole) {thread : Thread}
    {op : Op} {ret : Ret op} (hinside : inside thread = some ⟨op, .done ret⟩) :
    guarded.Sound (Function.update inside thread none) state whole := by
  have hheld : ∀ {other holder}, Function.update inside thread none other =
      some holder → inside other = some holder := by
    intro other holder hholder
    rcases holder_update hholder with ⟨-, heq⟩ | ⟨-, hother⟩
    · simp at heq
    · exact hother
  constructor
  · intro first second holder hfirst hmode hsecond
    obtain ⟨its, hits⟩ := Option.ne_none_iff_exists'.mp hsecond
    exact hsound.alone (hheld hfirst) hmode (by simp [hheld hits])
  · intro other holder hholder
    exact hsound.readOnly (hheld hholder)
  · intro other holder hholder
    exact hsound.ends (hheld hholder)
  · intro _
    obtain ⟨its, hrun⟩ := hsound.ends hinside
    exact (Prod.mk.inj (Option.some.inj hrun)).2.symm

end Guarded.Sound

end SharedMutex
