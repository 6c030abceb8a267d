/-
Shutting down a started server.  `Stop` joins the workers only if it is the
call that finds the context running; a run abandons no worker exactly when
every `Stop` does, or comes when nothing is left to join.
-/
import JustQueueIt.ServerLifetime

namespace JustQueueIt

namespace Rest

namespace LifetimeState

/-- The first workers have been joined. -/
def JoinedBelow (state : LifetimeState) (bound : Nat) : Prop :=
  ∀ i worker, i < bound → state.threads[i]? = some worker →
    worker.joinable = false

theorem allJoined_of_joinedBelow {state : LifetimeState} {bound : Nat}
    (hjoined : state.JoinedBelow bound)
    (hbound : state.threads[bound]? = none) : state.AllJoined := by
  intro worker hmem
  obtain ⟨i, hi⟩ := List.mem_iff_getElem?.mp hmem
  apply hjoined i worker _ hi
  have hlt := (List.getElem?_eq_some_iff.mp hi).1
  have hle := List.getElem?_eq_none_iff.mp hbound
  omega

theorem joinedBelow_joinThread {state : LifetimeState} {thread : Nat}
    {worker : Worker} (hjoined : state.JoinedBelow thread)
    (hworker : state.threads[thread]? = some worker) :
    (state.joinThread thread worker).JoinedBelow (thread + 1) := by
  intro i other hi hother
  rw [joinThread] at hother
  by_cases hsame : thread = i
  · subst hsame
    rw [List.getElem?_set_self (List.getElem?_eq_some_iff.mp hworker).1]
      at hother
    rw [← Option.some.inj hother]
  · rw [List.getElem?_set_ne hsame] at hother
    exact hjoined i other (by omega) hother

/-- What the steps keep, as long as every `Stop` meets the condition. -/
structure Inv (state : LifetimeState) : Prop where
  joining : ∀ ofStop thread, .wait ofStop thread ∈ state.calls →
    state.JoinedBelow thread
  stop : 0 < state.returnedStops → state.AllJoined
  held : 0 < state.handlers ∨ (∃ call ∈ state.calls, call.isStop = true) ∨
    0 < state.returnedStops
  destroy : state.destroyed = true → state.AllJoined

theorem Inv.safe {state : LifetimeState} (hinv : state.Inv) : state.Safe :=
  ⟨hinv.stop, hinv.destroy⟩

theorem inv_startServer (threads : Nat) : (startServer threads).Inv where
  joining := by simp [startServer]
  stop := by simp [startServer]
  held := Or.inl Nat.one_pos
  destroy := by simp [startServer]

/-- A guarded step keeps what its result keeps. -/
theorem Inv.of_guard {p : Prop} [Decidable p] {changed next : LifetimeState}
    (hchanged : p → changed.Inv)
    (hstep : (if p then some changed else none) = some next) : next.Inv := by
  obtain ⟨hguard, hnext⟩ := Option.ite_none_right_eq_some.mp hstep
  rw [← Option.some.inj hnext]
  exact hchanged hguard

/-- A step that leaves threads and calls alone keeps the invariant. -/
theorem Inv.of_same {state next : LifetimeState} (hinv : state.Inv)
    (hthreads : next.threads = state.threads)
    (hcalls : next.calls = state.calls)
    (hstops : next.returnedStops = state.returnedStops)
    (hhandlers : state.handlers ≤ next.handlers)
    (hdestroyed : next.destroyed = state.destroyed) : next.Inv where
  joining := by
    simp only [JoinedBelow, hthreads, hcalls]
    exact hinv.joining
  stop := by
    simp only [AllJoined, hthreads, hstops]
    exact hinv.stop
  held := by
    rw [hcalls, hstops]
    exact hinv.held.imp_left fun hpos => Nat.lt_of_lt_of_le hpos hhandlers
  destroy := by
    simp only [AllJoined, hthreads, hdestroyed]
    exact hinv.destroy

/-- A thread that only changes towards being joined keeps the invariant. -/
theorem Inv.set_thread {state : LifetimeState} (hinv : state.Inv)
    {index : Nat} {worker changed : Worker}
    (hworker : state.threads[index]? = some worker)
    (hchanged : worker.joinable = false → changed.joinable = false) :
    Inv { state with threads := state.threads.set index changed } := by
  have hkeep : ∀ (i : Nat) (other : Worker),
      (state.threads.set index changed)[i]? = some other →
      ∃ before, state.threads[i]? = some before ∧
        (before.joinable = false → other.joinable = false) := by
    intro i other hother
    by_cases hi : index = i
    · subst hi
      rw [List.getElem?_set_self (List.getElem?_eq_some_iff.mp hworker).1]
        at hother
      obtain rfl := Option.some.inj hother
      exact ⟨worker, hworker, hchanged⟩
    · rw [List.getElem?_set_ne hi] at hother
      exact ⟨other, hother, id⟩
  have hall : state.AllJoined →
      AllJoined { state with threads := state.threads.set index changed } := by
    intro hjoined other hmem
    obtain ⟨i, hi⟩ := List.mem_iff_getElem?.mp hmem
    obtain ⟨before, hbefore, himp⟩ := hkeep i other hi
    exact himp (hjoined before (List.mem_of_getElem? hbefore))
  constructor
  case joining =>
    intro ofStop thread hcall i other hi hother
    obtain ⟨before, hbefore, himp⟩ := hkeep i other hother
    exact himp (hinv.joining ofStop thread hcall i before hi hbefore)
  case stop => exact fun hpos => hall (hinv.stop hpos)
  case held => exact hinv.held
  case destroy => exact fun hdestroyed => hall (hinv.destroy hdestroyed)

theorem joinedBelow_zero (state : LifetimeState) : state.JoinedBelow 0 := by
  intro i worker hi
  omega

/-- A new call keeps the invariant if it has joined nothing yet. -/
theorem Inv.add_call {state : LifetimeState} (hinv : state.Inv)
    {call : HandlerCall} {handlers : Nat}
    (hcall : ∀ ofStop thread, call = .wait ofStop thread → thread = 0)
    (hheld : 0 < handlers ∨ call.isStop = true) :
    Inv { state with
      handlers := handlers
      calls := state.calls ++ [call] } := by
  constructor
  case joining =>
    intro ofStop thread hmem
    rcases List.mem_append.mp hmem with hmem | hmem
    · exact hinv.joining ofStop thread hmem
    · rw [hcall ofStop thread (List.mem_singleton.mp hmem).symm]
      exact joinedBelow_zero _
  case stop => exact hinv.stop
  case held =>
    rcases hheld with hpos | hstop
    · exact Or.inl hpos
    · exact Or.inr (Or.inl ⟨call, by simp, hstop⟩)
  case destroy => exact hinv.destroy

/-- A call that goes on keeps the invariant if the threads it has passed are
joined. -/
theorem Inv.moveTo {state : LifetimeState} (hinv : state.Inv) {index : Nat}
    {call moved : HandlerCall} (hcall : state.calls[index]? = some call)
    (hkind : moved.isStop = call.isStop)
    (hpassed : ∀ ofStop thread, moved = .wait ofStop thread →
      state.JoinedBelow thread) :
    (state.moveTo index moved).Inv := by
  have hlt := (List.getElem?_eq_some_iff.mp hcall).1
  constructor
  case joining =>
    intro ofStop thread hmem
    rcases List.mem_or_eq_of_mem_set hmem with hmem | hmoved
    · exact hinv.joining ofStop thread hmem
    · exact hpassed ofStop thread hmoved.symm
  case stop => exact hinv.stop
  case held =>
    rcases hinv.held with hpos | ⟨other, hmem, hstop⟩ | hpos
    · exact Or.inl hpos
    · obtain ⟨i, hi⟩ := List.mem_iff_getElem?.mp hmem
      refine Or.inr (Or.inl ?_)
      by_cases hsame : index = i
      · subst hsame
        obtain rfl := Option.some.inj (hcall.symm.trans hi)
        exact ⟨moved, List.mem_set hlt _, hkind.trans hstop⟩
      · refine ⟨other, List.mem_iff_getElem?.mpr ⟨i, ?_⟩, hstop⟩
        rw [LifetimeState.moveTo, List.getElem?_set_ne hsame, hi]
    · exact Or.inr (Or.inr hpos)
  case destroy => exact hinv.destroy

/-- A call that returns keeps the invariant if all workers are joined, or if
it is no `Stop`. -/
theorem Inv.finish {state : LifetimeState} (hinv : state.Inv) {index : Nat}
    {call : HandlerCall} (hcall : state.calls[index]? = some call)
    (hjoined : call.isStop = true → state.AllJoined) :
    (state.finish index call).Inv := by
  constructor
  case joining =>
    intro ofStop thread hmem
    exact hinv.joining ofStop thread (List.mem_of_mem_eraseIdx hmem)
  case stop =>
    intro hpos
    by_cases hstop : call.isStop = true
    · exact hjoined hstop
    · simp only [LifetimeState.finish, hstop] at hpos
      exact hinv.stop hpos
  case held =>
    by_cases hstop : call.isStop = true
    · refine Or.inr (Or.inr ?_)
      simp [LifetimeState.finish, hstop]
    · rcases hinv.held with hpos | ⟨other, hmem, hother⟩ | hpos
      · exact Or.inl hpos
      · refine Or.inr (Or.inl ⟨other, ?_, hother⟩)
        obtain ⟨i, hi⟩ := List.mem_iff_getElem?.mp hmem
        apply List.mem_eraseIdx_iff_getElem?.mpr
        refine ⟨i, ?_, hi⟩
        rintro rfl
        rw [hcall] at hi
        exact hstop (Option.some.inj hi ▸ hother)
      · refine Or.inr (Or.inr ?_)
        simpa [LifetimeState.finish, hstop] using hpos
  case destroy => exact hinv.destroy

/-- `Wait` joins one thread after the other. -/
theorem Inv.advance_wait {state next : LifetimeState} (hinv : state.Inv)
    {index thread : Nat} {ofStop : Bool}
    (hcall : state.calls[index]? = some (.wait ofStop thread))
    (hstep : state.advance index (.wait ofStop thread) = some next) :
    next.Inv := by
  have hjoined := hinv.joining ofStop thread (List.mem_of_getElem? hcall)
  rw [LifetimeState.advance] at hstep
  cases hthread : state.threads[thread]? with
  | none =>
      simp only [hthread] at hstep
      obtain rfl := Option.some.inj hstep
      exact hinv.finish hcall fun _ =>
        allJoined_of_joinedBelow hjoined hthread
  | some worker =>
      simp only [hthread] at hstep
      by_cases hjoinable : worker.joinable = true
      · rw [if_pos hjoinable, Option.ite_none_right_eq_some] at hstep
        obtain ⟨-, hnext⟩ := hstep
        obtain rfl := Option.some.inj hnext
        have hset : Inv (state.joinThread thread worker) :=
          hinv.set_thread hthread fun _ => rfl
        refine hset.moveTo hcall ?_ ?_
        · rfl
        intro _ _ hwait
        rw [← (HandlerCall.wait.inj hwait).2]
        exact joinedBelow_joinThread hjoined hthread
      · rw [if_neg hjoinable] at hstep
        obtain rfl := Option.some.inj hstep
        refine hinv.moveTo hcall ?_ ?_
        · rfl
        intro _ _ hwait
        rw [← (HandlerCall.wait.inj hwait).2]
        intro i other hi hother
        by_cases hsame : i = thread
        · subst hsame
          rw [hthread] at hother
          obtain rfl := Option.some.inj hother
          simpa using hjoinable
        · exact hjoined i other (by omega) hother

/-- A call that does its next step keeps the invariant, if it is no `Stop`
that comes too late. -/
theorem Inv.advance {state next : LifetimeState} (hinv : state.Inv)
    {index : Nat} {call : HandlerCall}
    (hcall : state.calls[index]? = some call)
    (hmeets : call = .checkStopped →
      state.stopped = false ∨ state.AllJoined)
    (hstep : state.advance index call = some next) : next.Inv := by
  cases call with
  | checkStopped =>
      rw [LifetimeState.advance] at hstep
      by_cases hstopped : state.stopped = true
      · rw [if_pos hstopped] at hstep
        obtain rfl := Option.some.inj hstep
        apply hinv.finish hcall
        intro _
        exact (hmeets rfl).resolve_left (by simp [hstopped])
      · rw [if_neg hstopped] at hstep
        obtain rfl := Option.some.inj hstep
        exact hinv.moveTo hcall rfl (by simp)
  | stopContext =>
      obtain rfl := Option.some.inj hstep
      have hstopped : Inv { state with stopped := true } :=
        hinv.of_same rfl rfl rfl (Nat.le_refl _) rfl
      refine hstopped.moveTo hcall ?_ ?_
      · rfl
      intro ofStop thread hwait
      rw [← (HandlerCall.wait.inj hwait).2]
      exact joinedBelow_zero _
  | wait ofStop thread => exact hinv.advance_wait hcall hstep

/-- One step keeps the invariant. -/
theorem Inv.step {state next : LifetimeState} (hinv : state.Inv)
    {action : LifetimeAction} (hmeets : state.Meets action)
    (hstep : state.step action = some next) : next.Inv := by
  cases action with
  | acceptSession =>
      refine Inv.of_guard (fun _ => ?_) hstep
      exact hinv.of_same rfl rfl rfl (Nat.le_refl _) rfl
  | endSession =>
      refine Inv.of_guard (fun _ => ?_) hstep
      exact hinv.of_same rfl rfl rfl (Nat.le_refl _) rfl
  | failListen =>
      refine Inv.of_guard (fun _ => ?_) hstep
      exact hinv.of_same rfl rfl rfl (Nat.le_refl _) rfl
  | runOutOfWork =>
      refine Inv.of_guard (fun _ => ?_) hstep
      exact hinv.of_same rfl rfl rfl (Nat.le_refl _) rfl
  | returnWorker index =>
      rw [LifetimeState.step] at hstep
      cases hworker : state.threads[index]? with
      | none =>
          rw [hworker] at hstep
          cases hstep
      | some worker =>
          rw [hworker] at hstep
          refine Inv.of_guard (fun _ => ?_) hstep
          exact hinv.set_thread hworker id
  | copyHandler =>
      refine Inv.of_guard (fun _ => ?_) hstep
      exact hinv.of_same rfl rfl rfl (Nat.le_succ _) rfl
  | callStop =>
      refine Inv.of_guard (fun hpos => ?_) hstep
      exact hinv.add_call (by simp) (Or.inl hpos)
  | callWait =>
      refine Inv.of_guard (fun hpos => ?_) hstep
      exact hinv.add_call (by simp [eq_comm]) (Or.inl hpos)
  | destroyHandler =>
      refine Inv.of_guard (fun _ => ?_) hstep
      exact hinv.add_call (by simp) (Or.inr rfl)
  | advance index =>
      rw [LifetimeState.step] at hstep
      cases hcall : state.calls[index]? with
      | none =>
          rw [hcall] at hstep
          cases hstep
      | some call =>
          rw [hcall] at hstep
          apply hinv.advance hcall _ hstep
          rintro rfl
          exact hmeets hcall
  | destroyLifetime =>
      refine Inv.of_guard (fun hgone => ?_) hstep
      refine ⟨hinv.joining, hinv.stop, hinv.held, fun _ => ?_⟩
      -- The last handler was destroyed by a `Stop`, which has returned.
      rcases hinv.held with hpos | ⟨call, hmem, -⟩ | hpos
      · rw [hgone.1] at hpos
        exact absurd hpos (Nat.lt_irrefl 0)
      · rw [hgone.2.1] at hmem
        cases hmem
      · exact hinv.stop hpos

/-- A `Stop` that comes too late returns with a worker left behind. -/
theorem not_safe_of_not_meets {state next : LifetimeState}
    {action : LifetimeAction} (hmeets : ¬ state.Meets action)
    (hstep : state.step action = some next) : ¬ next.Safe := by
  cases action with
  | advance index =>
      simp only [Meets, Classical.not_imp, not_or, Bool.not_eq_false]
        at hmeets
      obtain ⟨hcall, hstopped, hleft⟩ := hmeets
      simp only [LifetimeState.step, hcall, LifetimeState.advance, hstopped,
        ↓reduceIte, Option.some.injEq] at hstep
      intro hsafe
      apply hleft
      have hall := hsafe.stop (by simp [← hstep, finish, HandlerCall.isStop])
      rwa [← hstep] at hall
  | _ => exact absurd trivial hmeets

end LifetimeState

/-- The states a run passes, the last one included, abandon no worker exactly
when every step of the run meets the condition. -/
theorem safe_iff_meets {threads : Nat}
    {taken : List (LifetimeState × LifetimeAction)} {last : LifetimeState}
    (hrun : LifetimeRun (startServer threads) taken last) :
    (∀ state ∈ taken.map Prod.fst ++ [last], state.Safe) ↔
      ∀ move ∈ taken, move.1.Meets move.2 := by
  constructor
  · intro hsafe
    induction hrun with
    | nil => simp
    | @step taken state next action hrun hstep ih =>
        intro move hmove
        rcases List.mem_append.mp hmove with hmove | hmove
        · apply ih _ move hmove
          intro reached hreached
          apply hsafe reached
          simp only [List.map_append, List.map_cons, List.map_nil]
          exact List.mem_append_left _ hreached
        · obtain rfl := List.mem_singleton.mp hmove
          by_contra hmeets
          exact LifetimeState.not_safe_of_not_meets hmeets hstep
            (hsafe next (by simp))
  · intro hmeets
    have hall : (∀ state ∈ taken.map Prod.fst, state.Safe) ∧ last.Inv := by
      induction hrun with
      | nil => exact ⟨by simp, LifetimeState.inv_startServer threads⟩
      | @step taken state next action hrun hstep ih =>
          obtain ⟨hbefore, hinv⟩ := ih fun move hmove =>
            hmeets move (List.mem_append_left _ hmove)
          refine ⟨?_, hinv.step (hmeets (state, action) (by simp)) hstep⟩
          intro reached hreached
          rw [List.map_append, List.mem_append] at hreached
          rcases hreached with hreached | hreached
          · exact hbefore reached hreached
          · obtain rfl := List.mem_singleton.mp hreached
            exact hinv.safe
    intro state hstate
    rcases List.mem_append.mp hstate with hstate | hstate
    · exact hall.1 state hstate
    · obtain rfl := List.mem_singleton.mp hstate
      exact hall.2.safe

/-- A server with one worker that is stopped, left and destroyed. -/
def orderlyShutdown : List LifetimeAction :=
  [.callStop, .advance 0, .advance 0, .returnWorker 0, .advance 0, .advance 0,
    .destroyHandler, .advance 0, .destroyLifetime]

/-- A server whose listener fails: the context stops by itself and the worker
returns before `Stop` is called. -/
def lateShutdown : List LifetimeAction :=
  [.failListen, .runOutOfWork, .returnWorker 0, .callStop, .advance 0,
    .destroyHandler, .advance 0, .destroyLifetime]

theorem orderlyShutdown_safe :
    ((startServer 1).perform orderlyShutdown).2.destroyed = true ∧
    ∀ state ∈ ((startServer 1).perform orderlyShutdown).1.map Prod.fst ++
      [((startServer 1).perform orderlyShutdown).2], state.Safe :=
  ⟨by decide,
    (safe_iff_meets (LifetimeRun.perform (startServer 1)
      orderlyShutdown)).mpr (by decide)⟩

/-- The late `Stop` joins nothing: it returns, and the lifetime is destroyed,
with a joinable thread. -/
theorem lateShutdown_not_safe :
    ¬ ∀ threads taken last, LifetimeRun (startServer threads) taken last →
      last.Safe := by
  intro hall
  have hsafe := hall 1 _ _ (LifetimeRun.perform (startServer 1) lateShutdown)
  have hjoined := hsafe.destroy (by decide) ⟨true, true⟩ (by decide)
  cases hjoined

end Rest

end JustQueueIt
