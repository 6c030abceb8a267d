/-
The loop of `ParseParams` round by round, with its calls of `substr` recorded.
It ends after one more round than the query has `&`, `start` ascends within
the query, and no call is out of bounds.
-/
import JustQueueIt.QueryFormat

namespace JustQueueIt

namespace Rest

/-- A call of `substr`: the string and the position. -/
structure SubstrCall where
  text : Str
  pos : Nat

/-- The position is within the string, so the call does not throw. -/
def SubstrCall.InBounds (call : SubstrCall) : Prop :=
  call.pos ≤ call.text.length

/-- A computation that records its calls of `substr`, the one that throws
included. -/
abbrev Traced := ExceptT StdException (StateM (List SubstrCall))

namespace Traced

def substr (text : Str) (pos : Nat) (count : Option Nat) : Traced Str := do
  modify (· ++ [⟨text, pos⟩])
  ExceptT.mk (pure (Rest.substr text pos count))

def paramValue (param : Str) : Option Nat → Traced Str
  | some eq => substr param (eq + 1) none
  | none => pure []

/-- `Rest.parseStep`, recorded. -/
def parseStep (query : Str) (start : Nat) (params : Params) :
    Traced (Params × Option Nat) := do
  let last := find query '&' start
  let param ← substr query start (last.map (· - start))
  let eq := find param '=' 0
  let key ← substr param 0 eq
  let value ← paramValue param eq
  pure (params.insert key value, last.map (· + 1))

/-- How a computation ends, and its calls. -/
def outcome {α : Type} (run : Traced α) :
    Except StdException α × List SubstrCall :=
  StateT.run (ExceptT.run run) []

/-- The computation returns the value, with calls that are all in bounds. -/
def Safe {α : Type} (run : Traced α) (value : α) : Prop :=
  ∀ calls, ∃ later, StateT.run (ExceptT.run run) calls =
    (.ok value, calls ++ later) ∧ ∀ call ∈ later, call.InBounds

theorem Safe.outcome {α : Type} {run : Traced α} {value : α}
    (hsafe : run.Safe value) :
    ∃ calls, run.outcome = (.ok value, calls) ∧
      ∀ call ∈ calls, call.InBounds :=
  hsafe []

theorem Safe.pure {α : Type} (value : α) :
    Safe (pure value : Traced α) value := by
  intro calls
  exact ⟨[], by rw [List.append_nil]; rfl, by simp⟩

theorem Safe.bind {α β : Type} {run : Traced α} {next : α → Traced β}
    {a : α} {b : β} (hrun : run.Safe a) (hnext : (next a).Safe b) :
    Safe (run >>= next) b := by
  intro calls
  obtain ⟨first, hfirst, hfirstBounds⟩ := hrun calls
  obtain ⟨second, hsecond, hsecondBounds⟩ := hnext (calls ++ first)
  refine ⟨first ++ second, ?_, ?_⟩
  · rw [ExceptT.run_bind, StateT.run_bind, hfirst, ← List.append_assoc]
    exact hsecond
  · intro call hcall
    rcases List.mem_append.mp hcall with hcall | hcall
    · exact hfirstBounds call hcall
    · exact hsecondBounds call hcall

theorem safe_substr {text value : Str} {pos : Nat} {count : Option Nat}
    (hpos : pos ≤ text.length)
    (hsubstr : Rest.substr text pos count = .ok value) :
    Safe (substr text pos count) value := by
  intro calls
  refine ⟨[⟨text, pos⟩], ?_, by simpa [SubstrCall.InBounds] using hpos⟩
  rw [← hsubstr]
  rfl

theorem safe_paramValue (param : Str) :
    Safe (paramValue param (find param '=' 0)) (valueOf param) := by
  have hvalue := (substr_find_eq param).2
  cases hfind : find param '=' 0 with
  | none =>
      rw [hfind] at hvalue
      rw [← Except.ok.inj hvalue]
      exact Safe.pure []
  | some eq =>
      rw [hfind] at hvalue
      exact safe_substr (find_bounds hfind).2 hvalue

/-- A round within the query ends as `Rest.parseStep` says, without a call out
of bounds. -/
theorem parseStep_outcome {query : Str} {start : Nat}
    (hstart : start ≤ query.length) (params : Params) :
    ∃ calls, (parseStep query start params).outcome =
        (Rest.parseStep query start params, calls) ∧
      ∀ call ∈ calls, call.InBounds := by
  obtain ⟨param, hparam⟩ : ∃ param, Rest.substr query start
      ((find query '&' start).map (· - start)) = .ok param :=
    ⟨_, substr_of_le hstart _⟩
  have hstep : Rest.parseStep query start params =
      .ok (params.insert (keyOf param) (valueOf param),
        (find query '&' start).map (· + 1)) := by
    simp only [Rest.parseStep, hparam, bind, Except.bind, substr_find_eq]
  rw [hstep]
  apply Safe.outcome
  apply Safe.bind (safe_substr hstart hparam)
  apply Safe.bind (safe_substr (Nat.zero_le _) (substr_find_eq param).1)
  apply Safe.bind (safe_paramValue param)
  exact Safe.pure _

end Traced

/-- A run of the `while (true)` loop from one round on: the values of `start`
at its rounds, its calls of `substr`, and how it ends. -/
inductive LoopRun (query : Str) : Nat → Params → List Nat →
    List SubstrCall → Except StdException Params → Prop where
  | throws {start : Nat} {params : Params} {calls : List SubstrCall}
      {e : StdException}
      (hround : (Traced.parseStep query start params).outcome =
        (.error e, calls)) :
      LoopRun query start params [start] calls (.error e)
  | last {start : Nat} {params after : Params} {calls : List SubstrCall}
      (hround : (Traced.parseStep query start params).outcome =
        (.ok (after, none), calls)) :
      LoopRun query start params [start] calls (.ok after)
  | next {start next : Nat} {params after : Params} {starts : List Nat}
      {calls later : List SubstrCall} {result : Except StdException Params}
      (hround : (Traced.parseStep query start params).outcome =
        (.ok (after, some next), calls))
      (hrest : LoopRun query next after starts later result) :
      LoopRun query start params (start :: starts) (calls ++ later) result

/-- A run of `ParseParams` on a url that has a query. -/
inductive ParseRun (url : Str) : List Nat → List SubstrCall →
    Except StdException (Str × Params) → Prop where
  | throws {queryStart : Nat} {calls : List SubstrCall} {e : StdException}
      (hfind : find url '?' 0 = some queryStart)
      (hquery : (Traced.substr url (queryStart + 1) none).outcome =
        (.error e, calls)) :
      ParseRun url [] calls (.error e)
  | loop {queryStart : Nat} {query : Str} {starts : List Nat}
      {calls later : List SubstrCall} {result : Except StdException Params}
      (hfind : find url '?' 0 = some queryStart)
      (hquery : (Traced.substr url (queryStart + 1) none).outcome =
        (.ok query, calls))
      (hloop : LoopRun query 0 ∅ starts later result) :
      ParseRun url starts (calls ++ later)
        (result.map fun params => (url.take queryStart, params))

/-- What a run keeps: as many rounds as `rest` has segments, with `start`
ascending within the query, and every call in bounds. -/
structure SafeRun (query rest : Str) (starts : List Nat)
    (calls : List SubstrCall) : Prop where
  rounds : starts.length = rest.count '&' + 1
  ascending : starts.Pairwise (· < ·)
  within : ∀ start ∈ starts, start ≤ query.length
  inBounds : ∀ call ∈ calls, call.InBounds

theorem notMem_of_parseStep_none {query : Str} {start : Nat}
    {params after : Params}
    (hstep : parseStep query start params = .ok (after, none)) :
    '&' ∉ query.drop start := by
  intro hmem
  obtain ⟨segment, rest, hdrop, hsegment⟩ := List.eq_append_cons_of_mem hmem
  rw [parseStep_more hdrop hsegment] at hstep
  cases hstep

/-- A round that goes on leaves one `&` less. -/
theorem count_of_parseStep_some {query : Str} {start next : Nat}
    {params after : Params} (hstart : start ≤ query.length)
    (hstep : parseStep query start params = .ok (after, some next)) :
    (query.drop start).count '&' = (query.drop next).count '&' + 1 := by
  by_cases hmem : '&' ∈ query.drop start
  · obtain ⟨segment, rest, hdrop, hsegment⟩ := List.eq_append_cons_of_mem hmem
    rw [parseStep_more hdrop hsegment] at hstep
    simp only [Except.ok.injEq, Prod.mk.injEq, Option.some.injEq] at hstep
    rw [← hstep.2, drop_after_segment hdrop, hdrop, List.count_append,
      List.count_eq_zero_of_not_mem hsegment, List.count_cons_self]
    omega
  · rw [parseStep_last hstart hmem] at hstep
    cases hstep

/-- What holds of one round carries over to the whole loop. -/
theorem LoopRun.safe {query : Str} {start : Nat} {params : Params}
    {starts : List Nat} {calls : List SubstrCall}
    {result : Except StdException Params}
    (hrun : LoopRun query start params starts calls result)
    (hstart : start ≤ query.length) :
    SafeRun query (query.drop start) starts calls ∧
      (∀ later ∈ starts, start ≤ later) ∧
      parseLoop query start params = result := by
  induction hrun with
  | @throws start params calls e hround =>
      obtain ⟨calls', hcalls, -⟩ := Traced.parseStep_outcome hstart params
      obtain ⟨after, hok⟩ := parseStep_ok hstart params
      rw [hround, hok] at hcalls
      cases hcalls
  | @last start params after calls hround =>
      obtain ⟨calls', hcalls, hbounds⟩ :=
        Traced.parseStep_outcome hstart params
      rw [hround] at hcalls
      obtain ⟨hstep, rfl⟩ := Prod.mk.inj hcalls
      have hlast := notMem_of_parseStep_none hstep.symm
      refine ⟨?_, by simp, parseLoop_of_last hstep.symm⟩
      constructor
      case rounds => rw [List.count_eq_zero_of_not_mem hlast]; rfl
      case ascending => exact List.pairwise_singleton _ _
      case within => simpa using hstart
      case inBounds => exact hbounds
  | @next start next params after starts calls later result hround hrest ih =>
      obtain ⟨calls', hcalls, hbounds⟩ :=
        Traced.parseStep_outcome hstart params
      rw [hround] at hcalls
      obtain ⟨hstep, rfl⟩ := Prod.mk.inj hcalls
      have hnext := parseStep_next hstep.symm
      obtain ⟨hsafe, hfrom, hresult⟩ := ih hnext.2
      refine ⟨?_, ?_, (parseLoop_of_next hstep.symm).trans hresult⟩
      · constructor
        case rounds =>
          rw [count_of_parseStep_some hstart hstep.symm, ← hsafe.rounds]
          rfl
        case ascending =>
          apply List.pairwise_cons.mpr
          refine ⟨fun other hother => ?_, hsafe.ascending⟩
          exact Nat.lt_of_lt_of_le hnext.1 (hfrom other hother)
        case within => exact List.forall_mem_cons.mpr ⟨hstart, hsafe.within⟩
        case inBounds =>
          intro call hcall
          rcases List.mem_append.mp hcall with hcall | hcall
          · exact hbounds call hcall
          · exact hsafe.inBounds call hcall
      · intro other hother
        rcases List.mem_cons.mp hother with rfl | hother
        · exact Nat.le_refl _
        · have hle := hfrom other hother
          omega

/-- The loop ends. -/
theorem LoopRun.exists {query : Str} {start : Nat}
    (hstart : start ≤ query.length) (params : Params) :
    ∃ starts calls result, LoopRun query start params starts calls result := by
  induction hleft : query.length - start using Nat.strong_induction_on
    generalizing start params with
  | _ left ih =>
      obtain ⟨calls, hcalls, -⟩ := Traced.parseStep_outcome hstart params
      obtain ⟨after, hok⟩ := parseStep_ok hstart params
      rw [hok] at hcalls
      cases hfind : find query '&' start with
      | none =>
          rw [hfind] at hcalls
          exact ⟨_, _, _, LoopRun.last hcalls⟩
      | some last =>
          rw [hfind] at hcalls
          have hbounds := find_bounds hfind
          have hnext : last + 1 ≤ query.length := by omega
          obtain ⟨starts, later, result, hrest⟩ :=
            ih _ (by omega) hnext after rfl
          exact ⟨_, _, _, LoopRun.next hcalls hrest⟩

/-- The part of a url after its first `?`. -/
def queryOf (url : Str) : Str :=
  (url.dropWhile (· ≠ '?')).tail

theorem queryOf_append {base : Str} (hbase : '?' ∉ base) (query : Str) :
    queryOf (base ++ '?' :: query) = query := by
  rw [queryOf, List.dropWhile_append_of_pos]
  · simp
  · intro c hc
    exact decide_eq_true (ne_of_mem_of_not_mem hc hbase)

/-- The call that takes the query out of the url is in bounds. -/
theorem substr_query_outcome (base query : Str) :
    ∃ calls, (Traced.substr (base ++ '?' :: query) (base.length + 1)
        none).outcome = (.ok query, calls) ∧
      ∀ call ∈ calls, call.InBounds := by
  apply Traced.Safe.outcome
  have hbound : base.length + 1 ≤ (base ++ '?' :: query).length := by simp
  apply Traced.safe_substr hbound
  rw [substr_of_le hbound, List.drop_length_add_append]
  rfl

theorem ParseRun.safe {url : Str} {starts : List Nat}
    {calls : List SubstrCall} {result : Except StdException (Str × Params)}
    (hrun : ParseRun url starts calls result) (hurl : '?' ∈ url) :
    SafeRun (queryOf url) (queryOf url) starts calls ∧
      parseParams url = result := by
  obtain ⟨base, query, rfl, hbase⟩ := List.eq_append_cons_of_mem hurl
  obtain ⟨first, hfirst, hbounds⟩ := substr_query_outcome base query
  rw [queryOf_append hbase]
  induction hrun with
  | throws hfind hquery =>
      rw [find_query hbase, Option.some.injEq] at hfind
      rw [← hfind, hfirst] at hquery
      cases hquery
  | loop hfind hquery hloop =>
      rw [find_query hbase, Option.some.injEq] at hfind
      rw [← hfind, hfirst] at hquery
      obtain ⟨hok, rfl⟩ := Prod.mk.inj hquery
      obtain rfl := Except.ok.inj hok
      obtain ⟨hsafe, -, hresult⟩ := hloop.safe (Nat.zero_le _)
      rw [parseLoop_eq _ (Nat.zero_le _)] at hresult
      constructor
      · refine ⟨hsafe.rounds, hsafe.ascending, hsafe.within, ?_⟩
        intro call hcall
        rcases List.mem_append.mp hcall with hcall | hcall
        · exact hbounds call hcall
        · exact hsafe.inBounds call hcall
      · rw [parseParams_append hbase, ← hresult, ← hfind, List.take_left']
        · rfl
        · rfl

theorem ParseRun.exists {url : Str} (hurl : '?' ∈ url) :
    ∃ starts calls result, ParseRun url starts calls result := by
  obtain ⟨base, query, rfl, hbase⟩ := List.eq_append_cons_of_mem hurl
  obtain ⟨first, hfirst, -⟩ := substr_query_outcome base query
  obtain ⟨starts, calls, result, hloop⟩ :=
    LoopRun.exists (Nat.zero_le query.length) ∅
  exact ⟨_, _, _, ParseRun.loop (find_query hbase query) hfirst hloop⟩

/-- The loop of `ParseParams` ends on every url with a query, after one more
round than there are `&`, without leaving a string; so nothing is thrown. -/
theorem parseParams_loop_safe :
    (∀ url : Str, '?' ∈ url →
      (∃ starts calls result, ParseRun url starts calls result) ∧
      ∀ starts calls result, ParseRun url starts calls result →
        SafeRun (queryOf url) (queryOf url) starts calls ∧
          parseParams url = result) ∧
    ∀ url, ∃ params, parseParams url = .ok (pathOf url, params) := by
  refine ⟨?_, parseParams_ok⟩
  intro url hurl
  exact ⟨ParseRun.exists hurl, fun _ _ _ hrun => hrun.safe hurl⟩

/-- `/a?x=&`: the query ends in `=` and `&`. -/
theorem parseParams_loop_safe_sample :
    ((∃ starts calls result, ParseRun "/a?x=&".toList starts calls result) ∧
      ∀ starts calls result, ParseRun "/a?x=&".toList starts calls result →
        SafeRun (queryOf "/a?x=&".toList) (queryOf "/a?x=&".toList)
            starts calls ∧
          parseParams "/a?x=&".toList = result) ∧
    ∃ params, parseParams "/a?x=&".toList =
      .ok (pathOf "/a?x=&".toList, params) :=
  ⟨parseParams_loop_safe.1 _ (by decide), parseParams_loop_safe.2 _⟩

end Rest

end JustQueueIt
