/-
`ParseParams`: the query string of a request target, read by positions as the
source reads it.  The loop ends on every query and no `substr` leaves its
string, so the parser never throws.
-/
import JustQueueIt.RestCore
import Mathlib.Data.Finmap
import Mathlib.Data.List.TakeWhile

namespace JustQueueIt

namespace Rest

/-- `find(c, pos)`; `none` stands for `npos`. -/
def find (text : Str) (c : Char) (pos : Nat) : Option Nat :=
  ((text.drop pos).findIdx? (· = c)).map (pos + ·)

/-- `substr(pos, count)`. -/
def substr (text : Str) (pos : Nat) (count : Option Nat) :
    Except StdException Str :=
  if pos ≤ text.length then
    match count with
    | none => .ok (text.drop pos)
    | some n => .ok ((text.drop pos).take n)
  else .error ⟨.outOfRange, "basic_string_view::substr".toList⟩

/-- `Router::Params`, an `unordered_map<string, string>`.  Maps with the same
bindings are equal. -/
abbrev Params := Finmap fun _ : Str => Str

example : ((∅ : Params).insert ['x'] ['1']).insert ['y'] ['1'] =
    ((∅ : Params).insert ['y'] ['1']).insert ['x'] ['1'] := by decide

/-- `params.at(name)`. -/
def Params.at (params : Params) (name : Str) : Except StdException Str :=
  match params.lookup name with
  | some value => .ok value
  | none => .error ⟨.outOfRange, "unordered_map::at".toList⟩

/-- `eq != npos ? param.substr(eq + 1) : ""`. -/
def paramValue (param : Str) : Option Nat → Except StdException Str
  | some eq => substr param (eq + 1) none
  | none => .ok []

/-- One round of the loop in `ParseParams`: the map with one more assignment
and the next `start`, if the loop goes on. -/
def parseStep (query : Str) (start : Nat) (params : Params) :
    Except StdException (Params × Option Nat) := do
  let last := find query '&' start
  let param ← substr query start (last.map (· - start))
  let eq := find param '=' 0
  let key ← substr param 0 eq
  let value ← paramValue param eq
  .ok (params.insert key value, last.map (· + 1))

theorem find_bounds {text : Str} {c : Char} {pos i : Nat}
    (hfind : find text c pos = some i) : pos ≤ i ∧ i < text.length := by
  simp only [find, Option.map_eq_some_iff] at hfind
  obtain ⟨k, hk, rfl⟩ := hfind
  have hlt := (List.findIdx?_eq_some_iff_getElem.mp hk).1
  rw [List.length_drop] at hlt
  omega

theorem substr_of_le {text : Str} {pos : Nat} (hpos : pos ≤ text.length)
    (count : Option Nat) :
    substr text pos count =
      .ok (match count with
        | none => text.drop pos
        | some n => (text.drop pos).take n) := by
  cases count <;> simp [substr, hpos]

theorem paramValue_ok (param : Str) :
    ∃ value, paramValue param (find param '=' 0) = .ok value := by
  cases hfind : find param '=' 0 with
  | none => exact ⟨[], rfl⟩
  | some eq =>
      exact ⟨_, substr_of_le (Nat.succ_le_of_lt (find_bounds hfind).2) none⟩

/-- No `substr` of a round throws while `start` is within the query. -/
theorem parseStep_ok {query : Str} {start : Nat}
    (hstart : start ≤ query.length) (params : Params) :
    ∃ after, parseStep query start params =
      .ok (after, (find query '&' start).map (· + 1)) := by
  simp only [parseStep, substr_of_le hstart, substr_of_le (Nat.zero_le _),
    bind, Except.bind]
  generalize (match (find query '&' start).map (· - start) with
    | none => query.drop start
    | some n => (query.drop start).take n) = param
  obtain ⟨value, hvalue⟩ := paramValue_ok param
  rw [hvalue]
  exact ⟨_, rfl⟩

/-- The loop goes on only with a larger `start`, which is still within the
query. -/
theorem parseStep_next {query : Str} {start next : Nat} {params after : Params}
    (hstep : parseStep query start params = .ok (after, some next)) :
    start < next ∧ next ≤ query.length := by
  by_cases hstart : start ≤ query.length
  · obtain ⟨result, hok⟩ := parseStep_ok hstart params
    rw [hok] at hstep
    simp only [Except.ok.injEq, Prod.mk.injEq, Option.map_eq_some_iff] at hstep
    obtain ⟨_, i, hfind, rfl⟩ := hstep
    have hbounds := find_bounds hfind
    omega
  · simp [parseStep, substr, hstart, bind, Except.bind] at hstep

/-- The `while (true)` loop of `ParseParams`. -/
def parseLoop (query : Str) (start : Nat) (params : Params) :
    Except StdException Params :=
  match hstep : parseStep query start params with
  | .error e => .error e
  | .ok (after, none) => .ok after
  | .ok (after, some next) =>
      have := parseStep_next hstep
      parseLoop query next after
termination_by query.length - start

/-- `ParseParams`: the url it leaves behind, and the query parameters. -/
def parseParams (url : Str) : Except StdException (Str × Params) :=
  match find url '?' 0 with
  | none => .ok (url, ∅)
  | some queryStart => do
      let query ← substr url (queryStart + 1) none
      let params ← parseLoop query 0 ∅
      .ok (url.take queryStart, params)

/-- The part of a request target before its first `?`. -/
def pathOf (url : Str) : Str :=
  url.takeWhile (· ≠ '?')

/-- The path ends at the `?` whatever the query holds. -/
theorem pathOf_append_query {url : Str} (hurl : '?' ∉ url) (query : Str) :
    pathOf (url ++ '?' :: query) = url := by
  rw [pathOf, List.takeWhile_append_of_pos]
  · simp
  · intro c hc
    exact decide_eq_true (ne_of_mem_of_not_mem hc hurl)

theorem pathOf_of_notMem {url : Str} (hurl : '?' ∉ url) : pathOf url = url :=
  List.takeWhile_eq_self_iff.mpr fun _ hc =>
    decide_eq_true (ne_of_mem_of_not_mem hc hurl)

theorem question_notMem_pathOf (url : Str) : '?' ∉ pathOf url := by
  intro hmem
  have hne := List.mem_takeWhile_imp hmem
  simp at hne

theorem parseLoop_of_last {query : Str} {start : Nat} {params after : Params}
    (hstep : parseStep query start params = .ok (after, none)) :
    parseLoop query start params = .ok after := by
  rw [parseLoop]
  split
  all_goals rename_i hcase; rw [hstep] at hcase; cases hcase
  rfl

theorem parseLoop_of_next {query : Str} {start next : Nat}
    {params after : Params}
    (hstep : parseStep query start params = .ok (after, some next)) :
    parseLoop query start params = parseLoop query next after := by
  rw [parseLoop]
  split
  all_goals rename_i hcase; rw [hstep] at hcase; cases hcase
  rfl

theorem parseLoop_ok (query : Str) {start : Nat} (params : Params)
    (hstart : start ≤ query.length) :
    ∃ result, parseLoop query start params = .ok result := by
  induction start, params using parseLoop.induct query with
  | case1 start params e hstep =>
      obtain ⟨next, hok⟩ := parseStep_ok hstart params
      rw [hok] at hstep
      cases hstep
  | case2 start params after hstep =>
      exact ⟨after, parseLoop_of_last hstep⟩
  | case3 start params after next hstep hnext ih =>
      rw [parseLoop_of_next hstep]
      exact ih hnext.2

theorem take_find_eq_pathOf {url : Str} {i : Nat}
    (hfind : find url '?' 0 = some i) : url.take i = pathOf url := by
  simp only [find, List.drop_zero, Option.map_eq_some_iff] at hfind
  obtain ⟨k, hk, rfl⟩ := hfind
  rw [List.findIdx?_eq_some_iff_findIdx_eq] at hk
  rw [Nat.zero_add, pathOf, List.takeWhile_eq_take_findIdx_not, ← hk.2]
  simp

theorem pathOf_eq_self {url : Str} (hfind : find url '?' 0 = none) :
    pathOf url = url := by
  simp only [find, List.drop_zero, Option.map_eq_none_iff,
    List.findIdx?_eq_none_iff] at hfind
  exact List.takeWhile_eq_self_iff.mpr (by simpa using hfind)

/-- `ParseParams` never throws and cuts the url at its first `?`. -/
theorem parseParams_ok (url : Str) :
    ∃ params, parseParams url = .ok (pathOf url, params) := by
  cases hfind : find url '?' 0 with
  | none =>
      refine ⟨∅, ?_⟩
      simp only [parseParams, hfind, pathOf_eq_self hfind]
  | some i =>
      have hquery : i + 1 ≤ url.length := (find_bounds hfind).2
      obtain ⟨params, hloop⟩ :=
        parseLoop_ok (url.drop (i + 1)) ∅ (Nat.zero_le _)
      refine ⟨params, ?_⟩
      simp only [parseParams, hfind, substr_of_le hquery, bind, Except.bind,
        hloop, take_find_eq_pathOf hfind]

/-- The parameters `ParseParams` reads from the query string. -/
def queryParams (url : Str) : Params :=
  match parseParams url with
  | .ok (_, params) => params
  | .error _ => ∅

theorem parseParams_eq (url : Str) :
    parseParams url = .ok (pathOf url, queryParams url) := by
  obtain ⟨params, hparams⟩ := parseParams_ok url
  simp only [queryParams, hparams]

end Rest

end JustQueueIt
