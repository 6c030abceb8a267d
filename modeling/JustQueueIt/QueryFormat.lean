/-
The format `ParseParams` decodes: segments joined by `&`, each a key and a
value around its first `=`.  The loop by positions is tied to the split of the
query, and a rendered list of pairs is read back.
-/
import JustQueueIt.LastWrite
import JustQueueIt.RestQuery

namespace JustQueueIt

namespace Rest

/-- The text of a segment before its first `=`. -/
def keyOf (segment : Str) : Str :=
  segment.takeWhile (· ≠ '=')

/-- The text of a segment after its first `=`. -/
def valueOf (segment : Str) : Str :=
  (segment.dropWhile (· ≠ '=')).tail

/-- The query of a segment list. -/
def joinSegments (segments : List Str) : Str :=
  ['&'].intercalate segments

/-- `k=v`. -/
def renderPair (pair : Str × Str) : Str :=
  pair.1 ++ '=' :: pair.2

theorem find_eq_none {text : Str} {c : Char} {pos : Nat}
    (hnot : c ∉ text.drop pos) : find text c pos = none := by
  rw [find, Option.map_eq_none_iff, List.findIdx?_eq_none_iff]
  intro other hother
  exact decide_eq_false (ne_of_mem_of_not_mem hother hnot)

theorem find_eq_some {text block rest : Str} {c : Char} {pos : Nat}
    (hdrop : text.drop pos = block ++ c :: rest) (hblock : c ∉ block) :
    find text c pos = some (pos + block.length) := by
  have hbefore : block.findIdx? (· = c) = none := by
    apply List.findIdx?_eq_none_iff.mpr
    intro other hother
    exact decide_eq_false (ne_of_mem_of_not_mem hother hblock)
  rw [find, hdrop, List.findIdx?_append, hbefore, List.findIdx?_cons]
  simp

theorem keyOf_of_notMem {segment : Str} (hnot : '=' ∉ segment) :
    keyOf segment = segment :=
  List.takeWhile_eq_self_iff.mpr fun _ hc =>
    decide_eq_true (ne_of_mem_of_not_mem hc hnot)

theorem valueOf_of_notMem {segment : Str} (hnot : '=' ∉ segment) :
    valueOf segment = [] := by
  have hdrop : segment.dropWhile (· ≠ '=') = [] := by
    apply List.dropWhile_eq_nil_iff.mpr
    intro c hc
    exact decide_eq_true (ne_of_mem_of_not_mem hc hnot)
  rw [valueOf, hdrop, List.tail_nil]

theorem keyOf_append {key : Str} (hkey : '=' ∉ key) (value : Str) :
    keyOf (key ++ '=' :: value) = key := by
  rw [keyOf, List.takeWhile_append_of_pos]
  · simp
  · intro c hc
    exact decide_eq_true (ne_of_mem_of_not_mem hc hkey)

theorem valueOf_append {key : Str} (hkey : '=' ∉ key) (value : Str) :
    valueOf (key ++ '=' :: value) = value := by
  rw [valueOf, List.dropWhile_append_of_pos]
  · simp
  · intro c hc
    exact decide_eq_true (ne_of_mem_of_not_mem hc hkey)

/-- The two `substr` calls on a parameter cut it at its first `=`. -/
theorem substr_find_eq (param : Str) :
    substr param 0 (find param '=' 0) = .ok (keyOf param) ∧
      paramValue param (find param '=' 0) = .ok (valueOf param) := by
  by_cases hmem : '=' ∈ param
  · obtain ⟨key, value, rfl, hkey⟩ := List.eq_append_cons_of_mem hmem
    have hfind : find (key ++ '=' :: value) '=' 0 = some key.length := by
      rw [find_eq_some (List.drop_zero) hkey, Nat.zero_add]
    rw [hfind, keyOf_append hkey, valueOf_append hkey, paramValue]
    constructor
    · rw [substr_of_le (Nat.zero_le _)]
      simp
    · rw [substr_of_le (by simp)]
      simp
  · have hfind : find param '=' 0 = none := find_eq_none hmem
    rw [hfind, keyOf_of_notMem hmem, valueOf_of_notMem hmem]
    exact ⟨substr_of_le (Nat.zero_le _) none, rfl⟩

/-- The round that reads the last segment. -/
theorem parseStep_last {query : Str} {start : Nat}
    (hstart : start ≤ query.length) (hlast : '&' ∉ query.drop start)
    (params : Params) :
    parseStep query start params =
      .ok (params.insert (keyOf (query.drop start))
        (valueOf (query.drop start)), none) := by
  simp only [parseStep, find_eq_none hlast, Option.map_none,
    substr_of_le hstart, bind, Except.bind, substr_find_eq]

/-- A round that reads a segment up to the next `&`. -/
theorem parseStep_more {query segment rest : Str} {start : Nat}
    (hdrop : query.drop start = segment ++ '&' :: rest)
    (hsegment : '&' ∉ segment) (params : Params) :
    parseStep query start params =
      .ok (params.insert (keyOf segment) (valueOf segment),
        some (start + segment.length + 1)) := by
  have hstart : start ≤ query.length := by
    have hlength := congrArg List.length hdrop
    simp at hlength
    omega
  simp only [parseStep, find_eq_some hdrop hsegment, Option.map_some,
    substr_of_le hstart, hdrop, Nat.add_sub_cancel_left, List.take_left',
    bind, Except.bind, substr_find_eq]

theorem drop_after_segment {query segment rest : Str} {start : Nat}
    (hdrop : query.drop start = segment ++ '&' :: rest) :
    query.drop (start + segment.length + 1) = rest := by
  rw [Nat.add_assoc, ← List.drop_drop, hdrop, List.drop_length_add_append]
  rfl

/-- The loop assigns every segment of what is left of the query, in order. -/
theorem parseLoop_eq {query : Str} {start : Nat} (params : Params)
    (hstart : start ≤ query.length) :
    parseLoop query start params =
      .ok (LastWrite.assignAll keyOf valueOf
        ((query.drop start).splitOn '&') params) := by
  induction hleft : query.length - start using Nat.strong_induction_on
    generalizing start params with
  | _ left ih =>
      by_cases hmem : '&' ∈ query.drop start
      · obtain ⟨segment, rest, hdrop, hsegment⟩ :=
          List.eq_append_cons_of_mem hmem
        have hstep := parseStep_more hdrop hsegment params
        have hnext := parseStep_next hstep
        rw [parseLoop_of_next hstep, ih _ (by omega) _ hnext.2 rfl, hdrop,
          drop_after_segment hdrop,
          List.splitOn_append_cons_self_of_not_mem hsegment]
        rfl
      · rw [parseLoop_of_last (parseStep_last hstart hmem params),
          List.splitOn_eq_singleton hmem]
        rfl

/-- The segments of the query of a url; there are none without a `?`. -/
def querySegments (url : Str) : List Str :=
  match url.dropWhile (· ≠ '?') with
  | [] => []
  | _ :: query => query.splitOn '&'

theorem querySegments_append {base : Str} (hbase : '?' ∉ base) (query : Str) :
    querySegments (base ++ '?' :: query) = query.splitOn '&' := by
  rw [querySegments, List.dropWhile_append_of_pos]
  · simp
  · intro c hc
    exact decide_eq_true (ne_of_mem_of_not_mem hc hbase)

theorem querySegments_of_notMem {url : Str} (hurl : '?' ∉ url) :
    querySegments url = [] := by
  have hdrop : url.dropWhile (· ≠ '?') = [] := by
    apply List.dropWhile_eq_nil_iff.mpr
    intro c hc
    exact decide_eq_true (ne_of_mem_of_not_mem hc hurl)
  rw [querySegments, hdrop]

theorem parseParams_of_notMem {url : Str} (hurl : '?' ∉ url) :
    parseParams url = .ok (url, ∅) := by
  rw [parseParams, find_eq_none hurl]

theorem find_query {base : Str} (hbase : '?' ∉ base) (query : Str) :
    find (base ++ '?' :: query) '?' 0 = some base.length := by
  rw [find_eq_some List.drop_zero hbase, Nat.zero_add]

theorem parseParams_append {base : Str} (hbase : '?' ∉ base) (query : Str) :
    parseParams (base ++ '?' :: query) =
      .ok (base, LastWrite.assignAll keyOf valueOf (query.splitOn '&') ∅) := by
  have hbound : base.length + 1 ≤ (base ++ '?' :: query).length := by simp
  have hquery : (base ++ '?' :: query).drop (base.length + 1) = query := by
    rw [List.drop_length_add_append]
    rfl
  simp only [parseParams, find_query hbase, substr_of_le hbound, hquery, bind,
    Except.bind, parseLoop_eq _ (Nat.zero_le _), List.drop_zero,
    List.take_left']

/-- `ParseParams` assigns the segments of the query in order. -/
theorem queryParams_eq (url : Str) :
    queryParams url =
      LastWrite.assignAll keyOf valueOf (querySegments url) ∅ := by
  by_cases hmem : '?' ∈ url
  · obtain ⟨base, query, rfl, hbase⟩ := List.eq_append_cons_of_mem hmem
    rw [queryParams, parseParams_append hbase, querySegments_append hbase]
  · rw [queryParams, parseParams_of_notMem hmem, querySegments_of_notMem hmem]
    rfl

/-- Some segment has the key, and the last such segment has the value. -/
def LastSegment (segments : List Str) (key value : Str) : Prop :=
  ∃ before segment after, segments = before ++ segment :: after ∧
    keyOf segment = key ∧ (∀ other ∈ after, keyOf other ≠ key) ∧
    valueOf segment = value

theorem parseParams_joinSegments {base : Str} {segments : List Str}
    (hbase : '?' ∉ base) (hne : segments ≠ [])
    (hsegments : ∀ segment ∈ segments, '&' ∉ segment) :
    parseParams (base ++ '?' :: joinSegments segments) =
      .ok (base, LastWrite.assignAll keyOf valueOf segments ∅) := by
  rw [parseParams_append hbase, joinSegments,
    List.splitOn_intercalate '&' hsegments hne]

theorem lookup_segments (segments : List Str) (key value : Str) :
    (LastWrite.assignAll keyOf valueOf segments ∅).lookup key = some value ↔
      LastSegment segments key value := by
  rw [LastWrite.lookup_assignAll_empty, LastWrite.lastValue_eq_some_iff]
  rfl

theorem notMem_renderPair {pair : Str × Str} (hkey : '&' ∉ pair.1)
    (hvalue : '&' ∉ pair.2) : '&' ∉ renderPair pair := by
  simp [renderPair, hkey, hvalue]

/-- The segments of rendered pairs give the pairs back. -/
theorem lookup_renderPair {pairs : List (Str × Str)}
    (hnodup : (pairs.map (·.1)).Nodup)
    (hkeys : ∀ pair ∈ pairs, '=' ∉ pair.1) (key value : Str) :
    (LastWrite.assignAll keyOf valueOf (pairs.map renderPair) ∅).lookup key =
      some value ↔ (key, value) ∈ pairs := by
  have hread : ∀ pair ∈ pairs, keyOf (renderPair pair) = pair.1 ∧
      valueOf (renderPair pair) = pair.2 := by
    intro pair hpair
    exact ⟨keyOf_append (hkeys pair hpair) _,
      valueOf_append (hkeys pair hpair) _⟩
  have hsame : (pairs.map renderPair).map keyOf = pairs.map (·.1) := by
    rw [List.map_map]
    exact List.map_congr_left fun pair hpair => (hread pair hpair).1
  rw [LastWrite.lookup_assignAll_empty,
    LastWrite.lastValue_eq_some_iff_of_nodup (hsame ▸ hnodup)]
  constructor
  · rintro ⟨_, hmem, rfl, rfl⟩
    obtain ⟨pair, hpair, rfl⟩ := List.mem_map.mp hmem
    rwa [(hread pair hpair).1, (hread pair hpair).2]
  · intro hmem
    exact ⟨_, List.mem_map_of_mem hmem, (hread _ hmem).1, (hread _ hmem).2⟩

/-- `ParseParams` decodes its format, leaves a url without a query alone, and
reads rendered pairs back. -/
theorem parseParams_format :
    (∀ (base : Str) (segments : List Str), '?' ∉ base → segments ≠ [] →
      (∀ segment ∈ segments, '&' ∉ segment) →
      ∃ params, parseParams (base ++ '?' :: joinSegments segments) =
          .ok (base, params) ∧
        ∀ key value, params.lookup key = some value ↔
          LastSegment segments key value) ∧
    (∀ url : Str, '?' ∉ url → parseParams url = .ok (url, ∅)) ∧
    (∀ (base : Str) (pairs : List (Str × Str)), '?' ∉ base → pairs ≠ [] →
      (pairs.map (·.1)).Nodup →
      (∀ pair ∈ pairs, '&' ∉ pair.1 ∧ '=' ∉ pair.1 ∧ '&' ∉ pair.2) →
      ∃ params, parseParams
          (base ++ '?' :: joinSegments (pairs.map renderPair)) =
          .ok (base, params) ∧
        ∀ key value, params.lookup key = some value ↔
          (key, value) ∈ pairs) := by
  refine ⟨?_, fun url => parseParams_of_notMem, ?_⟩
  · intro base segments hbase hne hsegments
    exact ⟨_, parseParams_joinSegments hbase hne hsegments,
      lookup_segments segments⟩
  · intro base pairs hbase hne hnodup hfree
    have hsegments : ∀ segment ∈ pairs.map renderPair, '&' ∉ segment := by
      intro segment hsegment
      obtain ⟨pair, hpair, rfl⟩ := List.mem_map.mp hsegment
      exact notMem_renderPair (hfree pair hpair).1 (hfree pair hpair).2.2
    refine ⟨_, parseParams_joinSegments hbase (by simpa using hne) hsegments,
      ?_⟩
    exact lookup_renderPair hnodup fun pair hpair => (hfree pair hpair).2.1

/-- `/a?x=1&x=2=&` and `/a?x=1&y=`. -/
theorem parseParams_format_sample :
    (∃ params, parseParams "/a?x=1&x=2=&".toList = .ok ("/a".toList, params) ∧
      ∀ key value, params.lookup key = some value ↔
        LastSegment ["x=1".toList, "x=2=".toList, []] key value) ∧
    parseParams "/a".toList = .ok ("/a".toList, ∅) ∧
    ∃ params, parseParams "/a?x=1&y=".toList = .ok ("/a".toList, params) ∧
      ∀ key value, params.lookup key = some value ↔
        (key, value) ∈ [(['x'], ['1']), (['y'], [])] :=
  ⟨parseParams_format.1 "/a".toList ["x=1".toList, "x=2=".toList, []]
      (by decide) (by decide) (by decide),
    parseParams_format.2.1 "/a".toList (by decide),
    parseParams_format.2.2 "/a".toList [(['x'], ['1']), (['y'], [])]
      (by decide) (by decide) (by decide) (by decide)⟩

end Rest

end JustQueueIt
