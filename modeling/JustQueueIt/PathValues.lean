/-
Values through a template and back.  What is put into the placeholders of a
separated template is what the handler gets; what the handler gets rebuilds
the path exactly when no name stands twice.
-/
import JustQueueIt.PathParams
import JustQueueIt.PathTemplates

namespace JustQueueIt

namespace Rest

open Regex (Piece)

variable {m : Type → Type}

/-- A literal character of a plain path is no `?`, so a filled path ends where
its query begins. -/
theorem notMem_fill {c : Char} {pieces : List PathPiece} :
    ∀ {values : List Str}, c ∉ Piece.literals pieces →
      (∀ value ∈ values, c ∉ value) → c ∉ Piece.fill pieces values := by
  induction pieces with
  | nil => intro values _ _; simp [Piece.fill]
  | cons piece pieces ih =>
      intro values hliterals hvalues
      cases piece with
      | char other =>
          rw [Piece.literals, List.mem_cons, not_or] at hliterals
          rw [Piece.fill, List.mem_cons, not_or]
          exact ⟨hliterals.1, ih hliterals.2 hvalues⟩
      | slot name =>
          cases values with
          | nil => exact ih hliterals (by simp)
          | cons value values =>
              rw [Piece.fill, List.mem_append, not_or]
              obtain ⟨hvalue, hrest⟩ := List.forall_mem_cons.mp hvalues
              exact ⟨hvalue, ih hliterals hrest⟩

/-- The values that fit a path go with its names. -/
theorem length_of_fits {path : Str} {values : List Str}
    (hfits : Piece.Fits '/' (pathPieces path) values) :
    values.length = (parameterNames path).length :=
  hfits.length.trans (congrArg List.length (labels_pathPieces path))

theorem PlainPath.question_notMem {path : Str} (hplain : PlainPath path) :
    '?' ∉ Piece.literals (pathPieces path) :=
  fun hmem => hplain '?' hmem (by decide)

theorem PlainPath.pathOf_fill {path : Str} (hplain : PlainPath path)
    {values : List Str} (hvalues : ∀ value ∈ values, '?' ∉ value) :
    pathOf (Piece.fill (pathPieces path) values) =
      Piece.fill (pathPieces path) values :=
  pathOf_of_notMem (notMem_fill hplain.question_notMem hvalues)

/-- The captures of a plain path are values that fill it. -/
theorem PlainPath.exists_values {path url : Str} (hplain : PlainPath path)
    {pattern : Regex.Compiled} (hpattern : compilePath path = .ok pattern)
    {found : Regex.Match} (hfound : pattern.regexMatch url = some found) :
    found.size = (parameterNames path).length + 1 ∧
    ∃ values, Piece.Fits '/' (pathPieces path) values ∧
      url = Piece.fill (pathPieces path) values ∧
      ∀ i value, values[i]? = some value → found.get (i + 1) = value := by
  rw [compilePath_of_plainPath hplain] at hpattern
  obtain rfl := Except.ok.inj hpattern
  refine ⟨?_, Piece.exists_values_of_regexMatch hfound⟩
  rw [Regex.Match.size, Regex.Compiled.markCount_of_regexMatch hfound]

/-- With a handler for its method, a route whose match has the right size
calls it. -/
theorem RouteInfo.select_invoke {route : RouteInfo m} {method : Method}
    {handler : HandlerWithParams m}
    (hhandler : route.handlers.lookup method = some handler)
    {found : Regex.Match}
    (hsize : found.size = route.parameterNames.length + 1) (params : Params) :
    route.select method params found =
      .invoke handler (bindCaptures route.parameterNames found params) := by
  simp [RouteInfo.select, hsize, hhandler]

/-- The names of a list without repetitions are bound to their captures. -/
theorem bindCaptures_lookup_of_nodup {names : List Str} (hnodup : names.Nodup)
    {i : Nat} {name : Str} (hname : names[i]? = some name)
    (found : Regex.Match) (params : Params) :
    (bindCaptures names found params).lookup name =
      some (found.get (i + 1)) := by
  apply bindCaptures_lookup hname
  intro j hj hsame
  obtain ⟨hi, hiname⟩ := List.getElem?_eq_some_iff.mp hname
  obtain ⟨hj', hjname⟩ := List.getElem?_eq_some_iff.mp hsame
  have heq := hnodup.getElem_inj_iff.mp (hiname.trans hjname.symm)
  omega

/-- The path with the parameters in place of the placeholders. -/
def substitute (path : Str) (params : Params) : Str :=
  Piece.fill (pathPieces path)
    ((parameterNames path).map fun name => (params.lookup name).getD [])

/-- `Route` hands the request, with the parameters, to a handler of the path,
in a table that registrations built. -/
def Dispatches (m : Type → Type) (path : Str) (req : Request)
    (params : Params) : Prop :=
  ∃ (registrations : List (Registration m)) (router : Router m)
    (order : List (RouteEntry m)) (info : RouteInfo m) (found : Regex.Match)
    (handler : HandlerWithParams m),
    register registrations = .ok router ∧
    order.Perm router.routes.entries ∧
    firstMatch (pathOf req.path) order = some (⟨path, info⟩, found) ∧
    selected order req = .invoke handler params

/-- No captured value is lost. -/
def KeepsValues (m : Type → Type) (path : Str) : Prop :=
  ∀ req params, Dispatches m path req params →
    substitute path params = pathOf req.path

theorem keepsValues_of_nodup {path : Str} (hplain : PlainPath path)
    (hnodup : (parameterNames path).Nodup) : KeepsValues m path := by
  rintro req params ⟨registrations, router, order, info, found, handler,
    hbuilt, horder, hfirst, hselected⟩
  have hholds := holds_of_register hbuilt
  obtain ⟨hmem, hfound⟩ := firstMatch_mem hfirst
  have hentry := hholds.entry horder hmem
  have hnames := hentry.names
  obtain ⟨-, values, hfits, hurl, hget⟩ :=
    hplain.exists_values hentry.pattern hfound
  have hparams := (params_of_firstMatch hselected hfirst).2
  rw [hnames] at hparams
  have hvalues : (parameterNames path).map
      (fun name => (params.lookup name).getD []) = values := by
    apply List.ext_getElem?
    intro i
    rw [List.getElem?_map]
    cases hname : (parameterNames path)[i]? with
    | none =>
        rw [List.getElem?_eq_none_iff, ← length_of_fits hfits] at hname
        rw [List.getElem?_eq_none hname]
        rfl
    | some name =>
        have hlt := (List.getElem?_eq_some_iff.mp hname).1
        rw [← length_of_fits hfits] at hlt
        have hvalue := List.getElem?_eq_getElem hlt
        rw [Option.map_some, hparams,
          bindCaptures_lookup_of_nodup hnodup hname, hget i _ hvalue, hvalue]
        rfl
  rw [substitute, hvalues, hurl]

/-- One route on an empty router. -/
theorem register_single {path : Str} (hslash : path.head? = some '/')
    {pattern : Regex.Compiled} (hpattern : compilePath path = .ok pattern)
    (method : Method) (handler : HandlerWithParams m) :
    register [⟨path, method, handler⟩] =
      .ok ⟨(∅ : AList fun _ : Str => RouteInfo m).insert path
        ⟨pattern, parameterNames path,
          (∅ : Handlers m).assign method handler⟩⟩ := by
  change (addRegistration Router.empty _ >>= fun router => _) = _
  rw [addRegistration, Router.addRouteImpl_eq_ok hslash hpattern]
  rfl

/-- A request for a filled plain path is handed to the handler of the path
with its captures. -/
theorem dispatches_fill [Monad m] {path : Str} (hplain : PlainPath path)
    (hslash : path.head? = some '/') {values : List Str}
    (hfits : Piece.Fits '/' (pathPieces path) values)
    (hvalues : ∀ value ∈ values, '?' ∉ value) :
    ∃ found others, Piece.Fits '/' (pathPieces path) others ∧
      Piece.fill (pathPieces path) values =
        Piece.fill (pathPieces path) others ∧
      (∀ (i : Nat) (value : Str), others[i]? = some value →
        found.get (i + 1) = value) ∧
      Dispatches m path (getPath (Piece.fill (pathPieces path) values))
        (bindCaptures (parameterNames path) found
          (queryParams (Piece.fill (pathPieces path) values))) := by
  have hpattern := compilePath_of_plainPath hplain
  have hurl := hplain.pathOf_fill hvalues
  obtain ⟨found, hfound⟩ := Option.ne_none_iff_exists'.mp
    (Piece.regexMatch_fill_ne_none hfits (parameterNames path).length)
  obtain ⟨hsize, others, hothers, hsame, hget⟩ :=
    hplain.exists_values hpattern hfound
  let handler : HandlerWithParams m := fun _ _ => pure Response.notFound
  let info : RouteInfo m :=
    ⟨⟨.anchored (Piece.tree '/' 0 (pathPieces path)),
        (parameterNames path).length⟩, parameterNames path,
      (∅ : Handlers m).assign .get handler⟩
  have hfirst : firstMatch (pathOf (Piece.fill (pathPieces path) values))
      [(⟨path, info⟩ : RouteEntry m)] = some (⟨path, info⟩, found) := by
    rw [hurl, firstMatch, hfound]
  refine ⟨found, others, hothers, hsame, hget, [⟨path, .get, handler⟩], _,
    [⟨path, info⟩], info, found, handler,
    register_single hslash hpattern .get handler, List.Perm.refl _, hfirst, ?_⟩
  exact (select_of_firstMatch hfirst).trans
    (RouteInfo.select_invoke (Handlers.lookup_assign ..) hsize _)

/-- One character for each of `count` placeholders, another one for the
`odd`. -/
def marked (count odd : Nat) : List Str :=
  (List.range count).map fun k => if k = odd then ['y'] else ['x']

theorem marked_getElem? {count odd k : Nat} (hk : k < count) :
    (marked count odd)[k]? = some (if k = odd then ['y'] else ['x']) := by
  rw [marked, List.getElem?_map, List.getElem?_range hk]
  rfl

theorem mem_marked {count odd : Nat} {value : Str}
    (hvalue : value ∈ marked count odd) : value = ['x'] ∨ value = ['y'] := by
  obtain ⟨k, -, rfl⟩ := List.mem_map.mp hvalue
  split
  · exact Or.inr rfl
  · exact Or.inl rfl

theorem fits_marked (path : Str) (odd : Nat) :
    Piece.Fits '/' (pathPieces path)
      (marked (parameterNames path).length odd) := by
  constructor
  · rw [labels_pathPieces, marked, List.length_map, List.length_range]
  · intro value hvalue
    rcases mem_marked hvalue with rfl | rfl <;> decide

/-- The parameters of a captured path fill it again. -/
theorem fits_substituted {path : Str} {found : Regex.Match} {params : Params}
    {values : List Str} (hfits : Piece.Fits '/' (pathPieces path) values)
    (hget : ∀ (i : Nat) (value : Str), values[i]? = some value →
      found.get (i + 1) = value) :
    Piece.Fits '/' (pathPieces path) ((parameterNames path).map fun name =>
      ((bindCaptures (parameterNames path) found params).lookup name).getD
        []) := by
  constructor
  · rw [List.length_map, labels_pathPieces]
  · intro value hvalue
    obtain ⟨name, hname, rfl⟩ := List.mem_map.mp hvalue
    obtain ⟨i, hi, hlast⟩ := exists_last_getElem? hname
    have hlt : i < values.length := by
      rw [length_of_fits hfits]
      exact (List.getElem?_eq_some_iff.mp hi).1
    rw [bindCaptures_lookup hi hlast, Option.getD_some,
      hget i _ (List.getElem?_eq_getElem hlt)]
    exact hfits.segment _ (List.getElem_mem hlt)

/-- Of two placeholders with one name the last one counts: the value of the
other is lost. -/
theorem nodup_of_keepsValues [Monad m] {path : Str} (hplain : PlainPath path)
    (hslash : path.head? = some '/') (hkeeps : KeepsValues m path) :
    (parameterNames path).Nodup := by
  rw [List.nodup_iff_getElem?_ne_getElem?]
  intro i j hij hj hsame
  have hfits := fits_marked path i
  have hquestion : ∀ value ∈ marked (parameterNames path).length i,
      '?' ∉ value := by
    intro value hvalue
    rcases mem_marked hvalue with rfl | rfl <;> decide
  have hsingle : ∀ value ∈ marked (parameterNames path).length i,
      value.length = 1 := by
    intro value hvalue
    rcases mem_marked hvalue with rfl | rfl <;> rfl
  obtain ⟨found, others, hothers, hfill, hget, hdispatches⟩ :=
    dispatches_fill (m := m) hplain hslash hfits hquestion
  obtain ⟨rfl, -⟩ := Piece.fill_inj_of_single hfits hsingle hothers hfill
  have hback := hkeeps _ _ hdispatches
  change _ = pathOf (Piece.fill _ _) at hback
  rw [hplain.pathOf_fill hquestion, substitute] at hback
  obtain ⟨hvalues, -⟩ := Piece.fill_inj_of_single hfits hsingle
    (fits_substituted hfits hget) hback.symm
  -- the name at `i` is bound by the last placeholder of that name
  have hname : (parameterNames path)[i]? =
      some (parameterNames path)[i] :=
    List.getElem?_eq_getElem (hij.trans hj)
  obtain ⟨k, hk, hlast⟩ := exists_last_getElem?
    (List.mem_of_getElem? hname)
  have hjk : j ≤ k := by
    by_contra hlt
    exact hlast j (by omega) (hsame ▸ hname)
  have hklt := (List.getElem?_eq_some_iff.mp hk).1
  have hat := congrArg (·[i]?) hvalues
  simp only [List.getElem?_map, hname, Option.map_some,
    bindCaptures_lookup hk hlast, marked_getElem? (hij.trans hj),
    hget k _ (marked_getElem? hklt), if_neg (show k ≠ i by omega)] at hat
  simp at hat

/-- No value is lost exactly when no name stands twice. -/
theorem keepsValues_iff [Monad m] {path : Str} (hplain : PlainPath path)
    (hslash : path.head? = some '/') :
    KeepsValues m path ↔ (parameterNames path).Nodup :=
  ⟨nodup_of_keepsValues hplain hslash, keepsValues_of_nodup hplain⟩

/-- `/{:a}/b{:c}` keeps its values. -/
theorem keepsValues_iff_sample :
    KeepsValues Id "/{:a}/b{:c}".toList ↔
      (parameterNames "/{:a}/b{:c}".toList).Nodup :=
  keepsValues_iff (by decide) rfl

/-- `GET /x/y` to `/{:a}/{:a}`: `a` is `y`. -/
theorem twicePath_not_keepsValues :
    ¬ ∀ path, PlainPath path → path.head? = some '/' →
      KeepsValues Id path := by
  intro hall
  have hkeeps := hall "/{:a}/{:a}".toList (by decide) rfl
    (getPath "/x/y".toList) ((∅ : Params).insert ['a'] ['y'])
    ⟨[⟨"/{:a}/{:a}".toList, .get, answerWith ['1']⟩], _, [_], _, _, _, rfl,
      List.Perm.refl _, rfl, rfl⟩
  exact absurd hkeeps (by decide)

end Rest

end JustQueueIt
