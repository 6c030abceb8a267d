/-
What a handler gets where the placeholders of a path do not stand apart.
`/{:x}-{:y}` fits `/a-b-c` in two ways; the match decides, and it gives each
placeholder as much as it can, the first one first.
-/
import JustQueueIt.RegexGreedy
import JustQueueIt.TypedCalls

namespace JustQueueIt

namespace Rest

open Regex (Piece)

variable {m : Type → Type}

/-- A url that fills the template of a route calls its handler with values
that make the url.  Of all values that do, it is those that give the first
placeholder the longest text, among these the second one, and so on. -/
theorem selected_greediest {surface : Surface} (hsurface : surface.Plain)
    (hfree : surface.ConflictFree)
    {handlers : Str → Method → HandlerWithParams m}
    (table : TableOf (surface.registrations handlers)) {path : Str}
    {req : Request} (hoffered : (path, req.method) ∈ surface)
    (hnames : (parameterNames path).Nodup)
    (hfills : ∃ values, Piece.Fits '/' (pathPieces path) values ∧
      pathOf req.path = Piece.fill (pathPieces path) values) :
    ∃ params, selected table.order req =
        .invoke (handlers path req.method) params ∧
      (∃ best, Piece.Fits '/' (pathPieces path) best ∧
        pathOf req.path = Piece.fill (pathPieces path) best ∧
        BindsValues path best params) ∧
      ∀ values, Piece.Fits '/' (pathPieces path) values →
        pathOf req.path = Piece.fill (pathPieces path) values →
        (BindsValues path values params ↔
          Piece.Greediest '/' (pathPieces path) values) := by
  obtain ⟨sent, hsent, hurl⟩ := hfills
  obtain ⟨found, hfound, hselected⟩ :=
    hsurface.exists_selected_fill hfree table hoffered hsent hurl
  obtain ⟨_, hmatch, best, hbest, hmade, hgreediest, hget⟩ :=
    Piece.exists_regexMatch_greediest hsent (parameterNames path).length
  obtain rfl := Option.some.inj (hfound.symm.trans hmatch)
  have hbinds := bindsValues_bindCaptures_iff hnames hbest found
    (queryParams req.path)
  refine ⟨_, hselected, ⟨best, hbest, hurl.trans hmade.symm,
    hbinds.mpr hget⟩, ?_⟩
  intro values hvalues hsame
  have hagree : Piece.fill (pathPieces path) values =
      Piece.fill (pathPieces path) best :=
    hsame.symm.trans (hurl.trans hmade.symm)
  rw [bindsValues_bindCaptures_iff hnames hvalues]
  constructor
  · intro hcaptured
    rw [hvalues.eq_of_captures hbest hcaptured hget]
    exact hgreediest
  · intro hpreferred
    rw [hpreferred.unique hvalues hbest hagree hgreediest]
    exact hget

/-- `/{:x}-{:y}`. -/
def rangePath : Str :=
  "/{:x}-{:y}".toList

def rangeRequest : Request where
  method := .get
  path := "/a-b-c?x=d".toList
  contentType := .textPlain

/-- Of the two ways to read `/a-b-c` the handler gets the one whose `x` is
longer. -/
theorem selected_greediest_range :
    ∃ (table : TableOf (Surface.registrations [(rangePath, .get)] tagHandlers))
      (params : Params),
      selected table.order rangeRequest =
        .invoke (tagHandlers rangePath .get) params ∧
      params.lookup ['x'] = some "a-b".toList ∧
      params.lookup ['y'] = some ['c'] := by
  have hsurface : Surface.Plain [(rangePath, .get)] :=
    ⟨by decide, by decide, by decide⟩
  obtain ⟨table⟩ := hsurface.exists_table tagHandlers
  have hoffered : (rangePath, rangeRequest.method) ∈ [(rangePath, .get)] :=
    List.mem_cons_self
  have hfits : Piece.Fits '/' (pathPieces rangePath) ["a-b".toList, ['c']] :=
    ⟨rfl, by decide⟩
  have hurl : pathOf rangeRequest.path =
      Piece.fill (pathPieces rangePath) ["a-b".toList, ['c']] := rfl
  have hwhole : Piece.wholeFillings '/' (pathPieces rangePath)
      (Piece.fill (pathPieces rangePath) ["a-b".toList, ['c']]) =
        [["a-b".toList, ['c']], [['a'], "b-c".toList]] := by decide
  obtain ⟨params, hselected, -, hbinds⟩ := selected_greediest hsurface
    (by decide) table hoffered (by decide) ⟨_, hfits, hurl⟩
  have hread := (hbinds _ hfits hurl).mpr
    ((Piece.greediest_iff hfits hwhole).mpr rfl)
  exact ⟨table, params, hselected, hread 0 _ _ rfl rfl, hread 1 _ _ rfl rfl⟩

end Rest

end JustQueueIt
