/-
Where capture groups stand.  Groups are numbered by their opening parentheses
from the left, so a pattern has one group for each token that opens one.
-/
import JustQueueIt.RegexMatch
import Mathlib.Data.List.Sort

namespace Regex

/-- The positions of the parentheses that open a capture group, in a text
whose first character stands at `position`. -/
def captureStarts : Nat → Nat → List Char → List Nat
  | _, _, [] => []
  | position, skip + 1, _ :: rest => captureStarts (position + 1) skip rest
  | position, 0, c :: rest =>
      match lexToken c rest with
      | .error _ => []
      | .ok (token, skip) =>
          let later := captureStarts (position + 1) skip rest
          if token = .openCapture then position :: later else later

/-- What the group captured whose parenthesis stands at `position` of the
pattern. -/
def Match.groupText (found : Match) (pattern : List Char) (position : Nat) :
    Option (List Char) :=
  ((captureStarts 0 0 pattern).idxOf? position).map
    fun index => found.get (index + 1)

theorem captureStarts_of_open {c : Char} {rest : List Char} {skip : Nat}
    (htoken : lexToken c rest = .ok (.openCapture, skip)) (position : Nat) :
    captureStarts position 0 (c :: rest) =
      position :: captureStarts (position + 1) skip rest := by
  rw [captureStarts, htoken]
  exact if_pos rfl

theorem captureStarts_of_ne_open {c : Char} {rest : List Char} {token : Token}
    {skip : Nat} (htoken : lexToken c rest = .ok (token, skip))
    (hne : token ≠ .openCapture) (position : Nat) :
    captureStarts position 0 (c :: rest) =
      captureStarts (position + 1) skip rest := by
  rw [captureStarts, htoken]
  exact if_neg hne

/-- A position either opens a group or not; the groups behind it are found
after the token. -/
theorem captureStarts_cons_cases (position : Nat) (c : Char)
    (rest : List Char) :
    captureStarts position 0 (c :: rest) = [] ∨
    ∃ skip, captureStarts position 0 (c :: rest) =
        position :: captureStarts (position + 1) skip rest ∨
      captureStarts position 0 (c :: rest) =
        captureStarts (position + 1) skip rest := by
  cases htoken : lexToken c rest with
  | error e =>
      apply Or.inl
      rw [captureStarts, htoken]
  | ok result =>
      obtain ⟨token, skip⟩ := result
      refine Or.inr ⟨skip, ?_⟩
      by_cases hopen : token = .openCapture
      · subst hopen
        exact Or.inl (captureStarts_of_open htoken position)
      · exact Or.inr (captureStarts_of_ne_open htoken hopen position)

/-- No group stands in front of the text, or in what is skipped. -/
theorem le_of_mem_captureStarts {text : List Char} :
    ∀ {position skip start : Nat}, start ∈ captureStarts position skip text →
      position + skip ≤ start := by
  induction text with
  | nil =>
      intro position skip start hstart
      rw [captureStarts] at hstart
      cases hstart
  | cons c rest ih =>
      intro position skip start hstart
      cases skip with
      | succ skip =>
          have hle := ih hstart
          omega
      | zero =>
          rcases captureStarts_cons_cases position c rest with
            hnone | ⟨skip, hopen | hlater⟩
          · rw [hnone] at hstart
            cases hstart
          · rw [hopen] at hstart
            rcases List.mem_cons.mp hstart with rfl | hstart
            · exact Nat.le_refl _
            · have hle := ih hstart
              omega
          · rw [hlater] at hstart
            have hle := ih hstart
            omega

theorem pairwise_captureStarts {text : List Char} :
    ∀ {position skip : Nat},
      (captureStarts position skip text).Pairwise (· < ·) := by
  induction text with
  | nil =>
      intro position skip
      rw [captureStarts]
      exact List.Pairwise.nil
  | cons c rest ih =>
      intro position skip
      cases skip with
      | succ skip => exact ih
      | zero =>
          rcases captureStarts_cons_cases position c rest with
            hnone | ⟨skip, hopen | hlater⟩
          · rw [hnone]
            exact List.Pairwise.nil
          · rw [hopen]
            refine List.Pairwise.cons ?_ ih
            intro start hstart
            have hle := le_of_mem_captureStarts hstart
            omega
          · rw [hlater]
            exact ih

/-- A text that is scanned begins with a token. -/
theorem exists_of_lex {c : Char} {rest : List Char} {tokens : List Token}
    (hlex : lex 0 (c :: rest) = .ok tokens) :
    ∃ token skip later, lexToken c rest = .ok (token, skip) ∧
      lex skip rest = .ok later ∧ tokens = token :: later := by
  cases htoken : lexToken c rest with
  | error e =>
      rw [lex, htoken] at hlex
      cases hlex
  | ok result =>
      obtain ⟨token, skip⟩ := result
      rw [lex_of_lexToken htoken] at hlex
      cases hlater : lex skip rest with
      | error e =>
          rw [hlater] at hlex
          cases hlex
      | ok later =>
          rw [hlater] at hlex
          exact ⟨token, skip, later, rfl, hlater, (Except.ok.inj hlex).symm⟩

/-- The scanner finds one token that opens a group for each of them. -/
theorem length_captureStarts {text : List Char} :
    ∀ {position skip : Nat} {tokens : List Token},
      lex skip text = .ok tokens →
      (captureStarts position skip text).length =
        tokens.count .openCapture := by
  induction text with
  | nil =>
      intro position skip tokens hlex
      rw [lex] at hlex
      obtain rfl := Except.ok.inj hlex
      rw [captureStarts]
      rfl
  | cons c rest ih =>
      intro position skip tokens hlex
      cases skip with
      | succ skip => exact ih hlex
      | zero =>
          obtain ⟨token, skip, later, htoken, hlater, rfl⟩ :=
            exists_of_lex hlex
          by_cases hopen : token = .openCapture
          · subst hopen
            rw [captureStarts_of_open htoken, List.length_cons, ih hlater,
              List.count_cons_self]
          · rw [captureStarts_of_ne_open htoken hopen, ih hlater,
              List.count_cons_of_ne hopen]

/-- Only the token that opens a capture group counts one. -/
theorem ParseState.step_groups {state next : ParseState} {token : Token}
    (hstep : state.step token = .ok next) :
    next.groups = state.groups + [token].count .openCapture := by
  cases token with
  | openCapture =>
      obtain rfl := Except.ok.inj hstep
      rfl
  | atom tree =>
      cases tree with
      | backref index =>
          rw [step] at hstep
          split at hstep
          · obtain rfl := Except.ok.inj hstep
            rfl
          · cases hstep
      | _ =>
          obtain rfl := Except.ok.inj hstep
          rfl
  | quantifier min max greedy =>
      rw [step] at hstep
      split at hstep
      · obtain rfl := Except.ok.inj hstep
        rfl
      · cases hstep
  | close =>
      rw [step] at hstep
      split at hstep
      · cases hstep
      · split at hstep <;> obtain rfl := Except.ok.inj hstep <;> rfl
  | _ =>
      obtain rfl := Except.ok.inj hstep
      rfl

theorem foldlM_groups {tokens : List Token} :
    ∀ {state last : ParseState},
      tokens.foldlM ParseState.step state = .ok last →
      last.groups = state.groups + tokens.count .openCapture := by
  induction tokens with
  | nil =>
      intro state last hfold
      rw [← Except.ok.inj hfold]
      rfl
  | cons token tokens ih =>
      intro state last hfold
      rw [List.foldlM_cons] at hfold
      cases hstep : state.step token with
      | error e =>
          rw [hstep] at hfold
          cases hfold
      | ok next =>
          rw [hstep] at hfold
          rw [ih hfold, ParseState.step_groups hstep, Nat.add_assoc,
            ← List.count_append]
          rfl

/-- What a pattern is compiled from. -/
theorem exists_of_compile {text : List Char} {pattern : Compiled}
    (hcompile : compile text = .ok pattern) :
    ∃ tokens state, lex 0 text = .ok tokens ∧
      tokens.foldlM ParseState.step .initial = .ok state ∧
      state.finish = .ok pattern := by
  rw [compile] at hcompile
  cases hlex : lex 0 text with
  | error e =>
      rw [hlex] at hcompile
      cases hcompile
  | ok tokens =>
      rw [hlex] at hcompile
      change tokens.foldlM ParseState.step .initial >>= _ = _ at hcompile
      cases hfold : tokens.foldlM ParseState.step .initial with
      | error e =>
          rw [hfold] at hcompile
          cases hcompile
      | ok state =>
          rw [hfold] at hcompile
          exact ⟨tokens, state, rfl, hfold, hcompile⟩

/-- `mark_count` counts the parentheses that open a group. -/
theorem markCount_of_compile {text : List Char} {pattern : Compiled}
    (hcompile : compile text = .ok pattern) :
    pattern.markCount = (captureStarts 0 0 text).length := by
  obtain ⟨tokens, state, hlex, hfold, hfinish⟩ := exists_of_compile hcompile
  rw [ParseState.finish] at hfinish
  split at hfinish
  · obtain rfl := Except.ok.inj hfinish
    rw [length_captureStarts hlex, foldlM_groups hfold]
    exact Nat.zero_add _
  · cases hfinish

end Regex
