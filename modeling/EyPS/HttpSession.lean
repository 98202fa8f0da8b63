/-
`http/HttpSession`: what `on_read` answers to a request. It runs
`handle_request`, `GenericHandler` and `LoginHandler` one after the other on
the same request, each a chain of `starts_with` tests on the target, and
`handle_request` ends with a test of the target's second character.

What the lambda of a route computes is a parameter here (`respond`; `none`
where it does not return): `LoginBody` has the three of `LoginHandler`.
-/
import EyPS.Routing

namespace EyPS

open Routing

/-- The lambdas that build a response. -/
inductive Lambda
  /-- defined in `handle_request` and called nowhere, as are the next two -/
  | badRequest
  | notFound
  | serverError
  | doQueryRegionList
  | doQueryCurRegion
  /-- the block that builds the greeting -/
  | hello
  | procVer
  | getAgreementInfos
  | account
  | combo
  | getConfig
  | loadConfig
  | sdkDataUpload
  | clientLogin
  | tokenLogin
  | sessionKeyLogin
  deriving DecidableEq

/-- Why `on_read` does not return. -/
inductive OnReadFailure
  /-- `target()[1]` on a shorter target -/
  | outOfRange
  | lambda (l : Lambda)
  deriving DecidableEq

/-- The tests of `handle_request` on the start of the target. -/
def requestRoutes : List (List Char × Lambda) :=
  [("/region_list".toList, .doQueryRegionList), ("/cur_region".toList, .doQueryCurRegion)]

/-- `GenericHandler`'s. -/
def genericRoutes : List (List Char × Lambda) :=
  [("/compareProtocolVersion".toList, .procVer), ("/getAgreementInfos".toList, .getAgreementInfos),
    ("/account/check".toList, .account), ("/config/sdk/combo".toList, .combo), ("/getConfig".toList, .getConfig),
    ("/loadConfig".toList, .loadConfig), ("/dataUpload".toList, .sdkDataUpload)]

/-- `LoginHandler`'s. -/
def loginRoutes : List (List Char × Lambda) :=
  [("login".toList, .clientLogin), ("verify".toList, .tokenLogin), ("v2/login".toList, .sessionKeyLogin)]

section OnRead

variable {ρ : Type} (respond : Lambda → Option ρ)

/-- `send` of what the lambda returns. -/
def sendLambda (l : Lambda) : Except OnReadFailure (Option ρ) :=
  match respond l with
  | some response => .ok (some response)
  | none => .error (.lambda l)

/-- A chain of tests, the first that holds being answered and returned from. -/
def dispatch (routes : List (List Char × Lambda)) (target : List Char) : Except OnReadFailure (Option ρ) :=
  match select routes target with
  | some l => sendLambda respond l
  | none => .ok none

/-- `handle_request`: what it sends, if anything. -/
def handleRequest (target : List Char) : Except OnReadFailure (Option ρ) :=
  match select requestRoutes target with
  | some l => sendLambda respond l
  | none =>
    match target[1]? with
    | none => .error .outOfRange
    | some c => if c = '?' then sendLambda respond .hello else .ok none

def genericHandler (target : List Char) : Except OnReadFailure (Option ρ) := dispatch respond genericRoutes target

def loginHandler (target : List Char) : Except OnReadFailure (Option ρ) := dispatch respond loginRoutes target

/-- The handlers' sends, up to the first that does not return. -/
def runHandlers : List (Except OnReadFailure (Option ρ)) → List ρ × Option OnReadFailure
  | [] => ([], none)
  | .error e :: _ => ([], some e)
  | .ok response :: rest => (response.toList ++ (runHandlers rest).1, (runHandlers rest).2)

/-- `on_read` of a request that was read: the responses it sends, and the failure
that ended it. -/
def onRead (target : List Char) : List ρ × Option OnReadFailure :=
  runHandlers [handleRequest respond target, genericHandler respond target, loginHandler respond target]

end OnRead

/-- What a target is answered with: a route of the three tables, or the greeting. -/
inductive Routed (target : List Char) : Lambda → Prop
  | table {start : List Char} {l : Lambda} (hmem : (start, l) ∈ requestRoutes ++ (genericRoutes ++ loginRoutes))
      (hs : start <+: target) : Routed target l
  | hello (hc : target[1]? = some '?') : Routed target .hello

/-! ## The routes exclude each other -/

theorem routes_apart : Apart (requestRoutes ++ (genericRoutes ++ loginRoutes)) := by decide

/-- Every route has a second character, and it is not the greeting's. -/
theorem second_of_routes :
    ∀ r ∈ requestRoutes ++ (genericRoutes ++ loginRoutes), 1 < r.1.length ∧ r.1[1]? ≠ some '?' := by
  decide

section Sends

variable {ρ : Type} {respond : Lambda → Option ρ} {target : List Char} {l : Lambda}

/-- So has a target that one of them starts. -/
theorem second_of_start {start : List Char} (hmem : (start, l) ∈ requestRoutes ++ (genericRoutes ++ loginRoutes))
    (hs : start <+: target) : ∃ c, target[1]? = some c ∧ c ≠ '?' := by
  obtain ⟨hlt, hne⟩ := second_of_routes _ hmem
  refine ⟨_, List.prefix_iff_getElem?.mp hs 1 hlt, fun hc => hne ?_⟩
  rw [← hc]
  exact List.getElem?_eq_getElem hlt

/-- What the one handler that answers makes of the request. -/
def answer (respond : Lambda → Option ρ) (l : Lambda) : List ρ × Option OnReadFailure :=
  match respond l with
  | some response => ([response], none)
  | none => ([], some (.lambda l))

theorem runHandlers_silent {before rest : List (Except OnReadFailure (Option ρ))}
    (h : ∀ x ∈ before, x = .ok none) : runHandlers (before ++ rest) = runHandlers rest := by
  induction before with
  | nil => rfl
  | cons x before ih =>
    obtain ⟨rfl, hbefore⟩ := List.forall_mem_cons.mp h
    exact ih hbefore

/-- One handler answers, and those before and after it send nothing. -/
theorem runHandlers_answer (before after : List (Except OnReadFailure (Option ρ)))
    (hb : ∀ x ∈ before, x = .ok none) (ha : ∀ x ∈ after, x = .ok none) :
    runHandlers (before ++ sendLambda respond l :: after) = answer respond l := by
  have hsilent : runHandlers after = ([], none) := by
    rw [← List.append_nil after, runHandlers_silent ha]
    rfl
  rw [runHandlers_silent hb, sendLambda, answer]
  cases respond l with
  | none => rfl
  | some response => simp [runHandlers, hsilent]

/-- **A routed target** is answered by its route's lambda, once. -/
theorem onRead_routed (h : Routed target l) : onRead respond target = answer respond l := by
  cases h with
  | table hmem hs =>
    obtain ⟨c, hc, hne⟩ := second_of_start hmem hs
    have hselect := select_of_mem routes_apart hmem hs
    have hpasses : select requestRoutes target = none → handleRequest respond target = .ok none := by
      intro h
      simp [handleRequest, h, hc, hne]
    rcases (select_append_eq_some routes_apart).mp hselect with ⟨hr, hnone⟩ | ⟨hr, hselect⟩
    · obtain ⟨hg, hl⟩ := select_append_eq_none.mp hnone
      simp only [onRead, handleRequest, genericHandler, loginHandler, dispatch, hr, hg, hl]
      exact runHandlers_answer [] _ (by simp) (by simp)
    rcases (select_append_eq_some routes_apart.right).mp hselect with ⟨hg, hl⟩ | ⟨hg, hl⟩
    · simp only [onRead, hpasses hr, genericHandler, loginHandler, dispatch, hg, hl]
      exact runHandlers_answer [.ok none] _ (by simp) (by simp)
    · simp only [onRead, hpasses hr, genericHandler, loginHandler, dispatch, hg, hl]
      exact runHandlers_answer [.ok none, .ok none] _ (by simp) (by simp)
  | hello hc =>
    have hnone : select (requestRoutes ++ (genericRoutes ++ loginRoutes)) target = none := by
      rw [select_eq_none]
      intro r hmem hs
      obtain ⟨c, hc', hne⟩ := second_of_start hmem hs
      rw [hc, Option.some.injEq] at hc'
      exact hne hc'.symm
    obtain ⟨hr, hgl⟩ := select_append_eq_none.mp hnone
    obtain ⟨hg, hl⟩ := select_append_eq_none.mp hgl
    simp only [onRead, handleRequest, genericHandler, loginHandler, dispatch, hr, hg, hl, hc]
    exact runHandlers_answer [] _ (by simp) (by simp)

/-- A target has one route at most. -/
theorem Routed.unique {l' : Lambda} (h : Routed target l) (h' : Routed target l') : l = l' := by
  have hsame := (@onRead_routed _ some target l h).symm.trans (@onRead_routed _ some target l' h')
  simpa [answer] using hsame

/-- A target without a route is not answered; one of less than two characters is
read past its end. -/
theorem onRead_not_routed (h : ∀ l, ¬ Routed target l) :
    onRead respond target = ([], if target.length < 2 then some .outOfRange else none) := by
  have hnone : select (requestRoutes ++ (genericRoutes ++ loginRoutes)) target = none :=
    select_eq_none.mpr fun r hmem hs => h r.2 (.table hmem hs)
  obtain ⟨hr, hgl⟩ := select_append_eq_none.mp hnone
  obtain ⟨hg, hl⟩ := select_append_eq_none.mp hgl
  simp only [onRead, handleRequest, genericHandler, loginHandler, dispatch, hr, hg, hl]
  cases hc : target[1]? with
  | none =>
    have hlen : target.length < 2 := by
      have := List.getElem?_eq_none_iff.mp hc
      omega
    simp [runHandlers, hlen]
  | some c =>
    have hne : c ≠ '?' := fun he => h .hello (.hello (he ▸ hc))
    obtain ⟨hlen, -⟩ := List.getElem?_eq_some_iff.mp hc
    simp [runHandlers, hne, show ¬ target.length < 2 by omega]

/-- One response, from a lambda of this request and from `not_found` where no route
matches; and no read past the end of the target. -/
structure AnsweredOnce (respond : Lambda → Option ρ) (target : List Char) : Prop where
  sent : ∃ l response, respond l = some response ∧ (onRead respond target).1 = [response] ∧
    ((∀ l', ¬ Routed target l') → l = .notFound)
  inRange : (onRead respond target).2 ≠ some .outOfRange

theorem Routed.answered_iff (h : Routed target l) : AnsweredOnce respond target ↔ (respond l).isSome = true := by
  have hanswer := @onRead_routed _ respond _ _ h
  cases hr : respond l with
  | none =>
    rw [answer, hr] at hanswer
    refine iff_of_false (fun hone => ?_) (by simp)
    obtain ⟨_, response, -, hsent, -⟩ := hone.sent
    rw [hanswer] at hsent
    cases hsent
  | some response =>
    rw [answer, hr] at hanswer
    refine iff_of_true ⟨⟨l, response, hr, by rw [hanswer], fun hno => absurd h (hno l)⟩, ?_⟩ rfl
    rw [hanswer]
    simp

/-- **Exactly one response** where the target has a route, and the lambda of the
route returns. -/
theorem answeredOnce_iff (respond : Lambda → Option ρ) (target : List Char) :
    AnsweredOnce respond target ↔ ∃ l, Routed target l ∧ (respond l).isSome = true := by
  by_cases hr : ∃ l, Routed target l
  · obtain ⟨l, hl⟩ := hr
    rw [hl.answered_iff]
    constructor
    · intro hsome
      exact ⟨l, hl, hsome⟩
    · intro h
      obtain ⟨l', hl', hsome⟩ := h
      rwa [hl.unique hl']
  · refine iff_of_false (fun hone => ?_) fun h => hr ⟨h.choose, h.choose_spec.1⟩
    obtain ⟨_, response, -, hsent, -⟩ := hone.sent
    rw [onRead_not_routed fun l h => hr ⟨l, h⟩] at hsent
    cases hsent

end Sends

/-- No lambda failing: `/` is read past its end, and `/x` is not answered. -/
theorem slash_not_answered_once :
    (onRead (fun l => some l) "/".toList).2 = some .outOfRange ∧ (onRead (fun l => some l) "/x".toList).1 = [] ∧
      ¬ AnsweredOnce (fun l => some l) "/".toList ∧ ¬ AnsweredOnce (fun l => some l) "/x".toList := by
  have hread : (onRead (fun l => some l) "/".toList).2 = some .outOfRange := by decide
  have hnone : (onRead (fun l => some l) "/x".toList).1 = [] := by decide
  refine ⟨hread, hnone, fun h => h.inRange hread, fun h => ?_⟩
  obtain ⟨l, response, -, hsent, -⟩ := h.sent
  rw [hnone] at hsent
  cases hsent

end EyPS
