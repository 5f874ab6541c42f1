import SilverPow.Base.Log
import SilverPow.Stratum.Sessions

/-!
# The current work of the pool

Two calls write the current work: `update_work` (`src/stratum_pool.rs:353–370`) all of it,
and `sync_block_height_from_node` (`src/stratum_pool.rs:128–176`) the height without the
header and the target. After a sync the pool hands out the header of one height under the
number of another, unless the two happen to belong together.
-/

namespace SilverPow.Stratum

open SilverPow.Base

/-- `update_work`, `src/stratum_pool.rs:353–370`; there is no time before the epoch. -/
def PoolState.updateWork (env : Env) (pool : PoolState) (header target : String) (height : U64)
    (now : Option U64) : PoolState :=
  { pool with currentWork :=
      { id := env.uuid pool.httpClient.length
        header
        target
        height
        timestamp := now.getD pool.currentWork.timestamp } }

/-! ### Runs -/

/-- A call that writes the current work. -/
inductive WorkCall where
  | updateWork (header target : String) (height : U64) (now : Option U64)
  | syncBlockHeightFromNode

/-- A call with what the pool reads from outside while it runs. -/
structure WorkEvent where
  call : WorkCall
  env : Env

/-- What belongs together in the work of one height. -/
@[ext] structure HeightWork where
  header : String
  target : String
  height : U64
  deriving DecidableEq

/-- The part of the pool's work that belongs together. -/
def PoolWork.heightWork (work : PoolWork) : HeightWork := ⟨work.header, work.target, work.height⟩

namespace WorkEvent

/-- The work that a call supplies. -/
def supplied (e : WorkEvent) : Option HeightWork :=
  match e.call with
  | .updateWork header target height _ => some ⟨header, target, height⟩
  | .syncBlockHeightFromNode => none

/-- The requests of a call to the node. -/
def requests (e : WorkEvent) : Nat :=
  match e.call with
  | .updateWork .. => 0
  | .syncBlockHeightFromNode => 1

/-- The height that the node reports to a call, after a number of requests. -/
def nodeHeight (e : WorkEvent) (sent : Nat) : Option U64 :=
  match e.call with
  | .updateWork .. => none
  | .syncBlockHeightFromNode =>
    match (e.env.answer sent).result with
    | some (.number (.posInt height)) => some height
    | _ => none

end WorkEvent

/-- The work that the calls have supplied, in order. -/
def suppliedWork (es : List WorkEvent) : List HeightWork := es.filterMap WorkEvent.supplied

/-- The requests that the calls have sent. -/
def sentRequests (es : List WorkEvent) : Nat := (es.map WorkEvent.requests).sum

namespace PoolState

/-- The pool after a call. -/
def workStep (c : Crates) (pool : PoolState) (e : WorkEvent) : PoolState :=
  match e.call with
  | .updateWork header target height now => pool.updateWork e.env header target height now
  | .syncBlockHeightFromNode => (pool.syncBlockHeightFromNode c e.env).2

/-- The states that a pool reaches by these calls. -/
abbrev WorkRun (c : Crates) (env : Env) (config : PoolConfig) :
    List WorkEvent → PoolState → Prop :=
  Run (fun pool e pool' ↦ pool' = pool.workStep c e) (.new env config)

end PoolState

/-- Once work was supplied, the pool holds header, target and height of one supply. -/
def Coherent (es : List WorkEvent) (pool : PoolState) : Prop :=
  suppliedWork es ≠ [] → pool.currentWork.heightWork ∈ suppliedWork es

/-- If the node reports a height to a call, the height above it was supplied with the header
and the target of the latest supply, if there is one. -/
def SyncMatches (es : List WorkEvent) (e : WorkEvent) : Prop :=
  ∀ work height, (suppliedWork es).getLast? = some work →
    e.nodeHeight (sentRequests es) = some height →
    { work with height := height + 1 } ∈ suppliedWork es

/-! ### What a call does -/

@[simp] theorem suppliedWork_concat (es : List WorkEvent) (e : WorkEvent) :
    suppliedWork (es ++ [e]) = suppliedWork es ++ e.supplied.toList := by
  simp only [suppliedWork, List.filterMap_append]
  cases h : e.supplied <;> simp [h]

@[simp] theorem sentRequests_concat (es : List WorkEvent) (e : WorkEvent) :
    sentRequests (es ++ [e]) = sentRequests es + e.requests := by
  simp [sentRequests]

namespace PoolState

/-- The work after a call: the supplied one, or the old one at the height above the one that
the node reports. -/
theorem heightWork_workStep (c : Crates) (pool : PoolState) (e : WorkEvent) :
    (pool.workStep c e).currentWork.heightWork =
      e.supplied.getD { pool.currentWork.heightWork with
        height := ((e.nodeHeight pool.httpClient.length).map (· + 1)).getD
          pool.currentWork.height } := by
  rcases e with ⟨_ | _, env⟩
  · rfl
  · by_cases h : ∃ height,
      (env.answer pool.httpClient.length).result = some (.number (.posInt height))
    · obtain ⟨height, h⟩ := h
      simp [workStep, WorkEvent.supplied, WorkEvent.nodeHeight, syncBlockHeightFromNode, post, h,
        PoolWork.heightWork]
    · have hnone : WorkEvent.nodeHeight ⟨.syncBlockHeightFromNode, env⟩ pool.httpClient.length =
          none := by
        unfold WorkEvent.nodeHeight
        dsimp only
        split
        · next height hr => exact absurd ⟨height, hr⟩ h
        · rfl
      rw [hnone]
      unfold workStep syncBlockHeightFromNode post
      dsimp only
      split
      · next height hr => exact absurd ⟨height, hr⟩ h
      · rfl

/-- The requests after a call. -/
theorem length_httpClient_workStep (c : Crates) (pool : PoolState) (e : WorkEvent) :
    (pool.workStep c e).httpClient.length = pool.httpClient.length + e.requests := by
  rcases e with ⟨_ | _, env⟩
  · rfl
  · simp only [workStep, WorkEvent.requests, syncBlockHeightFromNode, post]
    split <;> simp

/-- The header and the target of the pool are those of the latest supply. -/
def HoldsLatest (es : List WorkEvent) (pool : PoolState) : Prop :=
  ∀ work, (suppliedWork es).getLast? = some work →
    work = { pool.currentWork.heightWork with height := work.height }

variable {c : Crates} {env : Env} {config : PoolConfig} {es : List WorkEvent} {pool : PoolState}

/-- A run sends one request for each height it asks for. -/
theorem length_httpClient_of_run (h : WorkRun c env config es pool) :
    pool.httpClient.length = sentRequests es := by
  refine h.historyInvariant (fun es pool ↦ pool.httpClient.length = sentRequests es) rfl ?_
  rintro es pool e _ hs rfl
  rw [length_httpClient_workStep, hs, sentRequests_concat]

/-- A run holds the header and the target of its latest supply. -/
theorem holdsLatest_of_run (h : WorkRun c env config es pool) : HoldsLatest es pool := by
  refine h.historyInvariant HoldsLatest (fun _ hw ↦ by cases hw) ?_
  rintro es pool e _ hs rfl work hw
  rw [suppliedWork_concat] at hw
  rw [heightWork_workStep]
  cases he : e.supplied with
  | some new =>
    rw [he, Option.toList_some, List.getLast?_concat, Option.some_inj] at hw
    rw [Option.getD_some, hw]
  | none =>
    rw [he, Option.toList_none, List.append_nil] at hw
    rw [Option.getD_none, hs work hw]

/-- From coherent work, a call leaves coherent work exactly if the height that it reads, if
any, was supplied with the header and the target that the pool holds. -/
theorem coherent_step_iff (h : WorkRun c env config es pool) (hc : Coherent es pool)
    (e : WorkEvent) : Coherent (es ++ [e]) (pool.workStep c e) ↔ SyncMatches es e := by
  have hl := holdsLatest_of_run h
  have hn := length_httpClient_of_run h
  rw [Coherent, SyncMatches, suppliedWork_concat, heightWork_workStep, hn]
  cases he : e.supplied with
  | some new =>
    -- A supply is not a request for a height.
    have hno : e.nodeHeight (sentRequests es) = none := by
      revert he
      unfold WorkEvent.supplied WorkEvent.nodeHeight
      split <;> simp
    simp [hno]
  | none =>
    rw [Option.toList_none, List.append_nil, Option.getD_none]
    cases hh : e.nodeHeight (sentRequests es) with
    | none =>
      refine iff_of_true hc ?_
      intro _ _ _ hread
      cases hread
    | some height =>
      rw [Option.map_some, Option.getD_some]
      constructor
      · intro hm work _ hw hread
        cases hread
        rw [hl work hw]
        apply hm
        intro hnil
        rw [hnil] at hw
        cases hw
      · intro hm hne
        have hw := List.getLast?_eq_some_getLast hne
        have hm := hm _ height hw rfl
        rw [hl _ hw] at hm
        exact hm

/-- In every state of a run the pool's header, target and height were supplied together,
exactly when each height read from the node belongs to the header and the target of the
latest supply. -/
theorem coherent_iff (h : WorkRun c env config es pool) :
    Run.Always (fun pool e pool' ↦ pool' = pool.workStep c e) (.new env config) Coherent es ↔
      Log.Each SyncMatches es := by
  apply Run.always_iff_each (fun _ _ _ ↦ id) _ _ h
  · intro hne
    exact absurd rfl hne
  · rintro es pool e _ hr hc rfl
    exact coherent_step_iff hr hc e

/-- Work for the height 5 is supplied, then the height is read from the node. -/
def syncedEvents : List WorkEvent :=
  [⟨.updateWork "header" "target" 5 (some 1700000000), sampleEnv⟩,
    ⟨.syncBlockHeightFromNode, sampleEnv⟩]

/-- The pool holds the header for the height 5 as work for the height 3. -/
theorem not_coherent_of_sync : ∃ pool,
    WorkRun sampleCrates sampleEnv ⟨"http://localhost:8332", 1000⟩ syncedEvents pool ∧
      pool.currentWork.heightWork = ⟨"header", "target", 3⟩ ∧ ¬Coherent syncedEvents pool := by
  refine ⟨_, Run.foldl _ _ _, rfl, ?_⟩
  intro hc
  have hm := hc (List.cons_ne_nil _ _)
  exact absurd (congrArg HeightWork.height (List.mem_singleton.mp hm)) (by decide)

/-- A run that meets the condition: work for the height 3 is supplied and then confirmed. -/
theorem coherent_iff_confirmed :
    Run.Always (fun pool e pool' ↦ pool' = pool.workStep sampleCrates e)
        (.new sampleEnv ⟨"http://localhost:8332", 1000⟩) Coherent
        [⟨.updateWork "header" "target" 3 none, sampleEnv⟩,
          ⟨.syncBlockHeightFromNode, sampleEnv⟩] ↔
      Log.Each SyncMatches
        [⟨.updateWork "header" "target" 3 none, sampleEnv⟩,
          ⟨.syncBlockHeightFromNode, sampleEnv⟩] :=
  coherent_iff (Run.foldl _ _ _)

end PoolState
end SilverPow.Stratum
