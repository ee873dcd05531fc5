import Kms.Infra.Loop
import Kms.Storage.SessionTarget
import Kms.Watch.Hub

/-!
# backlog の計算

`internal/watch/hub.go` の `computeBacklog` / `canReplay` / `replayEntries` を写す。読み出しは一つずつ別の
transaction で、その間に他の transaction が commit する。`k` 番目の読み出しが見る store を `view k` で表し、番号は
`CurrentRevision` が `0`、`OldestRetainedRevision` が `1`、`ListChangesSince` の頁が `2` からで、
`SnapshotParameters` がその次である。

* `View` — ある時点の store と、それまでに commit された全ての entry
* `computeBacklog` — 頁の読み出しの回数を燃料で限る。燃料が尽きたら `none`
-/

namespace Kms.Watch

open Kms.Infra Kms.Storage

/-! ## replay -/

def canReplay (snapshotMaxReplay : Nat) (log : ChangeLog) (lastSeen current : Nat) : Bool :=
  if lastSeen = 0 ∨ lastSeen > current then false
  else if current - lastSeen > snapshotMaxReplay then false
  else decide (oldestRetainedRevision log ≠ 0 ∧ oldestRetainedRevision log ≤ lastSeen + 1)

/-- `replayEntries` の局所変数。 -/
structure ReplayState where
  cursor : Nat
  out : List ChangeLogModel
  deriving DecidableEq

/-- 一頁の走査。`none` は穴か、incarnation の分からない行を見付けたことを表す。 -/
def scanPage (reg : Registration) (current : Nat) :
    ReplayState → List ChangeLogModel → Except Err (Option ReplayState)
  | st, [] => .ok (some st)
  | st, e :: es =>
    if e.revision > current then .ok (some st)
    else if e.revision ≠ st.cursor + 1 then .ok none
    else if isResourceChange e = false then scanPage reg current { st with cursor := e.revision } es
    else if e.ref.ns ∉ reg.namespaces then scanPage reg current { st with cursor := e.revision } es
    else
      match reg.namespaceIDs e.ref.ns with
      | none | some 0 =>
        .error (.aborted s!"namespace incarnation binding was lost for {e.ref.ns}")
      | some (id + 1) =>
        if e.namespaceID = 0 then .ok none
        else if e.namespaceID ≠ id + 1 then
          scanPage reg current { st with cursor := e.revision } es
        else scanPage reg current ⟨e.revision, st.out ++ [e]⟩ es

/-- `replayEntries` の loop の一回。結果の `none` は、replay が完全でないことを表す。 -/
def replayPage (log : Nat → ChangeLog) (reg : Registration) (current k : Nat) (st : ReplayState) :
    ReplayState ⊕ Except Err (Option (List ChangeLogModel)) :=
  if st.cursor < current then
    let batch := listChangesSince (log k) st.cursor dispatchBatch
    if batch = [] then .inr (.ok none)
    else
      match scanPage reg current st batch with
      | .error e => .inr (.error e)
      | .ok none => .inr (.ok none)
      | .ok (some st') =>
        if st'.cursor ≥ current then .inr (.ok (some st'.out))
        else if batch.length < dispatchBatch then .inr (.ok none)
        else .inl st'
  else .inr (.ok (some st.out))

def replayEntries (log : Nat → ChangeLog) (reg : Registration) (current fuel : Nat) :
    Option (Nat × Except Err (Option (List ChangeLogModel))) :=
  iterate (replayPage log reg current) fuel 2 ⟨reg.lastSeenRevision, []⟩

/-! ## backlog -/

/-- `Subscribe` が、許可を得た incarnation を文脈に結び付ける。 -/
def bindNamespaces (rq : Request) (reg : Registration) : Request :=
  { rq with
    incarnation := fun ns =>
      if ns ∈ reg.namespaces then reg.namespaceIDs ns else rq.incarnation ns }

def snapshotBacklog (rq : Request) (s : Store) (reg : Registration) : Except Err Backlog := do
  let (params, snapRev) ← snapshotParameters (bindNamespaces rq reg) s reg.namespaces
  pure ⟨true, params, [], snapRev⟩

def computeBacklog (rq : Request) (snapshotMaxReplay : Nat) (view : Nat → Store)
    (reg : Registration) (fuel : Nat) : Option (Except Err Backlog) :=
  let current := currentRevision (view 0).changeLog
  if canReplay snapshotMaxReplay (view 1).changeLog reg.lastSeenRevision current then
    match replayEntries (fun k => (view k).changeLog) reg current fuel with
    | none => none
    | some (_, .error e) => some (.error e)
    | some (_, .ok (some replay)) => some (.ok ⟨false, [], replay, current⟩)
    | some (k, .ok none) => some (snapshotBacklog rq (view k) reg)
  else some (snapshotBacklog rq (view 2) reg)

/-! ## 見える store -/

structure View where
  store : Store
  history : List ChangeLogModel
  contiguous : history.map (·.revision) = List.range' 1 store.changeLog.seq
  retained : ∀ e ∈ store.changeLog, e ∈ history

/-- 一つの transaction が commit した後。 -/
def View.transact (v : View) (s : Store) (h : LogStep v.store.changeLog s.changeLog) : View where
  store := s
  history := v.history ++ committedBy v.store.changeLog s.changeLog
  contiguous := by
    rw [List.map_append, v.contiguous, h.contiguous, Nat.add_comm _ 1, List.range'_append_1,
      Nat.add_sub_cancel' h.seq_le]
  retained := by
    intro e he
    rcases h.retained he with hold | hnew
    · exact List.mem_append_left _ (v.retained e hold)
    · exact List.mem_append_right _ hnew

/-- store の操作は、どれも view を一つ進める。 -/
def View.call [Hashing] (v : View) (c : Call) : View :=
  v.transact (step v.store c) (step_sessionEffect rfl).logStep

/-- 幾つかの transaction の後の view。 -/
def Later : View → View → Prop :=
  Relation.ReflTransGen (fun v v' => ∃ s h, v' = v.transact s h)

theorem Later.history {v v' : View} (h : Later v v') : v.history <+: v'.history := by
  induction h with
  | refl => exact List.prefix_rfl
  | tail _ hstep ih =>
    obtain ⟨s, hs, rfl⟩ := hstep
    exact ih.trans (List.prefix_append _ _)

end Kms.Watch
