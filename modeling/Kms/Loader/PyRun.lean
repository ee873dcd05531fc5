import Kms.Infra.Lifecycle
import Kms.Infra.Run
import Kms.Loader.Candidate

/-!
# Python の `ReleaseLoader.run`

`sdk/python/kms_paramstore/release.py` の二つの thread を、lock を取る区間と共有変数を読む点で切った
event の列として写す。

* 処理 thread — `run` の loop と `_process_candidate`。`mode` が program counter である
* watch thread と `stop` の呼び出し — `_candidate_cond` を取って `offer` し、失敗を記録し、cancel する

`fenced` は、処理 thread が `_candidate_cond` を持ったまま `commit` を呼んでいる間である。その間、他の
thread の lock を取る event は進まない。
-/

namespace Kms.Loader.Py

open Kms.Infra

/-! ## 候補 -/

abbrev Identity := Nat × Nat × String × String

def identity (c : Candidate) : Identity :=
  (c.revision, (c.release.map Release.version).getD 0, (c.release.map Release.name).getD "",
    (c.release.map Release.digest).getD "")

abbrev releaseMatchesTrack (release : Option Release) (track : ReleaseTrack) : Bool :=
  releaseHasAddress release track

/-- `GetInstanceRelease` の返事。 -/
inductive Response where
  | error (notFound : Bool)
  | target (candidate : Candidate)
  deriving DecidableEq

/-- `_read_active` の結果。 -/
inductive Read where
  | ok (candidate : Candidate)
  | notFound
  | failed
  deriving DecidableEq

def readActive (track : ReleaseTrack) : Response → Read
  | .error true => .notFound
  | .error false => .failed
  | .target c =>
    match c.release with
    | none => .notFound
    | some r =>
      if r.name = "" then .failed
      else if releaseMatchesTrack c.release track then .ok c
      else .failed

/-! ## 状態 -/

/-- `_process_candidate` の結果。 -/
inductive Outcome where
  | applied
  | superseded
  | rejected (category : RejectCategory)
  deriving DecidableEq

/-- `run` が終わる理由。 -/
inductive Exit where
  | stopped
  | watchFailed
  /-- `ReleaseCommitError`。 -/
  | contractFailed
  | startupFailed
  | rejected (category : RejectCategory)
  deriving DecidableEq

/-- 処理 thread の位置。 -/
inductive Mode where
  /-- watch thread を起こした後、最初の候補を `_offer_candidate` する前。 -/
  | starting (initial : Option Candidate)
  /-- `while` の条件。 -/
  | head
  /-- loop の先頭の `_raise_watch_error`。 -/
  | polling
  | taking
  /-- `_take_candidate` の後の `_raise_watch_error`。 -/
  | taken (candidate : Option Candidate)
  | idle
  | reconciling
  | installing (candidate : Candidate)
  | resolving
  | preparing
  /-- `prepare` が返った直後。 -/
  | prepared
  /-- 反映前の `_read_active` の返事待ち。 -/
  | reading
  /-- 最後の検査の lock を待っている。 -/
  | fencing
  /-- lock を持って `commit` を呼んでいる。 -/
  | fenced
  /-- `except _CandidateFailure` の先頭。 -/
  | failing (category : RejectCategory)
  /-- `_process_candidate` の `finally`。 -/
  | closing (outcome : Outcome)
  /-- `_record_retry_eligibility`。 -/
  | recording (candidate : Candidate) (outcome : Outcome)
  /-- 起動時の失敗を返す前の `_read_active`。 -/
  | confirming (candidate : Candidate) (category : RejectCategory)
  /-- `_graceful_shutdown_after_ack`。 -/
  | draining (category : RejectCategory)
  /-- `run` の `finally`。 -/
  | finalizing (reason : Exit)
  | exited (reason : Exit)
  deriving DecidableEq

/-- 処理中の候補。`_active_cancel` と `_active_identity` はこれを指す。 -/
structure Active where
  candidate : Candidate
  cancelled : Bool
  /-- 処理を始めた順番。証明のためだけに持つ。 -/
  ticket : Nat
  /-- 処理を始めてから受け入れた候補。証明のためだけに持つ。 -/
  accepted : List Candidate
  deriving DecidableEq

abbrev Log := List (Lifecycle.Entry Candidate Report)

structure State where
  pending : Option Candidate
  active : Option Active
  latest : Option Identity
  retry : Option Identity
  /-- `_stop_event`。 -/
  stopped : Bool
  watchError : Bool
  appliedOnce : Bool
  /-- 最初の読み出しが target を返した。 -/
  hadInitial : Bool
  mode : Mode
  /-- 処理を始めた回数。証明のためだけに持つ。 -/
  tickets : Nat
  /-- 処理の記録。新しい順。証明のためだけに持つ。 -/
  log : Log

def State.empty : State where
  pending := none
  active := none
  latest := none
  retry := none
  stopped := false
  watchError := false
  appliedOnce := false
  hadInitial := false
  mode := .head
  tickets := 0
  log := []

/-! ## `_candidate_cond` の下で動く部分 -/

/-- `_active_cancel.set()`。 -/
def cancelActive (s : State) : State :=
  { s with active := s.active.map fun a => { a with cancelled := true } }

/-- `_offer_candidate` が候補を捨てない条件。 -/
def accepts (track : ReleaseTrack) (s : State) (c : Candidate) : Bool :=
  releaseMatchesTrack c.release track &&
    match s.latest with
    | none => true
    | some latest =>
      if c.revision < latest.1 then false
      else if identity c = latest then
        decide (c.source = .reconciliation) && decide (s.retry = some (identity c))
      else true

/-- 処理中の候補と違う候補を受け入れると、処理中の候補を cancel する。 -/
def Active.note (a : Active) (c : Candidate) : Active :=
  { a with
    cancelled := a.cancelled || decide (identity c ≠ identity a.candidate)
    accepted := c :: a.accepted }

def offer (track : ReleaseTrack) (s : State) (c : Candidate) : State :=
  if accepts track s c then
    { s with
      latest := some (identity c)
      retry := none
      active := s.active.map fun a => a.note c
      pending := some c }
  else s

/-- `_record_retry_eligibility`。 -/
def recordRetry (s : State) (c : Candidate) (outcome : Outcome) : State :=
  match outcome with
  | .rejected _ =>
    if s.latest = some (identity c) then { s with retry := some (identity c) }
    else if s.retry = some (identity c) then { s with retry := none }
    else s
  | _ => if s.retry = some (identity c) then { s with retry := none } else s

/-! ## 処理 thread -/

/-- application の `prepare` の結果。error の分類は application が付ける。 -/
inductive PrepareOutcome where
  | ok
  | failed (classified : Option RejectCategory)
  /-- `commit` か `abort` を持たない値を返した。 -/
  | invalid
  deriving DecidableEq

/-- `_process_candidate` から例外で抜ける。`finally` も動く。 -/
def leave (s : State) (a : Active) (reason : Exit) (entries : Log) : State :=
  { s with
    active := none
    mode := .finalizing reason
    log := .closed a.ticket :: (entries ++ s.log) }

/-- `_abort_or_fail` の後、`_CandidateFailure` を投げる。 -/
def abortOrFail (s : State) (a : Active) (category : RejectCategory) (abortBroken : Bool)
    (entries : Log) : State :=
  if abortBroken then
    leave s a .contractFailed
      (.reported a.ticket a.candidate (.rejected .internal) :: .aborted a.ticket :: entries)
  else
    { s with
      mode := .failing category
      log := .aborted a.ticket :: (entries ++ s.log) }

inductive Event where
  /-- watch thread の `_offer_candidate`。 -/
  | offer (candidate : Candidate)
  /-- watch thread が終端の失敗を記録する。 -/
  | watchFail
  /-- `stop` の `_stop_event.set()`。 -/
  | stop
  /-- `stop` の lock の区間。 -/
  | stopCancel
  | begin
  | loop
  | poll
  | take
  | dispatch
  /-- reconcile の時刻になったかどうか。 -/
  | wait (due : Bool)
  | reconcileRead (response : Response)
  | install
  /-- `_resolve` が返る。`none` は成功。 -/
  | resolve (failure : Option RejectCategory)
  | prepare (outcome : PrepareOutcome)
  /-- `abortBroken` は、`abort` を呼んだ場合にそれが契約を破るかどうか。 -/
  | check (abortBroken : Bool)
  | read (response : Response) (abortBroken : Bool)
  | fence (abortBroken : Bool)
  | commit (outcome : CommitOutcome)
  | fail
  | release
  | record
  | confirmRead (response : Response)
  | shutdown
  | finalize

/-- `_process_candidate` の中の一歩。`a` は処理中の候補である。 -/
def stepActive (track : ReleaseTrack) (s : State) (a : Active) (e : Event) : State :=
  match s.mode, e with
  | .resolving, .resolve none =>
    { s with
      mode := if a.cancelled then .failing .superseded else .preparing
      log := .reported a.ticket a.candidate (.plain .received) :: s.log }
  | .resolving, .resolve (some category) => { s with mode := .failing category }
  | .preparing, .prepare .ok =>
    { s with mode := .prepared, log := .prepared a.ticket :: s.log }
  | .preparing, .prepare (.failed classified) =>
    { s with
      mode := .failing (if a.cancelled then .superseded else classified.getD .prepareFailed) }
  | .preparing, .prepare .invalid => { s with mode := .failing .prepareFailed }
  | .prepared, .check abortBroken =>
    if a.cancelled then abortOrFail s a .superseded abortBroken []
    else
      { s with
        mode := .reading
        log := .issued a.ticket :: .reported a.ticket a.candidate (.plain .prepared) :: s.log }
  | .reading, .read response abortBroken =>
    match readActive track response with
    | .ok active =>
      if a.cancelled = true ∨ identity active ≠ identity a.candidate then
        abortOrFail s a .superseded abortBroken [.returned a.ticket active]
      else { s with mode := .fencing, log := .returned a.ticket active :: s.log }
    | _ => abortOrFail s a .activeCheck abortBroken []
  | .fencing, .fence abortBroken =>
    if a.cancelled then abortOrFail s a .superseded abortBroken [] else { s with mode := .fenced }
  | .fenced, .commit .broken => leave s a .contractFailed [.committed a.ticket a.candidate]
  | .fenced, .commit (.returned divergent count) =>
    { s with
      mode := .closing .applied
      log := .reported a.ticket a.candidate ⟨.applied, none, divergent, count⟩ ::
        .committed a.ticket a.candidate :: s.log }
  | .failing category, .fail =>
    if s.watchError then leave s a .watchFailed []
    else
      { s with
        mode := .closing (if category = .superseded then .superseded else .rejected category)
        log := .reported a.ticket a.candidate (.rejected category) :: s.log }
  | .closing outcome, .release =>
    { s with
      active := none
      mode := .recording a.candidate outcome
      log := .closed a.ticket :: s.log }
  | _, _ => s

/-- `run` の loop の一歩。 -/
def stepLoop (track : ReleaseTrack) (s : State) (e : Event) : State :=
  match s.mode, e with
  | .starting initial, .begin =>
    match initial with
    | some c => offer track { s with mode := .head } { c with source := .reconciliation }
    | none => { s with mode := .head }
  | .head, .loop => { s with mode := if s.stopped then .finalizing .stopped else .polling }
  | .polling, .poll =>
    { s with mode := if s.watchError then .finalizing .watchFailed else .taking }
  | .taking, .take => { s with mode := .taken s.pending, pending := none }
  | .taken candidate, .dispatch =>
    if s.watchError then { s with mode := .finalizing .watchFailed }
    else
      match candidate with
      | some c => { s with mode := .installing c }
      | none => { s with mode := .idle }
  | .idle, .wait due => { s with mode := if due then .reconciling else .head }
  | .reconciling, .reconcileRead response =>
    match readActive track response with
    | .ok c => offer track { s with mode := .head } { c with source := .reconciliation }
    | .notFound => { s with mode := .head }
    | .failed =>
      if s.appliedOnce = false ∧ s.hadInitial = true then
        { s with mode := .finalizing .startupFailed }
      else { s with mode := .head }
  | .installing c, .install =>
    if s.watchError then { s with mode := .finalizing .watchFailed }
    else
      { s with
        active := some ⟨c, false, s.tickets + 1, []⟩
        tickets := s.tickets + 1
        mode := .resolving
        log := .started (s.tickets + 1) c :: s.log }
  | .recording c outcome, .record =>
    let s := recordRetry s c outcome
    match outcome with
    | .applied => { s with appliedOnce := true, mode := .head }
    | .superseded => { s with mode := .head }
    | .rejected category =>
      if s.appliedOnce then { s with mode := .head } else { s with mode := .confirming c category }
  | .confirming c category, .confirmRead response =>
    match readActive track response with
    | .ok fresh =>
      if identity fresh ≠ identity c then
        offer track { s with mode := .head } { fresh with source := .reconciliation }
      else { s with mode := .draining category }
    | _ => { s with mode := .draining category }
  | .draining category, .shutdown => { s with mode := .finalizing (.rejected category) }
  | .finalizing reason, .finalize =>
    { s with
      stopped := true
      mode := .exited (if s.watchError ∧ reason ≠ .contractFailed then .watchFailed else reason) }
  | _, _ => s

def step (track : ReleaseTrack) (s : State) (e : Event) : State :=
  match e with
  | .offer c => if s.mode = .fenced then s else offer track s { c with source := .reconciliation }
  | .watchFail => if s.mode = .fenced then s else cancelActive { s with watchError := true }
  | .stop => { s with stopped := true }
  | .stopCancel => if s.stopped = true ∧ s.mode ≠ .fenced then cancelActive s else s
  | e =>
    match s.active with
    | some a => stepActive track s a e
    | none => stepLoop track s e

/-- 最初の読み出しの後。`none` は、target がまだ無い。 -/
def init (initial : Option Candidate) : State :=
  { State.empty with hadInitial := initial.isSome, mode := .starting initial }

def runFrom (track : ReleaseTrack) (initial : Option Candidate) (es : List Event) : State :=
  run (step track) (init initial) es

end Kms.Loader.Py
