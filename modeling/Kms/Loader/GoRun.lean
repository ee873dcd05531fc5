import Kms.Infra.Lifecycle
import Kms.Infra.Run
import Kms.Loader.Candidate

/-!
# Go の `ReleaseLoader.Run`

`sdk/go/kmsclient/release_loader.go` の `Run` の select loop、`processCandidate` の goroutine、watch
goroutine を、互いに割り込みうる点で切った event の列として写す。scheduler・application・server の選択
は全て event の引数である。できない event は何も変えない。

* loop: `takeEvent`・`tick`・`takeResult` などの select の case と、その中の読み出しの完了
* goroutine: `resolve` → `prepare` → `check` → `read` → `commit`

goroutine は list に持ち、loop が何本動かしうるかは model で決めない。
-/

namespace Kms.Loader.Go

open Kms.Infra

/-! ## 状態 -/

/-- `processCandidate` がどこまで進んだか。 -/
inductive Phase where
  /-- `resolveCandidate` の中。 -/
  | resolving
  /-- application の `prepare` の中。 -/
  | preparing
  /-- `prepare` が成功した直後。 -/
  | prepared
  /-- 反映前の `getActive` の返事待ち。 -/
  | reading
  /-- 全ての検査を通り、`Commit` を呼ぶ直前。 -/
  | committing
  deriving DecidableEq

structure Worker where
  candidate : Candidate
  phase : Phase
  /-- 候補の context が cancel された。 -/
  cancelled : Bool
  deriving DecidableEq

/-- `releaseCandidateResult`。`err` は `category` があるときに限り nil でない。 -/
structure Result where
  candidate : Candidate
  applied : Bool
  category : Option RejectCategory
  fatal : Bool
  deriving DecidableEq

/-- `Run` が返る理由。 -/
inductive Exit where
  | contextDone
  | watchFailed
  | commitPanicked
  | rejected (category : RejectCategory)
  deriving DecidableEq

inductive Mode where
  /-- select で待っている。 -/
  | select
  /-- ticker の case で `getActive` を待っている。 -/
  | reconciling
  /-- 起動時の失敗を返す前の `getActive` を待っている。 -/
  | confirming (result : Result)
  | exited (reason : Exit)
  deriving DecidableEq

abbrev Log := List (Lifecycle.Entry Candidate Report)

structure State where
  latestSeq : Nat
  latest : Option Candidate
  retryLatest : Bool
  /-- `activeCancel` が cancel する候補の `seq`。 -/
  activeCancel : Option Nat
  inFlight : Bool
  pending : Option Candidate
  appliedOnce : Bool
  mode : Mode
  /-- 容量 1 の channel。 -/
  events : Option Candidate
  workers : List Worker
  results : List Result
  contextDone : Bool
  watchFatal : Bool
  runCancelled : Bool
  /-- 受け入れた候補。新しい順。証明のためだけに持つ。 -/
  accepted : List Candidate
  /-- goroutine が残した記録。新しい順。証明のためだけに持つ。 -/
  log : Log

def State.empty : State where
  latestSeq := 0
  latest := none
  retryLatest := false
  activeCancel := none
  inFlight := false
  pending := none
  appliedOnce := false
  mode := .select
  events := none
  workers := []
  results := []
  contextDone := false
  watchFatal := false
  runCancelled := false
  accepted := []
  log := []

/-- `Run` がまだ返っていない。 -/
def State.running (s : State) : Bool :=
  match s.mode with
  | .exited _ => false
  | _ => true

/-! ## 受け入れ -/

/-- `getActive`。RPC の失敗と release の無い返事は `none`。 -/
def getActive (track : ReleaseTrack) (response : Option Candidate) : Option Candidate :=
  response.filter fun c => releaseHasAddress c.release track

def start (s : State) (candidate : Candidate) : State :=
  { s with
    activeCancel := some candidate.seq
    inFlight := true
    workers := s.workers ++ [⟨candidate, .resolving, false⟩]
    log := .started candidate.seq candidate :: s.log }

/-- `activeCancel` を呼ぶ。 -/
def cancelActive (s : State) : State :=
  match s.activeCancel with
  | none => s
  | some seq =>
    { s with
      workers := s.workers.map fun w =>
        if w.candidate.seq = seq then { w with cancelled := true } else w }

/-- 受け入れた候補を最新として記録する。 -/
def accept (s : State) (candidate : Candidate) : State :=
  { s with
    latestSeq := s.latestSeq + 1
    latest := some { candidate with seq := s.latestSeq + 1 }
    retryLatest := false
    accepted := { candidate with seq := s.latestSeq + 1 } :: s.accepted }

def queue (track : ReleaseTrack) (s : State) (candidate : Candidate) : State :=
  if releaseHasAddress candidate.release track = false then s
  else if shouldQueueReleaseCandidate candidate s.latest s.retryLatest = false then s
  else if s.inFlight then
    { cancelActive (accept s candidate) with
      pending := some { candidate with seq := s.latestSeq + 1 } }
  else start (accept s candidate) { candidate with seq := s.latestSeq + 1 }

/-! ## loop -/

/-- `Run` が返る。defer の `cancelRun` も呼ばれる。 -/
def exit (s : State) (reason : Exit) : State :=
  { s with runCancelled := true, mode := .exited reason }

/-- `result := <-results` の case。 -/
def takeResult (s : State) : State :=
  match s.results with
  | [] => s
  | r :: rest =>
    let s := { s with
      results := rest
      inFlight := false
      activeCancel := none
      appliedOnce := s.appliedOnce || r.applied }
    if r.fatal then exit s .commitPanicked
    else if r.candidate.seq ≠ s.latestSeq then
      match s.pending with
      | some next => start { s with pending := none } next
      | none => s
    else
      match r.category with
      | none => s
      | some category =>
        if category = .superseded then s
        else if s.appliedOnce then { s with retryLatest := true }
        else { s with mode := .confirming r }

/-- ticker の case の読み出しの完了。 -/
def reconcileRead (track : ReleaseTrack) (s : State) (response : Option Candidate) : State :=
  match getActive track response with
  | none => { s with mode := .select }
  | some c => queue track { s with mode := .select } { c with source := .reconciliation }

/-- 起動時の失敗を返す前の読み出しの完了。 -/
def confirmRead (track : ReleaseTrack) (s : State) (r : Result) (response : Option Candidate) :
    State :=
  match getActive track response with
  | none => exit s (.rejected (r.category.getD .internal))
  | some fresh =>
    if sameActiveCandidate r.candidate fresh then
      exit s (.rejected (r.category.getD .internal))
    else queue track { s with mode := .select } { fresh with source := .reconciliation }

/-! ## goroutine -/

inductive WorkerEvent where
  /-- `resolveCandidate` が返る。`none` は成功。 -/
  | resolve (failure : Option RejectCategory)
  | prepare (outcome : PrepareOutcome)
  /-- `prepare` の後の `ctx.Err()` の検査。 -/
  | check
  | read (response : Option Candidate)
  | commit (panics divergent : Bool) (divergentFieldCount : Nat)

/-- goroutine が次の段階へ進む。 -/
def advance (s : State) (i : Nat) (w : Worker) (phase : Phase) (entries : Log) : State :=
  { s with
    workers := s.workers.set i { w with phase }
    log := entries ++ s.log }

/-- goroutine が結果を channel に入れて終わる。 -/
def finish (s : State) (i : Nat) (r : Result) (entries : Log) : State :=
  { s with
    workers := s.workers.eraseIdx i
    results := s.results ++ [r]
    log := entries ++ s.log }

/-- `reject` して失敗の結果を返す。準備した資源があれば先に `Abort` する。 -/
def reject (s : State) (i : Nat) (w : Worker) (category : RejectCategory) (held : Bool)
    (entries : Log) : State :=
  finish s i ⟨w.candidate, false, some category, false⟩
    (.closed w.candidate.seq :: .reported w.candidate.seq w.candidate (.rejected category) ::
      ((if held then [.aborted w.candidate.seq] else []) ++ entries))

def stepWorker (track : ReleaseTrack) (s : State) (i : Nat) (w : Worker) (e : WorkerEvent) :
    State :=
  let cancelled := w.cancelled || s.runCancelled
  let t := w.candidate.seq
  match w.phase, e with
  | .resolving, .resolve none =>
    advance s i w .preparing [.reported t w.candidate (.plain .received)]
  | .resolving, .resolve (some category) =>
    reject s i w (orSuperseded cancelled category) false []
  | .preparing, .prepare .ok => advance s i w .prepared [.prepared t]
  | .preparing, .prepare (.failed classified) =>
    reject s i w (orSuperseded cancelled (classified.getD .prepareFailed)) false []
  | .prepared, .check =>
    if cancelled then reject s i w .superseded true []
    else advance s i w .reading [.issued t, .reported t w.candidate (.plain .prepared)]
  | .reading, .read response =>
    match getActive track response with
    | none => reject s i w (orSuperseded cancelled .activeCheck) true []
    | some active =>
      if sameActiveCandidate w.candidate active = false ∨ cancelled = true then
        reject s i w .superseded true [.returned t active]
      else advance s i w .committing [.returned t active]
  | .committing, .commit panics divergent count =>
    if panics then
      finish s i ⟨w.candidate, false, some .internal, true⟩ [.closed t, .committed t w.candidate]
    else
      finish s i ⟨w.candidate, true, none, false⟩
        [.closed t, .reported t w.candidate ⟨.applied, none, divergent, count⟩,
          .committed t w.candidate]
  | _, _ => s

/-! ## event -/

inductive Event where
  /-- watch goroutine の `offerLatestCandidate`。 -/
  | offer (candidate : Candidate)
  | takeEvent
  | tick
  | reconcileRead (response : Option Candidate)
  | takeResult
  | confirmRead (response : Option Candidate)
  | contextDone
  | takeContextDone
  /-- watch goroutine が error を channel に入れ、`cancelRun` を呼ぶ。 -/
  | watchFail
  | takeWatchFail
  | worker (i : Nat) (e : WorkerEvent)

def step (track : ReleaseTrack) (s : State) : Event → State
  | .offer candidate => { s with events := some candidate }
  | .takeEvent =>
    match s.mode, s.events with
    | .select, some candidate => queue track { s with events := none } candidate
    | _, _ => s
  | .tick => if s.mode = .select then { s with mode := .reconciling } else s
  | .reconcileRead response =>
    if s.mode = .reconciling then reconcileRead track s response else s
  | .takeResult => if s.mode = .select then takeResult s else s
  | .confirmRead response =>
    match s.mode with
    | .confirming r => confirmRead track s r response
    | _ => s
  | .contextDone => { s with contextDone := true, runCancelled := true }
  | .takeContextDone =>
    if s.mode = .select ∧ s.contextDone = true then exit s .contextDone else s
  | .watchFail => { s with watchFatal := true, runCancelled := true }
  | .takeWatchFail =>
    if s.mode = .select ∧ s.watchFatal = true then exit s .watchFailed else s
  | .worker i e =>
    match s.workers[i]? with
    | some w => stepWorker track s i w e
    | none => s

/-- loop に入る直前。最初の読み出しが target を返していれば、それを受け入れる。 -/
def init (track : ReleaseTrack) (initial : Option Candidate) : State :=
  match initial with
  | some candidate => queue track State.empty candidate
  | none => State.empty

end Kms.Loader.Go
