import Kms.Infra.Lifecycle
import Kms.Infra.Run
import Kms.Loader.Candidate

/-!
# TypeScript の `ReleaseLoader.run`

`sdk/typescript/src/releases/loader.ts` の `run` と `#processCandidate` を、`await` で中断する点で切った
event の列として写す。中断の間の code は一つの event であり、途中に他の event は割り込まない。

* watch loop と reconcile loop は `offer` だけを呼ぶ
* `#processCandidate` の `await`: `resolve` → `prepare` → `read`
* `handle` — `#processCandidate` の promise に付けた `then` の本体
* 起動時の失敗は、`then` の本体の中でさらに `await` する。その続きを `startups` に持つ

`finished` には、`Promise.race` が最初に受け取った結果だけが残る。
-/

namespace Kms.Loader.Ts

open Kms.Infra

/-! ## 状態 -/

/-- `#processCandidate` が待っている `await`。 -/
inductive Phase where
  | resolving
  | preparing
  | reading
  deriving DecidableEq

structure Worker where
  candidate : Candidate
  phase : Phase
  /-- 候補の `AbortController` が abort された。 -/
  aborted : Bool
  deriving DecidableEq

/-- `CandidateResult`。 -/
structure Result where
  candidate : Candidate
  applied : Bool
  category : Option RejectCategory
  fatal : Bool
  deriving DecidableEq

/-- 起動時の失敗を返す前に待っている `await`。 -/
inductive StartupStage where
  /-- 読み直しの `#getActive`。 -/
  | reading
  /-- `#waitForAcknowledgement`。 -/
  | acknowledging
  /-- `closeStream` の `settleWithin`。 -/
  | closing
  /-- `watchTask` の `settleWithin`。 -/
  | draining
  deriving DecidableEq

structure Startup where
  result : Result
  stage : StartupStage
  deriving DecidableEq

/-- `run` が reject する理由。 -/
inductive Outcome where
  | aborted
  | watchFailed
  /-- `commit` か `abort` が契約を破った。 -/
  | fatal
  /-- `ReleaseCandidateError`。どの候補の失敗かは証明のためだけに持つ。 -/
  | candidate (candidate : Candidate) (category : RejectCategory)
  deriving DecidableEq

abbrev Log := List (Lifecycle.Entry Candidate Report)

structure State where
  sequence : Nat
  latest : Option Candidate
  retryLatest : Bool
  pending : Option Candidate
  processing : Bool
  appliedOnce : Bool
  /-- `activeController` が abort する候補の `seq`。 -/
  activeController : Option Nat
  workers : List Worker
  /-- 解決した promise。`then` の本体はまだ動いていない。 -/
  results : List Result
  startups : List Startup
  /-- `runController` が abort された。 -/
  aborted : Bool
  finished : Option Outcome
  /-- 候補の処理の記録。新しい順。証明のためだけに持つ。 -/
  log : Log

def State.empty : State where
  sequence := 0
  latest := none
  retryLatest := false
  pending := none
  processing := false
  appliedOnce := false
  activeController := none
  workers := []
  results := []
  startups := []
  aborted := false
  finished := none
  log := []

/-! ## 受け入れ -/

abbrev releaseMatchesTrack (release : Option Release) (track : ReleaseTrack) : Bool :=
  releaseHasAddress release track

/-- `#getActive`。失敗と release の無い返事は `none`。 -/
def getActive (track : ReleaseTrack) (response : Option Candidate) : Option Candidate :=
  response.filter fun c => releaseMatchesTrack c.release track

/-- `finished` の promise を reject するか、abort する。 -/
def settle (s : State) (outcome : Outcome) : State :=
  { s with finished := s.finished.or (some outcome) }

def start (s : State) (candidate : Candidate) : State :=
  { s with
    activeController := some candidate.seq
    processing := true
    workers := s.workers ++ [⟨candidate, .resolving, false⟩]
    log := .started candidate.seq candidate :: s.log }

/-- `activeController?.abort(...)`。 -/
def abortActive (s : State) : State :=
  match s.activeController with
  | none => s
  | some seq =>
    { s with
      workers := s.workers.map fun w =>
        if w.candidate.seq = seq then { w with aborted := true } else w }

/-- `offer` が候補を受け入れる条件。 -/
def accepts (track : ReleaseTrack) (s : State) (incoming : Candidate) : Bool :=
  !s.aborted && releaseMatchesTrack incoming.release track &&
    shouldQueueReleaseCandidate incoming s.latest s.retryLatest

/-- 受け入れた候補を最新として記録する。 -/
def accept (s : State) (incoming : Candidate) : State :=
  { s with
    sequence := s.sequence + 1
    latest := some { incoming with seq := s.sequence + 1 }
    retryLatest := false }

def offer (track : ReleaseTrack) (s : State) (incoming : Candidate) : State :=
  if accepts track s incoming = false then s
  else if s.processing then
    { abortActive (accept s incoming) with
      pending := some { incoming with seq := s.sequence + 1 } }
  else start (accept s incoming) { incoming with seq := s.sequence + 1 }

/-- pending の候補があれば始める。 -/
def startPending (s : State) : State :=
  match s.pending with
  | some next => if s.aborted then s else start { s with pending := none } next
  | none => s

/-! ## `then` の本体 -/

def handle (s : State) : State :=
  match s.results with
  | [] => s
  | r :: rest =>
    let s := { s with
      results := rest
      processing := false
      activeController := none
      appliedOnce := s.appliedOnce || r.applied }
    if r.fatal then settle s .fatal
    else if s.latest.map Candidate.seq ≠ some r.candidate.seq then startPending s
    else
      match r.category with
      | none => startPending s
      | some category =>
        if category = .superseded then startPending s
        else if s.appliedOnce then startPending { s with retryLatest := true }
        else { s with startups := s.startups ++ [⟨r, .reading⟩] }

/-! ## 起動時の失敗 -/

inductive StartupEvent where
  | read (response : Option Candidate)
  /-- 確認の送信を終えた stream があったかどうか。 -/
  | acknowledged (delivered : Bool)
  | closed
  | drained
  /-- `await` が abort で reject した。 -/
  | interrupted

def advanceStartup (s : State) (i : Nat) (u : Startup) (stage : StartupStage) : State :=
  { s with startups := s.startups.set i { u with stage } }

def dropStartup (s : State) (i : Nat) : State :=
  { s with startups := s.startups.eraseIdx i }

/-- `finished.reject(new ReleaseCandidateError(result.category))`。 -/
def rejectStartup (s : State) (i : Nat) (u : Startup) : State :=
  settle (dropStartup s i) (.candidate u.result.candidate (u.result.category.getD .internal))

/-- `catch` の本体。abort された後にだけ動く。 -/
def interruptStartup (s : State) (i : Nat) : State :=
  if s.aborted then
    settle { dropStartup s i with processing := false, activeController := none } .aborted
  else s

def stepStartup (track : ReleaseTrack) (s : State) (i : Nat) (u : Startup) (e : StartupEvent) :
    State :=
  match u.stage, e with
  | .reading, .read response =>
    match getActive track response with
    | none => advanceStartup s i u .acknowledging
    | some fresh =>
      if sameActiveCandidate u.result.candidate fresh then advanceStartup s i u .acknowledging
      else offer track (dropStartup s i) { fresh with source := .reconciliation }
  | .acknowledging, .acknowledged delivered =>
    if delivered then advanceStartup s i u .closing else rejectStartup s i u
  | .closing, .closed => advanceStartup s i u .draining
  | .draining, .drained => rejectStartup s i u
  | .acknowledging, .interrupted => interruptStartup s i
  | .closing, .interrupted => interruptStartup s i
  | .draining, .interrupted => interruptStartup s i
  | _, _ => s

/-! ## `#processCandidate` -/

inductive WorkerEvent where
  /-- `#resolveCandidate` が返る。`none` は成功。 -/
  | resolve (failure : Option RejectCategory)
  /-- `abortBroken` は、`abort` を呼んだ場合にそれが契約を破るかどうか。 -/
  | prepare (outcome : PrepareOutcome) (abortBroken : Bool)
  | read (response : Option Candidate) (abortBroken : Bool) (commit : CommitOutcome)

def advance (s : State) (i : Nat) (w : Worker) (phase : Phase) (entries : Log) : State :=
  { s with
    workers := s.workers.set i { w with phase }
    log := entries ++ s.log }

/-- promise が結果で解決する。 -/
def finish (s : State) (i : Nat) (r : Result) (entries : Log) : State :=
  { s with
    workers := s.workers.eraseIdx i
    results := s.results ++ [r]
    log := entries ++ s.log }

/-- 準備する前の拒否。 -/
def reject (s : State) (i : Nat) (w : Worker) (category : RejectCategory) : State :=
  finish s i ⟨w.candidate, false, some category, false⟩
    [.closed w.candidate.seq, .reported w.candidate.seq w.candidate (.rejected category)]

/-- 準備した資源を `abort` してからの拒否。 -/
def rejectPrepared (s : State) (i : Nat) (w : Worker) (category : RejectCategory)
    (abortBroken : Bool) (entries : Log) : State :=
  let category := if abortBroken then .internal else category
  finish s i ⟨w.candidate, false, some category, abortBroken⟩
    (.closed w.candidate.seq :: .reported w.candidate.seq w.candidate (.rejected category) ::
      .aborted w.candidate.seq :: entries)

def stepWorker (track : ReleaseTrack) (s : State) (i : Nat) (w : Worker) (e : WorkerEvent) :
    State :=
  let aborted := w.aborted || s.aborted
  let t := w.candidate.seq
  match w.phase, e with
  | .resolving, .resolve none =>
    advance s i w .preparing [.reported t w.candidate (.plain .received)]
  | .resolving, .resolve (some category) => reject s i w (orSuperseded aborted category)
  | .preparing, .prepare (.failed classified) _ =>
    reject s i w (orSuperseded aborted (classified.getD .prepareFailed))
  | .preparing, .prepare .ok abortBroken =>
    if aborted then rejectPrepared s i w .superseded abortBroken [.prepared t]
    else
      advance s i w .reading [.issued t, .reported t w.candidate (.plain .prepared), .prepared t]
  | .reading, .read response abortBroken commit =>
    match getActive track response with
    | none => rejectPrepared s i w (orSuperseded aborted .activeCheck) abortBroken []
    | some active =>
      if aborted = true ∨ sameActiveCandidate w.candidate active = false then
        rejectPrepared s i w .superseded abortBroken [.returned t active]
      else
        match commit with
        | .broken =>
          finish s i ⟨w.candidate, false, some .internal, true⟩
            [.closed t, .committed t w.candidate, .returned t active]
        | .returned divergent count =>
          finish s i ⟨w.candidate, true, none, false⟩
            [.closed t, .reported t w.candidate ⟨.applied, none, divergent, count⟩,
              .committed t w.candidate, .returned t active]
  | _, _ => s

/-! ## event -/

inductive Event where
  | offer (candidate : Candidate)
  | worker (i : Nat) (e : WorkerEvent)
  | handle
  | startup (i : Nat) (e : StartupEvent)
  /-- watch loop が終端の error を投げる。 -/
  | watchFail
  /-- `stop` か、呼び出し側の signal。 -/
  | stop
  /-- `finally` の `runController.abort`。 -/
  | finalize

def step (track : ReleaseTrack) (s : State) : Event → State
  | .offer candidate => offer track s candidate
  | .worker i e =>
    match s.workers[i]? with
    | some w => stepWorker track s i w e
    | none => s
  | .handle => handle s
  | .startup i e =>
    match s.startups[i]? with
    | some u => stepStartup track s i u e
    | none => s
  | .watchFail => settle s .watchFailed
  | .stop => settle { s with aborted := true } .aborted
  | .finalize => if s.finished = none then s else { s with aborted := true }

/-- 最初の読み出しの後。target があれば `offer` する。 -/
def init (track : ReleaseTrack) (initial : Option Candidate) : State :=
  match initial with
  | some candidate => offer track State.empty { candidate with source := .reconciliation }
  | none => State.empty

def runFrom (track : ReleaseTrack) (initial : Option Candidate) (es : List Event) : State :=
  run (step track) (init track initial) es

end Kms.Loader.Ts
