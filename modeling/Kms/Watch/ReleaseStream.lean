import Kms.Storage.Reads
import Kms.Watch.Backlog

/-!
# release の購読

`internal/watch/releases.go` の `SubscribeRelease` と、hub の dispatch loop のうち有効化を配る部分を写す。

* `ReleaseSubscription` — 一つ分の channel。`deliverLocked` は mutex の中で三段に分かれ、その間にも consumer は読む
* `nextPhase` — `SubscribeRelease` の一つの読み出し。読み出しは一つずつ別の transaction である
* `ReleaseHub` / `releaseAct` — hub の状態と、一つの action

store の状態は `View` で、他の transaction は全て `call` として任意の時点に入る。
-/

namespace Kms.Watch

open Kms.Infra Kms.Storage

/-! ## 登録と event -/

/-- 登録のうち、配送の範囲を決める欄。 -/
structure ReleaseRegistration where
  ns : NamespaceRef
  namespaceID : Nat
  name : String
  schemaVersion : Nat
  lastSeenRevision : Nat
  deriving DecidableEq

namespace ReleaseRegistration

def track (reg : ReleaseRegistration) : ReleaseTrack := ⟨reg.ns, reg.name, reg.schemaVersion⟩

def key (reg : ReleaseRegistration) : TrackKey := ⟨reg.namespaceID, reg.name, reg.schemaVersion⟩

/-- `BindNamespaceIncarnation` で結び付けた文脈。 -/
def request (reg : ReleaseRegistration) : Request where
  now := 0
  incarnation := fun ns => if ns = reg.ns then some reg.namespaceID else none

/-- entry が系列の名前を持つか。incarnation は見ない。 -/
def ofTrack (reg : ReleaseRegistration) (e : ChangeLogModel) : Bool :=
  decide (e.resourceType = .configurationRelease ∧ e.ref.ns = reg.ns ∧ e.ref.key = reg.name ∧
    e.schemaVersion = reg.schemaVersion)

end ReleaseRegistration

def ReleaseRegistration.matches (reg : ReleaseRegistration) (e : ChangeLogModel) : Bool :=
  reg.ofTrack e && decide (0 < reg.namespaceID ∧ e.namespaceID = reg.namespaceID)

/-- 購読者に渡す event。live の event は release の本体を持たない。 -/
structure ReleaseEvent where
  release : Option ConfigurationRelease
  ns : NamespaceRef
  name : String
  schemaVersion : Nat
  namespaceID : Nat
  version : Nat
  revision : Nat
  deriving DecidableEq

/-- change log の entry から作る live の event。 -/
def ReleaseEvent.live (e : ChangeLogModel) : ReleaseEvent where
  release := none
  ns := e.ref.ns
  name := e.ref.key
  schemaVersion := e.schemaVersion
  namespaceID := e.namespaceID
  version := e.versionNumber
  revision := e.revision

structure ReleaseBacklog where
  isSnapshot : Bool
  events : List ReleaseEvent
  revision : Nat
  deriving DecidableEq

/-! ## subscription -/

/-- `deliverLocked` の居場所。 -/
inductive DeliverStage where
  | trySend
  | drain
  | send
  deriving DecidableEq

structure ReleaseSubscription where
  ready : Bool
  closed : Bool
  pending : Option ChangeLogModel
  backlog : ReleaseBacklog
  lastSent : Nat
  /-- 一つ分の channel。 -/
  events : Option ReleaseEvent
  delivering : Option (ChangeLogModel × DeliverStage)
  /-- consumer が読んだ event。 -/
  received : List ReleaseEvent

namespace ReleaseSubscription

def new : ReleaseSubscription where
  ready := false
  closed := false
  pending := none
  backlog := ⟨false, [], 0⟩
  lastSent := 0
  events := none
  delivering := none
  received := []

/-- `offer`。mutex を取れる時に呼ばれる。 -/
def offer (s : ReleaseSubscription) (reg : ReleaseRegistration) (e : ChangeLogModel) :
    ReleaseSubscription :=
  if s.closed ∨ reg.matches e = false ∨ e.revision ≤ s.lastSent then s
  else if s.ready = false then { s with pending := some e }
  else { s with delivering := some (e, .trySend) }

def delivered (s : ReleaseSubscription) (e : ChangeLogModel) : ReleaseSubscription :=
  { s with events := some (.live e), lastSent := e.revision, delivering := none }

/-- `deliverLocked` の一段。最後の送信は、channel が空くまで待つ。 -/
def deliver (s : ReleaseSubscription) : ReleaseSubscription :=
  match s.delivering with
  | none => s
  | some (e, .trySend) =>
    if s.events = none then s.delivered e else { s with delivering := some (e, .drain) }
  | some (e, .drain) => { s with events := none, delivering := some (e, .send) }
  | some (e, .send) => if s.events = none then s.delivered e else s

/-- `activate`。溜めた entry は、backlog より新しければ送る。 -/
def activate (s : ReleaseSubscription) (bl : ReleaseBacklog) : ReleaseSubscription :=
  if s.closed then s
  else
    { s with
      backlog := bl
      lastSent := bl.revision
      ready := true
      delivering := (s.pending.filter (fun p => decide (bl.revision < p.revision))).map
        (fun p => (p, .trySend))
      pending := none }

def close (s : ReleaseSubscription) : ReleaseSubscription := { s with closed := true }

/-- consumer が channel から一つ読む。 -/
def receive (s : ReleaseSubscription) : ReleaseSubscription :=
  match s.events with
  | none => s
  | some ev => { s with events := none, received := s.received ++ [ev] }

end ReleaseSubscription

/-! ## `SubscribeRelease` -/

/-- `computeReleaseBacklog` の局所変数。 -/
structure ReleaseReplay where
  cursor : Nat
  events : List ReleaseEvent
  deriving DecidableEq

/-- `SubscribeRelease` の居場所。`current` は、登録の後に最初に読んだ revision である。 -/
inductive SubscribePhase where
  | checkNamespace
  | checkSchema
  | register
  | readRevision
  | readOldest (current : Nat)
  | readPage (current : Nat) (st : ReleaseReplay)
  | readRelease (current : Nat) (st : ReleaseReplay) (e : ChangeLogModel)
      (rest : List ChangeLogModel) (full : Bool)
  | readActive (current : Nat)
  | activate (bl : ReleaseBacklog)
  | unlock
  | returned
  | failed (err : Err)
  deriving DecidableEq

def SubscribePhase.registered : SubscribePhase → Bool
  | .checkNamespace | .checkSchema | .register => false
  | _ => true

/-- 読み終えた replay。空の replay は snapshot に替わる。 -/
def replayed (current : Nat) (st : ReleaseReplay) : SubscribePhase :=
  if st.events = [] then .readActive current else .activate ⟨false, st.events, current⟩

/-- 頁の終わり。短い頁が `current` に届かなければ、log に穴がある。 -/
def endPage (current : Nat) (full : Bool) (st : ReleaseReplay) : SubscribePhase :=
  if st.cursor ≥ current then replayed current st
  else if full = false then .readActive current
  else .readPage current st

/-- 頁の残りの走査。この系列の entry では、release を読みに行く。 -/
def scanReleases (reg : ReleaseRegistration) (current : Nat) (full : Bool) :
    ReleaseReplay → List ChangeLogModel → SubscribePhase
  | st, [] => endPage current full st
  | st, e :: es =>
    if e.revision > current then endPage current full st
    else if e.revision ≠ st.cursor + 1 then .readActive current
    else if reg.ofTrack e = false then
      scanReleases reg current full { st with cursor := e.revision } es
    else if e.namespaceID = 0 then .readActive current
    else if e.namespaceID ≠ reg.namespaceID then
      scanReleases reg current full { st with cursor := e.revision } es
    else .readRelease current { st with cursor := e.revision } e es full

/-- replay の event。 -/
def ReleaseRegistration.replayEvent (reg : ReleaseRegistration) (rel : ConfigurationRelease)
    (e : ChangeLogModel) : ReleaseEvent where
  release := some rel
  ns := reg.ns
  name := reg.name
  schemaVersion := e.schemaVersion
  namespaceID := e.namespaceID
  version := e.versionNumber
  revision := e.revision

/-- `releaseSnapshotBacklog` の event。 -/
def ReleaseRegistration.snapshotEvent (reg : ReleaseRegistration)
    (active : ActiveConfigurationRelease) : ReleaseEvent where
  release := some active.release
  ns := reg.ns
  name := reg.name
  schemaVersion := reg.schemaVersion
  namespaceID := reg.namespaceID
  version := active.release.version
  revision := active.activationRevision

def nextPhase (snapshotMaxReplay : Nat) (s : Store) (reg : ReleaseRegistration) :
    SubscribePhase → SubscribePhase
  | .checkNamespace =>
    if reg.namespaceID = 0 then
      .failed (.invalidArgument s!"namespace incarnation is required for {reg.ns}")
    else
      match resolveNamespaceID reg.request s reg.ns with
      | .error err => .failed err
      | .ok id =>
        if id ≠ reg.namespaceID then
          .failed (.aborted s!"namespace {reg.ns} changed during subscribe; retry")
        else if reg.schemaVersion ≠ 0 then .checkSchema
        else .register
  | .checkSchema =>
    match getConfigurationSchema s reg.ns.app reg.name reg.schemaVersion with
    | .error err => .failed err
    | .ok _ => .register
  | .register => .readRevision
  | .readRevision => .readOldest (currentRevision s.changeLog)
  | .readOldest current =>
    if canReplay snapshotMaxReplay s.changeLog reg.lastSeenRevision current then
      if reg.lastSeenRevision < current then .readPage current ⟨reg.lastSeenRevision, []⟩
      else replayed current ⟨reg.lastSeenRevision, []⟩
    else .readActive current
  | .readPage current st =>
    let batch := listChangesSince s.changeLog st.cursor dispatchBatch
    if batch = [] then .readActive current
    else scanReleases reg current (decide (dispatchBatch ≤ batch.length)) st batch
  | .readRelease current st e rest full =>
    match getConfigurationRelease reg.request s reg.track e.versionNumber with
    | .ok rel =>
      scanReleases reg current full { st with events := st.events ++ [reg.replayEvent rel e] } rest
    | .error err => if err.is .notFound then .readActive current else .failed err
  | .readActive current =>
    match getActiveConfigurationRelease reg.request s reg.track with
    | .ok active =>
      .activate ⟨true, [reg.snapshotEvent active], max current active.activationRevision⟩
    | .error err => if err.is .notFound then .activate ⟨true, [], current⟩ else .failed err
  | phase => phase

/-- 読み出しの失敗。保持されている範囲を読めなければ snapshot に替わり、他は呼び出しが失敗する。 -/
def failedRead : SubscribePhase → SubscribePhase
  | .readOldest current => .readActive current
  | .readPage _ _ | .readRelease .. | .readActive _ | .readRevision | .checkNamespace
  | .checkSchema => .failed (.plain "store error")
  | phase => phase

/-! ## hub -/

/-- 一つの `SubscribeRelease` の呼び出しと、その subscription。 -/
structure ReleaseSlot where
  reg : ReleaseRegistration
  sub : ReleaseSubscription
  phase : SubscribePhase
  /-- 登録した時の revision。証明のためだけに持つ。 -/
  registeredAt : Nat
  /-- 登録の後に最初に読んだ revision。証明のためだけに持つ。 -/
  revisionRead : Nat

/-- 配送中の entry は `batch` の先頭である。 -/
structure ReleaseDelivery where
  /-- 写した購読者のうち、まだ渡していないもの。 -/
  remaining : List Nat
  /-- 送信の終わりを待っている購読者。 -/
  busy : Option Nat
  deriving DecidableEq

structure ReleaseHub where
  view : View
  cursor : Nat
  batch : List ChangeLogModel
  inflight : Option ReleaseDelivery
  slots : Nat → Option ReleaseSlot
  nextID : Nat
  snapshotMaxReplay : Nat

/-- `Run` が起動時の revision を読んだ直後の hub。 -/
def ReleaseHub.start (view : View) (snapshotMaxReplay : Nat) : ReleaseHub where
  view := view
  cursor := currentRevision view.store.changeLog
  batch := []
  inflight := none
  slots := fun _ => none
  nextID := 0
  snapshotMaxReplay := snapshotMaxReplay

inductive ReleaseAction where
  | call (c : Call)
  | drain
  | dispatch (order : List Nat)
  | offer
  | deliver (id : Nat)
  | finish
  | subscribe (reg : ReleaseRegistration)
  | advance (id : Nat)
  | storeFails (id : Nat)
  | close (id : Nat)
  | receive (id : Nat)

namespace ReleaseHub

def registered (h : ReleaseHub) : List Nat :=
  (List.range (h.nextID + 1)).filter
    (fun id => (h.slots id).any (fun s => s.phase.registered && !s.sub.closed))

def setSlot (h : ReleaseHub) (id : Nat) (s : ReleaseSlot) : ReleaseHub :=
  { h with slots := fun i => if i = id then some s else h.slots i }

/-- 前の頁を配り終えたら、cursor より後の頁を読む。 -/
def drain (h : ReleaseHub) : ReleaseHub :=
  match h.batch, h.inflight with
  | [], none => { h with batch := listChangesSince h.view.store.changeLog h.cursor dispatchBatch }
  | _, _ => h

/-- 先頭の entry の配送を始める。有効化でない entry は、この購読者たちには渡さない。 -/
def dispatch (h : ReleaseHub) (order : List Nat) : ReleaseHub :=
  match h.batch, h.inflight with
  | e :: rest, none =>
    if e.resourceType = .configurationRelease then
      -- map の列挙順は任意である。
      if order.Perm h.registered then { h with inflight := some ⟨order, none⟩ } else h
    else { h with batch := rest, cursor := e.revision }
  | _, _ => h

/-- 一人の購読者に渡す。mutex が空くまで待ち、送信が始まればその終わりを待つ。 -/
def offerTo (h : ReleaseHub) (e : ChangeLogModel) (id : Nat) (ids : List Nat) : ReleaseHub :=
  match h.slots id with
  | none => { h with inflight := some ⟨ids, none⟩ }
  | some s =>
    if s.sub.delivering = none then
      { h.setSlot id { s with sub := s.sub.offer s.reg e } with
        inflight := some ⟨ids, if (s.sub.offer s.reg e).delivering = none then none else some id⟩ }
    else h

def offer (h : ReleaseHub) : ReleaseHub :=
  match h.batch, h.inflight with
  | e :: _, some ⟨id :: ids, none⟩ => h.offerTo e id ids
  | _, _ => h

/-- 送信の一段。送り終えたら、待っていた dispatch loop が進む。 -/
def deliver (h : ReleaseHub) (id : Nat) : ReleaseHub :=
  match h.slots id with
  | none => h
  | some s =>
    { h.setSlot id { s with sub := s.sub.deliver } with
      inflight := h.inflight.map (fun d =>
        if d.busy = some id ∧ s.sub.deliver.delivering = none then { d with busy := none } else d) }

def finish (h : ReleaseHub) : ReleaseHub :=
  match h.batch, h.inflight with
  | e :: rest, some ⟨[], none⟩ => { h with batch := rest, cursor := e.revision, inflight := none }
  | _, _ => h

def subscribe (h : ReleaseHub) (reg : ReleaseRegistration) : ReleaseHub :=
  { h.setSlot (h.nextID + 1) ⟨reg, .new, .checkNamespace, 0, 0⟩ with nextID := h.nextID + 1 }

/-- 失敗した呼び出しは、購読を閉じる。 -/
def fallTo (s : ReleaseSlot) (phase : SubscribePhase) : ReleaseSlot :=
  match phase with
  | .failed err => { s with phase := .failed err, sub := s.sub.close }
  | phase => { s with phase }

/-- `SubscribeRelease` を一つ進める。 -/
def advance (h : ReleaseHub) (id : Nat) : ReleaseHub :=
  match h.slots id with
  | none => h
  | some s =>
    let revision := currentRevision h.view.store.changeLog
    match s.phase with
    | .returned | .failed _ => h
    | .register => h.setSlot id { s with phase := .readRevision, registeredAt := revision }
    | .readRevision =>
      h.setSlot id { s with phase := .readOldest revision, revisionRead := revision }
    | .activate bl =>
      if s.sub.delivering = none then
        h.setSlot id { s with phase := .unlock, sub := s.sub.activate bl }
      else h
    | .unlock => if s.sub.delivering = none then h.setSlot id { s with phase := .returned } else h
    | phase => h.setSlot id
      (fallTo s (nextPhase h.snapshotMaxReplay h.view.store s.reg phase))

def storeFails (h : ReleaseHub) (id : Nat) : ReleaseHub :=
  match h.slots id with
  | none => h
  | some s => h.setSlot id (fallTo s (failedRead s.phase))

/-- 購読者を閉じる。mutex が要る。 -/
def close (h : ReleaseHub) (id : Nat) : ReleaseHub :=
  match h.slots id with
  | none => h
  | some s => if s.sub.delivering = none then h.setSlot id { s with sub := s.sub.close } else h

/-- 呼び出しが返った後、consumer は channel を読める。 -/
def receive (h : ReleaseHub) (id : Nat) : ReleaseHub :=
  match h.slots id with
  | none => h
  | some s =>
    if s.phase = .returned then h.setSlot id { s with sub := s.sub.receive } else h

end ReleaseHub

def releaseAct [Hashing] (h : ReleaseHub) : ReleaseAction → ReleaseHub
  | .call c => { h with view := h.view.call c }
  | .drain => h.drain
  | .dispatch order => h.dispatch order
  | .offer => h.offer
  | .deliver id => h.deliver id
  | .finish => h.finish
  | .subscribe reg => h.subscribe reg
  | .advance id => h.advance id
  | .storeFails id => h.storeFails id
  | .close id => h.close id
  | .receive id => h.receive id

end Kms.Watch
