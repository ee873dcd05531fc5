import Kms.Client.Manager

/-!
# TypeScript の watch manager

`SubscriptionManager` は一つの thread で動き、`await` の間にだけ他の処理が割り込む。`await` から次の `await` までを
一歩とする。値を書くと、その場で handle に知らせる。handle と watcher は放すことができ、namespace は参照が無くなると
購読から外れる。

* `TsManager` / `TsEvent` / `tsStep` — 状態と一歩
-/

namespace Kms.Client

open Kms.Infra

structure KnownValue where
  value : String
  present : Bool
  revision : Nat
  deriving DecidableEq

def KnownValue.current (k : KnownValue) : Option String := if k.present then some k.value else none

structure TsHandle where
  ref : Ref
  /-- 登録の時に渡された値。 -/
  seed : Option String
  held : Option String
  /-- 登録の後に知らされた値の列。 -/
  received : List (Option String)
  active : Bool
  deriving DecidableEq

def TsHandle.receive (v : Option String) (h : TsHandle) : TsHandle :=
  { h with held := v, received := h.received ++ [v] }

/-- 登録から今までに渡された値の列。 -/
def TsHandle.seen (h : TsHandle) : List (Option String) := h.seed :: h.received

/-- `runSession` の局所変数。 -/
structure TsSession where
  stream : Stream
  generation : Nat
  /-- `requestFullSnapshot`。 -/
  full : Bool
  deriving DecidableEq

inductive TsPassState where
  | idle
  /-- `generation` は始めに控えた `namespaceGeneration` である。 -/
  | running (generation : Nat) (pass : Pass)
  /-- `reconcile` の返した値。 -/
  | returned (complete : Bool)
  deriving DecidableEq

structure TsManager where
  log : List Entry
  /-- `retainNamespace` の列。参照の数は、列に現れる回数である。 -/
  retained : List NamespaceRef
  streamNamespaces : List NamespaceRef
  handles : List TsHandle
  watchers : List (NamespaceRef × Bool)
  known : Table (Prod.fst : Ref × KnownValue → Ref)
  lastRevision : Nat
  namespaceGeneration : Nat
  snapshotGeneration : Nat
  session : Option TsSession
  pass : TsPassState
  /-- 登録の前に読んだ値。 -/
  reads : Nat → Option (Ref × String)

namespace TsManager

def empty : TsManager where
  log := []
  retained := []
  streamNamespaces := []
  handles := []
  watchers := []
  known := Table.empty
  lastRevision := 0
  namespaceGeneration := 0
  snapshotGeneration := 0
  session := none
  pass := .idle
  reads := fun _ => none

def maxReconcilePages : Nat := 100

def namespaces (m : TsManager) : List NamespaceRef := m.retained.dedup

def known? (m : TsManager) (p : Ref) : Option KnownValue := (m.known.get p).map Prod.snd

def knownValue (m : TsManager) (p : Ref) : Option String := (m.known? p).bind KnownValue.current

def hasHandlers (m : TsManager) (p : Ref) : Bool :=
  m.handles.any (fun h => h.active && decide (h.ref = p))

def deleteKnown (m : TsManager) (drop : Ref → Bool) : TsManager :=
  { m with known := m.known.deleteWhere (fun row => drop row.1) }

/-! ## 値を書く -/

/-- 前の項と違うか。 -/
def changed (previous : Option KnownValue) : Option String → Bool
  | some v => !(previous.any KnownValue.present) ||
    decide ((previous.map KnownValue.value) ≠ some v)
  | none => previous.any KnownValue.present

def nextKnown (previous : Option KnownValue) (v : Option String) (revision : Nat) : KnownValue :=
  let nextRevision := match previous with
    | some k => if revision < k.revision then k.revision else revision
    | none => revision
  ⟨v.getD "", v.isSome, nextRevision⟩

/-- handle の無い path の、無くなったという項は残さない。 -/
def store (m : TsManager) (p : Ref) (k : KnownValue) : TsManager :=
  if !k.present && !m.hasHandlers p then m.deleteKnown (fun r => decide (r = p))
  else { m with known := m.known.upsert (p, k) }

def notify (m : TsManager) (p : Ref) (v : Option String) : TsManager :=
  { m with
    handles := m.handles.map (fun h => if h.active && decide (h.ref = p) then h.receive v else h) }

def setValue (m : TsManager) (p : Ref) (v : Option String) (revision : Nat) (reconcile : Bool) :
    TsManager :=
  let previous := m.known? p
  if reconcile && decide (revision < m.lastRevision) then m
  else if previous.any (fun k => !revAllowsWrite k.revision revision reconcile) then m
  else
    let m' := m.store p (nextKnown previous v revision)
    if changed previous v then m'.notify p v else m'

def setValues (m : TsManager) (items : List (Ref × Option String)) (revision : Nat)
    (reconcile : Bool) : TsManager :=
  items.foldl (fun m rv => m.setValue rv.1 rv.2 revision reconcile) m

/-! ## session -/

def shouldApply (m : TsManager) (revision : Nat) : Bool :=
  decide (revision = 0) || decide (m.lastRevision < revision)

def advanceRevision (m : TsManager) (revision : Nat) : TsManager :=
  { m with lastRevision := if m.lastRevision < revision then revision else m.lastRevision }

/-- snapshot に無い、購読している既知の path。 -/
def absentKnown (m : TsManager) (present : List Ref) : List Ref :=
  (m.known.rows.filter (fun row => row.2.present && decide (row.1 ∉ present) &&
    decide (row.1.ns ∈ m.streamNamespaces))).map Prod.fst

def applySnapshot (m : TsManager) (items : List (Ref × String)) (revision : Nat) : TsManager :=
  let m' := m.setValues (items.map (fun kv => (kv.1, some kv.2))) revision false
  m'.setValues ((m'.absentKnown (items.map Prod.fst)).map (fun r => (r, none))) revision false

/-- `handleEvent`。 -/
def handle (m : TsManager) (s : TsSession) (revision : Nat) : Message → TsManager
  | .snapshot items =>
    let m' := m.applySnapshot items revision
    { m' with
      snapshotGeneration :=
        if s.full then max m'.snapshotGeneration s.generation
        else m'.snapshotGeneration }.advanceRevision revision
  | .change r v =>
    (if m.shouldApply revision then m.setValue r v revision false else m).advanceRevision revision
  | .secretChange _ | .heartbeat => m.advanceRevision revision

/-- 届いた一通。namespace の集まりが変わっていたら、session を終える。 -/
def receive (m : TsManager) (s : TsSession) (next : Stream × Option (Message × Nat)) : TsManager :=
  match next.2 with
  | none => { m with session := some { s with stream := next.1 } }
  | some (msg, revision) =>
    if s.generation ≠ m.namespaceGeneration then { m with session := none }
    else { m with session := some { s with stream := next.1 } }.handle s revision msg

/-- `runSession` の、最初の送信まで。 -/
def subscribe (m : TsManager) : TsManager :=
  if m.session = none ∧ m.retained ≠ [] then
    let full := decide (m.snapshotGeneration < m.namespaceGeneration)
    { m with
      streamNamespaces := m.namespaces
      session := some ⟨⟨m.namespaces, .requested (if full then 0 else m.lastRevision)⟩,
        m.namespaceGeneration, full⟩ }
  else m

/-! ## 登録 -/

/-- `retainNamespace`。 -/
def retain (m : TsManager) (ns : NamespaceRef) : TsManager :=
  { m with
    retained := m.retained ++ [ns]
    namespaceGeneration :=
      if ns ∈ m.retained then m.namespaceGeneration else m.namespaceGeneration + 1 }

/-- `releaseNamespace`。最後の参照が無くなると、その namespace の項を全て捨てる。 -/
def releaseNamespace (m : TsManager) (ns : NamespaceRef) : TsManager :=
  let m' := { m with retained := m.retained.erase ns }
  if ns ∈ m'.retained then m'
  else
    { m'.deleteKnown (fun r => decide (r.ns = ns)) with
      namespaceGeneration := m.namespaceGeneration + 1 }

def setRead (m : TsManager) (i : Nat) (r : Option (Ref × String)) : TsManager :=
  { m with reads := fun j => if j = i then r else m.reads j }

/-- 最初の値を読む。無ければ既定値 `fallback` を使い、それも無ければ登録は失敗する。 -/
def fetch (m : TsManager) (i : Nat) (p : Ref) (fallback : Option String) : TsManager :=
  m.setRead i (((current m.log p).or fallback).map (fun v => (p, v)))

/-- 新しい handle の値。知られている path なら、handler が知られている値で呼ばれる。 -/
def seed (m : TsManager) (p : Ref) (initial : String) : Option String :=
  match m.known? p with
  | none => some initial
  | some k => k.current

def registerParameter (m : TsManager) (p : Ref) (initial : String) : TsManager :=
  let handle : TsHandle := ⟨p, m.seed p initial, m.seed p initial, [], true⟩
  let m' : TsManager := match m.known? p with
    | none =>
      { m with
        known := m.known.upsert (p, ⟨initial, true, 0⟩)
        handles := m.handles ++ [handle] }
    | some _ => { m with handles := m.handles ++ [handle] }
  m'.retain p.ns

def register (m : TsManager) (i : Nat) : TsManager :=
  match m.reads i with
  | some (p, initial) => (m.registerParameter p initial).setRead i none
  | none => m

/-- handle を放す。最後の handle なら、無くなったという項も捨てる。 -/
def releaseHandle (m : TsManager) (i : Nat) : TsManager :=
  match m.handles[i]? with
  | some h =>
    if h.active then
      let m' := { m with handles := m.handles.set i { h with active := false } }
      let m'' :=
        if !m'.hasHandlers h.ref && (m'.known? h.ref).any (fun k => !k.present) then
          m'.deleteKnown (fun r => decide (r = h.ref))
        else m'
      m''.releaseNamespace h.ref.ns
    else m
  | none => m

def watch (m : TsManager) (ns : NamespaceRef) : TsManager :=
  { m with watchers := m.watchers ++ [(ns, true)] }.retain ns

def releaseWatcher (m : TsManager) (i : Nat) : TsManager :=
  match m.watchers[i]? with
  | some (ns, true) => { m with watchers := m.watchers.set i (ns, false) }.releaseNamespace ns
  | _ => m

/-! ## reconcile -/

/-- `reconcile` の始まり。今ある path の全てを控える。 -/
def beginPass (m : TsManager) : TsManager :=
  match m.pass with
  | .running _ _ => m
  | _ =>
    { m with
      pass := .running m.namespaceGeneration (Pass.start m.lastRevision m.namespaces
        ((m.known.rows.filter (fun row => row.2.present)).map Prod.fst)) }

/-- 控えた時から、namespace の集まりも revision も変わっていない。 -/
def unmoved (m : TsManager) (generation : Nat) (pass : Pass) : Bool :=
  decide (generation = m.namespaceGeneration) && decide (pass.snapRev = m.lastRevision)

/-- 全ての namespace の一覧の後。 -/
def finishPass (m : TsManager) (generation : Nat) (pass : Pass) : TsManager :=
  if m.unmoved generation pass then
    let sweep := (pass.missing pass.listed).filter (fun rv => decide (rv.1.ns ∈ m.namespaces))
    let m' := m.setValues sweep pass.snapRev true
    { m' with
      pass := .returned (pass.namespaces.all (fun ns => decide (ns ∈ pass.listed)) &&
        m'.unmoved generation pass) }
  else { m with pass := .returned false }

/--
一巡の一歩。

読んだ頁は、届いた時に namespace の集まりが変わっていなければ、続けて書かれる。読み出し (`ok`) と書き込みの間には
他の処理が割り込む。
-/
def passStep (m : TsManager) (ok : Bool) : TsManager :=
  match m.pass with
  | .running generation pass =>
    match pass.queue with
    | [] =>
      if pass.listing = none ∧ pass.waiting = [] then m.finishPass generation pass
      else
        { m with pass := .running generation (pass.advance .afterAll maxReconcilePages m.log ok) }
    | items =>
      if generation = m.namespaceGeneration then
        { m.setValues items pass.snapRev true with
          pass := .running generation { pass with queue := [] } }
      else
        { m with pass := .running generation { pass with queue := [], listing := none } }
  | _ => m

end TsManager

/-! ## 一歩 -/

inductive TsEvent where
  /-- store の transaction が一行を commit する。 -/
  | commit (e : Entry)
  | fetch (i : Nat) (p : Ref) (fallback : Option String)
  | register (i : Nat)
  | releaseHandle (i : Nat)
  | watch (ns : NamespaceRef)
  | releaseWatcher (i : Nat)
  | subscribe
  | answer (full : Bool)
  | receive
  | heartbeat
  | disconnect
  | beginPass
  | pass (ok : Bool)
  deriving DecidableEq

def tsStep (m : TsManager) : TsEvent → TsManager
  | .commit e => { m with log := m.log ++ [e] }
  | .fetch i p fallback => m.fetch i p fallback
  | .register i => m.register i
  | .releaseHandle i => m.releaseHandle i
  | .watch ns => m.watch ns
  | .releaseWatcher i => m.releaseWatcher i
  | .subscribe => m.subscribe
  | .answer full =>
    { m with
      session := m.session.map (fun s => { s with stream := s.stream.answer m.log full }) }
  | .receive =>
    match m.session with
    | some s => m.receive s (s.stream.next m.log)
    | none => m
  | .heartbeat =>
    match m.session with
    | some s => m.receive s (s.stream, s.stream.heartbeat)
    | none => m
  | .disconnect => { m with session := none }
  | .beginPass => m.beginPass
  | .pass ok => m.passStep ok

end Kms.Client
