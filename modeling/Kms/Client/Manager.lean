import Kms.Client.ReconcilePass
import Kms.Infra.Run
import Kms.Infra.Table

/-!
# 二つの thread を持つ watch manager

Go の `subManager` と Python の `_SubManager` は同じ作りをしている。stream の thread と reconcile の thread が、
lock で守られた `known` に値を書き、書いた値が前と違えば、lock を放してから handle に一つずつ知らせる。登録は任意の
thread から来る。

二つの SDK の違い (`known` の項の形、登録の仕方、消えた parameter を書く時期、頁の上限) は `Sdk` に集める。

* `Sdk` — SDK ごとの違いと、その法則
* `Manager` / `WatchEvent` / `watchStep` — 状態と一歩
* `setValue_cases` — `setValue` の結果は、退けるか書くかである
-/

namespace Kms.Client

open Kms.Infra

/-! ## SDK の違い -/

structure Sdk where
  /-- `known` の項。 -/
  Known : Type
  /-- 登録が、最初の読み出しの前に控えるもの。 -/
  Ticket : Type
  value : Known → Option String
  rev : Known → Nat
  /-- `setValue` が書く項。 -/
  write : Option Known → Option String → Nat → Known
  ticket : Option Known → Ticket
  /-- 登録の後の項と、新しい handle が持つ値。 -/
  register : Option Known → Ticket → String → Known × Option String
  sweepTime : SweepTime
  /-- 一つの namespace に許す頁の数。 -/
  maxReconcilePages : Nat
  value_write : ∀ prev v r, value (write prev v r) = v
  rev_write : ∀ prev v r, rev (write prev v r) = max ((prev.map rev).getD 0) r
  register_none : ∀ t v, value (register none t v).1 = some v ∧
    rev (register none t v).1 = 0 ∧ (register none t v).2 = some v
  rev_register_le : ∀ k t v, rev (register (some k) t v).1 ≤ rev k
  register_source : ∀ k t v,
    (value (register (some k) t v).1 = value k ∨ value (register (some k) t v).1 = some v) ∧
      ((register (some k) t v).2 = value k ∨ (register (some k) t v).2 = some v)

/-- `revAllowsWrite`。reconcile の読み出しは控えた revision までの値を、live event はより新しい値だけを書く。 -/
def revAllowsWrite (prevRev rev : Nat) (reconcile : Bool) : Bool :=
  if reconcile then decide (prevRev ≤ rev) else decide (rev = 0) || decide (prevRev < rev)

/-! ## 状態 -/

/-- 登録された値。`held` は最後に知らされた値で、無くなったことを知らされたら `none` である。 -/
structure Handle where
  ref : Ref
  /-- 登録の時に渡された値。 -/
  seed : Option String
  held : Option String
  /-- 登録の後に知らされた値の列。 -/
  received : List (Option String)
  deriving DecidableEq

def Handle.receive (v : Option String) (h : Handle) : Handle :=
  { h with held := v, received := h.received ++ [v] }

/-- 登録から今までに渡された値の列。 -/
def Handle.seen (h : Handle) : List (Option String) := h.seed :: h.received

/-- handle に知らせている途中の値。 -/
structure Delivery where
  ref : Ref
  value : Option String
  rev : Nat
  handles : List Nat
  deriving DecidableEq

/-- stream の thread が処理している message。 -/
inductive Handling where
  | idle
  /-- `queue` を書き、snapshot なら (`some present`) 無くなった parameter を調べ、`lastRev` を進める。 -/
  | applying (rev : Nat) (queue : List (Ref × Option String)) (snapshot : Option (List Ref))
  deriving DecidableEq

def Handling.rev : Handling → Nat
  | .idle => 0
  | .applying rev _ _ => rev

inductive PassState where
  | idle
  /-- namespace と path を控え、revision をまだ控えていない。 -/
  | captured (namespaces : List NamespaceRef) (paths : List Ref)
  | running (pass : Pass)
  deriving DecidableEq

inductive Thread where
  | stream
  | reconcile
  deriving DecidableEq

/-- 登録の途中の読み出し。 -/
structure Read (sdk : Sdk) where
  ref : Ref
  ticket : sdk.Ticket
  initial : Option String

structure Manager (sdk : Sdk) where
  log : List Entry
  namespaces : List NamespaceRef
  streamNamespaces : List NamespaceRef
  handles : List Handle
  known : Table (Prod.fst : Ref × sdk.Known → Ref)
  lastRev : Nat
  stream : Option Stream
  handling : Handling
  pass : PassState
  delivering : Thread → Option Delivery
  reads : Nat → Option (Read sdk)

namespace Manager

variable {sdk : Sdk}

def empty (sdk : Sdk) : Manager sdk where
  log := []
  namespaces := []
  streamNamespaces := []
  handles := []
  known := Table.empty
  lastRev := 0
  stream := none
  handling := .idle
  pass := .idle
  delivering := fun _ => none
  reads := fun _ => none

def known? (m : Manager sdk) (p : Ref) : Option sdk.Known := (m.known.get p).map Prod.snd

/-- manager の知っている値。知らない path は無いものと同じである。 -/
def knownValue (m : Manager sdk) (p : Ref) : Option String := (m.known? p).bind sdk.value

def handlersOf (m : Manager sdk) (p : Ref) : List Nat :=
  (List.range m.handles.length).filter (fun i => m.handles[i]?.any (fun h => decide (h.ref = p)))

def setDelivering (m : Manager sdk) (t : Thread) (d : Option Delivery) : Manager sdk :=
  { m with delivering := fun t' => if t' = t then d else m.delivering t' }

/-! ## 値を書く -/

def changed (prev : Option sdk.Known) : Option String → Bool
  | some v => prev.isNone || decide (prev.bind sdk.value ≠ some v)
  | none => prev.isSome && decide (prev.bind sdk.value ≠ none)

/-- `setValue` の lock の中。書いた後の `known` と、知らせるべきもの。 -/
def setValue (m : Manager sdk) (p : Ref) (v : Option String) (rev : Nat) (reconcile : Bool) :
    Table (Prod.fst : Ref × sdk.Known → Ref) × Option Delivery :=
  let prev := m.known? p
  if prev.any (fun k => !revAllowsWrite (sdk.rev k) rev reconcile) then (m.known, none)
  else
    (m.known.upsert (p, sdk.write prev v rev),
      if changed prev v then some ⟨p, v, rev, m.handlersOf p⟩ else none)

/-- thread `t` が `setValue` を呼ぶ。 -/
def write (m : Manager sdk) (t : Thread) (p : Ref) (v : Option String) (rev : Nat)
    (reconcile : Bool) : Manager sdk :=
  let out := m.setValue p v rev reconcile
  { m with known := out.1 }.setDelivering t out.2

/-- 待っている handle の一つに知らせる。 -/
def notify (m : Manager sdk) (t : Thread) (d : Delivery) : Manager sdk :=
  match d.handles with
  | [] => m.setDelivering t none
  | i :: rest =>
    { m with handles := m.handles.modify i (Handle.receive d.value) }.setDelivering t
      (some { d with handles := rest })

/-! ## stream の thread -/

def shouldApply (m : Manager sdk) (rev : Nat) : Bool := decide (rev = 0) || decide (m.lastRev < rev)

/-- `handleEvent` の始まり。 -/
def handle (m : Manager sdk) (rev : Nat) : Message → Manager sdk
  | .snapshot items =>
    { m with handling := .applying rev (items.map (fun kv => (kv.1, some kv.2)))
                (some (items.map Prod.fst)) }
  | .change r v =>
    { m with handling := .applying rev (if m.shouldApply rev then [(r, v)] else []) none }
  | .secretChange _ | .heartbeat => { m with handling := .applying rev [] none }

def absentKnownPaths (m : Manager sdk) (present : List Ref) : List Ref :=
  (m.known.rows.filter (fun row => (sdk.value row.2).isSome && decide (row.1 ∉ present) &&
    decide (row.1.ns ∈ m.streamNamespaces))).map Prod.fst

/-- stream の thread が空いている時だけ、次の一通を受け取る。 -/
def receive (m : Manager sdk) (st : Stream) (next : Stream × Option (Message × Nat)) :
    Manager sdk :=
  if m.handling = .idle ∧ m.delivering .stream = none ∧ m.stream = some st then
    match next.2 with
    | none => { m with stream := some next.1 }
    | some (msg, rev) => { m with stream := some next.1 }.handle rev msg
  else m

/-- 受け取った message の処理の一歩。 -/
def streamStep (m : Manager sdk) : Manager sdk :=
  match m.delivering .stream, m.handling with
  | some d, _ => m.notify .stream d
  | none, .idle => m
  | none, .applying rev ((r, v) :: rest) snap =>
    { m with handling := .applying rev rest snap }.write .stream r v rev false
  | none, .applying rev [] (some present) =>
    { m with
      handling := .applying rev ((m.absentKnownPaths present).map (fun r => (r, none))) none }
  | none, .applying rev [] none => { m with lastRev := max m.lastRev rev, handling := .idle }

/-- namespace を集めて購読を始める。 -/
def subscribe (m : Manager sdk) : Manager sdk :=
  if m.stream = none ∧ m.namespaces ≠ [] ∧ m.handling = .idle ∧ m.delivering .stream = none then
    { m with
      streamNamespaces := m.namespaces
      stream := some ⟨m.namespaces, .requested m.lastRev⟩ }
  else m

def disconnect (m : Manager sdk) : Manager sdk :=
  if m.handling = .idle ∧ m.delivering .stream = none then { m with stream := none } else m

/-! ## reconcile の thread -/

/-- 前の一巡が終わっている。 -/
def passIdle (m : Manager sdk) : Bool :=
  (m.delivering .reconcile).isNone &&
    match m.pass with
    | .idle => true
    | .captured _ _ => false
    | .running pass => pass.finished

/-- `reconcile` の始まり。購読している namespace と、handle のある path を控える。 -/
def beginPass (m : Manager sdk) : Manager sdk :=
  if m.passIdle then { m with pass := .captured m.namespaces (m.handles.map Handle.ref).dedup }
  else m

def passStep (m : Manager sdk) (ok : Bool) : Manager sdk :=
  match m.delivering .reconcile, m.pass with
  | some d, _ => m.notify .reconcile d
  | none, .idle => m
  | none, .captured namespaces paths =>
    { m with pass := .running (Pass.start m.lastRev namespaces paths) }
  | none, .running pass =>
    match pass.queue with
    | (r, v) :: rest =>
      { m with pass := .running { pass with queue := rest } }.write .reconcile r v pass.snapRev true
    | [] =>
      { m with pass := .running (pass.advance sdk.sweepTime sdk.maxReconcilePages m.log ok) }

/-- 書く順も namespace を読む順も、map の列挙順であり、任意である。 -/
def reorder (m : Manager sdk) (t : Thread) (queue : List (Ref × Option String))
    (waiting : List NamespaceRef) : Manager sdk :=
  match t, m.handling, m.pass with
  | .stream, .applying rev q snap, _ =>
    if queue.Perm q then { m with handling := .applying rev queue snap } else m
  | .reconcile, _, .running pass =>
    if queue.Perm pass.queue ∧ waiting.Perm pass.waiting then
      { m with pass := .running { pass with queue, waiting } }
    else m
  | _, _, _ => m

/-! ## 登録 -/

/-- `addNamespaceLocked`。 -/
def addNamespace (m : Manager sdk) (ns : NamespaceRef) : Manager sdk :=
  if ns ∈ m.namespaces then m else { m with namespaces := m.namespaces ++ [ns] }

def setRead (m : Manager sdk) (i : Nat) (r : Option (Read sdk)) : Manager sdk :=
  { m with reads := fun j => if j = i then r else m.reads j }

/-- 読み出しの前に控える。 -/
def prepare (m : Manager sdk) (i : Nat) (p : Ref) : Manager sdk :=
  match m.reads i with
  | none => m.setRead i (some ⟨p, sdk.ticket (m.known? p), none⟩)
  | some _ => m

/-- 最初の値を読む。無ければ既定値 `fallback` を使い、それも無ければ登録は失敗する。 -/
def fetch (m : Manager sdk) (i : Nat) (fallback : Option String) : Manager sdk :=
  match m.reads i with
  | some ⟨p, t, none⟩ =>
    match current m.log p, fallback with
    | some v, _ => m.setRead i (some ⟨p, t, some v⟩)
    | none, some v => m.setRead i (some ⟨p, t, some v⟩)
    | none, none => m.setRead i none
  | _ => m

/-- `registerParam` の lock の中。 -/
def registerRead (m : Manager sdk) (p : Ref) (t : sdk.Ticket) (v : String) : Manager sdk :=
  let out := sdk.register (m.known? p) t v
  { m.addNamespace p.ns with
    known := m.known.upsert (p, out.1)
    handles := m.handles ++ [⟨p, out.2, out.2, []⟩] }

def register (m : Manager sdk) (i : Nat) : Manager sdk :=
  match m.reads i with
  | some ⟨p, t, some v⟩ => (m.registerRead p t v).setRead i none
  | _ => m

end Manager

/-! ## 一歩 -/

inductive WatchEvent where
  /-- store の transaction が一行を commit する。 -/
  | commit (e : Entry)
  | prepare (i : Nat) (p : Ref)
  | fetch (i : Nat) (fallback : Option String)
  | register (i : Nat)
  | registerWatcher (ns : NamespaceRef)
  | subscribe
  | answer (full : Bool)
  | receive
  | heartbeat
  | disconnect
  | stream
  | beginPass
  | pass (ok : Bool)
  | reorder (t : Thread) (queue : List (Ref × Option String)) (waiting : List NamespaceRef)
  deriving DecidableEq

def watchStep {sdk : Sdk} (m : Manager sdk) : WatchEvent → Manager sdk
  | .commit e => { m with log := m.log ++ [e] }
  | .prepare i p => m.prepare i p
  | .fetch i fallback => m.fetch i fallback
  | .register i => m.register i
  | .registerWatcher ns => m.addNamespace ns
  | .subscribe => m.subscribe
  | .answer full => { m with stream := m.stream.map (fun st => st.answer m.log full) }
  | .receive =>
    match m.stream with
    | some st => m.receive st (st.next m.log)
    | none => m
  | .heartbeat =>
    match m.stream with
    | some st => m.receive st (st, st.heartbeat)
    | none => m
  | .disconnect => m.disconnect
  | .stream => m.streamStep
  | .beginPass => m.beginPass
  | .pass ok => m.passStep ok
  | .reorder t queue waiting => m.reorder t queue waiting

end Kms.Client
