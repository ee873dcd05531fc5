import Kms.Storage.ChangeLog

/-!
# 購読の一つの stream

`internal/watch/subscription.go` を写す。event の channel は、まだ読まれていない `events` と、client が
読み終えた `received` の二つに分けて持つ。channel に送られた列は `sent` である。
-/

namespace Kms.Watch

open Kms.Infra Kms.Storage

/-! ## 登録と backlog -/

/-- 購読の登録。`namespaceIDs` は、許可を得た namespace incarnation への結び付き。 -/
structure Registration where
  namespaces : List NamespaceRef
  namespaceIDs : NamespaceRef → Option Nat
  lastSeenRevision : Nat

/-- `Subscribe` の入口の検査を通った登録。 -/
def Registration.Valid (reg : Registration) : Prop :=
  reg.namespaces ≠ [] ∧ ∀ ns ∈ reg.namespaces, ∃ id ∈ reg.namespaceIDs ns, 0 < id

instance (reg : Registration) : Decidable reg.Valid :=
  inferInstanceAs (Decidable (_ ∧ _))

/-- 購読者に最初に渡す状態。`isSnapshot` で二つの欄のどちらを使うかが決まる。 -/
structure Backlog where
  isSnapshot : Bool
  snapshot : List Parameter
  replay : List ChangeLogModel
  revision : Nat
  deriving DecidableEq

/-- parameter か secret の変更か。release の変更は別の購読に流れる。 -/
def isResourceChange (e : ChangeLogModel) : Bool :=
  decide (e.resourceType ≠ .configurationRelease ∧ e.resourceType ≠ .releaseInstance)

/-- `matches`。entry が、購読している namespace incarnation のものか。 -/
def Registration.matches (reg : Registration) (e : ChangeLogModel) : Bool :=
  decide (e.ref.ns ∈ reg.namespaces) &&
    (reg.namespaceIDs e.ref.ns).any (fun id => decide (0 < id) && decide (e.namespaceID = id))

def Registration.wants (reg : Registration) (e : ChangeLogModel) : Bool :=
  isResourceChange e && reg.matches e

/-! ## subscription -/

structure Subscription where
  reg : Registration
  bufferCap : Nat
  ready : Bool
  dropped : Bool
  pending : List ChangeLogModel
  backlog : Backlog
  lastSent : Nat
  events : List ChangeLogModel
  received : List ChangeLogModel

def Subscription.sent (s : Subscription) : List ChangeLogModel := s.received ++ s.events

/-- 登録直後の subscription。 -/
def Subscription.new (reg : Registration) (bufferCap : Nat) : Subscription where
  reg := reg
  bufferCap := bufferCap
  ready := false
  dropped := false
  pending := []
  backlog := ⟨false, [], [], 0⟩
  lastSent := 0
  events := []
  received := []

namespace Subscription

/-- channel への送信。buffer が一杯なら送らない。 -/
def send (s : Subscription) (e : ChangeLogModel) : Option Subscription :=
  if s.events.length < s.bufferCap then
    some { s with events := s.events ++ [e], lastSent := e.revision }
  else none

/-- `offer`。`false` は、この購読を落とすことを表す。 -/
def offer (s : Subscription) (e : ChangeLogModel) : Bool × Subscription :=
  if s.dropped then (false, s)
  else if s.ready = false then
    if s.pending.length ≥ s.bufferCap then (false, s)
    else (true, { s with pending := s.pending ++ [e] })
  else if e.revision ≤ s.lastSent then (true, s)
  else
    match s.send e with
    | some s' => (true, s')
    | none => (false, s)

/-- 溜めた entry を順に流す。 -/
def flush (s : Subscription) : List ChangeLogModel → Bool × Subscription
  | [] => (true, s)
  | e :: es =>
    if e.revision ≤ s.lastSent then flush s es
    else
      match s.send e with
      | some s' => flush s' es
      | none => (false, s)

/-- `activate`。backlog を据え、溜めた entry を流し、以後は直接流す。 -/
def activate (s : Subscription) (bl : Backlog) : Bool × Subscription :=
  if s.dropped then (false, s)
  else
    flush { s with
      backlog := bl
      lastSent := if bl.revision > s.lastSent then bl.revision else s.lastSent
      pending := []
      ready := true } s.pending

/-- client が channel から一つ読む。 -/
def receive (s : Subscription) : Subscription :=
  match s.events with
  | [] => s
  | e :: es => { s with events := es, received := s.received ++ [e] }

def close (s : Subscription) : Subscription := { s with dropped := true }

end Subscription

/-! ## 例に使う値 -/

def sampleChange : ChangeEntry :=
  { resourceType := .parameter, ref := ⟨⟨"prod", "shop"⟩, "limit"⟩, changeType := .put }

def sampleRegistration : Registration where
  namespaces := [⟨"prod", "shop"⟩]
  namespaceIDs := fun _ => some 1
  lastSeenRevision := 0

end Kms.Watch
