import Mathlib.Data.List.Perm.Basic
import Kms.Infra.Run
import Kms.Watch.Subscription

/-!
# 配送の hub

`internal/watch/hub.go` の dispatch loop と `Subscribe` を、mutex を一つ取る区間ごとの action に分けて写す。

* dispatch loop: `drain`（頁を読む）→ `dispatch`（購読者の集合を写す）→ `offer`（一人ずつ渡す）→
  `dropSlow`（渡せなかった購読者を落とす）→ `finish`（cursor を進める）
* `Subscribe`: `register` → `readRevision`（backlog の読み出し）→ `activate`

どの action の間にも、他の goroutine の action が入りうる。できない action は何も変えない。
-/

namespace Kms.Watch

open Kms.Infra Kms.Storage

/-! ## 状態 -/

/-- dispatch loop が一度に読む頁の大きさ。 -/
def dispatchBatch : Nat := 512

/-- 一人の購読者。 -/
structure Slot where
  sub : Subscription
  /-- backlog の計算が最後に読んだ revision。 -/
  revisionRead : Option Nat
  /-- `Subscribe` が呼び出し側に返した。 -/
  returned : Bool
  /-- 登録した時の revision。証明のためだけに持つ。 -/
  registeredAt : Nat

/-- 配送中の entry は `batch` の先頭である。 -/
structure Delivery where
  /-- 写した購読者のうち、まだ渡していないもの。 -/
  remaining : List Nat
  /-- 渡せなかったので、これから落とす購読者。 -/
  doomed : Option Nat
  deriving DecidableEq

structure Hub where
  log : ChangeLog
  /-- commit された全ての entry。証明のためだけに持つ。 -/
  history : List ChangeLogModel
  cursor : Nat
  batch : List ChangeLogModel
  inflight : Option Delivery
  slots : Nat → Option Slot
  nextID : Nat
  bufferCap : Nat

/-- `Run` が起動時の revision を読んだ直後の hub。 -/
def Hub.start (log : ChangeLog) (bufferCap : Nat) : Hub where
  log := log
  history := log.rows
  cursor := currentRevision log
  batch := []
  inflight := none
  slots := fun _ => none
  nextID := 0
  bufferCap := bufferCap

def Hub.registered (h : Hub) : List Nat :=
  (List.range (h.nextID + 1)).filter (fun id => (h.slots id).any (fun s => !s.sub.dropped))

def Hub.setSlot (h : Hub) (id : Nat) (s : Slot) : Hub :=
  { h with slots := fun i => if i = id then some s else h.slots i }

theorem slots_setSlot_self (h : Hub) (id : Nat) (s : Slot) : (h.setSlot id s).slots id = some s :=
  if_pos rfl

theorem slots_setSlot_of_ne (h : Hub) {id i : Nat} (s : Slot) (hne : i ≠ id) :
    (h.setSlot id s).slots i = h.slots i :=
  if_neg hne

/-! ## action -/

inductive Action where
  | commit (entry : ChangeEntry) (namespaceID : Nat) (now : Time)
  | prune (p : ChangeLogModel → Bool)
  | drain
  | dispatch (order : List Nat)
  | offer
  | dropSlow
  | finish
  | register (reg : Registration)
  | readRevision (id : Nat)
  | activate (id : Nat) (bl : Backlog)
  | close (id : Nat)
  | receive (id : Nat)

/-- 前の頁を配り終えたら、cursor より後の頁を読む。 -/
def Hub.drain (h : Hub) : Hub :=
  match h.batch, h.inflight with
  | [], none => { h with batch := listChangesSince h.log h.cursor dispatchBatch }
  | _, _ => h

/-- 先頭の entry の配送を始める。release の変更は、この購読者たちには渡さない。 -/
def Hub.dispatch (h : Hub) (order : List Nat) : Hub :=
  match h.batch, h.inflight with
  | e :: rest, none =>
    if isResourceChange e then
      -- map の列挙順は任意である。
      if order.Perm h.registered then { h with inflight := some ⟨order, none⟩ } else h
    else { h with batch := rest, cursor := e.revision }
  | _, _ => h

/-- 一人の購読者に渡す。渡せなければ、落とす相手として覚える。 -/
def Hub.offerTo (h : Hub) (e : ChangeLogModel) (id : Nat) (ids : List Nat) : Hub :=
  match h.slots id with
  | none => { h with inflight := some ⟨ids, none⟩ }
  | some s =>
    if s.sub.reg.matches e then
      match s.sub.offer e with
      | (true, sub) => { h.setSlot id { s with sub } with inflight := some ⟨ids, none⟩ }
      | (false, sub) => { h.setSlot id { s with sub } with inflight := some ⟨ids, some id⟩ }
    else { h with inflight := some ⟨ids, none⟩ }

def Hub.offer (h : Hub) : Hub :=
  match h.batch, h.inflight with
  | e :: _, some ⟨id :: ids, none⟩ => h.offerTo e id ids
  | _, _ => h

/-- 購読者を閉じる。 -/
def Hub.close (h : Hub) (id : Nat) : Hub :=
  match h.slots id with
  | some s => h.setSlot id { s with sub := s.sub.close }
  | none => h

def Hub.dropSlow (h : Hub) : Hub :=
  match h.inflight with
  | some ⟨ids, some id⟩ => { h.close id with inflight := some ⟨ids, none⟩ }
  | _ => h

def Hub.finish (h : Hub) : Hub :=
  match h.batch, h.inflight with
  | e :: rest, some ⟨[], none⟩ =>
    { h with batch := rest, cursor := e.revision, inflight := none }
  | _, _ => h

/-- `Subscribe` の登録。 -/
def Hub.register (h : Hub) (reg : Registration) : Hub :=
  if reg.Valid then
    { h.setSlot (h.nextID + 1)
        ⟨Subscription.new reg h.bufferCap, none, false, currentRevision h.log⟩ with
      nextID := h.nextID + 1 }
  else h

/-- backlog の計算が revision を読む。snapshot に落ちると、後でもう一度読む。 -/
def Hub.readRevision (h : Hub) (id : Nat) : Hub :=
  match h.slots id with
  | some s =>
    if s.sub.ready = false then
      h.setSlot id { s with revisionRead := some (currentRevision h.log) }
    else h
  | none => h

/-- 読み終えた backlog で購読を始める。 -/
def Hub.activate (h : Hub) (id : Nat) (bl : Backlog) : Hub :=
  match h.slots id with
  | some s =>
    if s.sub.ready = false ∧ s.revisionRead = some bl.revision then
      match s.sub.activate bl with
      | (alive, sub) => h.setSlot id { s with sub, returned := alive }
    else h
  | none => h

/-- client が event を一つ読む。 -/
def Hub.receive (h : Hub) (id : Nat) : Hub :=
  match h.slots id with
  | some s => h.setSlot id { s with sub := s.sub.receive }
  | none => h

/-- 一つの action。 -/
def act (h : Hub) : Action → Hub
  | .commit entry namespaceID now =>
    { h with
      log := logChange h.log entry namespaceID now
      history := h.history ++ [entry.row namespaceID now (h.log.seq + 1)] }
  | .prune p => { h with log := h.log.deleteWhere p }
  | .drain => h.drain
  | .dispatch order => h.dispatch order
  | .offer => h.offer
  | .dropSlow => h.dropSlow
  | .finish => h.finish
  | .register reg => h.register reg
  | .readRevision id => h.readRevision id
  | .activate id bl => h.activate id bl
  | .close id => h.close id
  | .receive id => h.receive id

/-! ## action の効果 -/

/-- 一人の購読者だけを書き換える action。 -/
inductive SlotStep (h : Hub) (s : Slot) : Slot → Prop
  | read (hready : s.sub.ready = false) :
    SlotStep h s { s with revisionRead := some (currentRevision h.log) }
  | activated {bl : Backlog} (hready : s.sub.ready = false)
    (hread : s.revisionRead = some bl.revision) :
    SlotStep h s { s with sub := (s.sub.activate bl).2, returned := (s.sub.activate bl).1 }
  | closed : SlotStep h s { s with sub := s.sub.close }
  | received : SlotStep h s { s with sub := s.sub.receive }

/-- 一つの action が変えるもの。 -/
inductive HubEffect (h : Hub) : Action → Hub → Prop
  | same (a : Action) : HubEffect h a h
  | committed (entry : ChangeEntry) (namespaceID : Nat) (now : Time) :
    HubEffect h (.commit entry namespaceID now) (act h (.commit entry namespaceID now))
  | pruned (p : ChangeLogModel → Bool) : HubEffect h (.prune p) (act h (.prune p))
  | drained (hi : h.inflight = none) :
    HubEffect h .drain { h with batch := listChangesSince h.log h.cursor dispatchBatch }
  | began {order : List Nat} {e : ChangeLogModel} {rest : List ChangeLogModel}
    (hb : h.batch = e :: rest) (hi : h.inflight = none) (hres : isResourceChange e = true)
    (hperm : order.Perm h.registered) :
    HubEffect h (.dispatch order) { h with inflight := some ⟨order, none⟩ }
  | passed {order : List Nat} {e : ChangeLogModel} {rest : List ChangeLogModel}
    (hb : h.batch = e :: rest) (hi : h.inflight = none) (hres : ¬ isResourceChange e = true) :
    HubEffect h (.dispatch order) { h with batch := rest, cursor := e.revision, inflight := none }
  | offered {e : ChangeLogModel} {rest : List ChangeLogModel} {id : Nat} {ids : List Nat}
    (hb : h.batch = e :: rest) (hi : h.inflight = some ⟨id :: ids, none⟩) :
    HubEffect h .offer (h.offerTo e id ids)
  | dropped {id : Nat} {ids : List Nat} (hi : h.inflight = some ⟨ids, some id⟩) :
    HubEffect h .dropSlow { h.close id with inflight := some ⟨ids, none⟩ }
  | finished {e : ChangeLogModel} {rest : List ChangeLogModel} (hb : h.batch = e :: rest)
    (hi : h.inflight = some ⟨[], none⟩) :
    HubEffect h .finish { h with batch := rest, cursor := e.revision, inflight := none }
  | registered (reg : Registration) : HubEffect h (.register reg)
    { h.setSlot (h.nextID + 1)
        ⟨Subscription.new reg h.bufferCap, none, false, currentRevision h.log⟩ with
      nextID := h.nextID + 1 }
  | slot (a : Action) {id : Nat} {s s' : Slot} (hs : h.slots id = some s)
    (hstep : SlotStep h s s') : HubEffect h a (h.setSlot id s')

theorem act_effect (h : Hub) (a : Action) : HubEffect h a (act h a) := by
  cases a with
  | commit entry namespaceID now => exact .committed entry namespaceID now
  | prune p => exact .pruned p
  | drain =>
    simp only [act, Hub.drain]
    split
    · next hi => exact .drained hi
    · exact .same _
  | dispatch order =>
    simp only [act, Hub.dispatch]
    split
    · next e rest hb hi =>
      split
      · next hres =>
        split
        · next hperm => exact .began hb hi hres hperm
        · exact .same _
      · next hres =>
        rw [show { h with batch := rest, cursor := e.revision } =
          ({ h with batch := rest, cursor := e.revision, inflight := none } : Hub) by rw [← hi]]
        exact .passed hb hi hres
    · exact .same _
  | offer =>
    simp only [act, Hub.offer]
    split
    · next hb hi => exact .offered hb hi
    · exact .same _
  | dropSlow =>
    simp only [act, Hub.dropSlow]
    split
    · next hi => exact .dropped hi
    · exact .same _
  | finish =>
    simp only [act, Hub.finish]
    split
    · next hb hi => exact .finished hb hi
    · exact .same _
  | register reg =>
    simp only [act, Hub.register]
    split
    · exact .registered reg
    · exact .same _
  | readRevision id =>
    simp only [act, Hub.readRevision]
    split
    · next hs =>
      split
      · next hready => exact .slot _ hs (.read hready)
      · exact .same _
    · exact .same _
  | activate id bl =>
    simp only [act, Hub.activate]
    split
    · next hs =>
      split
      · next hc => exact .slot _ hs (.activated hc.1 hc.2)
      · exact .same _
    · exact .same _
  | close id =>
    simp only [act, Hub.close]
    split
    · next hs => exact .slot _ hs .closed
    · exact .same _
  | receive id =>
    simp only [act, Hub.receive]
    split
    · next hs => exact .slot _ hs .received
    · exact .same _

end Kms.Watch
