import Mathlib.Data.List.Dedup
import Mathlib.Data.String.Basic
import Kms.Domain
import Kms.Infra.Paging

/-!
# client から見た store

三つの SDK の watch manager は、server を同じ三つの口から見る。point read と `ListParameters` は今の値を返し、
`Subscribe` の stream は snapshot か replay の後、change log の行を revision の順に流す。

store は change log の行の列で表し、`r` 行目までを適用した結果が revision `r` の値である。

* `valueAt` / `current` — ある revision の値と、今の値
* `Stored` — ある revision で持っていた値
* `Unchanged` — ある revision より後に変わっていない
* `parameters` — namespace にある parameter の一覧
* `Stream` / `Stream.answer` / `Stream.next` — 購読の server 側
-/

namespace Kms.Client

open Kms.Infra

/-! ## 値の歴史 -/

/-- change log の行のうち、watch stream に流れるもの。parameter の delete は `none` である。 -/
inductive Entry where
  | parameter (ref : Ref) (value : Option String)
  | secret (ref : Ref)
  deriving DecidableEq

namespace Entry

def ns : Entry → NamespaceRef
  | .parameter r _ => r.ns
  | .secret r => r.ns

/-- この行は parameter `p` を書く。 -/
def touches (p : Ref) : Entry → Bool
  | .parameter r _ => decide (r = p)
  | .secret _ => false

/-- 一行を適用した後の `p` の値。 -/
def apply (p : Ref) (v : Option String) : Entry → Option String
  | .parameter r w => if r = p then w else v
  | .secret _ => v

theorem apply_of_not_touches {p : Ref} {e : Entry} (h : e.touches p = false) (v : Option String) :
    e.apply p v = v := by
  cases e with
  | parameter r w => exact if_neg (by simpa [touches] using h)
  | secret r => rfl

theorem ns_of_touches {p : Ref} {e : Entry} (h : e.touches p = true) : e.ns = p.ns := by
  cases e with
  | parameter r w =>
    have hr : r = p := by simpa [touches] using h
    rw [← hr]
    rfl
  | secret r => cases h

end Entry

def valueAt (log : List Entry) (rev : Nat) (p : Ref) : Option String :=
  (log.take rev).foldl (Entry.apply p) none

def current (log : List Entry) (p : Ref) : Option String := valueAt log log.length p

def Unchanged (log : List Entry) (rev : Nat) (p : Ref) : Prop :=
  ∀ e ∈ log.drop rev, e.touches p = false

variable {p : Ref} {log : List Entry} {rev : Nat} {ns : NamespaceRef} {k v : String}

theorem foldl_apply_of_not_touches {es : List Entry}
    (h : ∀ e ∈ es, e.touches p = false) (v : Option String) :
    es.foldl (Entry.apply p) v = v := by
  induction es generalizing v with
  | nil => rfl
  | cons e es ih =>
    rw [List.forall_mem_cons] at h
    rw [List.foldl_cons, Entry.apply_of_not_touches h.1, ih h.2]

theorem valueAt_append (h : rev ≤ log.length) (es : List Entry)
    (p : Ref) : valueAt (log ++ es) rev p = valueAt log rev p := by
  unfold valueAt
  rw [List.take_append_of_le_length h]

def Stored (log : List Entry) (p : Ref) (v : Option String) : Prop :=
  ∃ rev ≤ log.length, valueAt log rev p = v

instance (log : List Entry) (p : Ref) (v : Option String) : Decidable (Stored log p v) :=
  inferInstanceAs (Decidable (∃ rev ≤ log.length, valueAt log rev p = v))

theorem Stored.commit {v : Option String} (h : Stored log p v) (e : Entry) :
    Stored (log ++ [e]) p v := by
  obtain ⟨rev, hle, hv⟩ := h
  exact ⟨rev, by simp; omega, (valueAt_append hle [e] p).trans hv⟩

theorem current_take (p : Ref) : current (log.take rev) p = valueAt log rev p := by
  unfold current valueAt
  rw [List.take_length]

theorem Unchanged.mono {rev' : Nat} (h : Unchanged log rev p)
    (hle : rev ≤ rev') : Unchanged log rev' p := by
  intro e he
  refine h e ?_
  rw [← Nat.sub_add_cancel hle, Nat.add_comm, ← List.drop_drop] at he
  exact List.mem_of_mem_drop he

theorem Unchanged.valueAt (h : Unchanged log rev p) : valueAt log rev p = current log p := by
  have hsplit : (log.take rev).foldl (Entry.apply p) none =
      (log.take rev ++ log.drop rev).foldl (Entry.apply p) none := by
    rw [List.foldl_append, foldl_apply_of_not_touches h]
  unfold current Client.valueAt
  rw [hsplit, List.take_append_drop, List.take_length]

/-! ## 一覧 -/

/-- namespace の中の、この行が書く key。 -/
def Entry.key? (ns : NamespaceRef) : Entry → Option String
  | .parameter r _ => if r.ns = ns then some r.key else none
  | .secret _ => none

def parameters (log : List Entry) (ns : NamespaceRef) : List (String × String) :=
  (log.filterMap (Entry.key? ns)).dedup.filterMap
    (fun k => (current log ⟨ns, k⟩).map (fun v => (k, v)))

theorem key_mem_of_current
    (h : current log ⟨ns, k⟩ = some v) : k ∈ log.filterMap (Entry.key? ns) := by
  by_contra hk
  have hnone : Unchanged log 0 ⟨ns, k⟩ := by
    intro e he
    cases e with
    | secret r => rfl
    | parameter r w =>
      rw [List.drop_zero] at he
      refine decide_eq_false (fun hr => hk ?_)
      exact List.mem_filterMap.mpr ⟨_, he, by simp [Entry.key?, hr]⟩
  rw [← hnone.valueAt] at h
  cases h

theorem mem_parameters : (k, v) ∈ parameters log ns ↔ current log ⟨ns, k⟩ = some v := by
  unfold parameters
  rw [List.mem_filterMap]
  constructor
  · rintro ⟨k', _, heq⟩
    obtain ⟨v', hv', hpair⟩ := Option.map_eq_some_iff.mp heq
    cases hpair
    exact hv'
  · intro h
    exact ⟨k, List.mem_dedup.mpr (key_mem_of_current h), by rw [h]; rfl⟩

theorem parameters_nodup (log : List Entry) (ns : NamespaceRef) :
    ((parameters log ns).map Prod.fst).Nodup := by
  have hkeys : ∀ ks : List String,
      (ks.filterMap (fun k => (current log ⟨ns, k⟩).map (fun v => (k, v)))).map Prod.fst =
        ks.filter (fun k => (current log ⟨ns, k⟩).isSome) := by
    intro ks
    induction ks with
    | nil => rfl
    | cons k ks ih =>
      rw [List.filterMap_cons, List.filter_cons]
      cases current log ⟨ns, k⟩ with
      | none => exact ih
      | some v => exact congrArg (k :: ·) ih
  unfold parameters
  rw [hkeys]
  exact (List.nodup_dedup _).filter _

/-- `ListParameters` の既定の頁の大きさ。 -/
def listLimit : Nat := 100

def listParameters (log : List Entry) (ns : NamespaceRef) (after : Option String) :
    List (String × String) × Option String :=
  page Prod.fst (parameters log ns) listLimit after

theorem current_of_mem_listParameters
    {after : Option String} (h : (k, v) ∈ (listParameters log ns after).1) :
    current log ⟨ns, k⟩ = some v :=
  mem_parameters.mp (mem_of_mem_page h)

theorem mem_listParameters {after : Option String}
    (h : current log ⟨ns, k⟩ = some v) (hafter : ∀ c, after = some c → c < k)
    (hnext : ∀ c, (listParameters log ns after).2 = some c → k ≤ c) :
    (k, v) ∈ (listParameters log ns after).1 :=
  mem_page_of_le (parameters_nodup log ns) (by decide) (mem_parameters.mpr h) hafter hnext

/-! ## 購読 -/

/-- 購読の server 側の進み。 -/
inductive StreamPhase where
  /-- backlog の計算の前。 -/
  | requested (lastSeen : Nat)
  /-- この revision の snapshot を送る所。 -/
  | snapshot (rev : Nat)
  /-- この revision までを送り終えた。 -/
  | live (pos : Nat)
  deriving DecidableEq

structure Stream where
  scope : List NamespaceRef
  phase : StreamPhase
  deriving DecidableEq

/-- stream を流れる message。 -/
inductive Message where
  | snapshot (items : List (Ref × String))
  | change (ref : Ref) (value : Option String)
  | secretChange (ref : Ref)
  | heartbeat
  deriving DecidableEq

/-- 幾つかの namespace の、revision `rev` の parameter。 -/
def snapshotParameters (log : List Entry) (rev : Nat) (scope : List NamespaceRef) :
    List (Ref × String) :=
  scope.flatMap (fun ns => (parameters (log.take rev) ns).map (fun kv => (⟨ns, kv.1⟩, kv.2)))

theorem mem_snapshotParameters {scope : List NamespaceRef}
    {v : String} : (p, v) ∈ snapshotParameters log rev scope ↔
      p.ns ∈ scope ∧ valueAt log rev p = some v := by
  unfold snapshotParameters
  simp only [List.mem_flatMap, List.mem_map, Prod.exists, Prod.mk.injEq]
  constructor
  · rintro ⟨ns, hns, k, v', hkv, rfl, rfl⟩
    exact ⟨hns, by rw [← current_take]; exact mem_parameters.mp hkv⟩
  · rintro ⟨hns, hv⟩
    rw [← current_take] at hv
    exact ⟨p.ns, hns, p.key, v, mem_parameters.mpr hv, rfl, rfl⟩

def Entry.message : Entry → Message
  | .parameter r v => .change r v
  | .secret r => .secretChange r

namespace Stream

def answer (st : Stream) (log : List Entry) (full : Bool) : Stream :=
  match st.phase with
  | .requested lastSeen =>
    if full || lastSeen == 0 || decide (log.length < lastSeen) then
      { st with phase := .snapshot log.length }
    else { st with phase := .live lastSeen }
  | _ => st

def next (st : Stream) (log : List Entry) : Stream × Option (Message × Nat) :=
  match st.phase with
  | .requested _ => (st, none)
  | .snapshot rev =>
    ({ st with phase := .live rev }, some (.snapshot (snapshotParameters log rev st.scope), rev))
  | .live pos =>
    match log[pos]? with
    | none => (st, none)
    | some e =>
      ({ st with phase := .live (pos + 1) },
        if e.ns ∈ st.scope then some (e.message, pos + 1) else none)

theorem scope_answer (st : Stream) (log : List Entry) (full : Bool) :
    (st.answer log full).scope = st.scope := by
  unfold answer
  split
  · split <;> rfl
  · rfl

theorem scope_next (st : Stream) (log : List Entry) : (st.next log).1.scope = st.scope := by
  unfold next
  split
  · rfl
  · rfl
  · split <;> rfl

/-- heartbeat は、送り終えた所の revision を運ぶ。 -/
def heartbeat (st : Stream) : Option (Message × Nat) :=
  match st.phase with
  | .live pos => some (.heartbeat, pos)
  | _ => none

end Stream

end Kms.Client
