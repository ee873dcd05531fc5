import Kms.Client.Manager

/-!
# watch manager の不変条件

どの interleaving でも成り立つ事実。revision の控え (`lastRev`・項の `rev`・一巡の `snapRev`) は store の先には
行かず、stream が送り終えた所までの行は `lastRev` に収まる。

* `StreamInv` — 購読の進みと `lastRev`。一通ごとに保たれる
* `ManagerInv` / `managerInv_step`
* `ManagerInv.unchanged_of_caughtUp` — 追い付いた後の path は、`lastRev` より後に書かれていない
-/

namespace Kms.Client

open Kms.Infra

namespace Manager

variable {sdk : Sdk} {m : Manager sdk}

/-! ## 値を書く操作 -/

theorem changed_iff (prev : Option sdk.Known) (v : Option String) :
    changed prev v = true ↔ prev.bind sdk.value ≠ v := by
  cases prev with
  | none | some k => cases v <;> simp [changed]

theorem known?_of_upsert {m' : Manager sdk} {p : Ref} {k : sdk.Known}
    (h : m'.known = m.known.upsert (p, k)) (q : Ref) :
    m'.known? q = if p = q then some k else m.known? q := by
  unfold known?
  rw [h, Table.get_upsert]
  split <;> rfl

/-- `setValue` は、fence で退けるか、書いて、違う値なら handle に知らせる。 -/
theorem setValue_cases (m : Manager sdk) (p : Ref) (v : Option String) (rev : Nat)
    (reconcile : Bool) :
    (∃ k, m.known? p = some k ∧ revAllowsWrite (sdk.rev k) rev reconcile = false ∧
      m.setValue p v rev reconcile = (m.known, none)) ∨
    ((∀ k, m.known? p = some k → revAllowsWrite (sdk.rev k) rev reconcile = true) ∧
      m.setValue p v rev reconcile = (m.known.upsert (p, sdk.write (m.known? p) v rev),
        if m.knownValue p ≠ v then some ⟨p, v, rev, m.handlersOf p⟩ else none)) := by
  unfold setValue knownValue
  cases hk : m.known? p with
  | none =>
    refine .inr ⟨fun k hk' => (by cases hk'), ?_⟩
    simp only [Option.any_none, Bool.false_eq_true, if_false, changed_iff]
  | some k =>
    cases hr : revAllowsWrite (sdk.rev k) rev reconcile with
    | false => exact .inl ⟨k, rfl, hr, by simp [hr]⟩
    | true =>
      refine .inr ⟨fun k' hk' => ?_, ?_⟩
      · cases hk'
        exact hr
      · simp only [Option.any_some, hr, Bool.not_true, Bool.false_eq_true, if_false, changed_iff]

theorem write_cases (m : Manager sdk) (t : Thread) (p : Ref) (v : Option String) (rev : Nat)
    (reconcile : Bool) :
    (∃ k, m.known? p = some k ∧ revAllowsWrite (sdk.rev k) rev reconcile = false ∧
      m.write t p v rev reconcile = m.setDelivering t none) ∨
    ((∀ k, m.known? p = some k → revAllowsWrite (sdk.rev k) rev reconcile = true) ∧
      m.write t p v rev reconcile =
        { m with known := m.known.upsert (p, sdk.write (m.known? p) v rev) }.setDelivering t
          (if m.knownValue p ≠ v then some ⟨p, v, rev, m.handlersOf p⟩ else none)) := by
  unfold write
  rcases m.setValue_cases p v rev reconcile with ⟨k, hk, hr, hout⟩ | ⟨hall, hout⟩
  · exact .inl ⟨k, hk, hr, by rw [hout]⟩
  · exact .inr ⟨hall, by rw [hout]⟩

theorem known?_write {t : Thread} {p q : Ref} {v : Option String} {rev : Nat} {reconcile : Bool}
    {k : sdk.Known} (h : (m.write t p v rev reconcile).known? q = some k) :
    m.known? q = some k ∨
      (p = q ∧ sdk.value k = v ∧ sdk.rev k = max (((m.known? p).map sdk.rev).getD 0) rev ∧
        ∀ k', m.known? p = some k' → revAllowsWrite (sdk.rev k') rev reconcile = true) := by
  rcases m.write_cases t p v rev reconcile with ⟨-, -, -, hout⟩ | ⟨hall, hout⟩
  · rw [hout] at h
    exact .inl h
  · rw [hout, known?_of_upsert rfl] at h
    split at h
    · next hpq =>
      cases h
      exact .inr ⟨hpq, sdk.value_write .., sdk.rev_write .., hall⟩
    · exact .inl h

theorem rev_le_write {t : Thread} {p q : Ref} {v : Option String} {rev : Nat} {reconcile : Bool}
    {k k' : sdk.Known} (h : m.known? q = some k)
    (h' : (m.write t p v rev reconcile).known? q = some k') : sdk.rev k ≤ sdk.rev k' := by
  rcases known?_write h' with hold | ⟨rfl, -, hr, -⟩
  · rw [h] at hold
    cases hold
    exact le_rfl
  · rw [hr, h]
    exact Nat.le_max_left ..

theorem known?_write_ne_none {t : Thread} {p q : Ref} {v : Option String} {rev : Nat}
    {reconcile : Bool} (h : m.known? q ≠ none) :
    (m.write t p v rev reconcile).known? q ≠ none := by
  rcases m.write_cases t p v rev reconcile with ⟨-, -, -, hout⟩ | ⟨hall, hout⟩
  · rw [hout]
    exact h
  · rw [hout, known?_of_upsert rfl]
    split
    · exact Option.some_ne_none _
    · exact h

theorem delivering_setDelivering {t t' : Thread} {o : Option Delivery} {d : Delivery}
    (h : (m.setDelivering t o).delivering t' = some d) :
    t' ≠ t ∧ m.delivering t' = some d ∨ t' = t ∧ o = some d := by
  simp only [setDelivering] at h
  split at h
  · next ht => exact .inr ⟨ht, h⟩
  · next ht => exact .inl ⟨ht, h⟩

theorem delivering_write {t t' : Thread} {p : Ref} {v : Option String} {rev : Nat}
    {reconcile : Bool} {d : Delivery}
    (h : (m.write t p v rev reconcile).delivering t' = some d) :
    t' ≠ t ∧ m.delivering t' = some d ∨ t' = t ∧ (m.setValue p v rev reconcile).2 = some d :=
  delivering_setDelivering h

theorem delivering_of_setDelivering_none {t t' : Thread} {d : Delivery}
    (h : (m.setDelivering t none).delivering t' = some d) : m.delivering t' = some d :=
  (delivering_setDelivering h).elim And.right (fun hn => nomatch hn.2)

theorem known?_registerRead (m : Manager sdk) (p : Ref) (t : sdk.Ticket) (v : String) (q : Ref) :
    (m.registerRead p t v).known? q =
      if p = q then some (sdk.register (m.known? p) t v).1 else m.known? q :=
  known?_of_upsert rfl q

theorem registerRead_eq (m : Manager sdk) (p : Ref) (t : sdk.Ticket) (v : String) :
    m.registerRead p t v =
      { m with
        namespaces := (m.addNamespace p.ns).namespaces
        known := m.known.upsert (p, (sdk.register (m.known? p) t v).1)
        handles := m.handles ++
          [⟨p, (sdk.register (m.known? p) t v).2, (sdk.register (m.known? p) t v).2, []⟩] } := by
  unfold registerRead addNamespace
  split <;> rfl

theorem subset_addNamespace (m : Manager sdk) (ns : NamespaceRef) :
    m.namespaces ⊆ (m.addNamespace ns).namespaces := by
  unfold addNamespace
  split
  · exact List.Subset.refl _
  · exact List.subset_append_left ..

theorem getElem?_receive (handles : List Handle) (i j : Nat) (v : Option String) :
    (handles.modify i (Handle.receive v))[j]? =
      (handles[j]?).map (fun h => if i = j then h.receive v else h) :=
  List.getElem?_modify ..

theorem map_notify {α : Type} {f : Handle → α} (hf : ∀ v h, f (Handle.receive v h) = f h)
    (m : Manager sdk) (t : Thread) (d : Delivery) :
    (m.notify t d).handles.map f = m.handles.map f := by
  unfold notify
  split
  · rfl
  · next i rest _ =>
    refine List.ext_getElem? (fun j => ?_)
    show ((m.handles.modify i _).map f)[j]? = _
    rw [List.getElem?_map, List.getElem?_map, getElem?_receive, Option.map_map]
    congr 1
    funext h
    show f (if i = j then h.receive d.value else h) = f h
    split
    · exact hf d.value h
    · rfl

end Manager

/-! ## 購読の進み -/

def StreamInv (log : List Entry) (lastRev : Nat) (handling : Handling) (st : Stream) : Prop :=
  match st.phase with
  | .requested lastSeen => lastSeen ≤ lastRev ∧ handling = .idle
  | .snapshot rev => lastRev ≤ rev ∧ rev ≤ log.length ∧ handling = .idle
  | .live pos => pos ≤ log.length ∧
    ∀ r e, log[r]? = some e → r < pos → e.ns ∈ st.scope → r + 1 ≤ max lastRev handling.rev

/-- 一通が、その revision の値を運ぶこと。 -/
def Carries (log : List Entry) (lastRev : Nat) (scope : List NamespaceRef) (rev : Nat) :
    Message → Prop
  | .snapshot items => lastRev ≤ rev ∧ (∀ p v, (p, v) ∈ items → valueAt log rev p = some v) ∧
    ∀ p : Ref, p.ns ∈ scope → p ∉ items.map Prod.fst → valueAt log rev p = none
  | .change r v => 0 < rev ∧ valueAt log rev r = v
  | _ => True

namespace StreamInv

variable {log : List Entry} {lastRev : Nat} {handling : Handling} {st : Stream}

theorem commit (h : StreamInv log lastRev handling st) (e : Entry) :
    StreamInv (log ++ [e]) lastRev handling st := by
  have hlen : log.length ≤ (log ++ [e]).length := by simp
  unfold StreamInv at h ⊢
  split at h
  · exact h
  · exact ⟨h.1, Nat.le_trans h.2.1 hlen, h.2.2⟩
  · refine ⟨Nat.le_trans h.1 hlen, fun r e' he hr => h.2 r e' ?_ hr⟩
    rwa [List.getElem?_append_left (Nat.lt_of_lt_of_le hr h.1)] at he

theorem requested {scope : List NamespaceRef} {lastSeen : Nat} (h : lastSeen ≤ lastRev) :
    StreamInv log lastRev .idle ⟨scope, .requested lastSeen⟩ := ⟨h, rfl⟩

theorem answer (h : StreamInv log lastRev handling st) (hle : lastRev ≤ log.length)
    (full : Bool) : StreamInv log lastRev handling (st.answer log full) := by
  unfold Stream.answer
  split
  · next lastSeen hp =>
    unfold StreamInv at h
    rw [hp] at h
    split
    · exact ⟨hle, le_rfl, h.2⟩
    · refine ⟨Nat.le_trans h.1 hle, fun r e _ hr _ => ?_⟩
      exact Nat.le_trans (Nat.le_trans hr h.1) (Nat.le_max_left ..)
  · exact h

theorem next_none (h : StreamInv log lastRev .idle st) (hn : (st.next log).2 = none) :
    StreamInv log lastRev .idle (st.next log).1 := by
  unfold StreamInv at h
  unfold Stream.next at hn ⊢
  cases hp : st.phase with
  | requested lastSeen =>
    rw [hp] at h
    simpa [StreamInv, hp] using h
  | snapshot rev => simp [hp] at hn
  | live pos =>
    simp only [hp] at hn h ⊢
    cases he : log[pos]? with
    | none => simpa [StreamInv, hp] using h
    | some e =>
      simp only [he] at hn ⊢
      have hout : e.ns ∉ st.scope := by
        by_contra hin
        simp [hin] at hn
      refine ⟨(List.getElem?_eq_some_iff.mp he).1, fun r e' he' hr hns => ?_⟩
      rcases Nat.lt_succ_iff_lt_or_eq.mp hr with hr | rfl
      · exact h.2 r e' he' hr hns
      · rw [he] at he'
        cases he'
        exact absurd hns hout

theorem next_some (h : StreamInv log lastRev .idle st) {msg : Message} {rev : Nat}
    (hn : (st.next log).2 = some (msg, rev)) :
    rev ≤ log.length ∧ Carries log lastRev st.scope rev msg ∧
      ∀ q a, StreamInv log lastRev (.applying rev q a) (st.next log).1 := by
  unfold StreamInv at h
  unfold Stream.next at hn ⊢
  cases hp : st.phase with
  | requested lastSeen => simp [hp] at hn
  | snapshot rev' =>
    simp only [hp] at hn h ⊢
    cases hn
    refine ⟨h.2.1, ⟨h.1, fun p v hv => (mem_snapshotParameters.mp hv).2, fun p hns hnot => ?_⟩,
      fun q a => ⟨h.2.1, fun r e he hr _ => Nat.le_trans hr (Nat.le_max_right ..)⟩⟩
    by_contra hne
    obtain ⟨v, hv⟩ := Option.ne_none_iff_exists'.mp hne
    exact hnot (List.mem_map.mpr ⟨(p, v), mem_snapshotParameters.mpr ⟨hns, hv⟩, rfl⟩)
  | live pos =>
    simp only [hp] at hn h ⊢
    cases he : log[pos]? with
    | none => simp [he] at hn
    | some e =>
      simp only [he] at hn ⊢
      have hlt := (List.getElem?_eq_some_iff.mp he).1
      split at hn
      · cases hn
        refine ⟨hlt, ?_, fun q a => ⟨hlt, fun r e' _ hr _ => Nat.le_trans hr (Nat.le_max_right ..)⟩⟩
        cases e with
        | secret r => trivial
        | parameter r w =>
          refine ⟨Nat.succ_pos pos, ?_⟩
          unfold valueAt
          rw [List.take_add_one, he, List.foldl_append]
          exact if_pos rfl
      · cases hn

theorem heartbeat (h : StreamInv log lastRev handling st) {msg : Message} {rev : Nat}
    (hn : st.heartbeat = some (msg, rev)) :
    rev ≤ log.length ∧ Carries log lastRev st.scope rev msg ∧
      ∀ q a, StreamInv log lastRev (.applying rev q a) st := by
  unfold StreamInv at h
  simp only [Stream.heartbeat] at hn
  split at hn
  · next pos hp =>
    cases hn
    rw [hp] at h
    refine ⟨h.1, trivial, fun q a => ?_⟩
    unfold StreamInv
    rw [hp]
    exact ⟨h.1, fun r e _ hr _ => Nat.le_trans hr (Nat.le_max_right ..)⟩
  · cases hn

theorem applying {rev : Nat} {q q' : List (Ref × Option String)} {a a' : Option (List Ref)}
    (h : StreamInv log lastRev (.applying rev q a) st) :
    StreamInv log lastRev (.applying rev q' a') st := by
  unfold StreamInv at h ⊢
  split at h
  · cases h.2
  · cases h.2.2
  · exact h

theorem advance {rev : Nat} {q : List (Ref × Option String)} {a : Option (List Ref)}
    (h : StreamInv log lastRev (.applying rev q a) st) :
    StreamInv log (max lastRev rev) .idle st := by
  unfold StreamInv at h ⊢
  split at h
  · cases h.2
  · cases h.2.2
  · exact ⟨h.1, fun r e he hr hns => Nat.le_trans (h.2 r e he hr hns) (Nat.le_max_left ..)⟩

theorem unchanged (h : StreamInv log lastRev .idle st) (hp : st.phase = .live log.length) {p : Ref}
    (hns : p.ns ∈ st.scope) : Unchanged log lastRev p := by
  unfold StreamInv at h
  rw [hp] at h
  intro e he
  obtain ⟨i, hi⟩ := List.mem_iff_getElem?.mp he
  rw [List.getElem?_drop] at hi
  rw [← Bool.not_eq_true]
  intro htouch
  have hle := h.2 (lastRev + i) e hi (List.getElem?_eq_some_iff.mp hi).1
    (by rw [Entry.ns_of_touches htouch]; exact hns)
  have hrev : max lastRev (Handling.rev .idle) = lastRev := Nat.max_eq_left (Nat.zero_le _)
  omega

end StreamInv

/-! ## これから運ばれる値の revision -/

/-- 最初の message の revision の下限。まだ作られていない snapshot は、今の revision より前のものではない。 -/
def firstRev (log : List Entry) : Option Stream → Nat
  | some ⟨_, .snapshot rev⟩ => rev
  | some ⟨_, .live _⟩ => 0
  | _ => log.length

/-- 届く message の revision。何も届かなければ、最初の message の下限のままである。 -/
def arrival (log : List Entry) (next : Stream × Option (Message × Nat)) : Nat :=
  match next.2 with
  | some (_, rev) => rev
  | none => firstRev log (some next.1)

/--
stream がこれから運ぶ値の revision の下限。

処理し終えた message の revision である。まだ無ければ、処理している message の revision か、最初の message のものである。
-/
def feedFloor (log : List Entry) (lastRev : Nat) (handling : Handling) (stream : Option Stream) :
    Nat :=
  if lastRev ≠ 0 then lastRev
  else match handling with
    | .idle => firstRev log stream
    | .applying rev _ _ => rev

section Floor

variable {log log' : List Entry} {lastRev rev : Nat} {handling : Handling}
  {stream stream' : Option Stream} {q : List (Ref × Option String)} {a : Option (List Ref)}

theorem firstRev_le (h : ∀ st, stream = some st → StreamInv log lastRev handling st) :
    firstRev log stream ≤ log.length := by
  unfold firstRev
  split
  · exact (h _ rfl).2.1
  · exact Nat.zero_le _
  · exact le_rfl

theorem firstRev_commit (e : Entry) : firstRev log stream ≤ firstRev (log ++ [e]) stream := by
  unfold firstRev
  split <;> simp

/-- 何も見ていない購読には、snapshot が答えられる。 -/
theorem firstRev_answer {st : Stream} (h : StreamInv log 0 handling st) (full : Bool) :
    firstRev log (some st) ≤ firstRev log (some (st.answer log full)) := by
  obtain ⟨scope, phase⟩ := st
  cases phase with
  | requested lastSeen =>
    cases Nat.le_zero.mp h.1
    simp [Stream.answer, firstRev]
  | snapshot rev | live pos => exact le_rfl

theorem firstRev_le_next (st : Stream) : firstRev log (some st) ≤ arrival log (st.next log) := by
  obtain ⟨scope, phase⟩ := st
  cases phase with
  | requested lastSeen | snapshot rev => exact le_rfl
  | live pos => exact Nat.zero_le _

theorem firstRev_le_heartbeat (st : Stream) :
    firstRev log (some st) ≤ arrival log (st, st.heartbeat) := by
  obtain ⟨scope, phase⟩ := st
  cases phase with
  | requested lastSeen | snapshot rev => exact le_rfl
  | live pos => exact Nat.zero_le _

theorem feedFloor_mono (h : lastRev = 0 → firstRev log stream ≤ firstRev log' stream') :
    feedFloor log lastRev handling stream ≤ feedFloor log' lastRev handling stream' := by
  unfold feedFloor
  split
  · exact le_rfl
  · next hz =>
    split
    · exact h (not_not.mp hz)
    · exact le_rfl

theorem feedFloor_le {bound : Nat} (hlast : lastRev ≤ bound)
    (hfirst : handling = .idle → firstRev log stream ≤ bound) (hrev : handling.rev ≤ bound) :
    feedFloor log lastRev handling stream ≤ bound := by
  unfold feedFloor
  split
  · exact hlast
  · cases handling with
    | idle => exact hfirst rfl
    | applying rev q a => exact hrev

theorem feedFloor_receive (h : firstRev log stream ≤ rev) :
    feedFloor log lastRev .idle stream ≤ feedFloor log lastRev (.applying rev q a) stream' := by
  unfold feedFloor
  split
  · exact le_rfl
  · exact h

theorem feedFloor_advance : feedFloor log lastRev (.applying rev q a) stream ≤
    feedFloor log (max lastRev rev) .idle stream := by
  simp only [feedFloor]
  split_ifs <;> omega

end Floor

/-- stream の thread が書く値は、処理している message の revision の値である。 -/
def HandlingInv (log : List Entry) (lastRev : Nat) (scope : List NamespaceRef) : Handling → Prop
  | .idle => True
  | .applying rev queue snapshot =>
    (∀ rv ∈ queue, lastRev ≤ rev ∧ valueAt log rev rv.1 = rv.2) ∧
    ∀ present, snapshot = some present → lastRev ≤ rev ∧
      ∀ p : Ref, p.ns ∈ scope → p ∉ present → valueAt log rev p = none

theorem HandlingInv.commit {log : List Entry} {lastRev : Nat} {scope : List NamespaceRef}
    {handling : Handling} (h : HandlingInv log lastRev scope handling)
    (hle : handling.rev ≤ log.length) (e : Entry) :
    HandlingInv (log ++ [e]) lastRev scope handling := by
  cases handling with
  | idle => trivial
  | applying rev queue snapshot =>
    have hvalue : ∀ p, valueAt (log ++ [e]) rev p = valueAt log rev p := valueAt_append hle [e]
    simpa only [HandlingInv, hvalue] using h

theorem Carries.handling {sdk : Sdk} {m : Manager sdk} {rev : Nat} {msg : Message}
    (h : Carries m.log m.lastRev m.streamNamespaces rev msg) :
    HandlingInv m.log m.lastRev m.streamNamespaces (m.handle rev msg).handling := by
  cases msg with
  | snapshot items =>
    refine ⟨fun rv hrv => ⟨h.1, ?_⟩, fun present hp => ⟨h.1, ?_⟩⟩
    · obtain ⟨kv, hkv, rfl⟩ := List.mem_map.mp hrv
      exact h.2.1 kv.1 kv.2 hkv
    · cases hp
      exact h.2.2
  | change r v =>
    refine ⟨fun rv hrv => ?_, fun _ hp => by cases hp⟩
    split at hrv
    · next happly =>
      cases List.mem_singleton.mp hrv
      have happly : rev = 0 ∨ m.lastRev < rev := by simpa [Manager.shouldApply] using happly
      have hpos := h.1
      exact ⟨by omega, h.2⟩
    · exact absurd hrv List.not_mem_nil
  | secretChange r | heartbeat =>
    exact ⟨fun _ hrv => absurd hrv List.not_mem_nil, fun _ hp => by cases hp⟩

structure ManagerInv {sdk : Sdk} (m : Manager sdk) : Prop where
  lastRev_le : m.lastRev ≤ m.log.length
  handling_le : m.handling.rev ≤ m.log.length
  known_rev : ∀ p k, m.known? p = some k → sdk.rev k ≤ max m.lastRev m.handling.rev
  pass_rev : ∀ pass, m.pass = .running pass → pass.snapRev ≤ m.lastRev
  stream : ∀ st, m.stream = some st → StreamInv m.log m.lastRev m.handling st
  scope : ∀ st, m.stream = some st → st.scope = m.streamNamespaces
  handling : HandlingInv m.log m.lastRev m.streamNamespaces m.handling
  handles : ∀ p ∈ m.handles.map Handle.ref, m.known? p ≠ none ∧ p.ns ∈ m.namespaces

namespace ManagerInv

variable {sdk : Sdk} {m : Manager sdk}

theorem empty : ManagerInv (Manager.empty sdk) where
  lastRev_le := Nat.le_refl 0
  handling_le := Nat.le_refl 0
  known_rev := fun _ _ h => by cases h
  pass_rev := fun _ h => by cases h
  stream := fun _ h => by cases h
  scope := fun _ h => by cases h
  handling := trivial
  handles := fun _ h => absurd h List.not_mem_nil

theorem handle_known (h : ManagerInv m) {i : Nat} {x : Handle} (hx : m.handles[i]? = some x) :
    ∃ k, m.known? x.ref = some k :=
  Option.ne_none_iff_exists'.mp (h.handles _ (List.mem_map_of_mem (List.mem_of_getElem? hx))).1

theorem write (h : ManagerInv m) {t : Thread} {p : Ref} {v : Option String} {rev : Nat}
    {reconcile : Bool} (hrev : rev ≤ max m.lastRev m.handling.rev) :
    ManagerInv (m.write t p v rev reconcile) :=
  { h with
    known_rev := fun q k hk => by
      rcases Manager.known?_write hk with hold | ⟨-, -, hk, -⟩
      · exact h.known_rev q k hold
      · rw [hk]
        refine Nat.max_le.mpr ⟨?_, hrev⟩
        cases hp : m.known? p with
        | none => exact Nat.zero_le _
        | some k' => exact h.known_rev p k' hp
    handles := fun q hq => ⟨Manager.known?_write_ne_none (h.handles q hq).1, (h.handles q hq).2⟩ }

theorem notify (h : ManagerInv m) (t : Thread) (d : Delivery) : ManagerInv (m.notify t d) := by
  have hrefs : (m.notify t d).handles.map Handle.ref = m.handles.map Handle.ref :=
    Manager.map_notify (fun _ _ => rfl) m t d
  unfold Manager.notify at hrefs ⊢
  split at hrefs
  · exact { h with }
  · exact { h with handles := by rw [hrefs]; exact h.handles }

theorem commit (h : ManagerInv m) (e : Entry) :
    ManagerInv ({ m with log := m.log ++ [e] } : Manager sdk) := by
  have hlen : m.log.length ≤ (m.log ++ [e]).length := by simp
  exact
    { h with
      lastRev_le := Nat.le_trans h.lastRev_le hlen
      handling_le := Nat.le_trans h.handling_le hlen
      stream := fun st hst => (h.stream st hst).commit e
      handling := h.handling.commit h.handling_le e }

theorem registerRead (h : ManagerInv m) (p : Ref) (t : sdk.Ticket) (v : String) :
    ManagerInv (m.registerRead p t v) := by
  have hknown := m.known?_registerRead p t v
  have hns : p.ns ∈ (m.addNamespace p.ns).namespaces := by
    unfold Manager.addNamespace
    split
    · assumption
    · exact List.mem_append_right _ (List.mem_singleton.mpr rfl)
  rw [m.registerRead_eq] at hknown ⊢
  refine
    { h with
      known_rev := fun q k hk => ?_
      handles := fun q hq => ?_ }
  · rw [hknown] at hk
    split at hk
    · cases hk
      cases hp : m.known? p with
      | none => exact Nat.le_trans (Nat.le_of_eq (sdk.register_none t v).2.1) (Nat.zero_le _)
      | some k => exact Nat.le_trans (sdk.rev_register_le k t v) (h.known_rev p k hp)
    · exact h.known_rev q k hk
  · rw [hknown]
    have hq : q ∈ m.handles.map Handle.ref ∨ q = p := by simpa using hq
    refine ⟨?_, ?_⟩
    · split
      · exact Option.some_ne_none _
      · next hne => exact (h.handles q (hq.resolve_right (Ne.symm hne))).1
    · rcases hq with hq | rfl
      · exact m.subset_addNamespace _ (h.handles q hq).2
      · exact hns

theorem receive (h : ManagerInv m) {st : Stream} {next : Stream × Option (Message × Nat)}
    (hscope : next.1.scope = st.scope)
    (hnone : next.2 = none → m.handling = .idle → m.stream = some st →
      StreamInv m.log m.lastRev .idle next.1)
    (hsome : ∀ msg rev, next.2 = some (msg, rev) → m.handling = .idle → m.stream = some st →
      rev ≤ m.log.length ∧ Carries m.log m.lastRev st.scope rev msg ∧
        ∀ q a, StreamInv m.log m.lastRev (.applying rev q a) next.1) :
    ManagerInv (m.receive st next) := by
  unfold Manager.receive
  split
  · next hidle =>
    obtain ⟨hidle, -, hst⟩ := hidle
    have hsc := h.scope st hst
    cases hn : next.2 with
    | none =>
      refine { h with stream := fun st' hst' => ?_, scope := fun st' hst' => ?_ }
      · cases hst'
        show StreamInv m.log m.lastRev m.handling next.1
        rw [hidle]
        exact hnone hn hidle hst
      · cases hst'
        exact hscope.trans hsc
    | some out =>
      obtain ⟨msg, rev⟩ := out
      obtain ⟨hle, hcarries, hinv⟩ := hsome msg rev hn hidle hst
      rw [hsc] at hcarries
      have hknown : ∀ p k, m.known? p = some k → sdk.rev k ≤ max m.lastRev rev := by
        intro p k hk
        have hrev := h.known_rev p k hk
        rw [hidle] at hrev
        exact Nat.le_trans hrev (Nat.max_le.mpr ⟨Nat.le_max_left .., Nat.zero_le _⟩)
      cases msg <;>
        exact
          { h with
            handling_le := hle
            known_rev := hknown
            stream := fun st' hst' => by cases hst'; exact hinv _ _
            scope := fun st' hst' => by cases hst'; exact hscope.trans hsc
            handling := Carries.handling (m := { m with stream := some next.1 }) hcarries }
  · exact h

/-- server の送る次の一通は、`StreamInv` を保つ。 -/
theorem receive_next (h : ManagerInv m) (st : Stream) :
    ManagerInv (m.receive st (st.next m.log)) := by
  have hidle : m.handling = .idle → m.stream = some st → StreamInv m.log m.lastRev .idle st :=
    fun hi hst => hi ▸ h.stream st hst
  exact h.receive (st.scope_next m.log) (fun hn hi hst => (hidle hi hst).next_none hn)
    (fun msg rev hn hi hst => (hidle hi hst).next_some hn)

theorem receive_heartbeat (h : ManagerInv m) (st : Stream) :
    ManagerInv (m.receive st (st, st.heartbeat)) :=
  h.receive rfl (fun _ hi hst => hi ▸ h.stream st hst)
    (fun _ _ hn _ hst => (h.stream st hst).heartbeat hn)

theorem applying (h : ManagerInv m) {rev : Nat} {q q' : List (Ref × Option String)}
    {a a' : Option (List Ref)} (hh : m.handling = .applying rev q a)
    (hnew : HandlingInv m.log m.lastRev m.streamNamespaces (.applying rev q' a')) :
    ManagerInv ({ m with handling := .applying rev q' a' } : Manager sdk) := by
  have hrev : m.handling.rev = rev := by rw [hh]; rfl
  refine
    { h with
      handling_le := by rw [← hrev]; exact h.handling_le
      known_rev := fun p k hk => ?_
      stream := fun st hst => ?_
      handling := hnew }
  · have hle := h.known_rev p k hk
    rw [hrev] at hle
    exact hle
  · exact StreamInv.applying (hh ▸ h.stream st hst)

theorem advanceRev (h : ManagerInv m) {rev : Nat} {q : List (Ref × Option String)}
    {a : Option (List Ref)} (hh : m.handling = .applying rev q a) :
    ManagerInv ({ m with lastRev := max m.lastRev rev, handling := .idle } : Manager sdk) := by
  have hrev : m.handling.rev = rev := by rw [hh]; rfl
  refine
    { h with
      lastRev_le := Nat.max_le.mpr ⟨h.lastRev_le, by rw [← hrev]; exact h.handling_le⟩
      handling_le := Nat.zero_le _
      known_rev := fun p k hk => ?_
      pass_rev := fun pass hp => Nat.le_trans (h.pass_rev pass hp) (Nat.le_max_left ..)
      stream := fun st hst => ?_
      handling := trivial }
  · have hle := h.known_rev p k hk
    rw [hrev] at hle
    exact Nat.le_trans hle (Nat.le_max_left ..)
  · exact StreamInv.advance (hh ▸ h.stream st hst)

theorem narrow (h : ManagerInv m) {rev : Nat} {q q' : List (Ref × Option String)}
    {a : Option (List Ref)} (hh : m.handling = .applying rev q a) (hq : q' ⊆ q) :
    ManagerInv ({ m with handling := .applying rev q' a } : Manager sdk) := by
  have hold := h.handling
  rw [hh] at hold
  exact h.applying hh ⟨fun x hx => hold.1 x (hq hx), hold.2⟩

theorem streamStep (h : ManagerInv m) : ManagerInv m.streamStep := by
  unfold Manager.streamStep
  split
  · exact h.notify ..
  · exact h
  · next rev r v rest snap _ hh =>
    exact (h.narrow hh (List.subset_cons_self ..)).write (Nat.le_max_right ..)
  · next rev present _ hh =>
    have hold := h.handling
    rw [hh] at hold
    obtain ⟨hle, habsent⟩ := hold.2 present rfl
    refine h.applying hh ⟨fun rv hrv => ⟨hle, ?_⟩, fun _ hp => by cases hp⟩
    obtain ⟨q, hq, rfl⟩ := List.mem_map.mp hrv
    obtain ⟨row, hrow, rfl⟩ := List.mem_map.mp hq
    have hcond := (List.mem_filter.mp hrow).2
    simp only [Bool.and_eq_true, decide_eq_true_eq] at hcond
    exact habsent row.1 hcond.2 hcond.1.2
  · next rev _ hh => exact h.advanceRev hh

theorem answer (h : ManagerInv m) (full : Bool) :
    ManagerInv ({ m with stream := m.stream.map (fun st => st.answer m.log full) } :
      Manager sdk) := by
  refine { h with stream := fun st' hst' => ?_, scope := fun st' hst' => ?_ }
  · obtain ⟨st, hst, rfl⟩ := Option.map_eq_some_iff.mp hst'
    exact (h.stream st hst).answer h.lastRev_le full
  · obtain ⟨st, hst, rfl⟩ := Option.map_eq_some_iff.mp hst'
    rw [st.scope_answer]
    exact h.scope st hst

theorem setPass (h : ManagerInv m) {state : PassState}
    (hs : ∀ pass, state = .running pass → pass.snapRev ≤ m.lastRev) :
    ManagerInv ({ m with pass := state } : Manager sdk) := { h with pass_rev := hs }

theorem passStep (h : ManagerInv m) (ok : Bool) : ManagerInv (m.passStep ok) := by
  unfold Manager.passStep
  split
  · exact h.notify ..
  · exact h
  · exact h.setPass (fun _ hp => by cases hp; exact le_rfl)
  · next pass _ hpass =>
    have hrev := h.pass_rev pass hpass
    split
    · refine (h.setPass (fun _ hp => ?_)).write (Nat.le_trans hrev (Nat.le_max_left ..))
      cases hp
      exact hrev
    · refine h.setPass (fun _ hp => ?_)
      cases hp
      rw [(Pass.captured_advance ..).1]
      exact hrev

end ManagerInv

/-! ## 一歩 -/

theorem Manager.receive_eq {sdk : Sdk} (m : Manager sdk) (st : Stream)
    (next : Stream × Option (Message × Nat)) :
    ∃ stream handling, m.receive st next = { m with stream, handling } := by
  unfold Manager.receive
  split
  · split
    · exact ⟨_, _, rfl⟩
    · next msg rev _ => cases msg <;> exact ⟨_, _, rfl⟩
  · exact ⟨_, _, rfl⟩

/-- 読み出しの値は、前からのものか、今の値か、既定値である。 -/
def ReadsFrom {sdk : Sdk} (m : Manager sdk) (ev : WatchEvent) (reads : Nat → Option (Read sdk)) :
    Prop :=
  ∀ i r v, reads i = some r → r.initial = some v →
    m.reads i = some r ∨ current m.log r.ref = some v ∨ ev = .fetch i (some v)

theorem Manager.readsFrom_setRead {sdk : Sdk} {m : Manager sdk} {ev : WatchEvent} {i : Nat}
    {read : Option (Read sdk)} (h : ∀ r v, read = some r → r.initial = some v →
      current m.log r.ref = some v ∨ ev = .fetch i (some v)) :
    ReadsFrom m ev (m.setRead i read).reads := by
  intro j r v hj hv
  simp only [setRead] at hj
  split at hj
  · next heq => exact .inr (heq ▸ h r v hj hv)
  · exact .inl hj

/-- 一歩がすること。`booked` は、登録の途中の読み出しと、購読すべき namespace だけを替える。 -/
inductive WatchEffect {sdk : Sdk} (m : Manager sdk) : WatchEvent → Manager sdk → Prop
  | booked {ev : WatchEvent} {reads : Nat → Option (Read sdk)} {namespaces : List NamespaceRef}
      (hreads : ReadsFrom m ev reads) (hns : m.namespaces ⊆ namespaces) :
      WatchEffect m ev { m with reads, namespaces }
  | committed (e : Entry) : WatchEffect m (.commit e) { m with log := m.log ++ [e] }
  | registered {i : Nat} {p : Ref} {t : sdk.Ticket} {v : String}
      (hr : m.reads i = some ⟨p, t, some v⟩) :
      WatchEffect m (.register i) ((m.registerRead p t v).setRead i none)
  | subscribed (hidle : m.handling = .idle) : WatchEffect m .subscribe
      { m with
        streamNamespaces := m.namespaces
        stream := some ⟨m.namespaces, .requested m.lastRev⟩ }
  | answered (full : Bool) :
      WatchEffect m (.answer full) { m with stream := m.stream.map (·.answer m.log full) }
  | received (st : Stream) {stream : Option Stream} {handling : Handling}
      (h : m.receive st (st.next m.log) = { m with stream, handling }) :
      WatchEffect m .receive { m with stream, handling }
  | beat (st : Stream) {stream : Option Stream} {handling : Handling}
      (h : m.receive st (st, st.heartbeat) = { m with stream, handling }) :
      WatchEffect m .heartbeat { m with stream, handling }
  | disconnected : WatchEffect m .disconnect { m with stream := none }
  | streamed : WatchEffect m .stream m.streamStep
  | begun : WatchEffect m .beginPass
      { m with pass := .captured m.namespaces (m.handles.map Handle.ref).dedup }
  | passed (ok : Bool) : WatchEffect m (.pass ok) (m.passStep ok)
  | handlingReordered {rev : Nat} {q queue : List (Ref × Option String)} {a : Option (List Ref)}
      {waiting : List NamespaceRef} (hh : m.handling = .applying rev q a) (hq : queue.Perm q) :
      WatchEffect m (.reorder .stream queue waiting) { m with handling := .applying rev queue a }
  | passReordered {pass : Pass} {queue : List (Ref × Option String)} {waiting : List NamespaceRef}
      (hp : m.pass = .running pass) (hq : queue.Perm pass.queue) (hw : waiting.Perm pass.waiting) :
      WatchEffect m (.reorder .reconcile queue waiting)
        { m with pass := .running { pass with queue, waiting } }

variable {sdk : Sdk} {m m' : Manager sdk} {ev : WatchEvent}

theorem watchStep_effect (hs : watchStep m ev = m') : WatchEffect m ev m' := by
  subst hs
  have hread : ∀ {ev reads}, ReadsFrom m ev reads → WatchEffect m ev { m with reads } :=
    fun h => .booked h (List.Subset.refl _)
  have hsame : ∀ {ev}, ReadsFrom m ev m.reads := fun _ _ _ h _ => .inl h
  cases ev with
  | commit e => exact .committed e
  | prepare i p =>
    simp only [watchStep, Manager.prepare]
    split
    · refine hread (Manager.readsFrom_setRead (fun r v hr hv => ?_))
      cases hr
      cases hv
    · exact hread hsame
  | fetch i fallback =>
    simp only [watchStep, Manager.fetch]
    split
    · split
      · next hcur =>
        refine hread (Manager.readsFrom_setRead (fun r v hr hv => .inl ?_))
        cases hr
        cases hv
        exact hcur
      · refine hread (Manager.readsFrom_setRead (fun r v hr hv => .inr ?_))
        cases hr
        cases hv
        rfl
      · exact hread (Manager.readsFrom_setRead (fun r v hr => nomatch hr))
    · exact hread hsame
  | register i =>
    simp only [watchStep, Manager.register]
    split
    · next hr => exact .registered hr
    · exact hread hsame
  | registerWatcher ns =>
    simp only [watchStep, Manager.addNamespace]
    split
    · exact hread hsame
    · exact .booked hsame (List.subset_append_left ..)
  | subscribe =>
    simp only [watchStep, Manager.subscribe]
    split
    · next hidle => exact .subscribed hidle.2.2.1
    · exact hread hsame
  | answer full => exact .answered full
  | receive =>
    simp only [watchStep]
    split
    · next st _ =>
      obtain ⟨stream, handling, heq⟩ := m.receive_eq st (st.next m.log)
      exact heq ▸ .received st heq
    · exact hread hsame
  | heartbeat =>
    simp only [watchStep]
    split
    · next st _ =>
      obtain ⟨stream, handling, heq⟩ := m.receive_eq st (st, st.heartbeat)
      exact heq ▸ .beat st heq
    · exact hread hsame
  | disconnect =>
    simp only [watchStep, Manager.disconnect]
    split
    · exact .disconnected
    · exact hread hsame
  | stream => exact .streamed
  | beginPass =>
    simp only [watchStep, Manager.beginPass]
    split
    · exact .begun
    · exact hread hsame
  | pass ok => exact .passed ok
  | reorder t queue waiting =>
    simp only [watchStep, Manager.reorder]
    split
    · next hh =>
      split
      · next hq => exact .handlingReordered hh hq
      · exact hread hsame
    · next hp =>
      split
      · next hq => exact .passReordered hp hq.1 hq.2
      · exact hread hsame
    · exact hread hsame

theorem managerInv_step (h : ManagerInv m) (ev : WatchEvent) : ManagerInv (watchStep m ev) := by
  generalize hs : watchStep m ev = m'
  cases watchStep_effect hs with
  | booked _ hns =>
    exact { h with handles := fun p hp => ⟨(h.handles p hp).1, hns (h.handles p hp).2⟩ }
  | committed e => exact h.commit e
  | registered hr => exact { h.registerRead .. with }
  | subscribed hidle =>
    exact
      { h with
        stream := fun st hst => by
          cases hst
          exact hidle ▸ StreamInv.requested le_rfl
        scope := fun st hst => by
          cases hst
          rfl
        handling := by
          show HandlingInv _ _ _ m.handling
          rw [hidle]
          trivial }
  | answered full => exact h.answer full
  | received st heq => exact heq ▸ h.receive_next st
  | beat st heq => exact heq ▸ h.receive_heartbeat st
  | disconnected =>
    exact
      { h with
        stream := fun _ hst => by cases hst
        scope := fun _ hst => by cases hst }
  | streamed => exact h.streamStep
  | begun => exact h.setPass (fun _ hp => by cases hp)
  | passed ok => exact h.passStep ok
  | handlingReordered hh hq => exact h.narrow hh hq.subset
  | passReordered hp _ _ =>
    have hrev := h.pass_rev _ hp
    exact h.setPass (fun _ heq => by cases heq; exact hrev)

/-! ## 追い付いた状態 -/

/-- 開いた stream が全ての namespace の行を送り終え、stream の thread が空いている。 -/
def Manager.caughtUp (m : Manager sdk) : Bool :=
  decide (m.handling = .idle) && (m.delivering .stream).isNone &&
    m.stream.any (fun st => decide (st.phase = .live m.log.length) &&
      m.namespaces.all (fun ns => decide (ns ∈ st.scope)))

theorem ManagerInv.unchanged_of_caughtUp (h : ManagerInv m)
    (hc : m.caughtUp = true) {p : Ref} (hp : p.ns ∈ m.namespaces) :
    Unchanged m.log m.lastRev p := by
  simp only [Manager.caughtUp, Bool.and_eq_true, decide_eq_true_eq, Option.any_eq_true,
    List.all_eq_true] at hc
  obtain ⟨⟨hidle, -⟩, st, hst, hphase, hall⟩ := hc
  exact StreamInv.unchanged (hidle ▸ h.stream st hst) hphase (hall _ hp)

end Kms.Client
