import Kms.Client.ManagerInv

/-!
# handle の持つ値

handle は、lock を放した thread から一つずつ知らされる。登録が `known` の値を変えず (`Agrees`)、二つの thread が同じ
path を追い越さなければ (`Unraced`)、知らせている途中でない handle は manager の知っている値を持つ。

* `Manager.Agrees` / `Manager.Unraced` — 一歩ごとの条件
* `HandleInv` / `handleInv_step`
-/

namespace Kms.Client

open Kms.Infra

/-! ## 条件 -/

def Thread.other : Thread → Thread
  | .stream => .reconcile
  | .reconcile => .stream

theorem Thread.eq_other {t t' : Thread} (h : t' ≠ t) : t' = t.other := by
  cases t <;> cases t' <;> first | rfl | exact absurd rfl h

def WatchEvent.thread : WatchEvent → Option Thread
  | .stream => some .stream
  | .pass _ => some .reconcile
  | _ => none

namespace Manager

variable {sdk : Sdk} {m : Manager sdk}

/-- thread の次の一歩が `setValue` で書く値。 -/
def nextWrite (m : Manager sdk) : Thread → Option (Ref × Option String)
  | .stream =>
    match m.delivering .stream, m.handling with
    | none, .applying _ (rv :: _) _ => some rv
    | _, _ => none
  | .reconcile =>
    match m.delivering .reconcile, m.pass with
    | none, .running pass => pass.queue.head?
    | _, _ => none

/-- その書き込みの revision。 -/
def writeRev (m : Manager sdk) : Thread → Nat
  | .stream => m.handling.rev
  | .reconcile =>
    match m.pass with
    | .running pass => pass.snapRev
    | _ => 0

/-- その書き込みが退けられずに値を変える時に、知らせ始めるもの。 -/
def nextDelivery (m : Manager sdk) (t : Thread) : Option Delivery :=
  (m.nextWrite t).bind
    (fun rv => (m.setValue rv.1 rv.2 (m.writeRev t) (decide (t = .reconcile))).2)

def registering (m : Manager sdk) : WatchEvent → Option (Ref × sdk.Ticket × String)
  | .register i => (m.reads i).bind (fun r => r.initial.map (fun v => (r.ref, r.ticket, v)))
  | _ => none

theorem registering_of_read {i : Nat} {p : Ref} {t : sdk.Ticket} {v : String}
    (h : m.reads i = some ⟨p, t, some v⟩) : m.registering (.register i) = some (p, t, v) := by
  simp [registering, h]

def Agrees (m : Manager sdk) (ev : WatchEvent) : Prop :=
  ∀ r ∈ m.registering ev, ∀ k ∈ m.known? r.1,
    sdk.value (sdk.register (some k) r.2.1 r.2.2).1 = sdk.value k ∧
      (sdk.register (some k) r.2.1 r.2.2).2 = sdk.value k

def Unraced (m : Manager sdk) (ev : WatchEvent) : Prop :=
  ∀ t ∈ ev.thread, ∀ d ∈ m.nextDelivery t, ∀ d' ∈ m.delivering t.other,
    d'.ref = d.ref → d'.handles = []

instance {ev : WatchEvent} : Decidable (m.Unraced ev) :=
  inferInstanceAs (Decidable (∀ t ∈ ev.thread, ∀ d ∈ m.nextDelivery t, _))

theorem nextDelivery_stream {rev : Nat} {r : Ref} {v : Option String}
    {rest : List (Ref × Option String)} {snap : Option (List Ref)}
    (hd : m.delivering .stream = none) (hh : m.handling = .applying rev ((r, v) :: rest) snap) :
    m.nextDelivery .stream = (m.setValue r v rev false).2 := by
  simp [nextDelivery, nextWrite, writeRev, Handling.rev, hd, hh]

theorem nextDelivery_reconcile {pass : Pass} {r : Ref} {v : Option String}
    {rest : List (Ref × Option String)} (hd : m.delivering .reconcile = none)
    (hp : m.pass = .running pass) (hq : pass.queue = (r, v) :: rest) :
    m.nextDelivery .reconcile = (m.setValue r v pass.snapRev true).2 := by
  simp [nextDelivery, nextWrite, writeRev, hd, hp, hq]

theorem setValue_delivery {p : Ref} {v : Option String} {rev : Nat} {reconcile : Bool}
    (hall : ∀ k, m.known? p = some k → revAllowsWrite (sdk.rev k) rev reconcile = true)
    (hne : m.knownValue p ≠ v) :
    (m.setValue p v rev reconcile).2 = some ⟨p, v, rev, m.handlersOf p⟩ := by
  rcases m.setValue_cases p v rev reconcile with ⟨k, hk, hrej, -⟩ | ⟨-, heq⟩
  · rw [hall k hk] at hrej
    cases hrej
  · rw [heq]
    exact if_pos hne

theorem setValue_delivers {p : Ref} {v : Option String} {rev : Nat} {reconcile : Bool}
    {d : Delivery} (h : (m.setValue p v rev reconcile).2 = some d) :
    d = ⟨p, v, rev, m.handlersOf p⟩ ∧
      (m.setValue p v rev reconcile).1 = m.known.upsert (p, sdk.write (m.known? p) v rev) ∧
      ∀ k, m.known? p = some k → revAllowsWrite (sdk.rev k) rev reconcile = true := by
  rcases m.setValue_cases p v rev reconcile with ⟨-, -, -, heq⟩ | ⟨hall, heq⟩
  · rw [heq] at h
    cases h
  · rw [heq, Option.ite_none_right_eq_some, Option.some.injEq] at h
    exact ⟨h.2.symm, by rw [heq], hall⟩

/-! ## 書いた後の値 -/

theorem knownValue_write_cases (m : Manager sdk) (t : Thread) (p : Ref) (v : Option String)
    (rev : Nat) (reconcile : Bool) :
    (∃ k, m.known? p = some k ∧ revAllowsWrite (sdk.rev k) rev reconcile = false ∧
      m.write t p v rev reconcile = m.setDelivering t none) ∨
    ((∀ k, m.known? p = some k → revAllowsWrite (sdk.rev k) rev reconcile = true) ∧
      (∀ q, (m.write t p v rev reconcile).knownValue q = if p = q then v else m.knownValue q) ∧
      (m.write t p v rev reconcile).delivering = fun t' =>
        if t' = t then (if m.knownValue p ≠ v then some ⟨p, v, rev, m.handlersOf p⟩ else none)
        else m.delivering t') := by
  rcases m.write_cases t p v rev reconcile with hrej | ⟨hall, hout⟩
  · exact .inl hrej
  · refine .inr ⟨hall, fun q => ?_, by rw [hout]; rfl⟩
    unfold knownValue
    rw [hout, known?_of_upsert rfl]
    split
    · exact sdk.value_write ..
    · rfl

theorem mem_handlersOf {i : Nat} {p : Ref} :
    i ∈ m.handlersOf p ↔ ∃ h, m.handles[i]? = some h ∧ h.ref = p := by
  unfold handlersOf
  rw [List.mem_filter, Option.any_eq_true, List.mem_range]
  constructor
  · rintro ⟨-, h, hi, hp⟩
    exact ⟨h, hi, of_decide_eq_true hp⟩
  · rintro ⟨h, hi, hp⟩
    exact ⟨(List.getElem?_eq_some_iff.mp hi).1, h, hi, decide_eq_true hp⟩

theorem knownValue_registerRead (m : Manager sdk) {p : Ref} {t : sdk.Ticket} {v : String}
    (hagree : ∀ k ∈ m.known? p, sdk.value (sdk.register (some k) t v).1 = sdk.value k ∧
      (sdk.register (some k) t v).2 = sdk.value k) :
    (m.registerRead p t v).knownValue p = (sdk.register (m.known? p) t v).2 := by
  unfold knownValue
  rw [known?_registerRead, if_pos rfl]
  cases hk : m.known? p with
  | none => exact (sdk.register_none t v).1.trans (sdk.register_none t v).2.2.symm
  | some k => exact (hagree k hk).1.trans (hagree k hk).2.symm

/-- この handle にこれから知らせる thread がある。 -/
def Pending (m : Manager sdk) (i : Nat) (p : Ref) : Prop :=
  ∃ t d, m.delivering t = some d ∧ d.ref = p ∧ i ∈ d.handles

end Manager

/-! ## handle の値 -/

structure HandleInv {sdk : Sdk} (m : Manager sdk) : Prop where
  targets : ∀ t d, m.delivering t = some d → ∀ i ∈ d.handles,
    ∃ h, m.handles[i]? = some h ∧ h.ref = d.ref
  delivery : ∀ t d, m.delivering t = some d → d.handles ≠ [] → m.knownValue d.ref = d.value
  held : ∀ i h, m.handles[i]? = some h → h.held = m.knownValue h.ref ∨ m.Pending i h.ref

namespace HandleInv

variable {sdk : Sdk} {m : Manager sdk}

theorem empty : HandleInv (Manager.empty sdk) where
  targets := fun _ _ h => by cases h
  delivery := fun _ _ h => by cases h
  held := fun _ _ h => by cases h

theorem dropDelivering (h : HandleInv m) {t : Thread}
    (hnil : ∀ d, m.delivering t = some d → d.handles = []) :
    HandleInv (m.setDelivering t none) := by
  refine ⟨fun t' d hd => h.targets t' d (Manager.delivering_of_setDelivering_none hd),
    fun t' d hd => h.delivery t' d (Manager.delivering_of_setDelivering_none hd),
    fun i x hx => (h.held i x hx).imp id ?_⟩
  rintro ⟨t', d, hd, href, hi⟩
  have hne : t' ≠ t := by
    rintro rfl
    rw [hnil d hd] at hi
    exact absurd hi List.not_mem_nil
  refine ⟨t', d, ?_, href, hi⟩
  simp only [Manager.setDelivering, if_neg hne]
  exact hd

theorem write (h : HandleInv m) {t : Thread} {p : Ref} {v : Option String} {rev : Nat}
    {reconcile : Bool} (ht : m.delivering t = none)
    (hrace : ∀ d ∈ (m.setValue p v rev reconcile).2, ∀ d' ∈ m.delivering t.other,
      d'.ref = d.ref → d'.handles = []) :
    HandleInv (m.write t p v rev reconcile) := by
  have hother : ∀ t' d, m.delivering t' = some d → t' ≠ t ∧ t' = t.other := by
    intro t' d hd
    have hne : t' ≠ t := by
      rintro rfl
      rw [ht] at hd
      cases hd
    exact ⟨hne, Thread.eq_other hne⟩
  rcases m.knownValue_write_cases t p v rev reconcile with ⟨-, -, -, hout⟩ | ⟨hall, hvalue, hdeliv⟩
  · rw [hout]
    exact h.dropDelivering (fun d hd => by rw [ht] at hd; cases hd)
  · refine ⟨fun t' d hd i hi => ?_, fun t' d hd hne => ?_, fun i x hx => ?_⟩
    · rw [hdeliv] at hd
      simp only at hd
      split at hd
      · split at hd
        · cases hd
          exact Manager.mem_handlersOf.mp hi
        · cases hd
      · exact h.targets t' d hd i hi
    · rw [hdeliv] at hd
      simp only at hd
      rw [hvalue]
      split at hd
      · split at hd
        · cases hd
          exact if_pos rfl
        · cases hd
      · have hold := h.delivery t' d hd hne
        split
        · next hp =>
          by_contra hv
          have hchanged : m.knownValue p ≠ v := by
            rw [hp, hold]
            exact Ne.symm hv
          exact hne (hrace _ (Manager.setValue_delivery hall hchanged) d
            ((hother t' d hd).2 ▸ hd) hp.symm)
        · exact hold
    · have hx' : m.handles[i]? = some x := hx
      by_cases hp : p = x.ref
      · by_cases hchanged : m.knownValue p ≠ v
        · refine .inr ⟨t, ⟨p, v, rev, m.handlersOf p⟩, ?_, hp, ?_⟩
          · rw [hdeliv]
            simp only [if_pos, hchanged, ne_eq, not_false_eq_true]
          · exact Manager.mem_handlersOf.mpr ⟨x, hx', hp.symm⟩
        · rw [hvalue, if_pos hp]
          refine (h.held i x hx').imp (fun heq => ?_) ?_
          · rw [heq, ← hp]
            exact not_not.mp hchanged
          · rintro ⟨t', d, hd, hrest⟩
            exact ⟨t', d, by rw [hdeliv]; simp only [if_neg (hother t' d hd).1]; exact hd, hrest⟩
      · rw [hvalue, if_neg hp]
        refine (h.held i x hx').imp id ?_
        rintro ⟨t', d, hd, hrest⟩
        exact ⟨t', d, by rw [hdeliv]; simp only [if_neg (hother t' d hd).1]; exact hd, hrest⟩

theorem notify (h : HandleInv m) {t : Thread} {d : Delivery} (hd : m.delivering t = some d) :
    HandleInv (m.notify t d) := by
  unfold Manager.notify
  split
  · next hnil => exact h.dropDelivering (fun d' hd' => by rw [hd] at hd'; cases hd'; exact hnil)
  · next i rest hcons =>
    have hvalue : m.knownValue d.ref = d.value :=
      h.delivery t d hd (by rw [hcons]; exact List.cons_ne_nil i rest)
    have hkept : ∀ (j : Nat) (x : Handle), m.handles[j]? = some x → ∃ y : Handle,
        (m.handles.modify i (Handle.receive d.value))[j]? = some y ∧ y.ref = x.ref := by
      intro j x hx
      refine ⟨_, by rw [Manager.getElem?_receive, hx]; rfl, ?_⟩
      split <;> rfl
    refine ⟨fun t' d' hd' j hj => ?_, fun t' d' hd' hne => ?_, fun j x hx => ?_⟩
    · rcases Manager.delivering_setDelivering hd' with ⟨-, hold⟩ | ⟨-, ⟨⟩⟩
      · obtain ⟨x, hx, href⟩ := h.targets t' d' hold j hj
        obtain ⟨y, hy, hyref⟩ := hkept j x hx
        exact ⟨y, hy, hyref.trans href⟩
      · obtain ⟨x, hx, href⟩ := h.targets t d hd j (by rw [hcons]; exact List.mem_cons_of_mem _ hj)
        obtain ⟨y, hy, hyref⟩ := hkept j x hx
        exact ⟨y, hy, hyref.trans href⟩
    · rcases Manager.delivering_setDelivering hd' with ⟨-, hold⟩ | ⟨-, ⟨⟩⟩
      · exact h.delivery t' d' hold hne
      · exact hvalue
    · have hx' : (m.handles[j]?).map (fun y => if i = j then y.receive d.value else y) =
          some x := by
        rw [← Manager.getElem?_receive]
        exact hx
      obtain ⟨y, hy, rfl⟩ := Option.map_eq_some_iff.mp hx'
      by_cases hij : i = j
      · -- 今知らせた handle
        obtain ⟨z, hz, href⟩ := h.targets t d hd i (by rw [hcons]; exact List.mem_cons_self)
        rw [hij, hy] at hz
        cases hz
        rw [if_pos hij]
        exact .inl (by rw [show (y.receive d.value).ref = d.ref from href]; exact hvalue.symm)
      · rw [if_neg hij]
        refine (h.held j y hy).imp id ?_
        rintro ⟨t', d', hd', href, hj⟩
        by_cases ht : t' = t
        · subst ht
          rw [hd] at hd'
          cases hd'
          rw [hcons] at hj
          refine ⟨t', { d with handles := rest }, if_pos rfl, href, ?_⟩
          exact (List.mem_cons.mp hj).resolve_left (Ne.symm hij)
        · exact ⟨t', d', by simp only [Manager.setDelivering, if_neg ht]; exact hd', href, hj⟩

theorem registerRead (h : HandleInv m) (hm : ManagerInv m) {p : Ref} {t : sdk.Ticket} {v : String}
    (hagree : ∀ k ∈ m.known? p, sdk.value (sdk.register (some k) t v).1 = sdk.value k ∧
      (sdk.register (some k) t v).2 = sdk.value k) : HandleInv (m.registerRead p t v) := by
  -- handle のある path の値は変わらない
  have hvalue : ∀ q, q ∈ m.handles.map Handle.ref →
      (m.registerRead p t v).knownValue q = m.knownValue q := by
    intro q hq
    unfold Manager.knownValue
    rw [Manager.known?_registerRead]
    split
    · next hpq =>
      subst hpq
      cases hk : m.known? p with
      | none => exact absurd hk (hm.handles p hq).1
      | some k => exact (hagree k hk).1
    · rfl
  have hnew := m.knownValue_registerRead hagree
  have hmem : ∀ {i : Nat} {x : Handle}, m.handles[i]? = some x → x.ref ∈ m.handles.map Handle.ref :=
    fun hx => List.mem_map_of_mem (List.mem_of_getElem? hx)
  rw [m.registerRead_eq] at hvalue hnew ⊢
  refine ⟨fun t' d hd i hi => ?_, fun t' d hd hne => ?_, fun i x hx => ?_⟩
  · obtain ⟨x, hx, href⟩ := h.targets t' d hd i hi
    refine ⟨x, ?_, href⟩
    rw [List.getElem?_append_left (List.getElem?_eq_some_iff.mp hx).1]
    exact hx
  · obtain ⟨i, hi⟩ := List.exists_mem_of_ne_nil _ hne
    obtain ⟨x, hx, href⟩ := h.targets t' d hd i hi
    rw [hvalue d.ref (href ▸ hmem hx)]
    exact h.delivery t' d hd hne
  · rw [List.getElem?_append] at hx
    split at hx
    · rw [hvalue x.ref (hmem hx)]
      exact h.held i x hx
    · have hx' : x =
          ⟨p, (sdk.register (m.known? p) t v).2, (sdk.register (m.known? p) t v).2, []⟩ := by
        rw [List.getElem?_singleton] at hx
        split at hx
        · exact (Option.some.inj hx).symm
        · cases hx
      subst hx'
      exact .inl hnew.symm

theorem congr (h : HandleInv m) {m' : Manager sdk} (hk : m'.known = m.known)
    (hd : m'.delivering = m.delivering) (hh : m'.handles = m.handles) : HandleInv m' := by
  have hvalue : ∀ q, m'.knownValue q = m.knownValue q := by
    intro q
    unfold Manager.knownValue Manager.known?
    rw [hk]
  refine ⟨fun t d h' => ?_, fun t d h' => ?_, fun i x hx => ?_⟩
  · rw [hd] at h'
    rw [hh]
    exact h.targets t d h'
  · rw [hd] at h'
    rw [hvalue]
    exact h.delivery t d h'
  · rw [hh] at hx
    rw [hvalue]
    unfold Manager.Pending
    rw [hd]
    exact h.held i x hx

theorem streamStep (h : HandleInv m) (hrace : m.Unraced .stream) : HandleInv m.streamStep := by
  unfold Manager.streamStep
  split
  · next d hd => exact h.notify hd
  · exact h
  · next rev r v rest snap hd hh =>
    refine write (m := { m with handling := .applying rev rest snap }) (h.congr rfl rfl rfl) hd
      (fun d hd' => hrace .stream rfl d ?_)
    rw [Manager.nextDelivery_stream hd hh]
    exact hd'
  all_goals exact h.congr rfl rfl rfl

theorem passStep (h : HandleInv m) {ok : Bool} (hrace : m.Unraced (.pass ok)) :
    HandleInv (m.passStep ok) := by
  unfold Manager.passStep
  split
  · next d hd => exact h.notify hd
  · exact h
  · exact h.congr rfl rfl rfl
  · next pass hd hp =>
    split
    · next r v rest hq =>
      refine write (m := { m with pass := .running { pass with queue := rest } })
        (h.congr rfl rfl rfl) hd (fun d hd' => hrace .reconcile rfl d ?_)
      rw [Manager.nextDelivery_reconcile hd hp hq]
      exact hd'
    · exact h.congr rfl rfl rfl

end HandleInv

theorem handleInv_step {sdk : Sdk} {m : Manager sdk} {ev : WatchEvent} (h : HandleInv m)
    (hm : ManagerInv m) (hagree : m.Agrees ev) (hrace : m.Unraced ev) :
    HandleInv (watchStep m ev) := by
  generalize hs : watchStep m ev = m'
  cases watchStep_effect hs with
  | registered hr =>
    exact (h.registerRead hm (hagree _ (Manager.registering_of_read hr))).congr rfl rfl rfl
  | streamed => exact h.streamStep hrace
  | passed ok => exact h.passStep hrace
  | _ => exact h.congr rfl rfl rfl

end Kms.Client
