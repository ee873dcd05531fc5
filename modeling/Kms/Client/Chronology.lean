import Kms.Client.HandleInv

/-!
# 知らされる値の順

handle が知らされる値の列は、その path の履歴の中の、後戻りしない位置に対応する (`Chronological`)。stream が書く値は、
message の revision の値である。reconcile が書く値は読んだ時の値であって、控えた revision の値とは限らない。控えた
revision の値であれば (`Stamped`)、項の revision が位置になる。登録で渡す値の位置はどこにも残らないので、これから知らせる値の
下限 (`floor`) より後の値から始めないこと (`SeedsBehind`) も要る。

* `Chronological` — 後戻りしない列
* `Manager.floor` — これから知らせる値の revision の下限
* `Manager.Stamped` / `Manager.Fenced` / `Manager.SeedsBehind` — 一歩ごとの条件
* `Manager.Seeded` / `ChronInv` — 二つの thread を持つ manager の不変条件
* `Manager.chronological` — どの handle の列も後戻りしない
-/

namespace Kms.Client

open Kms.Infra

/-! ## 後戻りしない列 -/

def Chronological (log : List Entry) (p : Ref) (bound : Nat) (vs : List (Option String)) : Prop :=
  ∃ ts : List Nat, ts.Pairwise (· ≤ ·) ∧ (∀ t ∈ ts, t ≤ bound) ∧
    List.Forall₂ (fun t v => valueAt log t p = v) ts vs

namespace Chronological

variable {log : List Entry} {p : Ref} {bound : Nat} {vs : List (Option String)}

theorem singleton {rev : Nat} {v : Option String} (hle : rev ≤ bound)
    (hv : valueAt log rev p = v) : Chronological log p bound [v] :=
  ⟨[rev], List.pairwise_singleton .., fun _ h => List.mem_singleton.mp h ▸ hle, .cons hv .nil⟩

theorem mono {bound' : Nat} (h : Chronological log p bound vs) (hle : bound ≤ bound') :
    Chronological log p bound' vs := by
  obtain ⟨ts, hsorted, hbound, hall⟩ := h
  exact ⟨ts, hsorted, fun t ht => (hbound t ht).trans hle, hall⟩

theorem snoc (h : Chronological log p bound vs) {v : Option String}
    (hv : valueAt log bound p = v) : Chronological log p bound (vs ++ [v]) := by
  obtain ⟨ts, hsorted, hbound, hall⟩ := h
  refine ⟨ts ++ [bound], ?_, fun t ht => ?_, ?_⟩
  · refine List.pairwise_append.mpr ⟨hsorted, List.pairwise_singleton .., fun t ht u hu => ?_⟩
    rw [List.mem_singleton.mp hu]
    exact hbound t ht
  · rcases List.mem_append.mp ht with ht | ht
    · exact hbound t ht
    · exact Nat.le_of_eq (List.mem_singleton.mp ht)
  · exact List.rel_append hall (.cons hv .nil)

theorem commit (h : Chronological log p bound vs) (hle : bound ≤ log.length) (e : Entry) :
    Chronological (log ++ [e]) p bound vs := by
  obtain ⟨ts, hsorted, hbound, hall⟩ := h
  refine ⟨ts, hsorted, hbound, ?_⟩
  refine (List.forall₂_iff_get.mpr ⟨hall.length_eq, fun i hi hi' => ?_⟩)
  rw [valueAt_append (Nat.le_trans (hbound _ (List.get_mem ..)) hle)]
  exact (List.forall₂_iff_get.mp hall).2 i hi hi'

end Chronological

/-- どの handle も、登録からこれまでに、後戻りしない列の値を渡された。 -/
def Manager.NeverGoesBack {sdk : Sdk} (m : Manager sdk) : Prop :=
  ∀ h ∈ m.handles, Chronological m.log h.ref m.log.length h.seen

/-! ## これから知らせる値の下限 -/

namespace Manager

variable {sdk : Sdk} {m : Manager sdk}

def streamFloor (m : Manager sdk) : Nat := feedFloor m.log m.lastRev m.handling m.stream

/-- 二つの thread がこれから知らせる値の revision の下限。走っている一巡は、控えた revision で書く。 -/
def floor (m : Manager sdk) : Nat :=
  match m.pass with
  | .running pass => if pass.snapRev = 0 then m.streamFloor else pass.snapRev
  | _ => m.streamFloor

theorem floor_le_of_stream {m' : Manager sdk} (hp : m'.pass = m.pass)
    (h : m.streamFloor ≤ m'.streamFloor) : m.floor ≤ m'.floor := by
  unfold floor
  rw [hp]
  repeat' split
  all_goals first | exact h | exact le_rfl

theorem floor_le_of_applying {m' : Manager sdk} {rev : Nat} {q : List (Ref × Option String)}
    {a : Option (List Ref)} (hh : m.handling = .applying rev q a) (hp : m'.pass = m.pass)
    (h : feedFloor m.log m.lastRev (.applying rev q a) m.stream ≤ m'.streamFloor) :
    m.floor ≤ m'.floor :=
  floor_le_of_stream hp (by unfold streamFloor; rw [hh]; exact h)

theorem floor_le_of_running {pass pass' : Pass} (hp : m.pass = .running pass)
    (h : pass'.snapRev = pass.snapRev) :
    m.floor ≤ ({ m with pass := .running pass' } : Manager sdk).floor := by
  unfold floor
  simp only [hp, h]
  exact le_rfl

theorem floor_le_receive {st : Stream} {next : Stream × Option (Message × Nat)}
    (h : firstRev m.log (some st) ≤ arrival m.log next) : m.floor ≤ (m.receive st next).floor := by
  unfold receive
  split
  · next hidle =>
    obtain ⟨hidle, -, hst⟩ := hidle
    have hold : m.streamFloor = feedFloor m.log m.lastRev .idle (some st) := by
      rw [← hidle, ← hst, streamFloor]
    unfold arrival at h
    split at h
    · next msg rev hn =>
      rw [hn]
      cases msg <;> exact floor_le_of_stream rfl (hold ▸ feedFloor_receive h)
    · next hn =>
      rw [hn]
      exact floor_le_of_stream rfl (feedFloor_mono (fun _ => hst ▸ h))
  · exact le_rfl

end Manager

namespace ManagerInv

variable {sdk : Sdk} {m : Manager sdk}

theorem floor_le_streamFloor (h : ManagerInv m) : m.floor ≤ m.streamFloor := by
  unfold Manager.floor
  split
  · next pass hp =>
    split
    · exact le_rfl
    · have hle := h.pass_rev pass hp
      unfold Manager.streamFloor feedFloor
      rw [if_pos (by omega)]
      exact hle
  · exact le_rfl

theorem floor_le (h : ManagerInv m) : m.floor ≤ m.log.length :=
  Nat.le_trans h.floor_le_streamFloor
    (feedFloor_le h.lastRev_le (fun _ => firstRev_le h.stream) h.handling_le)

end ManagerInv

/-! ## 条件 -/

namespace Manager

variable {sdk : Sdk} {m : Manager sdk}

def Stamped (m : Manager sdk) (ev : WatchEvent) : Prop :=
  ∀ t ∈ ev.thread, t = .reconcile → ∀ d ∈ m.nextDelivery t,
    0 < d.rev ∧ valueAt m.log d.rev d.ref = d.value

instance {ev : WatchEvent} : Decidable (m.Stamped ev) :=
  inferInstanceAs (Decidable (∀ t ∈ ev.thread, _ → ∀ d ∈ m.nextDelivery t, _))

def Fenced (m : Manager sdk) (ev : WatchEvent) : Prop :=
  ∀ r ∈ m.registering ev, ∀ k ∈ m.known? r.1,
    sdk.rev k ≤ sdk.rev (sdk.register (some k) r.2.1 r.2.2).1

instance {ev : WatchEvent} : Decidable (m.Fenced ev) :=
  inferInstanceAs (Decidable (∀ r ∈ m.registering ev, ∀ k ∈ m.known? r.1, _))

def SeedsBehind (m : Manager sdk) (ev : WatchEvent) : Prop :=
  ∀ r ∈ m.registering ev, ∃ t ≤ m.floor,
    valueAt m.log t r.1 = (sdk.register (m.known? r.1) r.2.1 r.2.2).2

instance {ev : WatchEvent} : Decidable (m.SeedsBehind ev) :=
  inferInstanceAs (Decidable (∀ r ∈ m.registering ev, ∃ t ≤ m.floor, _))

end Manager

/-! ## 登録で渡した値 -/

def Handle.origin (h : Handle) : Ref × Option String := (h.ref, h.seed)

/-- 登録で渡した値は、どれも revision `bound` までの値である。 -/
def Seeded (log : List Entry) (bound : Nat) (origins : List (Ref × Option String)) : Prop :=
  ∀ s ∈ origins, ∃ t ≤ bound, valueAt log t s.1 = s.2

namespace Seeded

variable {log : List Entry} {bound bound' : Nat} {origins origins' : List (Ref × Option String)}

theorem mono (h : Seeded log bound origins) (ho : origins' ⊆ origins) (hle : bound ≤ bound') :
    Seeded log bound' origins' :=
  fun s hs => (h s (ho hs)).imp (fun _ ht => ⟨ht.1.trans hle, ht.2⟩)

theorem commit (h : Seeded log bound origins) (hle : bound ≤ log.length) (e : Entry) :
    Seeded (log ++ [e]) bound origins := by
  intro s hs
  obtain ⟨t, ht, hv⟩ := h s hs
  exact ⟨t, ht, (valueAt_append (ht.trans hle) ..).trans hv⟩

theorem append (h : Seeded log bound origins) {s : Ref × Option String}
    (hs : ∃ t ≤ bound, valueAt log t s.1 = s.2) : Seeded log bound (origins ++ [s]) :=
  List.forall_mem_append.mpr ⟨h, List.forall_mem_singleton.mpr hs⟩

end Seeded

/-- どの handle も、下限より後の値から始まってはいない。 -/
def Manager.Seeded {sdk : Sdk} (m : Manager sdk) : Prop :=
  Client.Seeded m.log m.floor (m.handles.map Handle.origin)

namespace Manager.Seeded

variable {sdk : Sdk} {m : Manager sdk}

theorem mono (h : m.Seeded) {m' : Manager sdk} (hlog : m'.log = m.log)
    (ho : m'.handles.map Handle.origin = m.handles.map Handle.origin)
    (hf : m.floor ≤ m'.floor) : m'.Seeded := by
  unfold Manager.Seeded
  rw [hlog, ho]
  exact Client.Seeded.mono h (List.Subset.refl _) hf

theorem notify (h : m.Seeded) (t : Thread) (d : Delivery) : (m.notify t d).Seeded := by
  have ho := m.map_notify (f := Handle.origin) (fun _ _ => rfl) t d
  unfold Manager.notify at ho ⊢
  split at ho <;> exact h.mono rfl ho le_rfl

theorem streamStep (h : m.Seeded) : m.streamStep.Seeded := by
  unfold Manager.streamStep
  split
  · exact h.notify _ _
  · exact h
  · next hh => exact h.mono rfl rfl (floor_le_of_applying hh rfl le_rfl)
  · next hh => exact h.mono rfl rfl (floor_le_of_applying hh rfl le_rfl)
  · next hh => exact h.mono rfl rfl (floor_le_of_applying hh rfl feedFloor_advance)

theorem passStep (h : m.Seeded) (ok : Bool) : (m.passStep ok).Seeded := by
  unfold Manager.passStep
  split
  · exact h.notify _ _
  · exact h
  · -- 最初の message の前に始まる一巡は、下限を変えない
    next hp =>
    refine h.mono rfl rfl ?_
    unfold floor
    rw [hp]
    show m.streamFloor ≤ if m.lastRev = 0 then m.streamFloor else m.lastRev
    split
    · exact le_rfl
    · next hne => exact Nat.le_of_eq (if_pos hne)
  · next pass _ hp =>
    split
    · exact h.mono rfl rfl (floor_le_of_running hp rfl)
    · exact h.mono rfl rfl (floor_le_of_running hp (Pass.captured_advance ..).1)

end Manager.Seeded

theorem seeded_step {sdk : Sdk} {m : Manager sdk} {ev : WatchEvent} (h : m.Seeded)
    (hm : ManagerInv m) (hseed : m.SeedsBehind ev) : (watchStep m ev).Seeded := by
  generalize hs : watchStep m ev = m'
  cases watchStep_effect hs with
  | booked _ _ => exact h
  | committed e =>
    exact (Seeded.commit h hm.floor_le e).mono (List.Subset.refl _)
      (Manager.floor_le_of_stream rfl (feedFloor_mono (fun _ => firstRev_commit e)))
  | registered hr =>
    rw [Manager.registerRead_eq, Manager.Seeded]
    simp only [Manager.setRead, List.map_append]
    exact Seeded.append h (hseed _ (Manager.registering_of_read hr))
  | subscribed _ | disconnected =>
    exact h.mono rfl rfl
      (Manager.floor_le_of_stream rfl (feedFloor_mono (fun _ => firstRev_le hm.stream)))
  | answered full =>
    refine h.mono rfl rfl (Manager.floor_le_of_stream rfl (feedFloor_mono (fun hz => ?_)))
    cases hst : m.stream with
    | none => exact le_rfl
    | some st => exact firstRev_answer (hz ▸ hm.stream st hst) full
  | received st heq =>
    exact h.mono rfl rfl (heq ▸ Manager.floor_le_receive (firstRev_le_next st))
  | beat st heq =>
    exact h.mono rfl rfl (heq ▸ Manager.floor_le_receive (firstRev_le_heartbeat st))
  | streamed => exact h.streamStep
  | begun => exact h.mono rfl rfl hm.floor_le_streamFloor
  | passed ok => exact h.passStep ok
  | handlingReordered hh _ =>
    exact h.mono rfl rfl (Manager.floor_le_of_applying hh rfl le_rfl)
  | passReordered hp _ _ => exact h.mono rfl rfl (Manager.floor_le_of_running hp rfl)

/-! ## 不変条件 -/

structure ChronInv {sdk : Sdk} (m : Manager sdk) : Prop where
  received : ∀ (i : Nat) (h : Handle) k, m.handles[i]? = some h → m.known? h.ref = some k →
    h.received ≠ [] → Chronological m.log h.ref (sdk.rev k) h.seen
  pending : ∀ t d, m.delivering t = some d → ∀ i ∈ d.handles, ∃ h : Handle,
    m.handles[i]? = some h ∧ h.ref = d.ref ∧ Chronological m.log d.ref d.rev h.seen
  stamped : ∀ t d, m.delivering t = some d → d.handles ≠ [] →
    valueAt m.log d.rev d.ref = d.value ∧ ∀ k, m.known? d.ref = some k → d.rev ≤ sdk.rev k
  exclusive : ∀ t d d', m.delivering t = some d → m.delivering t.other = some d' →
    d.ref = d'.ref → d.handles = [] ∨ d'.handles = []

namespace ChronInv

variable {sdk : Sdk} {m : Manager sdk}

theorem empty : ChronInv (Manager.empty sdk) where
  received := fun _ _ _ h => by cases h
  pending := fun _ _ h => by cases h
  stamped := fun _ _ h => by cases h
  exclusive := fun _ _ _ h => by cases h

theorem congr (h : ChronInv m) {m' : Manager sdk} (hlog : m'.log = m.log)
    (hk : m'.known = m.known) (hd : m'.delivering = m.delivering)
    (hh : m'.handles = m.handles) : ChronInv m' := by
  have hknown : ∀ q, m'.known? q = m.known? q := by
    intro q
    unfold Manager.known?
    rw [hk]
  refine ⟨?_, ?_, ?_, ?_⟩
  · simp only [hh, hlog, hknown]
    exact h.received
  · simp only [hd, hh, hlog]
    exact h.pending
  · simp only [hd, hlog, hknown]
    exact h.stamped
  · simp only [hd]
    exact h.exclusive

theorem dropDelivering (h : ChronInv m) (t : Thread) : ChronInv (m.setDelivering t none) :=
  have hold : ∀ t' d, (m.setDelivering t none).delivering t' = some d → m.delivering t' = some d :=
    fun _ _ => Manager.delivering_of_setDelivering_none
  { h with
    pending := fun t' d hd => h.pending t' d (hold t' d hd)
    stamped := fun t' d hd => h.stamped t' d (hold t' d hd)
    exclusive := fun t' d d' hd hd' => h.exclusive t' d d' (hold t' d hd) (hold _ d' hd') }

theorem pending_known (h : ChronInv m) (hm : ManagerInv m) {t : Thread} {d : Delivery}
    (hd : m.delivering t = some d) (hne : d.handles ≠ []) : ∃ k, m.known? d.ref = some k := by
  obtain ⟨i, hi⟩ := List.exists_mem_of_ne_nil _ hne
  obtain ⟨x, hx, href, -⟩ := h.pending t d hd i hi
  exact href ▸ hm.handle_known hx

/-- 書く値は、その revision の値である。他の thread はこの path を知らせていない。 -/
theorem write (h : ChronInv m) (hm : ManagerInv m) {t : Thread} {p : Ref} {v : Option String}
    {rev : Nat} {reconcile : Bool}
    (hrev : ∀ k, m.known? p = some k → revAllowsWrite (sdk.rev k) rev reconcile = true →
      sdk.rev k ≤ rev)
    (hv : ∀ d ∈ (m.setValue p v rev reconcile).2, valueAt m.log d.rev d.ref = d.value)
    (hseed : ∀ d ∈ (m.setValue p v rev reconcile).2,
      Seeded m.log d.rev (m.handles.map Handle.origin))
    (hrace : ∀ d ∈ (m.setValue p v rev reconcile).2, ∀ d' ∈ m.delivering t.other,
      d'.ref = d.ref → d'.handles = []) :
    ChronInv (m.write t p v rev reconcile) := by
  refine ⟨fun i x k' hx hk' hne => ?_, fun t' d hd i hi => ?_, fun t' d hd hne => ?_,
    fun t' d d' hd hd' href => ?_⟩
  · obtain ⟨k, hk⟩ := hm.handle_known hx
    exact (h.received i x k hx hk hne).mono (Manager.rev_le_write hk hk')
  · rcases Manager.delivering_write hd with ⟨-, hold⟩ | ⟨-, hout⟩
    · exact h.pending t' d hold i hi
    · obtain ⟨rfl, -, hall⟩ := Manager.setValue_delivers hout
      obtain ⟨x, hx, href⟩ := Manager.mem_handlersOf.mp hi
      obtain ⟨k, hk⟩ := hm.handle_known hx
      refine ⟨x, hx, href, ?_⟩
      by_cases hnil : x.received = []
      · -- まだ登録で渡した値しか持たない
        obtain ⟨r, hr, hval⟩ := hseed _ hout _ (List.mem_map_of_mem (List.mem_of_getElem? hx))
        unfold Handle.seen
        rw [hnil]
        exact .singleton hr (href ▸ hval)
      · have hchron := h.received i x k hx hk hnil
        rw [href] at hchron hk
        exact hchron.mono (hrev k hk (hall k hk))
  · rcases Manager.delivering_write hd with ⟨-, hold⟩ | ⟨-, hout⟩
    · refine ⟨(h.stamped t' d hold hne).1, fun k' hk' => ?_⟩
      obtain ⟨k, hk⟩ := h.pending_known hm hold hne
      exact ((h.stamped t' d hold hne).2 k hk).trans (Manager.rev_le_write hk hk')
    · obtain ⟨rfl, hknown, -⟩ := Manager.setValue_delivers hout
      refine ⟨hv _ hout, fun k' hk' => ?_⟩
      rw [Manager.known?_of_upsert hknown, if_pos rfl] at hk'
      cases hk'
      show rev ≤ sdk.rev (sdk.write (m.known? p) v rev)
      rw [sdk.rev_write]
      exact Nat.le_max_right ..
  · rcases Manager.delivering_write hd with ⟨htt, hold⟩ | ⟨rfl, hout⟩
    · rcases Manager.delivering_write hd' with ⟨-, hold'⟩ | ⟨-, hout⟩
      · exact h.exclusive t' d d' hold hold' href
      · exact .inl (hrace _ hout d (Thread.eq_other htt ▸ hold) href)
    · rcases Manager.delivering_write hd' with ⟨-, hold'⟩ | ⟨htt, -⟩
      · exact .inr (hrace _ hout d' hold' href.symm)
      · cases t' <;> cases htt

/-- 一つの thread が知らせている handle に、他の thread は知らせていない。 -/
theorem not_mem_other (h : ChronInv m) {t t' : Thread} {d d' : Delivery} {i : Nat}
    (hd : m.delivering t = some d) (hi : i ∈ d.handles) (htt : t' ≠ t)
    (hd' : m.delivering t' = some d') : i ∉ d'.handles := by
  intro hi'
  obtain ⟨x, hx, href, -⟩ := h.pending t d hd i hi
  obtain ⟨y, hy, href', -⟩ := h.pending t' d' hd' i hi'
  rw [hx] at hy
  cases hy
  rw [Thread.eq_other htt] at hd'
  rcases h.exclusive t d d' hd hd' (href.symm.trans href') with hnil | hnil
  · exact List.ne_nil_of_mem hi hnil
  · exact List.ne_nil_of_mem hi' hnil

/-- 一つの handle に知らせる。知らせる値は、それまでに知らせた値より前のものではない。 -/
theorem notify (h : ChronInv m) {t : Thread} {d : Delivery} (hd : m.delivering t = some d) :
    ChronInv (m.notify t d) := by
  unfold Manager.notify
  split
  · exact h.dropDelivering t
  · next i rest hcons =>
    have hne : d.handles ≠ [] := by
      rw [hcons]
      exact List.cons_ne_nil i rest
    obtain ⟨hvalue, hbound⟩ := h.stamped t d hd hne
    have hi : i ∈ d.handles := by
      rw [hcons]
      exact List.mem_cons_self
    obtain ⟨x, hx, href, hchron⟩ := h.pending t d hd i hi
    have hnew : Chronological m.log d.ref d.rev (x.receive d.value).seen := hchron.snoc hvalue
    refine
      { h with
        received := fun j y k hy hk hne' => ?_
        pending := fun t' d' hd' j hj => ?_
        stamped := fun t' d' hd' hne' => ?_
        exclusive := fun t' d' d'' hd' hd'' href' => ?_ }
    · have hy' : (m.handles.modify i (Handle.receive d.value))[j]? = some y := hy
      rw [Manager.getElem?_receive] at hy'
      obtain ⟨z, hz, rfl⟩ := Option.map_eq_some_iff.mp hy'
      split at hk
      · next hij =>
        subst hij
        rw [hx] at hz
        cases hz
        rw [if_pos rfl]
        show Chronological m.log x.ref (sdk.rev k) (x.receive d.value).seen
        have hk' : m.known? d.ref = some k := by
          rw [← href]
          exact hk
        rw [href]
        exact hnew.mono (hbound k hk')
      · next hij =>
        rw [if_neg hij] at hne' ⊢
        exact h.received j z k hz hk hne'
    · rcases Manager.delivering_setDelivering hd' with ⟨htt, hold⟩ | ⟨-, ⟨⟩⟩
      · obtain ⟨y, hy, hyref, hychron⟩ := h.pending t' d' hold j hj
        have hij : i ≠ j := by
          rintro rfl
          exact h.not_mem_other hd hi htt hold hj
        exact ⟨y, (List.getElem?_modify_ne _ _ hij).trans hy, hyref, hychron⟩
      · obtain ⟨y, hy, hyref, hychron⟩ :=
          h.pending t d hd j (by rw [hcons]; exact List.mem_cons_of_mem _ hj)
        by_cases hij : i = j
        · subst hij
          rw [hx] at hy
          cases hy
          refine ⟨x.receive d.value, ?_, href, hnew⟩
          show (m.handles.modify i (Handle.receive d.value))[i]? = some _
          rw [List.getElem?_modify_eq, hx]
          rfl
        · exact ⟨y, (List.getElem?_modify_ne _ _ hij).trans hy, hyref, hychron⟩
    · rcases Manager.delivering_setDelivering hd' with ⟨-, hold⟩ | ⟨-, ⟨⟩⟩
      · exact h.stamped t' d' hold hne'
      · exact ⟨hvalue, hbound⟩
    · rcases Manager.delivering_setDelivering hd' with ⟨-, hold⟩ | ⟨rfl, ⟨⟩⟩
      · rcases Manager.delivering_setDelivering hd'' with ⟨-, hold'⟩ | ⟨htt, ⟨⟩⟩
        · exact h.exclusive t' d' d'' hold hold' href'
        · rw [← htt] at hd
          exact .inl ((h.exclusive t' d' d hold hd href').resolve_right hne)
      · rcases Manager.delivering_setDelivering hd'' with ⟨-, hold'⟩ | ⟨htt, -⟩
        · exact .inr ((h.exclusive t' d d'' hd hold' href').resolve_left hne)
        · cases t' <;> cases htt

theorem registerRead (h : ChronInv m) (hm : ManagerInv m) {p : Ref} {t : sdk.Ticket} {v : String}
    (hfence : ∀ k ∈ m.known? p, sdk.rev k ≤ sdk.rev (sdk.register (some k) t v).1) :
    ChronInv (m.registerRead p t v) := by
  have hgrow : ∀ q k', (m.registerRead p t v).known? q = some k' →
      q ∈ m.handles.map Handle.ref → ∃ k, m.known? q = some k ∧ sdk.rev k ≤ sdk.rev k' := by
    intro q k' hk' hq
    obtain ⟨k, hk⟩ := Option.ne_none_iff_exists'.mp (hm.handles q hq).1
    refine ⟨k, hk, ?_⟩
    rw [Manager.known?_registerRead] at hk'
    split at hk'
    · next hpq =>
      subst hpq
      rw [hk] at hk'
      cases hk'
      exact hfence k hk
    · rw [hk] at hk'
      cases hk'
      exact le_rfl
  have hmem : ∀ {i : Nat} {x : Handle}, m.handles[i]? = some x → x.ref ∈ m.handles.map Handle.ref :=
    fun hx => List.mem_map_of_mem (List.mem_of_getElem? hx)
  rw [m.registerRead_eq] at hgrow ⊢
  refine ⟨fun i x k' hx hk' hne => ?_, fun t' d hd i hi => ?_, fun t' d hd hne => ?_,
    h.exclusive⟩
  · rw [List.getElem?_append] at hx
    split at hx
    · obtain ⟨k, hk, hle⟩ := hgrow _ k' hk' (hmem hx)
      exact (h.received i x k hx hk hne).mono hle
    · rw [List.getElem?_singleton] at hx
      split at hx
      · cases hx
        exact absurd rfl hne
      · cases hx
  · obtain ⟨x, hx, href, hchron⟩ := h.pending t' d hd i hi
    refine ⟨x, ?_, href, hchron⟩
    rw [List.getElem?_append_left (List.getElem?_eq_some_iff.mp hx).1]
    exact hx
  · refine ⟨(h.stamped t' d hd hne).1, fun k' hk' => ?_⟩
    obtain ⟨i, hi⟩ := List.exists_mem_of_ne_nil _ hne
    obtain ⟨x, hx, href, -⟩ := h.pending t' d hd i hi
    obtain ⟨k, hk, hle⟩ := hgrow _ k' hk' (href ▸ hmem hx)
    exact ((h.stamped t' d hd hne).2 k hk).trans hle

theorem commit (h : ChronInv m) (hm : ManagerInv m) (e : Entry) :
    ChronInv ({ m with log := m.log ++ [e] } : Manager sdk) := by
  have hmax : max m.lastRev m.handling.rev ≤ m.log.length :=
    Nat.max_le.mpr ⟨hm.lastRev_le, hm.handling_le⟩
  have hpend : ∀ t d, m.delivering t = some d → d.handles ≠ [] → d.rev ≤ m.log.length := by
    intro t d hd hne
    obtain ⟨k, hk⟩ := h.pending_known hm hd hne
    exact ((h.stamped t d hd hne).2 k hk).trans ((hm.known_rev _ k hk).trans hmax)
  refine
    { h with
      received := fun i x k hx hk hne => ?_
      pending := fun t d hd i hi => ?_
      stamped := fun t d hd hne => ?_ }
  · exact (h.received i x k hx hk hne).commit ((hm.known_rev _ k hk).trans hmax) e
  · obtain ⟨x, hx, href, hchron⟩ := h.pending t d hd i hi
    exact ⟨x, hx, href, hchron.commit (hpend t d hd (List.ne_nil_of_mem hi)) e⟩
  · refine ⟨?_, (h.stamped t d hd hne).2⟩
    show valueAt (m.log ++ [e]) d.rev d.ref = d.value
    rw [valueAt_append (hpend t d hd hne)]
    exact (h.stamped t d hd hne).1

theorem streamStep (h : ChronInv m) (hm : ManagerInv m) (hs : m.Seeded)
    (hrace : m.Unraced .stream) : ChronInv m.streamStep := by
  unfold Manager.streamStep
  split
  · next d hd => exact h.notify hd
  · exact h
  · next rev r v rest snap hd hh =>
    have hhand := hm.handling
    rw [hh] at hhand
    obtain ⟨hle, hval⟩ := hhand.1 _ List.mem_cons_self
    have hnext := Manager.nextDelivery_stream hd hh
    refine write (m := { m with handling := .applying rev rest snap }) (h.congr rfl rfl rfl rfl)
      (hm.narrow hh (List.subset_cons_self ..)) (fun k hk _ => ?_) (fun d hd' => ?_)
      (fun d hd' => ?_) (fun d hd' => hrace .stream rfl d (hnext.trans hd'))
    · -- 処理している message の revision は、どの項の revision よりも前ではない
      have hknown := hm.known_rev r k hk
      rw [hh] at hknown
      exact hknown.trans (Nat.max_le.mpr ⟨hle, le_rfl⟩)
    · obtain ⟨rfl, -, -⟩ := Manager.setValue_delivers hd'
      exact hval
    · obtain ⟨rfl, -, -⟩ := Manager.setValue_delivers hd'
      refine Seeded.mono hs (List.Subset.refl _) (hm.floor_le_streamFloor.trans ?_)
      unfold Manager.streamFloor
      rw [hh]
      exact feedFloor_le hle nofun le_rfl
  all_goals exact h.congr rfl rfl rfl rfl

theorem passStep (h : ChronInv m) (hm : ManagerInv m) {ok : Bool} (hstamp : m.Stamped (.pass ok))
    (hs : m.Seeded) (hrace : m.Unraced (.pass ok)) :
    ChronInv (m.passStep ok) := by
  unfold Manager.passStep
  split
  · next d hd => exact h.notify hd
  · exact h
  · exact h.congr rfl rfl rfl rfl
  · next pass hd hp =>
    split
    · next r v rest hq =>
      have hnext := Manager.nextDelivery_reconcile hd hp hq
      refine write (m := { m with pass := .running { pass with queue := rest } })
        (h.congr rfl rfl rfl rfl) ?_ ?_
        (fun d hd' => (hstamp .reconcile rfl rfl d (hnext.trans hd')).2) (fun d hd' => ?_)
        (fun d hd' => hrace .reconcile rfl d (hnext.trans hd'))
      · exact { hm with pass_rev := fun pass' heq => by cases heq; exact hm.pass_rev pass hp }
      · exact fun k _ hallow => of_decide_eq_true hallow
      · have hpos := (hstamp .reconcile rfl rfl d (hnext.trans hd')).1
        obtain ⟨rfl, -, -⟩ := Manager.setValue_delivers hd'
        refine Seeded.mono hs (List.Subset.refl _) (Nat.le_of_eq ?_)
        unfold Manager.floor
        simp only [hp]
        exact if_neg (Nat.ne_of_gt hpos)
    · exact h.congr rfl rfl rfl rfl

end ChronInv

theorem chronInv_step {sdk : Sdk} {m : Manager sdk} {ev : WatchEvent} (h : ChronInv m)
    (hm : ManagerInv m) (hs : m.Seeded) (hfence : m.Fenced ev) (hstamp : m.Stamped ev)
    (hrace : m.Unraced ev) : ChronInv (watchStep m ev) := by
  generalize hstep : watchStep m ev = m'
  cases watchStep_effect hstep with
  | committed e => exact h.commit hm e
  | registered hr =>
    exact (h.registerRead hm (hfence _ (Manager.registering_of_read hr))).congr rfl rfl rfl rfl
  | streamed => exact h.streamStep hm hs hrace
  | passed ok => exact h.passStep hm hstamp hs hrace
  | _ => exact h.congr rfl rfl rfl rfl

theorem Manager.chronological {sdk : Sdk} {evs : List WatchEvent}
    (hcond : AlongSteps watchStep
      (fun m ev => m.Fenced ev ∧ m.Stamped ev ∧ m.SeedsBehind ev ∧ m.Unraced ev)
      (Manager.empty sdk) evs) : (run watchStep (Manager.empty sdk) evs).NeverGoesBack := by
  obtain ⟨hm, hs, hc⟩ := run_steps_invariant (I := fun m => ManagerInv m ∧ m.Seeded ∧ ChronInv m)
    (fun _ ev ⟨hfence, hstamp, hseed, hrace⟩ ⟨hm, hs, hc⟩ => ⟨managerInv_step hm ev,
      seeded_step hs hm hseed, chronInv_step hc hm hs hfence hstamp hrace⟩)
    ⟨ManagerInv.empty, fun _ hs => absurd hs List.not_mem_nil, ChronInv.empty⟩ hcond
  intro h hh
  by_cases hnil : h.received = []
  · obtain ⟨rev, hle, hval⟩ := hs h.origin (List.mem_map_of_mem hh)
    unfold Handle.seen
    rw [hnil]
    exact .singleton (hle.trans hm.floor_le) hval
  · obtain ⟨i, hi⟩ := List.mem_iff_getElem?.mp hh
    obtain ⟨k, hk⟩ := hm.handle_known hi
    exact (hc.received i h k hi hk hnil).mono (Nat.le_trans (hm.known_rev _ k hk)
      (Nat.max_le.mpr ⟨hm.lastRev_le, hm.handling_le⟩))

end Kms.Client
