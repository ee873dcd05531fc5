import Kms.Watch.Hub

/-!
# 一人の購読者の不変条件

どの entry がこの購読者への配送を終えたかを述語 `reached` で受け取り、溜めている間と流している間の不変条件を述べる。

* `flush_spec` — 溜めた entry を流した結果
* `SlotInv` — 不変条件。`Waiting` は溜めている間、`Streaming` は流している間
* `SlotInv.offered` / `SlotInv.activated` / `SlotInv.received` — 操作ごとの保存
-/

namespace Kms.Watch

open Kms.Infra Kms.Storage

/-! ## subscription の操作 -/

theorem flush_spec {es : List ChangeLogModel} (hes : Increasing es) :
    ∀ {s s' : Subscription}, s.flush es = (true, s') →
      s'.sent = s.sent ++ es.filter (fun e => decide (s.lastSent < e.revision)) ∧
        s'.reg = s.reg ∧ s'.backlog = s.backlog ∧ s'.ready = s.ready ∧
        s'.dropped = s.dropped ∧ s.lastSent ≤ s'.lastSent ∧
        (s'.lastSent = s.lastSent ∨ ∃ e ∈ s'.sent, e.revision = s'.lastSent) := by
  induction es with
  | nil =>
    intro s s' h
    cases h
    simp
  | cons e es ih =>
    intro s s' h
    obtain ⟨hhead, htail⟩ := List.pairwise_cons.mp hes
    unfold Subscription.flush at h
    by_cases hle : e.revision ≤ s.lastSent
    · rw [if_pos hle] at h
      rw [List.filter_cons_of_neg (by simpa using hle)]
      exact ih htail h
    · rw [if_neg hle] at h
      unfold Subscription.send at h
      by_cases hroom : s.events.length < s.bufferCap
      · rw [if_pos hroom] at h
        obtain ⟨hsent, hreg, hbl, hready, hdropped, hge, hlast⟩ := ih htail h
        have hlt : s.lastSent < e.revision := Nat.lt_of_not_le hle
        -- 昇順なので、残りの entry は全て今送った entry を超える。
        have hrest : es.filter (fun x => decide (e.revision < x.revision)) =
            es.filter (fun x => decide (s.lastSent < x.revision)) := by
          refine List.filter_congr (fun x hx => ?_)
          simp [hhead x hx, hlt.trans (hhead x hx)]
        refine ⟨?_, hreg, hbl, hready, hdropped, Nat.le_trans hlt.le hge, ?_⟩
        · rw [hsent, List.filter_cons_of_pos (by simpa using hlt), ← hrest]
          simp [Subscription.sent, List.append_assoc]
        · rcases hlast with heq | hex
          · refine Or.inr ⟨e, ?_, heq.symm⟩
            rw [hsent]
            simp [Subscription.sent]
          · exact Or.inr hex
      · rw [if_neg hroom] at h
        cases h

/-- 渡せた entry の行き先。 -/
inductive Offered (e : ChangeLogModel) (s : Subscription) : Subscription → Prop
  | queued (hready : s.ready = false) : Offered e s { s with pending := s.pending ++ [e] }
  | skipped (hready : s.ready = true) (hle : e.revision ≤ s.lastSent) : Offered e s s
  | sent (hready : s.ready = true) (hlt : s.lastSent < e.revision) :
    Offered e s { s with events := s.events ++ [e], lastSent := e.revision }

theorem offer_cases (s : Subscription) (e : ChangeLogModel) : s.offer e = (false, s) ∨
    ∃ s', s.offer e = (true, s') ∧ s.dropped = false ∧ Offered e s s' := by
  unfold Subscription.offer Subscription.send
  by_cases hd : s.dropped = true
  · exact .inl (if_pos hd)
  rw [if_neg hd]
  have hopen : s.dropped = false := by simpa using hd
  by_cases hready : s.ready = false
  · rw [if_pos hready]
    split
    · exact .inl rfl
    · exact .inr ⟨_, rfl, hopen, .queued hready⟩
  rw [if_neg hready]
  have hready : s.ready = true := by simpa using hready
  split
  · next hle => exact .inr ⟨_, rfl, hopen, .skipped hready hle⟩
  · next hle =>
    by_cases hroom : s.events.length < s.bufferCap
    · rw [if_pos hroom]
      exact .inr ⟨_, rfl, hopen, .sent hready (Nat.lt_of_not_le hle)⟩
    · rw [if_neg hroom]
      exact .inl rfl

/-! ## 購読者の不変条件 -/

/-- backlog を待っている間。登録より後に commit された entry は、渡った順に溜まっている。 -/
structure Waiting (reached : ChangeLogModel → Prop) (s : Slot) : Prop where
  increasing : Increasing s.sub.pending
  sound : ∀ e ∈ s.sub.pending, s.sub.reg.wants e = true ∧ reached e
  complete : ∀ e, reached e → s.sub.reg.wants e = true → s.registeredAt < e.revision →
    e ∈ s.sub.pending
  nothingSent : s.sub.sent = []
  lastSent : s.sub.lastSent = 0

/-- 流している間。送られた列は、backlog より後の entry のちょうど全てである。 -/
structure Streaming (reached : ChangeLogModel → Prop) (s : Slot) : Prop where
  increasing : Increasing s.sub.sent
  mem_sent : ∀ e, e ∈ s.sub.sent ↔
    reached e ∧ s.sub.reg.wants e = true ∧ s.sub.backlog.revision < e.revision
  backlog_le : s.sub.backlog.revision ≤ s.sub.lastSent
  lastSent : s.sub.lastSent = s.sub.backlog.revision ∨
    ∃ e ∈ s.sub.sent, e.revision = s.sub.lastSent

structure SlotInv (reached : ChangeLogModel → Prop) (seq : Nat) (s : Slot) : Prop where
  registered_le : s.registeredAt ≤ seq
  read_ge : ∀ r ∈ s.revisionRead, s.registeredAt ≤ r
  waiting : s.sub.ready = false → Waiting reached s
  streaming : s.returned = true → s.sub.ready = true ∧ s.registeredAt ≤ s.sub.backlog.revision ∧
    Streaming reached s

section

variable {reached reached' : ChangeLogModel → Prop} {seq seq' : Nat} {s : Slot}

theorem Waiting.congr (h : Waiting reached s)
    (heq : ∀ e, s.sub.reg.wants e = true → (reached' e ↔ reached e)) : Waiting reached' s :=
  { h with
    sound := fun e he => ⟨(h.sound e he).1, (heq e (h.sound e he).1).mpr (h.sound e he).2⟩
    complete := fun e hr hw hlt => h.complete e ((heq e hw).mp hr) hw hlt }

theorem Streaming.congr (h : Streaming reached s)
    (heq : ∀ e, s.sub.reg.wants e = true → (reached' e ↔ reached e)) : Streaming reached' s :=
  { h with
    mem_sent := by
      intro e
      rw [h.mem_sent e]
      exact ⟨fun hc => ⟨(heq e hc.2.1).mpr hc.1, hc.2⟩, fun hc => ⟨(heq e hc.2.1).mp hc.1, hc.2⟩⟩ }

/-- この購読者に流れる entry の配送が変わらない一歩は、不変条件を保つ。 -/
theorem SlotInv.congr (h : SlotInv reached seq s) (hseq : seq ≤ seq')
    (heq : ∀ e, s.sub.reg.wants e = true → (reached' e ↔ reached e)) :
    SlotInv reached' seq' s where
  registered_le := h.registered_le.trans hseq
  read_ge := h.read_ge
  waiting := fun hr => (h.waiting hr).congr heq
  streaming := fun hr => ⟨(h.streaming hr).1, (h.streaming hr).2.1, (h.streaming hr).2.2.congr heq⟩

variable {e : ChangeLogModel} {sub : Subscription}

theorem Waiting.push (h : Waiting reached s)
    (hnew : ∀ x, reached x → x.revision < e.revision) (hw : s.sub.reg.wants e = true) :
    Waiting (fun x => reached x ∨ x = e)
      { s with sub := { s.sub with pending := s.sub.pending ++ [e] } } where
  increasing := h.increasing.append_singleton (fun x hx => hnew x (h.sound x hx).2)
  sound := by
    intro x hx
    rcases List.mem_append.mp hx with hx | hx
    · exact ⟨(h.sound x hx).1, Or.inl (h.sound x hx).2⟩
    · rw [List.mem_singleton.mp hx]
      exact ⟨hw, Or.inr rfl⟩
  complete := by
    rintro x (hr | rfl) hwx hlt
    · exact List.mem_append_left _ (h.complete x hr hwx hlt)
    · exact List.mem_append_right _ (List.mem_singleton.mpr rfl)
  nothingSent := h.nothingSent
  lastSent := h.lastSent

theorem Streaming.skip (h : Streaming reached s)
    (hnew : ∀ x, reached x → x.revision < e.revision) (hle : e.revision ≤ s.sub.lastSent) :
    Streaming (fun x => reached x ∨ x = e) s :=
  { h with
    mem_sent := by
      intro x
      rw [h.mem_sent x]
      refine ⟨fun hc => ⟨Or.inl hc.1, hc.2⟩, ?_⟩
      rintro ⟨hr | rfl, hw, hlt⟩
      · exact ⟨hr, hw, hlt⟩
      · -- 送ったどの entry より新しいので、`lastSent` は backlog の revision である。
        rcases h.lastSent with heq | ⟨y, hy, hrev⟩
        · omega
        · have hyx := hnew y ((h.mem_sent y).mp hy).1
          omega }

theorem Streaming.push (h : Streaming reached s)
    (hnew : ∀ x, reached x → x.revision < e.revision) (hw : s.sub.reg.wants e = true)
    (hlt : s.sub.lastSent < e.revision) :
    Streaming (fun x => reached x ∨ x = e)
      { s with sub := { s.sub with events := s.sub.events ++ [e], lastSent := e.revision } } := by
  have hsent : (Subscription.sent { s.sub with
      events := s.sub.events ++ [e], lastSent := e.revision }) = s.sub.sent ++ [e] := by
    simp [Subscription.sent]
  refine ⟨?_, ?_, h.backlog_le.trans hlt.le, Or.inr ⟨e, ?_, rfl⟩⟩
  · rw [hsent]
    exact h.increasing.append_singleton (fun x hx => hnew x ((h.mem_sent x).mp hx).1)
  · intro x
    rw [hsent, List.mem_append, h.mem_sent x, List.mem_singleton]
    constructor
    · rintro (hc | rfl)
      · exact ⟨Or.inl hc.1, hc.2⟩
      · exact ⟨Or.inr rfl, hw, h.backlog_le.trans_lt hlt⟩
    · rintro ⟨hr | rfl, hwx, hltx⟩
      · exact Or.inl ⟨hr, hwx, hltx⟩
      · exact Or.inr rfl
  · rw [hsent]
    exact List.mem_append_right _ (List.mem_singleton.mpr rfl)

theorem SlotInv.offered (h : SlotInv reached seq s)
    (hnew : ∀ x, reached x → x.revision < e.revision) (hw : s.sub.reg.wants e = true)
    (ho : Offered e s.sub sub) : SlotInv (fun x => reached x ∨ x = e) seq { s with sub } := by
  cases ho with
  | queued hready =>
    refine ⟨h.registered_le, h.read_ge, fun _ => (h.waiting hready).push hnew hw, fun hret => ?_⟩
    exact absurd (h.streaming hret).1 (by rw [hready]; exact Bool.false_ne_true)
  | skipped hready hle =>
    refine ⟨h.registered_le, h.read_ge, fun hr => absurd (hr.symm.trans hready) (by simp),
      fun hret => ?_⟩
    obtain ⟨hr, hreg, hst⟩ := h.streaming hret
    exact ⟨hr, hreg, hst.skip hnew hle⟩
  | sent hready hlt =>
    refine ⟨h.registered_le, h.read_ge, fun hr => absurd (hr.symm.trans hready) (by simp),
      fun hret => ?_⟩
    obtain ⟨hr, hreg, hst⟩ := h.streaming hret
    exact ⟨hr, hreg, hst.push hnew hw hlt⟩

theorem flush_fields (es : List ChangeLogModel) : ∀ sub : Subscription,
    (sub.flush es).2.ready = sub.ready ∧ (sub.flush es).2.reg = sub.reg ∧
      (sub.flush es).2.dropped = sub.dropped := by
  induction es with
  | nil => exact fun _ => ⟨rfl, rfl, rfl⟩
  | cons e es ih =>
    intro sub
    unfold Subscription.flush Subscription.send
    split
    · exact ih sub
    · by_cases hroom : sub.events.length < sub.bufferCap
      · rw [if_pos hroom]
        exact ih _
      · rw [if_neg hroom]
        exact ⟨rfl, rfl, rfl⟩

theorem activate_fields (sub : Subscription) (bl : Backlog) :
    (sub.activate bl).2.reg = sub.reg ∧ (sub.activate bl).2.dropped = sub.dropped := by
  unfold Subscription.activate
  split
  · exact ⟨rfl, rfl⟩
  · exact (flush_fields _ _).2

theorem receive_fields (sub : Subscription) :
    sub.receive.reg = sub.reg ∧ sub.receive.dropped = sub.dropped := by
  unfold Subscription.receive
  split <;> exact ⟨rfl, rfl⟩

theorem Waiting.activated (h : Waiting reached s) {bl : Backlog}
    (hdropped : s.sub.dropped = false) (hreg : s.registeredAt ≤ bl.revision)
    (hact : s.sub.activate bl = (true, sub)) :
    sub.ready = true ∧ sub.backlog = bl ∧ sub.reg = s.sub.reg ∧
      sub.sent = s.sub.pending.filter (fun e => decide (bl.revision < e.revision)) ∧
      Streaming reached { s with sub, returned := true } := by
  unfold Subscription.activate at hact
  rw [if_neg (by rw [hdropped]; exact Bool.false_ne_true)] at hact
  obtain ⟨hsent, hreg', hbl, hready, _, hge, hlast⟩ := flush_spec h.increasing hact
  have hstart : (if bl.revision > s.sub.lastSent then bl.revision else s.sub.lastSent) =
      bl.revision := by
    rw [h.lastSent]
    split
    · rfl
    · omega
  have hprefix : s.sub.received ++ s.sub.events = [] := h.nothingSent
  simp only [Subscription.sent, hstart, hprefix, List.nil_append] at hsent hge hlast
  have hbl' : sub.backlog = bl := hbl
  refine ⟨hready, hbl', hreg', hsent, ?_, ?_, ?_, ?_⟩
  · show Increasing (sub.received ++ sub.events)
    rw [hsent]
    exact h.increasing.filter _
  · intro e
    show e ∈ sub.received ++ sub.events ↔ reached e ∧ sub.reg.wants e = true ∧
      sub.backlog.revision < e.revision
    rw [hsent, List.mem_filter, decide_eq_true_eq, hbl', show sub.reg = s.sub.reg from hreg']
    constructor
    · rintro ⟨he, hlt⟩
      exact ⟨(h.sound e he).2, (h.sound e he).1, hlt⟩
    · rintro ⟨hr, hw, hlt⟩
      exact ⟨h.complete e hr hw (hreg.trans_lt hlt), hlt⟩
  · show sub.backlog.revision ≤ sub.lastSent
    rw [hbl']
    exact hge
  · show sub.lastSent = sub.backlog.revision ∨ _
    rw [hbl']
    exact hlast

theorem SlotInv.activated (h : SlotInv reached seq s) {bl : Backlog} {alive : Bool}
    (hdropped : s.sub.dropped = false) (hready : s.sub.ready = false)
    (hread : s.revisionRead = some bl.revision) (hact : s.sub.activate bl = (alive, sub)) :
    SlotInv reached seq { s with sub, returned := alive } := by
  have hready' : sub.ready = true := by
    unfold Subscription.activate at hact
    rw [if_neg (by rw [hdropped]; exact Bool.false_ne_true)] at hact
    have hfl := flush_fields s.sub.pending { s.sub with
      backlog := bl
      lastSent := if bl.revision > s.sub.lastSent then bl.revision else s.sub.lastSent
      pending := []
      ready := true }
    rw [hact] at hfl
    exact hfl.1
  refine ⟨h.registered_le, h.read_ge, fun hr => ?_, fun hret => ?_⟩
  · exact absurd (hready'.symm.trans hr) (by simp)
  · have halive : alive = true := hret
    subst halive
    have hreg := h.read_ge bl.revision hread
    obtain ⟨_, hbl, _, _, hst⟩ := (h.waiting hready).activated hdropped hreg hact
    refine ⟨hready', ?_, hst⟩
    show s.registeredAt ≤ sub.backlog.revision
    rw [hbl]
    exact hreg

theorem SlotInv.received (h : SlotInv reached seq s) :
    SlotInv reached seq { s with sub := s.sub.receive } := by
  unfold Subscription.receive
  split
  · exact h
  · next e es hev =>
    have hsent : ({ s.sub with events := es, received := s.sub.received ++ [e] } :
        Subscription).sent = s.sub.sent := by
      simp [Subscription.sent, hev]
    refine ⟨h.registered_le, h.read_ge, fun hr => ?_, fun hret => ?_⟩
    · have hw := h.waiting hr
      exact ⟨hw.increasing, hw.sound, hw.complete, hsent.trans hw.nothingSent, hw.lastSent⟩
    · obtain ⟨hr, hle, hst⟩ := h.streaming hret
      exact ⟨hr, hle, hsent ▸ hst.increasing, hsent ▸ hst.mem_sent, hst.backlog_le,
        hsent ▸ hst.lastSent⟩

end

end Kms.Watch
