import Kms.Watch.ReleaseBacklog

/-!
# release の購読者の不変条件

一人の購読者について、dispatch loop・`SubscribeRelease`・consumer のどの一歩でも成り立つことを示す。渡し終えた所までの
revision を `n` で表す。change log の revision は隙間なく振られるので、渡した entry はこの番号だけで決まる。

* `WaitingSlot` — backlog を待つ間。溜めた entry は、登録の後に渡された有効化の中で最も新しい
* `StreamingSlot` — 流れている間。送った列は狭義に増え、渡された有効化より新しい event を含む
* `ReleaseSlotInv` — 二つと `SubscribeInv` を合わせたもの
-/

namespace Kms.Watch

open Kms.Infra Kms.Storage

/-! ## slot -/

/-- consumer が読んだ event・channel の event・送っている event の列。 -/
def ReleaseSubscription.sent (s : ReleaseSubscription) : List ReleaseEvent :=
  s.received ++ s.events.toList ++ (s.delivering.map (fun d => ReleaseEvent.live d.1)).toList

structure WaitingSlot (history : List ChangeLogModel) (n : Nat) (s : ReleaseSlot) : Prop where
  pending : ∀ p ∈ s.sub.pending, p ∈ history ∧ s.reg.matches p = true ∧ p.revision ≤ n
  latest : s.phase.registered = true → s.sub.closed = false → ∀ e ∈ history,
    s.reg.matches e = true → s.registeredAt < e.revision → e.revision ≤ n →
      ∃ p ∈ s.sub.pending, e.revision ≤ p.revision
  idle : s.sub.events = none ∧ s.sub.delivering = none ∧ s.sub.received = [] ∧ s.sub.lastSent = 0

structure StreamingSlot (history : List ChangeLogModel) (n : Nat) (s : ReleaseSlot) : Prop where
  increasing : s.sub.sent.Pairwise (fun a b => a.revision < b.revision)
  above : ∀ ev ∈ s.sub.sent, s.sub.backlog.revision < ev.revision
  wanted : ∀ ev ∈ s.sub.sent, ∃ e ∈ history, s.reg.matches e = true ∧ e.revision ≤ n ∧
    ev = .live e
  covers : s.sub.closed = false → ∀ e ∈ history, s.reg.matches e = true →
    s.sub.backlog.revision < e.revision → e.revision ≤ n →
      ∃ ev ∈ s.sub.sent, e.revision ≤ ev.revision
  sentLe : ∀ ev ∈ s.sub.received ++ s.sub.events.toList, ev.revision ≤ s.sub.lastSent
  lastSent : s.sub.backlog.revision ≤ s.sub.lastSent ∧
    (s.sub.lastSent = s.sub.backlog.revision ∨ s.sub.lastSent ≤ n)
  drained : ∀ e, s.sub.delivering = some (e, .send) → s.sub.events = none
  pending : s.sub.pending = none

section Slot

variable {history new : List ChangeLogModel} {n n' : Nat} {s : ReleaseSlot}

theorem WaitingSlot.skip (h : WaitingSlot history n s) (hle : n ≤ n')
    (hskip : s.phase.registered = true → s.sub.closed = false → ∀ e ∈ history,
      s.reg.matches e = true → n < e.revision → n' < e.revision) :
    WaitingSlot history n' s where
  pending := fun p hp =>
    ⟨(h.pending p hp).1, (h.pending p hp).2.1, Nat.le_trans (h.pending p hp).2.2 hle⟩
  latest := by
    intro hr hc e he hm hlt hen
    by_cases hn : e.revision ≤ n
    · exact h.latest hr hc e he hm hlt hn
    · exact absurd hen (Nat.not_le_of_lt (hskip hr hc e he hm (Nat.lt_of_not_le hn)))
  idle := h.idle

theorem StreamingSlot.skip (h : StreamingSlot history n s) (hle : n ≤ n')
    (hskip : s.sub.closed = false → ∀ e ∈ history, s.reg.matches e = true → n < e.revision →
      s.sub.backlog.revision < e.revision → n' < e.revision) : StreamingSlot history n' s :=
  { h with
    wanted := by
      intro ev hev
      obtain ⟨e, he, hm, hn, heq⟩ := h.wanted ev hev
      exact ⟨e, he, hm, hn.trans hle, heq⟩
    covers := by
      intro hc e he hm hlt hen
      by_cases hn : e.revision ≤ n
      · exact h.covers hc e he hm hlt hn
      · exact absurd hen (Nat.not_le_of_lt (hskip hc e he hm (Nat.lt_of_not_le hn) hlt))
    lastSent := ⟨h.lastSent.1, h.lastSent.2.imp_right (fun hn => hn.trans hle)⟩ }

theorem WaitingSlot.grow (h : WaitingSlot history n s) (hnew : ∀ e ∈ new, n < e.revision) :
    WaitingSlot (history ++ new) n s where
  pending := fun p hp => ⟨List.mem_append_left _ (h.pending p hp).1, (h.pending p hp).2⟩
  latest := by
    intro hr hc e he hm hlt hn
    rcases List.mem_append.mp he with he | he
    · exact h.latest hr hc e he hm hlt hn
    · exact absurd hn (Nat.not_le_of_lt (hnew e he))
  idle := h.idle

theorem StreamingSlot.grow (h : StreamingSlot history n s) (hnew : ∀ e ∈ new, n < e.revision) :
    StreamingSlot (history ++ new) n s :=
  { h with
    wanted := by
      intro ev hev
      obtain ⟨e, he, hrest⟩ := h.wanted ev hev
      exact ⟨e, List.mem_append_left _ he, hrest⟩
    covers := by
      intro hc e he hm hlt hn
      rcases List.mem_append.mp he with he | he
      · exact h.covers hc e he hm hlt hn
      · exact absurd hn (Nat.not_le_of_lt (hnew e he)) }

theorem WaitingSlot.offered (h : WaitingSlot history n s) (hready : s.sub.ready = false)
    {e : ChangeLogModel} (he : e ∈ history) (hlt : n < e.revision)
    (hnext : ∀ x ∈ history, x.revision ≤ e.revision ↔ x.revision ≤ n ∨ x = e) :
    WaitingSlot history e.revision { s with sub := s.sub.offer s.reg e } := by
  unfold ReleaseSubscription.offer
  by_cases hskip : s.sub.closed = true ∨ s.reg.matches e = false ∨ e.revision ≤ s.sub.lastSent
  · rw [if_pos hskip]
    refine h.skip (by omega) (fun _ hc x hx hm hgt => ?_)
    refine Nat.lt_of_not_le (fun hle => ?_)
    obtain rfl := ((hnext x hx).mp hle).resolve_left (Nat.not_le_of_lt hgt)
    have hsent : x.revision ≤ s.sub.lastSent := by simpa [hc, hm] using hskip
    rw [h.idle.2.2.2] at hsent
    omega
  · rw [if_neg hskip, if_pos hready]
    simp only [not_or, Bool.not_eq_false] at hskip
    refine ⟨fun p hp => ?_, fun _ _ x _ _ _ hle => ⟨e, rfl, hle⟩, h.idle⟩
    cases hp
    exact ⟨he, hskip.2.1, le_rfl⟩

theorem StreamingSlot.offered (h : StreamingSlot history n s) (hready : s.sub.ready = true)
    (hidle : s.sub.delivering = none) {e : ChangeLogModel} (he : e ∈ history)
    (hlt : n < e.revision)
    (hnext : ∀ x ∈ history, x.revision ≤ e.revision ↔ x.revision ≤ n ∨ x = e) :
    StreamingSlot history e.revision { s with sub := s.sub.offer s.reg e } := by
  unfold ReleaseSubscription.offer
  by_cases hskip : s.sub.closed = true ∨ s.reg.matches e = false ∨ e.revision ≤ s.sub.lastSent
  · rw [if_pos hskip]
    refine h.skip (by omega) (fun hc x hx hm hgt hbl => ?_)
    refine Nat.lt_of_not_le (fun hle => ?_)
    obtain rfl := ((hnext x hx).mp hle).resolve_left (Nat.not_le_of_lt hgt)
    have hsent : x.revision ≤ s.sub.lastSent := by simpa [hc, hm] using hskip
    rcases h.lastSent.2 with heq | hn
    all_goals omega
  · rw [if_neg hskip, if_neg (by rw [hready]; decide)]
    simp only [not_or, Bool.not_eq_false, Nat.not_le] at hskip
    obtain ⟨_, hmatch, hgt⟩ := hskip
    have hold : s.sub.sent = s.sub.received ++ s.sub.events.toList := by
      rw [ReleaseSubscription.sent, hidle]
      exact List.append_nil _
    -- 送り始めた entry は、それまでに送ったどの event よりも新しい。
    have hsent : ({ s.sub with delivering := some (e, .trySend) } : ReleaseSubscription).sent =
        s.sub.sent ++ [.live e] := by
      rw [hold]
      rfl
    have hlast : ∀ ev ∈ s.sub.sent, ev.revision < (ReleaseEvent.live e).revision := by
      intro ev hev
      rw [hold] at hev
      exact Nat.lt_of_le_of_lt (h.sentLe ev hev) hgt
    refine ⟨?_, fun ev hev => ?_, fun ev hev => ?_, fun _ x hx hm hbl hle => ?_, h.sentLe,
      ⟨h.lastSent.1, h.lastSent.2.imp_right (fun hn => hn.trans (by omega))⟩,
      (fun x hx => by cases hx), h.pending⟩
    · rw [hsent]
      refine List.pairwise_append.mpr ⟨h.increasing, List.pairwise_singleton _ _, ?_⟩
      intro a ha b hb
      rw [List.mem_singleton.mp hb]
      exact hlast a ha
    · rw [hsent, List.mem_append, List.mem_singleton] at hev
      rcases hev with hev | rfl
      · exact h.above ev hev
      · exact h.lastSent.1.trans_lt hgt
    · rw [hsent, List.mem_append, List.mem_singleton] at hev
      rcases hev with hev | rfl
      · obtain ⟨x, hx, hm, hn, heq⟩ := h.wanted ev hev
        exact ⟨x, hx, hm, by omega, heq⟩
      · exact ⟨e, he, hmatch, le_rfl, rfl⟩
    · refine ⟨.live e, ?_, hle⟩
      rw [hsent]
      exact List.mem_append_right _ (List.mem_singleton_self _)

theorem StreamingSlot.delivered (h : StreamingSlot history n s) {e : ChangeLogModel}
    {stage : DeliverStage} (hd : s.sub.delivering = some (e, stage)) (hev : s.sub.events = none) :
    StreamingSlot history n { s with sub := s.sub.delivered e } := by
  have hold : s.sub.sent = s.sub.received ++ [.live e] := by
    rw [ReleaseSubscription.sent, hd, hev]
    simp
  have hsent : (s.sub.delivered e).sent = s.sub.sent := by
    rw [hold]
    simp [ReleaseSubscription.sent, ReleaseSubscription.delivered]
  have hmem : ReleaseEvent.live e ∈ s.sub.sent := by
    rw [hold]
    exact List.mem_append_right _ (List.mem_singleton_self _)
  obtain ⟨x, _, _, hn, heq⟩ := h.wanted _ hmem
  have hen : e.revision ≤ n := by
    rw [show e.revision = x.revision from congrArg ReleaseEvent.revision heq]
    exact hn
  refine ⟨hsent ▸ h.increasing, hsent ▸ h.above, hsent ▸ h.wanted, hsent ▸ h.covers, ?_,
    ⟨Nat.le_of_lt (h.above _ hmem), Or.inr hen⟩, (fun x hx => by cases hx), h.pending⟩
  intro ev hev'
  have hev' : ev ∈ s.sub.received ++ [.live e] := hev'
  rcases List.mem_append.mp hev' with hmem' | hmem'
  · have hinc := h.increasing
    rw [hold] at hinc
    exact Nat.le_of_lt ((List.pairwise_append.mp hinc).2.2 ev hmem' _ (List.mem_singleton_self _))
  · rw [List.mem_singleton.mp hmem']
    exact le_rfl

theorem StreamingSlot.deliver (h : StreamingSlot history n s) :
    StreamingSlot history n { s with sub := s.sub.deliver } := by
  unfold ReleaseSubscription.deliver
  split
  · exact h
  · next e hd =>
    split
    · next hev => exact h.delivered hd hev
    · have hsent : ({ s.sub with delivering := some (e, .drain) } : ReleaseSubscription).sent =
          s.sub.sent := by
        simp [ReleaseSubscription.sent, hd]
      exact ⟨hsent ▸ h.increasing, hsent ▸ h.above, hsent ▸ h.wanted, hsent ▸ h.covers, h.sentLe,
        h.lastSent, (fun x hx => by cases hx), h.pending⟩
  · next e hd =>
    have hold : s.sub.sent = s.sub.received ++ s.sub.events.toList ++ [.live e] := by
      rw [ReleaseSubscription.sent, hd]
      rfl
    have hsent : ({ s.sub with events := none, delivering := some (e, .send) } :
        ReleaseSubscription).sent = s.sub.received ++ [.live e] := by
      simp [ReleaseSubscription.sent]
    have hsub : (s.sub.received ++ [ReleaseEvent.live e]).Sublist s.sub.sent := by
      rw [hold, List.append_assoc]
      exact List.Sublist.append_left (List.sublist_append_right _ _) _
    refine ⟨?_, ?_, ?_, fun hc x hx hm hbl hle => ?_, ?_, h.lastSent, fun _ _ => rfl, h.pending⟩
    · rw [hsent]
      exact h.increasing.sublist hsub
    · rw [hsent]
      exact fun ev hev => h.above ev (hsub.subset hev)
    · rw [hsent]
      exact fun ev hev => h.wanted ev (hsub.subset hev)
    · -- 捨てた event より、これから送る event の方が新しい。
      obtain ⟨ev, hev, hxe⟩ := h.covers hc x hx hm hbl hle
      refine ⟨.live e, ?_, ?_⟩
      · rw [hsent]
        exact List.mem_append_right _ (List.mem_singleton_self _)
      · have hinc := h.increasing
        rw [hold] at hev hinc
        rcases List.mem_append.mp hev with hev | hev
        · exact Nat.le_of_lt (Nat.lt_of_le_of_lt hxe
            ((List.pairwise_append.mp hinc).2.2 ev hev _ (List.mem_singleton_self _)))
        · rw [← List.mem_singleton.mp hev]
          exact hxe
    · intro ev hev
      exact h.sentLe ev (List.mem_append_left _ (by simpa using hev))
  · next e hd =>
    split
    · next hev => exact h.delivered hd hev
    · exact h

theorem StreamingSlot.received (h : StreamingSlot history n s) :
    StreamingSlot history n { s with sub := s.sub.receive } := by
  unfold ReleaseSubscription.receive
  split
  · exact h
  · next ev hev =>
    have hsent : ({ s.sub with events := none, received := s.sub.received ++ [ev] } :
        ReleaseSubscription).sent = s.sub.sent := by
      simp [ReleaseSubscription.sent, hev]
    have hle : ∀ x ∈ s.sub.received ++ [ev] ++ (none : Option ReleaseEvent).toList,
        x.revision ≤ s.sub.lastSent := by
      intro x hx
      refine h.sentLe x ?_
      rw [hev]
      simpa using hx
    exact ⟨hsent ▸ h.increasing, hsent ▸ h.above, hsent ▸ h.wanted, hsent ▸ h.covers, hle,
      h.lastSent, fun _ _ => rfl, h.pending⟩

theorem StreamingSlot.closed (h : StreamingSlot history n s) :
    StreamingSlot history n { s with sub := s.sub.close } :=
  { h with covers := fun hc => by cases hc }

theorem WaitingSlot.closed (h : WaitingSlot history n s) (phase : SubscribePhase) :
    WaitingSlot history n { s with phase, sub := s.sub.close } :=
  ⟨h.pending, (fun _ hc => by cases hc), h.idle⟩

theorem WaitingSlot.activated (h : WaitingSlot history n s) (hreg : s.phase.registered = true)
    (hopen : s.sub.closed = false) {bl : ReleaseBacklog} (hbl : s.registeredAt ≤ bl.revision)
    (phase : SubscribePhase) :
    StreamingSlot history n { s with phase, sub := s.sub.activate bl } := by
  obtain ⟨hevents, _, hreceived, _⟩ := h.idle
  unfold ReleaseSubscription.activate
  rw [if_neg (by rw [hopen]; decide)]
  generalize hk : s.sub.pending.filter (fun p => decide (bl.revision < p.revision)) = kept
  -- 送り始めるのは、溜めた entry が backlog より新しいときである。
  have hkept : ∀ p, kept = some p ↔ s.sub.pending = some p ∧ bl.revision < p.revision := by
    intro p
    rw [← hk, Option.filter_eq_some_iff, decide_eq_true_eq]
  have hsent : ∀ ev, ev ∈ ({ s.sub with
      backlog := bl
      lastSent := bl.revision
      ready := true
      delivering := kept.map (fun p => (p, .trySend))
      pending := none } : ReleaseSubscription).sent ↔ ∃ p, kept = some p ∧ ev = .live p := by
    intro ev
    cases kept <;> simp [ReleaseSubscription.sent, hevents, hreceived]
  refine ⟨?_, fun ev hev => ?_, fun ev hev => ?_, fun _ e he hm hgt hle => ?_, fun ev hev => ?_,
    ⟨le_rfl, Or.inl rfl⟩, fun e he => ?_, rfl⟩
  · cases kept <;> simp [ReleaseSubscription.sent, hevents, hreceived]
  · obtain ⟨p, hp, rfl⟩ := (hsent ev).mp hev
    exact ((hkept p).mp hp).2
  · obtain ⟨p, hp, rfl⟩ := (hsent ev).mp hev
    obtain ⟨hmem, hmatch, hn⟩ := h.pending p ((hkept p).mp hp).1
    exact ⟨p, hmem, hmatch, hn, rfl⟩
  · obtain ⟨p, hp, hle'⟩ := h.latest hreg hopen e he hm (hbl.trans_lt hgt) hle
    have hlt : bl.revision < p.revision := hgt.trans_le hle'
    exact ⟨.live p, (hsent _).mpr ⟨p, (hkept p).mpr ⟨hp, hlt⟩, rfl⟩, hle'⟩
  · simp [hevents, hreceived] at hev
  · cases kept <;> simp at he

theorem StreamingSlot.latest (h : StreamingSlot history n s) (hinc : Increasing history)
    (hopen : s.sub.closed = false) : s.sub.sent.getLast? =
      (between s.reg.matches history s.sub.backlog.revision n).getLast?.map ReleaseEvent.live := by
  cases hb : (between s.reg.matches history s.sub.backlog.revision n).getLast? with
  | none =>
    have hempty := List.getLast?_eq_none_iff.mp hb
    have hnil : s.sub.sent = [] := by
      refine List.eq_nil_iff_forall_not_mem.mpr (fun ev hev => ?_)
      obtain ⟨e, he, hm, hle, rfl⟩ := h.wanted ev hev
      have hmem := mem_between.mpr ⟨he, hm, h.above _ hev, hle⟩
      rw [hempty] at hmem
      exact absurd hmem List.not_mem_nil
    rw [hnil]
    rfl
  | some x =>
    obtain ⟨hx, hm, hlt, hle⟩ := mem_between.mp (List.mem_of_getLast? hb)
    obtain ⟨ev, hev, hxev⟩ := h.covers hopen x hx hm hlt hle
    cases hlast : s.sub.sent.getLast? with
    | none =>
      rw [List.getLast?_eq_none_iff.mp hlast] at hev
      exact absurd hev List.not_mem_nil
    | some last =>
      obtain ⟨e, he, hem, hen, rfl⟩ := h.wanted last (List.mem_of_getLast? hlast)
      -- どちらの最後も、相手の列の全てより古くない。
      have hxe : x.revision ≤ e.revision :=
        hxev.trans (le_getLast_of_sorted h.increasing hlast hev)
      have hex : e.revision ≤ x.revision := le_getLast_of_sorted hinc.between hb
        (mem_between.mpr ⟨he, hem, h.above _ (List.mem_of_getLast? hlast), hen⟩)
      rw [hinc.eq_of_revision_eq he hx (Nat.le_antisymm hex hxe)]
      rfl

end Slot

/-! ## slot の不変条件 -/

structure ReleaseSlotInv (v : View) (n : Nat) (s : ReleaseSlot) : Prop where
  subscribing : SubscribeInv v s.reg s.registeredAt s.revisionRead s.phase
  settled : s.sub.ready = true → s.phase = .unlock ∨ s.phase = .returned
  waiting : s.sub.ready = false → WaitingSlot v.history n s
  streaming : s.sub.ready = true → StreamingSlot v.history n s ∧
    SubscribeInv v s.reg s.registeredAt s.revisionRead (.activate s.sub.backlog)

section SlotInv

variable {v : View} {n n' : Nat} {s : ReleaseSlot}

theorem releaseSlotInv_new (v : View) (n : Nat) (reg : ReleaseRegistration) :
    ReleaseSlotInv v n ⟨reg, .new, .checkNamespace, 0, 0⟩ where
  subscribing := trivial
  settled := fun h => by cases h
  waiting := fun _ => ⟨(fun p hp => by cases hp), (fun h => by cases h), rfl, rfl, rfl, rfl⟩
  streaming := fun h => by cases h

theorem ReleaseSlotInv.idle (h : ReleaseSlotInv v n s) (hu : s.phase ≠ .unlock)
    (hr : s.phase ≠ .returned) : s.sub.ready = false ∧ s.sub.delivering = none := by
  cases hready : s.sub.ready with
  | true =>
    rcases h.settled hready with hp | hp
    · exact absurd hp hu
    · exact absurd hp hr
  | false => exact ⟨rfl, (h.waiting hready).idle.2.1⟩

theorem ReleaseSlotInv.skip (h : ReleaseSlotInv v n s) (hle : n ≤ n')
    (hskip : s.phase.registered = true → s.sub.closed = false → ∀ e ∈ v.history,
      s.reg.matches e = true → n < e.revision → n' < e.revision) : ReleaseSlotInv v n' s where
  subscribing := h.subscribing
  settled := h.settled
  waiting := fun hready => (h.waiting hready).skip hle hskip
  streaming := by
    intro hready
    obtain ⟨hs, hbl⟩ := h.streaming hready
    have hreg : s.phase.registered = true := by
      rcases h.settled hready with hp | hp
      all_goals
        rw [hp]
        rfl
    exact ⟨hs.skip hle (fun hc e he hm hn _ => hskip hreg hc e he hm hn), hbl⟩

theorem ReleaseSlotInv.grow [Hashing] (h : ReleaseSlotInv v n s)
    (hle : n ≤ v.store.changeLog.seq) (c : Call) : ReleaseSlotInv (v.call c) n s := by
  obtain ⟨new, hhistory, hnew⟩ := v.call_history c
  have hbeyond : ∀ e ∈ new, n < e.revision := fun e he => hle.trans_lt (hnew e he)
  refine ⟨h.subscribing.grow c, h.settled, fun hready => ?_, fun hready => ?_⟩
  · rw [hhistory]
    exact (h.waiting hready).grow hbeyond
  · refine ⟨?_, (h.streaming hready).2.grow c⟩
    rw [hhistory]
    exact (h.streaming hready).1.grow hbeyond

theorem ReleaseSlotInv.stream (h : ReleaseSlotInv v n s) {sub : ReleaseSubscription}
    (hready : sub.ready = s.sub.ready) (hbacklog : sub.backlog = s.sub.backlog)
    (hwaiting : s.sub.ready = false → WaitingSlot v.history n' { s with sub })
    (hstreaming : s.sub.ready = true → StreamingSlot v.history n' { s with sub }) :
    ReleaseSlotInv v n' { s with sub } where
  subscribing := h.subscribing
  settled := fun hr => h.settled (hready ▸ hr)
  waiting := fun hr => hwaiting (hready ▸ hr)
  streaming := by
    intro hr
    have hr : s.sub.ready = true := hready ▸ hr
    refine ⟨hstreaming hr, ?_⟩
    show SubscribeInv v s.reg s.registeredAt s.revisionRead (.activate sub.backlog)
    rw [hbacklog]
    exact (h.streaming hr).2

theorem offer_fields_release (s : ReleaseSubscription) (reg : ReleaseRegistration)
    (e : ChangeLogModel) :
    (s.offer reg e).ready = s.ready ∧ (s.offer reg e).backlog = s.backlog := by
  unfold ReleaseSubscription.offer
  split
  · exact ⟨rfl, rfl⟩
  · split
    all_goals exact ⟨rfl, rfl⟩

theorem deliver_fields_release (s : ReleaseSubscription) :
    s.deliver.ready = s.ready ∧ s.deliver.backlog = s.backlog ∧
      (s.delivering = none → s.deliver = s) := by
  unfold ReleaseSubscription.deliver
  split
  · exact ⟨rfl, rfl, fun _ => rfl⟩
  · next hd =>
    rw [hd]
    split <;> exact ⟨rfl, rfl, fun h => by cases h⟩
  · next hd =>
    rw [hd]
    exact ⟨rfl, rfl, fun h => by cases h⟩
  · next hd =>
    rw [hd]
    split <;> exact ⟨rfl, rfl, fun h => by cases h⟩

theorem receive_fields_release (s : ReleaseSubscription) :
    s.receive.ready = s.ready ∧ s.receive.backlog = s.backlog ∧
      s.receive.delivering = s.delivering := by
  unfold ReleaseSubscription.receive
  split <;> exact ⟨rfl, rfl, rfl⟩

theorem ReleaseSlotInv.offered (h : ReleaseSlotInv v n s) (hidle : s.sub.delivering = none)
    {e : ChangeLogModel} (he : e ∈ v.history) (hlt : n < e.revision)
    (hnext : ∀ x ∈ v.history, x.revision ≤ e.revision ↔ x.revision ≤ n ∨ x = e) :
    ReleaseSlotInv v e.revision { s with sub := s.sub.offer s.reg e } := by
  obtain ⟨hready, hbacklog⟩ := offer_fields_release s.sub s.reg e
  exact h.stream hready hbacklog
    (fun hr => (h.waiting hr).offered hr he hlt hnext)
    (fun hr => (h.streaming hr).1.offered hr hidle he hlt hnext)

theorem ReleaseSlotInv.deliver (h : ReleaseSlotInv v n s) :
    ReleaseSlotInv v n { s with sub := s.sub.deliver } := by
  obtain ⟨hready, hbacklog, hsame⟩ := deliver_fields_release s.sub
  refine h.stream hready hbacklog (fun hr => ?_) (fun hr => (h.streaming hr).1.deliver)
  rw [hsame (h.waiting hr).idle.2.1]
  exact h.waiting hr

theorem ReleaseSlotInv.receive (h : ReleaseSlotInv v n s) :
    ReleaseSlotInv v n { s with sub := s.sub.receive } := by
  obtain ⟨hready, hbacklog, _⟩ := receive_fields_release s.sub
  refine h.stream hready hbacklog (fun hr => ?_) (fun hr => (h.streaming hr).1.received)
  have hev := (h.waiting hr).idle.1
  have hsame : s.sub.receive = s.sub := by rw [ReleaseSubscription.receive, hev]
  rw [hsame]
  exact h.waiting hr

theorem ReleaseSlotInv.close (h : ReleaseSlotInv v n s) :
    ReleaseSlotInv v n { s with sub := s.sub.close } :=
  h.stream rfl rfl (fun hr => (h.waiting hr).closed s.phase) (fun hr => (h.streaming hr).1.closed)

/-- backlog を待つ間、呼び出しの居場所だけを進める。登録簿に載る時は、それまでの entry を全て backlog が含む。 -/
theorem ReleaseSlotInv.advanced (h : ReleaseSlotInv v n s) (hready : s.sub.ready = false)
    (hle : n ≤ v.store.changeLog.seq) {phase : SubscribePhase} {registeredAt revisionRead : Nat}
    (hinv : SubscribeInv v s.reg registeredAt revisionRead phase)
    (hregistered : phase.registered = true →
      s.phase.registered = true ∧ registeredAt = s.registeredAt ∨
        registeredAt = v.store.changeLog.seq) :
    ReleaseSlotInv v n { s with phase, registeredAt, revisionRead } where
  subscribing := hinv
  settled := fun hr => by
    simp [show s.sub.ready = true from hr] at hready
  waiting := fun _ => by
    refine ⟨(h.waiting hready).pending, fun hp hc e he hm hlt hn => ?_, (h.waiting hready).idle⟩
    rcases hregistered hp with ⟨hold, rfl⟩ | rfl
    · exact (h.waiting hready).latest hold hc e he hm hlt hn
    · exact absurd (hn.trans hle) (Nat.not_le_of_lt hlt)
  streaming := fun hr => by
    simp [show s.sub.ready = true from hr] at hready

theorem ReleaseSlotInv.fallTo (h : ReleaseSlotInv v n s) (hready : s.sub.ready = false)
    (hle : n ≤ v.store.changeLog.seq) {phase : SubscribePhase}
    (hinv : SubscribeInv v s.reg s.registeredAt s.revisionRead phase)
    (hregistered : phase.registered = true →
      s.phase.registered = true ∨ ∃ err, phase = .failed err) :
    ReleaseSlotInv v n (ReleaseHub.fallTo s phase) := by
  unfold ReleaseHub.fallTo
  split
  · exact ⟨trivial, (fun hr => by rw [show s.sub.ready = true from hr] at hready; cases hready),
      (fun _ => (h.waiting hready).closed _),
      (fun hr => by rw [show s.sub.ready = true from hr] at hready; cases hready)⟩
  · next hfailed =>
    refine h.advanced hready hle hinv (fun hp => Or.inl ⟨?_, rfl⟩)
    rcases hregistered hp with hold | ⟨err, herr⟩
    · exact hold
    · exact absurd herr (hfailed err)

theorem ReleaseSlotInv.activated (h : ReleaseSlotInv v n s) {bl : ReleaseBacklog}
    (hp : s.phase = .activate bl) :
    ReleaseSlotInv v n { s with phase := .unlock, sub := s.sub.activate bl } := by
  have hready := (h.idle (by rw [hp]; exact fun hf => by cases hf)
    (by rw [hp]; exact fun hf => by cases hf)).1
  have hinv := h.subscribing
  rw [hp] at hinv
  have hreg : s.phase.registered = true := by
    rw [hp]
    rfl
  by_cases hclosed : s.sub.closed = true
  · -- 閉じた購読は、流れ始めない。
    have hsame : s.sub.activate bl = s.sub := by rw [ReleaseSubscription.activate, if_pos hclosed]
    rw [hsame]
    refine ⟨trivial, fun _ => Or.inl rfl, fun _ => ?_, fun hr => ?_⟩
    · refine ⟨(h.waiting hready).pending, fun _ hc => ?_, (h.waiting hready).idle⟩
      simp [show s.sub.closed = false from hc] at hclosed
    · simp [show s.sub.ready = true from hr] at hready
  · have hopen : s.sub.closed = false := by simpa using hclosed
    have hbl : s.registeredAt ≤ bl.revision :=
      hinv.1.registered.trans hinv.2.2.revisionRead_le
    have hactive : (s.sub.activate bl).ready = true ∧ (s.sub.activate bl).backlog = bl := by
      rw [ReleaseSubscription.activate, if_neg hclosed]
      exact ⟨rfl, rfl⟩
    refine ⟨trivial, fun _ => Or.inl rfl, fun hr => ?_, fun _ => ⟨?_, ?_⟩⟩
    · simp [hactive.1] at hr
    · exact (h.waiting hready).activated hreg hopen hbl .unlock
    · show SubscribeInv v s.reg s.registeredAt s.revisionRead
        (.activate (s.sub.activate bl).backlog)
      rw [hactive.2]
      exact hinv

theorem ReleaseSlotInv.returned (h : ReleaseSlotInv v n s) (hp : s.phase = .unlock) :
    ReleaseSlotInv v n { s with phase := .returned } where
  subscribing := trivial
  settled := fun _ => Or.inr rfl
  waiting := fun hr =>
    ⟨(h.waiting hr).pending, fun _ => (h.waiting hr).latest (by rw [hp]; rfl), (h.waiting hr).idle⟩
  streaming := fun hr =>
    ⟨{ (h.streaming hr).1 with }, (h.streaming hr).2⟩

end SlotInv

end Kms.Watch
