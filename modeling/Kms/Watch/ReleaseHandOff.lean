import Kms.Watch.ReleaseSlot

/-!
# release の配送

dispatch loop・`SubscribeRelease`・consumer・store の transaction の、どの interleaving でも成り立つ hub の不変条件。

* `ReleaseHub.handed` — 購読者に渡し終えた所までの revision
* `ReleaseHubInv` / `releaseHubInv_act`
* `release_subscription_latest` — 主定理
* `pruned_activation_is_lost` — 保持期限が渡す前の有効化を消すと、購読者には永久に届かない
-/

namespace Kms.Watch

open Kms.Infra Kms.Storage

/-! ## 渡し終えた所 -/

def ReleaseHub.handed (h : ReleaseHub) (id : Nat) : Nat :=
  match h.batch, h.inflight with
  | e :: _, some d => if id ∈ d.remaining then h.cursor else e.revision
  | _, _ => h.cursor

variable {h : ReleaseHub}

theorem handed_idle {cursor : Nat} (hc : h.cursor = cursor)
    (hi : h.inflight = none) (id : Nat) : h.handed id = cursor := by
  unfold ReleaseHub.handed
  rw [hi]
  split
  · next heq => cases heq
  · exact hc

theorem handed_inflight {e : ChangeLogModel} {rest : List ChangeLogModel}
    {d : ReleaseDelivery} (hb : h.batch = e :: rest) (hi : h.inflight = some d) (id : Nat) :
    h.handed id = if id ∈ d.remaining then h.cursor else e.revision := by
  unfold ReleaseHub.handed
  rw [hb, hi]

theorem handed_congr {k : ReleaseHub} {id : Nat} (hc : k.cursor = h.cursor) (hb : k.batch = h.batch)
    (hi : k.inflight.map (fun d => decide (id ∈ d.remaining)) =
      h.inflight.map (fun d => decide (id ∈ d.remaining))) : k.handed id = h.handed id := by
  unfold ReleaseHub.handed
  rw [hc, hb]
  cases h.batch with
  | nil => rfl
  | cons e rest =>
    cases hk : k.inflight with
    | none =>
      rw [hk] at hi
      rw [Option.map_eq_none_iff.mp hi.symm]
    | some d =>
      rw [hk] at hi
      obtain ⟨d', hd', heq⟩ := Option.map_eq_some_iff.mp hi.symm
      have hiff : id ∈ d'.remaining ↔ id ∈ d.remaining := by simpa using heq
      rw [hd']
      simp only [hiff]

theorem ReleaseSlotInv.congr {v : View} {n n' : Nat} {s : ReleaseSlot} (h : ReleaseSlotInv v n s)
    (heq : n' = n) : ReleaseSlotInv v n' s := heq ▸ h

/-! ## hub の不変条件 -/

structure ReleaseHubInv [Hashing] (h : ReleaseHub) : Prop where
  feed : FeedInv h.view
  cursor_le : h.cursor ≤ h.view.store.changeLog.seq
  retained : ∀ e ∈ h.view.history, h.cursor < e.revision → e ∈ h.view.store.changeLog
  batch : h.batch <+: ahead h.view.history h.cursor
  nodup : ∀ d, h.inflight = some d → d.remaining.Nodup
  slots : ∀ id s, h.slots id = some s → ReleaseSlotInv h.view (h.handed id) s
  holder : ∀ id s, h.slots id = some s → s.sub.delivering ≠ none →
    s.phase = .unlock ∨ ∃ d, h.inflight = some d ∧ d.busy = some id
  fresh : ∀ id s, h.slots id = some s → id ≤ h.nextID

section

variable [Hashing] {h : ReleaseHub} {e : ChangeLogModel} {rest : List ChangeLogModel}

theorem releaseHubInv_start {v : View} (hf : FeedInv v) (snapshotMaxReplay : Nat) :
    ReleaseHubInv (ReleaseHub.start v snapshotMaxReplay) where
  feed := hf
  cursor_le := le_rfl
  retained := fun e he hlt => absurd (View.revision_pos he).2 (Nat.not_le_of_lt hlt)
  batch := List.nil_prefix
  nodup := fun d hd => by cases hd
  slots := fun id s hs => by cases hs
  holder := fun id s hs => by cases hs
  fresh := fun id s hs => by cases hs

theorem ReleaseHubInv.head (hinv : ReleaseHubInv h) (hb : h.batch = e :: rest) :
    e ∈ h.view.history ∧ h.cursor < e.revision ∧
      (∀ x ∈ h.view.history, x.revision ≤ e.revision ↔ x.revision ≤ h.cursor ∨ x = e) ∧
      rest <+: ahead h.view.history e.revision :=
  h.view.increasing.head_ahead (hb ▸ hinv.batch)

theorem ReleaseHubInv.handed_le (hinv : ReleaseHubInv h) (id : Nat) :
    h.cursor ≤ h.handed id ∧ h.handed id ≤ h.view.store.changeLog.seq := by
  cases hi : h.inflight with
  | none =>
    rw [handed_idle rfl hi]
    exact ⟨le_rfl, hinv.cursor_le⟩
  | some d =>
    cases hb : h.batch with
    | nil =>
      have hcursor : h.handed id = h.cursor := by rw [ReleaseHub.handed, hb]
      rw [hcursor]
      exact ⟨le_rfl, hinv.cursor_le⟩
    | cons e rest =>
      obtain ⟨he, hlt, _⟩ := hinv.head hb
      rw [handed_inflight hb hi]
      split
      · exact ⟨le_rfl, hinv.cursor_le⟩
      · exact ⟨hlt.le, (View.revision_pos he).2⟩

variable {id : Nat} {s : ReleaseSlot}

omit [Hashing] in
theorem slots_setSlot_cases {s' t : ReleaseSlot} {i : Nat}
    (ht : (h.setSlot id s').slots i = some t) :
    i = id ∧ t = s' ∨ i ≠ id ∧ h.slots i = some t := by
  by_cases hi : i = id
  · exact Or.inl ⟨hi, (Option.some.inj ((if_pos hi).symm.trans ht)).symm⟩
  · exact Or.inr ⟨hi, (if_neg hi).symm.trans ht⟩

theorem ReleaseHubInv.setSlot (hinv : ReleaseHubInv h) {s' : ReleaseSlot}
    (hs : h.slots id = some s) (hslot : ReleaseSlotInv h.view (h.handed id) s')
    (hholder : s'.sub.delivering ≠ none →
      s'.phase = .unlock ∨ ∃ d, h.inflight = some d ∧ d.busy = some id) :
    ReleaseHubInv (h.setSlot id s') :=
  { hinv with
    slots := by
      intro i t ht
      rcases slots_setSlot_cases ht with ⟨rfl, rfl⟩ | ⟨_, ht⟩
      · exact hslot
      · exact hinv.slots i t ht
    holder := by
      intro i t ht hd
      rcases slots_setSlot_cases ht with ⟨rfl, rfl⟩ | ⟨_, ht⟩
      · exact hholder hd
      · exact hinv.holder i t ht hd
    fresh := by
      intro i t ht
      rcases slots_setSlot_cases ht with ⟨rfl, _⟩ | ⟨_, ht⟩
      · exact hinv.fresh i s hs
      · exact hinv.fresh i t ht }

/-! ## action ごとの保存 -/

/-- 保持期限は、まだ渡していない entry を消さない。 -/
def PrunesHandedOver (h : ReleaseHub) : ReleaseAction → Prop
  | .call c => ∀ e ∈ h.view.store.changeLog, e ∉ (step h.view.store c).changeLog →
    e.revision ≤ h.cursor
  | _ => True

theorem releaseHubInv_call (hinv : ReleaseHubInv h) (c : Call)
    (hp : PrunesHandedOver h (.call c)) :
    ReleaseHubInv { h with view := h.view.call c } := by
  obtain ⟨new, hhistory, hnew⟩ := h.view.call_history c
  refine ⟨feedInv_call hinv.feed c, hinv.cursor_le.trans (h.view.call_seq c),
    fun e he hlt => ?_, ?_, hinv.nodup, fun id s hs => ?_, hinv.holder, hinv.fresh⟩
  · have he : e ∈ h.view.history ++ committedBy h.view.store.changeLog
      (step h.view.store c).changeLog := he
    rcases List.mem_append.mp he with he | he
    · by_contra hgone
      exact absurd (hp e (hinv.retained e he hlt) hgone) (Nat.not_le_of_lt hlt)
    · exact (List.mem_filter.mp he).1
  · show h.batch <+: ahead (h.view.call c).history h.cursor
    rw [hhistory, ahead, List.filter_append]
    exact hinv.batch.trans (List.prefix_append _ _)
  · exact (hinv.slots id s hs).grow (hinv.handed_le id).2 c

theorem releaseHubInv_drain (hinv : ReleaseHubInv h) : ReleaseHubInv h.drain := by
  unfold ReleaseHub.drain
  split
  · next hb hi =>
    refine ⟨hinv.feed, hinv.cursor_le, hinv.retained, ?_, hinv.nodup, fun id s hs => ?_,
      hinv.holder, hinv.fresh⟩
    · exact listChangesSince_ahead h.view.increasing
        (fun e hlt => ⟨h.view.retained e, fun he => hinv.retained e he hlt⟩) _
    · refine (hinv.slots id s hs).congr ?_
      rw [handed_idle rfl hi]
      exact handed_idle rfl (by exact hi) id
  · exact hinv

theorem ReleaseHubInv.mem_registered (hinv : ReleaseHubInv h)
    (hs : h.slots id = some s) (hreg : s.phase.registered = true) (hopen : s.sub.closed = false) :
    id ∈ h.registered := by
  refine List.mem_filter.mpr ⟨List.mem_range.mpr ?_, ?_⟩
  · exact Nat.lt_succ_of_le (hinv.fresh id s hs)
  · rw [hs, Option.any_some, hreg, hopen]
    rfl

theorem releaseHubInv_dispatch (hinv : ReleaseHubInv h) (order : List Nat) :
    ReleaseHubInv (h.dispatch order) := by
  unfold ReleaseHub.dispatch
  split
  · next e rest hb hi =>
    obtain ⟨he, hlt, hleast, hrest⟩ := hinv.head hb
    have hslot : ∀ id s, h.slots id = some s → ReleaseSlotInv h.view h.cursor s := by
      intro id s hs
      exact (hinv.slots id s hs).congr (handed_idle rfl hi id).symm
    have hidle : ∀ id s, h.slots id = some s → s.sub.delivering ≠ none → s.phase = .unlock := by
      intro id s hs hd
      refine (hinv.holder id s hs hd).resolve_right ?_
      rintro ⟨d, hd, _⟩
      simp [hi] at hd
    split
    · split
      · next hperm =>
        refine ⟨hinv.feed, hinv.cursor_le, hinv.retained, hinv.batch, fun d hd => ?_,
          fun id s hs => ?_, fun id s hs hd => Or.inl (hidle id s hs hd), hinv.fresh⟩
        · cases hd
          exact hperm.nodup_iff.mpr (List.nodup_range.filter _)
        · refine ReleaseSlotInv.congr ?_ (handed_inflight (by exact hb) rfl id)
          split
          · exact hslot id s hs
          · next hnot =>
            -- 写しに入らないのは、登録簿に無い購読者である。
            refine (hslot id s hs).skip hlt.le (fun hr hc => ?_)
            exact absurd (hperm.mem_iff.mpr (hinv.mem_registered hs hr hc)) hnot
      · exact hinv
    · next hkind =>
      refine ⟨hinv.feed, (View.revision_pos he).2,
        fun x hx hgt => hinv.retained x hx (hlt.trans hgt),
        hrest, hinv.nodup, fun id s hs => ?_, hinv.holder, hinv.fresh⟩
      refine ReleaseSlotInv.congr ?_ (handed_idle rfl (by exact hi) id)
      refine (hslot id s hs).skip hlt.le (fun _ _ x hx hm hgt => ?_)
      refine Nat.lt_of_not_le (fun hle => hkind ?_)
      rw [← ((hleast x hx).mp hle).resolve_left (Nat.not_le_of_lt hgt)]
      exact (matches_iff.mp hm).1.1
  · exact hinv

theorem releaseHubInv_offer (hinv : ReleaseHubInv h) : ReleaseHubInv h.offer := by
  unfold ReleaseHub.offer
  split
  · next e rest id ids hb hi =>
    obtain ⟨he, hlt, hleast, _⟩ := hinv.head hb
    obtain ⟨hnot, hids⟩ := List.nodup_cons.mp (hinv.nodup _ hi)
    have hbefore : h.cursor = h.handed id := by
      rw [handed_inflight hb hi, if_pos List.mem_cons_self]
    have hother : ∀ i, i ≠ id → decide (i ∈ ids) = decide (i ∈ id :: ids) := by
      intro i hne
      simp [hne]
    have hidle : ∀ i s, h.slots i = some s → s.sub.delivering ≠ none → s.phase = .unlock := by
      intro i s hs hd
      refine (hinv.holder i s hs hd).resolve_right ?_
      rintro ⟨d, hd, hbusy⟩
      rw [hi] at hd
      cases hd
      cases hbusy
    unfold ReleaseHub.offerTo
    split
    · next hnone =>
      refine ⟨hinv.feed, hinv.cursor_le, hinv.retained, hinv.batch, fun d hd => ?_,
        fun i s hs => ?_, fun i s hs hd => Or.inl (hidle i s hs hd), hinv.fresh⟩
      · cases hd
        exact hids
      · by_cases hne : i = id
        · subst hne
          simp [show h.slots i = some s from hs] at hnone
        · refine (hinv.slots i s hs).congr (handed_congr rfl rfl ?_)
          rw [hi]
          exact congrArg some (hother i hne)
    · next s hs =>
      split
      · next hfree =>
        have hslot := (hinv.slots id s hs).congr hbefore
        refine ⟨hinv.feed, hinv.cursor_le, hinv.retained, hinv.batch, fun d hd => ?_,
          fun i t ht => ?_, fun i t ht hd => ?_, fun i t ht => ?_⟩
        · cases hd
          exact hids
        · rcases slots_setSlot_cases ht with ⟨rfl, rfl⟩ | ⟨hne, ht⟩
          · refine (hslot.offered hfree he hlt hleast).congr ?_
            exact (handed_inflight (by exact hb) rfl i).trans (if_neg hnot)
          · refine (hinv.slots i t ht).congr (handed_congr rfl rfl ?_)
            rw [hi]
            exact congrArg some (hother i hne)
        · rcases slots_setSlot_cases ht with ⟨rfl, rfl⟩ | ⟨_, ht⟩
          · exact Or.inr ⟨_, rfl, if_neg hd⟩
          · exact Or.inl (hidle i t ht hd)
        · rcases slots_setSlot_cases ht with ⟨rfl, _⟩ | ⟨_, ht⟩
          · exact hinv.fresh i s hs
          · exact hinv.fresh i t ht
      · exact hinv
  · exact hinv

theorem releaseHubInv_deliver (hinv : ReleaseHubInv h) (id : Nat) :
    ReleaseHubInv (h.deliver id) := by
  unfold ReleaseHub.deliver
  split
  · exact hinv
  · next s hs =>
    -- 送信の間に、渡す相手は変わらない。
    have hremaining : ∀ i, (h.inflight.map (fun d =>
        if d.busy = some id ∧ s.sub.deliver.delivering = none then
          { d with busy := none } else d)).map
          (fun d => decide (i ∈ d.remaining)) =
            h.inflight.map (fun d => decide (i ∈ d.remaining)) := by
      intro i
      rw [Option.map_map]
      refine congrArg (h.inflight.map ·) (funext (fun d => ?_))
      show decide (i ∈ (if _ then _ else d : ReleaseDelivery).remaining) = _
      split <;> rfl
    refine ⟨hinv.feed, hinv.cursor_le, hinv.retained, hinv.batch, fun d hd => ?_,
      fun i t ht => ?_, fun i t ht hd => ?_, fun i t ht => ?_⟩
    · obtain ⟨d', hd', rfl⟩ := Option.map_eq_some_iff.mp hd
      split <;> exact hinv.nodup d' hd'
    · rcases slots_setSlot_cases ht with ⟨rfl, rfl⟩ | ⟨_, ht⟩
      · exact (hinv.slots i s hs).deliver.congr (handed_congr rfl rfl (hremaining i))
      · exact (hinv.slots i t ht).congr (handed_congr rfl rfl (hremaining i))
    · rcases slots_setSlot_cases ht with ⟨rfl, rfl⟩ | ⟨hne, ht⟩
      · have hbefore : s.sub.delivering ≠ none := by
          intro hnone
          rw [show (s.sub.deliver) = s.sub from (deliver_fields_release s.sub).2.2 hnone] at hd
          exact hd hnone
        refine (hinv.holder i s hs hbefore).imp_right ?_
        rintro ⟨d, hi, hbusy⟩
        refine ⟨d, ?_, hbusy⟩
        show h.inflight.map _ = some d
        rw [hi, Option.map_some, if_neg (fun hc => hd hc.2)]
      · refine (hinv.holder i t ht hd).imp_right ?_
        rintro ⟨d, hi, hbusy⟩
        refine ⟨d, ?_, hbusy⟩
        show h.inflight.map _ = some d
        rw [hi, Option.map_some, if_neg]
        rintro ⟨hid, _⟩
        rw [hbusy] at hid
        exact hne (Option.some.inj hid)
    · rcases slots_setSlot_cases ht with ⟨rfl, rfl⟩ | ⟨_, ht⟩
      · exact hinv.fresh i s hs
      · exact hinv.fresh i t ht

theorem releaseHubInv_finish (hinv : ReleaseHubInv h) : ReleaseHubInv h.finish := by
  unfold ReleaseHub.finish
  split
  · next e rest hb hi =>
    obtain ⟨he, hlt, _, hrest⟩ := hinv.head hb
    refine ⟨hinv.feed, (View.revision_pos he).2,
      fun x hx hgt => hinv.retained x hx (hlt.trans hgt), hrest,
      (fun d hd => by cases hd), fun id s hs => ?_, fun id s hs hd => Or.inl ?_, hinv.fresh⟩
    · refine (hinv.slots id s hs).congr ?_
      rw [handed_inflight hb hi, if_neg List.not_mem_nil]
      exact handed_idle rfl rfl id
    · refine (hinv.holder id s hs hd).resolve_right ?_
      rintro ⟨d, hd', hbusy⟩
      rw [hi] at hd'
      cases hd'
      cases hbusy
  · exact hinv

theorem releaseHubInv_subscribe (hinv : ReleaseHubInv h) (reg : ReleaseRegistration) :
    ReleaseHubInv (h.subscribe reg) := by
  refine ⟨hinv.feed, hinv.cursor_le, hinv.retained, hinv.batch, hinv.nodup, fun i t ht => ?_,
    fun i t ht hd => ?_, fun i t ht => ?_⟩
  · rcases slots_setSlot_cases ht with ⟨_, rfl⟩ | ⟨_, ht⟩
    · exact releaseSlotInv_new _ _ reg
    · exact (hinv.slots i t ht).congr (handed_congr rfl rfl rfl)
  · rcases slots_setSlot_cases ht with ⟨_, rfl⟩ | ⟨_, ht⟩
    · exact absurd rfl hd
    · exact hinv.holder i t ht hd
  · rcases slots_setSlot_cases ht with ⟨rfl, _⟩ | ⟨_, ht⟩
    · exact le_rfl
    · exact Nat.le_succ_of_le (hinv.fresh i t ht)

omit [Hashing] in
theorem fallTo_delivering (s : ReleaseSlot) (phase : SubscribePhase) :
    (ReleaseHub.fallTo s phase).sub.delivering = s.sub.delivering := by
  unfold ReleaseHub.fallTo
  split <;> rfl

theorem ReleaseHubInv.fallTo (hinv : ReleaseHubInv h)
    (hs : h.slots id = some s) {phase : SubscribePhase} (hu : s.phase ≠ .unlock)
    (hr : s.phase ≠ .returned)
    (hphase : SubscribeInv h.view s.reg s.registeredAt s.revisionRead phase)
    (hregistered : phase.registered = true →
      s.phase.registered = true ∨ ∃ err, phase = .failed err) :
    ReleaseHubInv (h.setSlot id (ReleaseHub.fallTo s phase)) := by
  obtain ⟨hready, hidle⟩ := (hinv.slots id s hs).idle hu hr
  refine hinv.setSlot hs
    ((hinv.slots id s hs).fallTo hready (hinv.handed_le id).2 hphase hregistered) (fun hd => ?_)
  rw [fallTo_delivering] at hd
  exact absurd hidle hd

omit [Hashing] in
theorem nextPhase_registered {snapshotMaxReplay : Nat} {st : Store} {reg : ReleaseRegistration}
    {phase : SubscribePhase} (hne : phase ≠ .register)
    (h : (nextPhase snapshotMaxReplay st reg phase).registered = true) :
    phase.registered = true ∨ ∃ err, nextPhase snapshotMaxReplay st reg phase = .failed err := by
  cases phase with
  | checkNamespace | checkSchema =>
    revert h
    simp only [nextPhase]
    repeat' split
    all_goals simp [SubscribePhase.registered]
  | register => exact absurd rfl hne
  | _ => exact Or.inl rfl

theorem ReleaseHubInv.read (hinv : ReleaseHubInv h)
    (hs : h.slots id = some s) (hread : 2 < s.phase.stage) (hregister : s.phase ≠ .register)
    (hrevision : s.phase ≠ .readRevision) :
    ReleaseHubInv (h.setSlot id (ReleaseHub.fallTo s
      (nextPhase h.snapshotMaxReplay h.view.store s.reg s.phase))) := by
  refine hinv.fallTo hs (fun hp => ?_) (fun hp => ?_)
    (subscribeInv_next hinv.feed _ hregister hrevision (hinv.slots id s hs).subscribing)
    (nextPhase_registered hregister)
  all_goals
    rw [hp] at hread
    exact absurd hread (by decide)

theorem releaseHubInv_advance (hinv : ReleaseHubInv h) (id : Nat) :
    ReleaseHubInv (h.advance id) := by
  unfold ReleaseHub.advance
  cases hs : h.slots id with
  | none => exact hinv
  | some s =>
    have hslot := hinv.slots id s hs
    have hread := hinv.read hs
    have hsub := hslot.subscribing
    have hwait := hslot.idle
    cases hp : s.phase with
    | returned | failed err => simpa only [hp] using hinv
    | register =>
      rw [hp] at hsub hwait
      obtain ⟨hready, hidle⟩ := hwait (fun hf => by cases hf) (fun hf => by cases hf)
      simp only [hp]
      refine hinv.setSlot hs (hslot.advanced hready (hinv.handed_le id).2 ⟨hsub, le_rfl⟩
        (fun _ => Or.inr rfl)) (fun hd => absurd hidle hd)
    | readRevision =>
      rw [hp] at hsub hwait
      obtain ⟨hready, hidle⟩ := hwait (fun hf => by cases hf) (fun hf => by cases hf)
      simp only [hp]
      refine hinv.setSlot hs (hslot.advanced hready (hinv.handed_le id).2
        ⟨rfl, hsub.1, hsub.2, le_rfl⟩ (fun _ => Or.inl ⟨by rw [hp]; rfl, rfl⟩))
        (fun hd => absurd hidle hd)
    | activate bl =>
      simp only [hp]
      split
      · exact hinv.setSlot hs (hslot.activated hp) (fun _ => Or.inl rfl)
      · exact hinv
    | unlock =>
      simp only [hp]
      split
      · next hfree => exact hinv.setSlot hs (hslot.returned hp) (fun hd => absurd hfree hd)
      · exact hinv
    | checkNamespace | checkSchema | readOldest current | readPage current st
    | readRelease current st e rest full | readActive current =>
      simp only [hp] at hread ⊢
      exact hread (by simp [SubscribePhase.stage]) (fun hf => by cases hf) (fun hf => by cases hf)

theorem releaseHubInv_storeFails (hinv : ReleaseHubInv h) (id : Nat) :
    ReleaseHubInv (h.storeFails id) := by
  unfold ReleaseHub.storeFails
  cases hs : h.slots id with
  | none => exact hinv
  | some s =>
    have hslot := hinv.slots id s hs
    have hsub := hslot.subscribing
    have hsame : failedRead s.phase = s.phase → (∀ err, s.phase ≠ .failed err) →
        ReleaseHubInv (h.setSlot id (ReleaseHub.fallTo s (failedRead s.phase))) := by
      intro heq hne
      have hslot' : ReleaseHub.fallTo s (failedRead s.phase) = s := by
        rw [heq]
        unfold ReleaseHub.fallTo
        split
        · next err hp => exact absurd hp (hne err)
        · rfl
      rw [hslot']
      exact hinv.setSlot hs hslot (hinv.holder id s hs)
    show ReleaseHubInv (h.setSlot id (ReleaseHub.fallTo s (failedRead s.phase)))
    cases hp : s.phase with
    | register | activate bl | unlock | returned =>
      rw [hp] at hsame
      exact hsame rfl (fun err hf => by cases hf)
    | readOldest current =>
      rw [hp] at hsub
      refine hinv.fallTo hs (by rw [hp]; exact fun hf => by cases hf)
        (by rw [hp]; exact fun hf => by cases hf) hsub (fun _ => Or.inl (by rw [hp]; rfl))
    | checkNamespace | checkSchema | readRevision | readPage current st
    | readRelease current st e rest full | readActive current | failed err =>
      exact hinv.fallTo hs (by rw [hp]; exact fun hf => by cases hf)
        (by rw [hp]; exact fun hf => by cases hf) trivial (fun _ => Or.inr ⟨_, rfl⟩)

theorem releaseHubInv_close (hinv : ReleaseHubInv h) (id : Nat) : ReleaseHubInv (h.close id) := by
  unfold ReleaseHub.close
  split
  · exact hinv
  · next s hs =>
    split
    · next hfree => exact hinv.setSlot hs (hinv.slots id s hs).close (fun hd => absurd hfree hd)
    · exact hinv

theorem releaseHubInv_receive (hinv : ReleaseHubInv h) (id : Nat) :
    ReleaseHubInv (h.receive id) := by
  unfold ReleaseHub.receive
  split
  · exact hinv
  · next s hs =>
    split
    · refine hinv.setSlot hs (hinv.slots id s hs).receive (fun hd => ?_)
      rw [show (s.sub.receive).delivering = _ from (receive_fields_release s.sub).2.2] at hd
      exact hinv.holder id s hs hd
    · exact hinv

theorem releaseHubInv_act (h : ReleaseHub) (a : ReleaseAction) (hp : PrunesHandedOver h a)
    (hinv : ReleaseHubInv h) : ReleaseHubInv (releaseAct h a) := by
  cases a with
  | call c => exact releaseHubInv_call hinv c hp
  | drain => exact releaseHubInv_drain hinv
  | dispatch order => exact releaseHubInv_dispatch hinv order
  | offer => exact releaseHubInv_offer hinv
  | deliver id => exact releaseHubInv_deliver hinv id
  | finish => exact releaseHubInv_finish hinv
  | subscribe reg => exact releaseHubInv_subscribe hinv reg
  | advance id => exact releaseHubInv_advance hinv id
  | storeFails id => exact releaseHubInv_storeFails hinv id
  | close id => exact releaseHubInv_close hinv id
  | receive id => exact releaseHubInv_receive hinv id

/-! ## 主定理 -/

/-- commit された entry を全て配り終えた。 -/
def ReleaseHub.CaughtUp (h : ReleaseHub) : Prop :=
  h.cursor = currentRevision h.view.store.changeLog ∧ h.inflight = none

def ReleaseHub.after (calls : List Call) (snapshotMaxReplay : Nat) (as : List ReleaseAction) :
    ReleaseHub :=
  run releaseAct (ReleaseHub.start (run View.call View.empty calls) snapshotMaxReplay) as

omit [Hashing] in
/-- 呼び出しを一つ進めると、終わりに近付く。例外は、頁の読み直しが `current` より後の一杯の頁を読んだ時だけである。 -/
theorem ReleaseHub.advance_closer (hs : h.slots id = some s) (hunfinished : 0 < s.phase.stage)
    (hfree : s.sub.delivering = none) :
    (∃ t, (h.advance id).slots id = some t ∧ t.phase.Closer s.phase) ∨
      ∃ current st, s.phase = .readPage current st ∧
        FullBeyond h.view.store.changeLog st.cursor current := by
  have hset : ∀ t : ReleaseSlot, (h.setSlot id t).slots id = some t := fun t => if_pos rfl
  have hfall : ∀ phase, (ReleaseHub.fallTo s phase).phase = phase := by
    intro phase
    unfold ReleaseHub.fallTo
    split <;> rfl
  have hnext := @nextPhase_closer h.snapshotMaxReplay h.view.store s.reg s.phase
  unfold ReleaseHub.advance
  rw [hs]
  cases hp : s.phase with
  | returned | failed err =>
    rw [hp] at hunfinished
    exact absurd hunfinished (Nat.lt_irrefl 0)
  | register =>
    simp only [hp]
    exact Or.inl ⟨_, hset _, Or.inl (by decide : 6 < 7)⟩
  | readRevision =>
    simp only [hp]
    exact Or.inl ⟨_, hset _, Or.inl (by decide : 5 < 6)⟩
  | activate bl =>
    simp only [hp, if_pos hfree]
    exact Or.inl ⟨_, hset _, Or.inl (by decide : 1 < 2)⟩
  | unlock =>
    simp only [hp, if_pos hfree]
    exact Or.inl ⟨_, hset _, Or.inl (by decide : 0 < 1)⟩
  | checkNamespace | checkSchema | readOldest current | readPage current st
  | readRelease current st e rest full | readActive current =>
    rw [hp] at hnext
    simp only [hp]
    refine (hnext (by simp [SubscribePhase.stage])).imp_left (fun hcloser => ⟨_, hset _, ?_⟩)
    rw [hfall]
    exact hcloser

/--
release の購読。保持期限が dispatch の cursor より後の行を消さない限り、store の transaction・dispatch loop・購読の
手続き・consumer のどの interleaving でも、

* 送信は channel が空いた時にしか残らないので、dispatch loop を待たせない
* 呼び出しは一つ進めるたびに終わりに近付く。例外は、頁の読み直しが一杯の新しい頁だけを読む時である
* 始まった購読の backlog は正しく、読んだ event の revision は backlog より大きく、狭義に増える
* 配り終えた時、読んだか channel にある最後の event は、backlog より後の最後の有効化である
-/
theorem release_subscription_latest (calls : List Call) (snapshotMaxReplay : Nat)
    (as : List ReleaseAction)
    (hprune : AlongSteps releaseAct PrunesHandedOver
      (ReleaseHub.start (run View.call View.empty calls) snapshotMaxReplay) as)
    (id : Nat) (s : ReleaseSlot)
    (hs : (ReleaseHub.after calls snapshotMaxReplay as).slots id = some s) :
    let h := ReleaseHub.after calls snapshotMaxReplay as
    (∀ e, s.sub.delivering = some (e, .send) → s.sub.events = none) ∧
    (0 < s.phase.stage → s.sub.delivering = none →
      (∃ t, (h.advance id).slots id = some t ∧ t.phase.Closer s.phase) ∨
        ∃ current st, s.phase = .readPage current st ∧
          FullBeyond h.view.store.changeLog st.cursor current) ∧
    (s.sub.ready = true →
      s.registeredAt ≤ s.revisionRead ∧
      CorrectReleaseBacklog h.view.history s.reg s.revisionRead s.sub.backlog ∧
      s.sub.received.Pairwise (fun a b => a.revision < b.revision) ∧
      (∀ ev ∈ s.sub.received, s.sub.backlog.revision < ev.revision) ∧
      (h.CaughtUp → s.phase = .returned → s.sub.closed = false →
        (s.sub.received ++ s.sub.events.toList).getLast? =
          (between s.reg.matches h.view.history s.sub.backlog.revision
            (currentRevision h.view.store.changeLog)).getLast?.map ReleaseEvent.live)) := by
  intro h
  have hinv : ReleaseHubInv h := run_steps_invariant (I := ReleaseHubInv) releaseHubInv_act
    (releaseHubInv_start (feedInv_run calls) snapshotMaxReplay) hprune
  have hslot := hinv.slots id s hs
  refine ⟨fun e hd => ?_, fun hu hfree => ReleaseHub.advance_closer hs hu hfree, fun hready => ?_⟩
  · cases hready : s.sub.ready with
    | false => exact (hslot.waiting hready).idle.1
    | true => exact (hslot.streaming hready).1.drained e hd
  · obtain ⟨hstream, hread, _, hbacklog⟩ := hslot.streaming hready
    have hsub : s.sub.received.Sublist s.sub.sent := by
      unfold ReleaseSubscription.sent
      rw [List.append_assoc]
      exact List.sublist_append_left _ _
    refine ⟨hread.registered, hbacklog, hstream.increasing.sublist hsub,
      fun ev hev => hstream.above ev (hsub.subset hev), ?_⟩
    rintro ⟨hcursor, hidle⟩ hreturned hopen
    have hnone : s.sub.delivering = none := by
      by_contra hd
      rcases hinv.holder id s hs hd with hp | ⟨d, hi, _⟩
      · simp [hreturned] at hp
      · simp [hidle] at hi
    have hlatest := hstream.latest h.view.increasing hopen
    rw [handed_idle hcursor hidle, ReleaseSubscription.sent, hnone] at hlatest
    simpa using hlatest

end

section Sample

local instance releaseHashing : Hashing := sampleHashing

/-- namespace を作り、release を一つ作る。 -/
private def sampleSetup : List Call :=
  [⟨sampleRequest, .createNamespace sampleNamespace⟩,
    ⟨sampleRequest, .createRelease sampleRelease ⟨false, none⟩⟩]

private def sampleStream : ReleaseRegistration where
  ns := sampleSession.track.ns
  namespaceID := 1
  name := sampleSession.track.name
  schemaVersion := 0
  lastSeenRevision := 0

/-- まだ何も有効でない系列を購読し、snapshot を受け取る。 -/
private def sampleSubscribe : List ReleaseAction :=
  .subscribe sampleStream :: List.replicate 7 (.advance 1)

/-- release を有効にする。 -/
private def sampleActivate : ReleaseAction :=
  .call ⟨sampleRequest, .activateRelease sampleSession.track 1 none⟩

private def sampleDispatch : List ReleaseAction :=
  [.drain, .dispatch [1], .offer, .deliver 1, .finish]

private def sampleFollow : ReleaseHub :=
  ReleaseHub.after sampleSetup 4096 (sampleSubscribe ++ sampleActivate :: sampleDispatch)

/-- 有効化は購読者に届く。 -/
theorem release_subscription_latest_sample :
    ∃ s, sampleFollow.slots 1 = some s ∧ s.sub.backlog.isSnapshot = true ∧
      (s.sub.received ++ s.sub.events.toList).getLast? =
        (between s.reg.matches sampleFollow.view.history s.sub.backlog.revision 1).getLast?.map
          ReleaseEvent.live := by
  have hprune : AlongSteps releaseAct PrunesHandedOver
      (ReleaseHub.start (run View.call View.empty sampleSetup) 4096)
      (sampleSubscribe ++ sampleActivate :: sampleDispatch) := by
    refine ⟨trivial, trivial, trivial, trivial, trivial, trivial, trivial, trivial,
      fun e he => ?_, trivial, trivial, trivial, trivial, trivial, trivial⟩
    have hnil : (ReleaseHub.after sampleSetup 4096 sampleSubscribe).view.store.changeLog.rows =
      [] := by decide +kernel
    have he : e ∈ (ReleaseHub.after sampleSetup 4096 sampleSubscribe).view.store.changeLog.rows :=
      he
    rw [hnil] at he
    exact absurd he List.not_mem_nil
  have hfields : (sampleFollow.slots 1).map (fun s =>
      (s.sub.ready, s.sub.backlog.isSnapshot, s.phase, s.sub.closed)) =
        some (true, true, .returned, false) := by decide +kernel
  have hcaught : sampleFollow.CaughtUp := ⟨by decide +kernel, by decide +kernel⟩
  have hcurrent : currentRevision sampleFollow.view.store.changeLog = 1 := by decide +kernel
  obtain ⟨s, hs, hfields⟩ := Option.map_eq_some_iff.mp hfields
  simp only [Prod.mk.injEq] at hfields
  obtain ⟨hready, hsnapshot, hphase, hopen⟩ := hfields
  have h := (release_subscription_latest sampleSetup 4096 _ hprune 1 s hs).2.2 hready
  have hlatest := h.2.2.2.2 hcaught hphase hopen
  rw [show currentRevision (ReleaseHub.after sampleSetup 4096
    (sampleSubscribe ++ sampleActivate :: sampleDispatch)).view.store.changeLog = 1 from
      hcurrent] at hlatest
  exact ⟨s, hs, hsnapshot, hlatest⟩

/-- 有効化の後に parameter を書き、dispatch の前に、新しい方から一行だけを残す保持期限が走る。 -/
private def samplePruned : ReleaseHub :=
  ReleaseHub.after sampleSetup 4096 (sampleSubscribe ++
    [sampleActivate,
      .call ⟨sampleRequest, .parameter (.put ⟨sampleNamespace, "limit"⟩ "1" "text/plain" "\x7b\x7d"
        "ops" false false)⟩,
      .call ⟨sampleRequest, .pruneChangeLog 100 1⟩, .drain, .dispatch []])

/-- 渡す前に消えた有効化は、配り終えた後も購読者に届いていない。 -/
theorem pruned_activation_is_lost :
    samplePruned.CaughtUp ∧
      (samplePruned.slots 1).map (fun s => (s.phase, s.sub.closed, s.sub.backlog.revision,
        s.sub.received ++ s.sub.events.toList)) = some (.returned, false, 0, []) ∧
      (between sampleStream.matches samplePruned.view.history 0
        (currentRevision samplePruned.view.store.changeLog)).map
          (fun e => (e.revision, e.versionNumber)) = [(1, 1)] := by
  refine ⟨⟨by decide +kernel, by decide +kernel⟩, by decide +kernel, by decide +kernel⟩

end Sample

end Kms.Watch
