import Kms.Watch.SlotInv

/-!
# 購読の引き継ぎは何も失わず、何も重ねない

登録が backlog の読み出しより先なので、読み出しの前・間・後のどこで配送された entry も、backlog か channel の
どちらか一方だけに入る。

* `Reached` — entry がその購読者への配送を終えた
* `HubInv` — dispatch loop の不変条件
* `handoff_exact` — 主定理
-/

namespace Kms.Watch

open Kms.Infra Kms.Storage

/-! ## dispatch loop の不変条件 -/

def Reached (h : Hub) (id : Nat) (e : ChangeLogModel) : Prop :=
  e ∈ h.history ∧ (e.revision ≤ h.cursor ∨
    (h.batch.head? = some e ∧ ∃ d, h.inflight = some d ∧ id ∉ d.remaining ∧ d.doomed ≠ some id))

structure HubInv (h : Hub) : Prop where
  increasing : Increasing h.history
  le_seq : ∀ e ∈ h.history, e.revision ≤ h.log.seq
  cursor_le : h.cursor ≤ h.log.seq
  log_ahead : ∀ e, h.cursor < e.revision → (e ∈ h.log ↔ e ∈ h.history)
  batch_ahead : h.batch <+: ahead h.history h.cursor
  inflight : ∀ d, h.inflight = some d → ∃ e rest, h.batch = e :: rest ∧
    isResourceChange e = true ∧ d.remaining.Nodup ∧ ∀ id, d.doomed = some id → id ∉ d.remaining
  fresh : ∀ id, h.nextID < id → h.slots id = none
  slots : ∀ id s, h.slots id = some s → s.sub.dropped = false →
    SlotInv (Reached h id) h.log.seq s

variable {h : Hub} {e x : ChangeLogModel} {id : Nat} {s : Slot}

section Head

variable {h : Hub} {e : ChangeLogModel} {rest : List ChangeLogModel}

/-- batch の先頭は、cursor を超える entry のうち最初のものである。 -/
theorem HubInv.head (hinv : HubInv h) (hb : h.batch = e :: rest) :
    e ∈ h.history ∧ h.cursor < e.revision ∧
      (∀ x ∈ h.history, x.revision ≤ e.revision ↔ x.revision ≤ h.cursor ∨ x = e) ∧
      rest <+: ahead h.history e.revision :=
  hinv.increasing.head_ahead (hb ▸ hinv.batch_ahead)

theorem HubInv.reached_lt (hinv : HubInv h) (hb : h.batch = e :: rest) {id : Nat}
    (hid : ∀ d, h.inflight = some d → id ∈ d.remaining ∨ d.doomed = some id)
    {x : ChangeLogModel} (hx : Reached h id x) : x.revision < e.revision := by
  rcases hx.2 with hle | ⟨_, d, hd, hnot, hdoom⟩
  · exact hle.trans_lt (hinv.head hb).2.1
  · rcases hid d hd with hmem | hdoomed
    · exact absurd hmem hnot
    · exact absurd hdoomed hdoom

end Head

/-! ## 一歩 -/

theorem hubInv_start (log : ChangeLog) (bufferCap : Nat) : HubInv (Hub.start log bufferCap) where
  increasing := log.sorted
  le_seq := log.rev_le
  cursor_le := le_rfl
  log_ahead := fun _ _ => Iff.rfl
  batch_ahead := List.nil_prefix
  inflight := fun _ hd => nomatch hd
  fresh := fun _ _ => rfl
  slots := fun _ _ hs => nomatch hs

theorem HubInv.setSlot (hinv : HubInv h) {s' : Slot} (hs : h.slots id = some s)
    (hs' : s'.sub.dropped = false → SlotInv (Reached h id) h.log.seq s') :
    HubInv (h.setSlot id s') :=
  { hinv with
    fresh := by
      intro i hi
      have hne : i ≠ id := by
        rintro rfl
        simp [hinv.fresh i hi] at hs
      rw [slots_setSlot_of_ne h s' hne]
      exact hinv.fresh i hi
    slots := by
      intro i t ht hd
      by_cases hi : i = id
      · subst hi
        rw [slots_setSlot_self] at ht
        cases ht
        exact hs' hd
      · rw [slots_setSlot_of_ne h s' hi] at ht
        exact hinv.slots i t ht hd }

theorem hubInv_commit (hinv : HubInv h) (entry : ChangeEntry) (namespaceID : Nat)
    (now : Time) : HubInv (act h (.commit entry namespaceID now)) := by
  have hnew : ∀ x ∈ h.history, x.revision < h.log.seq + 1 :=
    fun x hx => Nat.lt_succ_of_le (hinv.le_seq x hx)
  have hcur : h.cursor < h.log.seq + 1 := Nat.lt_succ_of_le hinv.cursor_le
  refine ⟨hinv.increasing.append_singleton hnew, ?_, hcur.le, ?_, ?_, hinv.inflight,
    hinv.fresh, ?_⟩
  · intro e he
    rcases List.mem_append.mp he with he | he
    · exact Nat.le_of_lt (hnew e he)
    · rw [List.mem_singleton.mp he]
      exact le_rfl
  · intro e hlt
    show e ∈ logChange h.log entry namespaceID now ↔ e ∈ h.history ++ _
    rw [mem_logChange, List.mem_append, List.mem_singleton, hinv.log_ahead e hlt]
  · show h.batch <+: (h.history ++ _).filter _
    rw [List.filter_append]
    exact hinv.batch_ahead.trans (List.prefix_append _ _)
  · intro id s hs hd
    refine (hinv.slots id s hs hd).congr (Nat.le_succ _) (fun e _ => ?_)
    -- 新しい entry は cursor を超えていて、batch の先頭でもない。
    constructor
    · rintro ⟨he, hr⟩
      rcases List.mem_append.mp he with he | he
      · exact ⟨he, hr⟩
      · rw [List.mem_singleton.mp he] at hr
        rcases hr with hle | ⟨hhead, _⟩
        · exact absurd hle (Nat.not_le_of_lt hcur)
        · obtain ⟨rest, hb⟩ := List.head?_eq_some_iff.mp hhead
          exact absurd (hnew _ (hinv.head hb).1) (Nat.lt_irrefl _)
    · rintro ⟨he, hr⟩
      exact ⟨List.mem_append_left _ he, hr⟩

theorem hubInv_prune (hinv : HubInv h) {p : ChangeLogModel → Bool}
    (hp : ∀ e ∈ h.log, p e = true → e.revision ≤ h.cursor) : HubInv (act h (.prune p)) := by
  refine ⟨hinv.increasing, hinv.le_seq, hinv.cursor_le, ?_, hinv.batch_ahead, hinv.inflight,
    hinv.fresh, hinv.slots⟩
  intro e hlt
  show e ∈ h.log.deleteWhere p ↔ e ∈ h.history
  rw [Journal.mem_deleteWhere, ← hinv.log_ahead e hlt]
  refine and_iff_left_of_imp (fun he => ?_)
  cases hpe : p e with
  | false => rfl
  | true => exact absurd (hp e he hpe) (Nat.not_le_of_lt hlt)

theorem reached_idle (hi : h.inflight = none) :
    Reached h id x ↔ x ∈ h.history ∧ x.revision ≤ h.cursor := by
  refine and_congr_right (fun _ => or_iff_left ?_)
  rintro ⟨_, d, hd, _⟩
  simp [hi] at hd

theorem HubInv.drained (hinv : HubInv h) (hi : h.inflight = none) :
    HubInv { h with batch := listChangesSince h.log h.cursor dispatchBatch } := by
  refine ⟨hinv.increasing, hinv.le_seq, hinv.cursor_le, hinv.log_ahead, ?_, ?_, hinv.fresh, ?_⟩
  · -- cursor を超える行は消えていないので、頁は先の entry の先頭部分である。
    exact listChangesSince_ahead hinv.increasing hinv.log_ahead _
  · exact fun d hd => nomatch hi.symm.trans hd
  · intro id s hs hd
    refine (hinv.slots id s hs hd).congr le_rfl (fun e _ => ?_)
    rw [reached_idle hi]
    exact reached_idle (h := { h with batch := _ }) hi

theorem reached_inflight {rest : List ChangeLogModel} (hb : h.batch = e :: rest) {d : Delivery}
    (hi : h.inflight = some d) :
    Reached h id x ↔ x ∈ h.history ∧
      (x.revision ≤ h.cursor ∨ (x = e ∧ id ∉ d.remaining ∧ d.doomed ≠ some id)) := by
  refine and_congr_right (fun _ => or_congr_right ?_)
  rw [hb, hi]
  constructor
  · rintro ⟨hx, d', hd, hnot, hdoom⟩
    cases hd
    exact ⟨(Option.some.inj hx).symm, hnot, hdoom⟩
  · rintro ⟨rfl, hnot, hdoom⟩
    exact ⟨rfl, d, rfl, hnot, hdoom⟩

theorem HubInv.advance (hinv : HubInv h) {rest : List ChangeLogModel} (hb : h.batch = e :: rest)
    (hreach : ∀ id s x, h.slots id = some s → s.sub.dropped = false →
      s.sub.reg.wants x = true → x ∈ h.history →
      (x.revision ≤ h.cursor ∨ x = e ↔ Reached h id x)) :
    HubInv { h with batch := rest, cursor := e.revision, inflight := none } := by
  obtain ⟨he, hlt, hleast, hrest⟩ := hinv.head hb
  refine ⟨hinv.increasing, hinv.le_seq, hinv.le_seq e he, ?_, hrest, ?_, hinv.fresh, ?_⟩
  · intro x hx
    exact hinv.log_ahead x (hlt.trans hx)
  · exact fun _ hd => nomatch hd
  · intro id s hs hd
    refine (hinv.slots id s hs hd).congr le_rfl (fun x hw => ?_)
    rw [reached_idle rfl]
    show x ∈ h.history ∧ x.revision ≤ e.revision ↔ _
    constructor
    · rintro ⟨hx, hle⟩
      exact (hreach id s x hs hd hw hx).mp ((hleast x hx).mp hle)
    · intro hr
      exact ⟨hr.1, (hleast x hr.1).mpr ((hreach id s x hs hd hw hr.1).mpr hr)⟩

theorem HubInv.mem_registered (hinv : HubInv h)
    (hs : h.slots id = some s) (hd : s.sub.dropped = false) : id ∈ h.registered := by
  have hle : id ≤ h.nextID := by
    refine Nat.le_of_not_lt (fun hlt => ?_)
    simp [hinv.fresh id hlt] at hs
  refine List.mem_filter.mpr ⟨List.mem_range.mpr (Nat.lt_succ_of_le hle), ?_⟩
  rw [hs]
  simp [hd]

theorem HubInv.began (hinv : HubInv h) {order : List Nat} {rest : List ChangeLogModel}
    (hb : h.batch = e :: rest) (hi : h.inflight = none) (hres : isResourceChange e = true)
    (hperm : order.Perm h.registered) : HubInv { h with inflight := some ⟨order, none⟩ } := by
  have hnodup : h.registered.Nodup := List.Nodup.filter _ List.nodup_range
  refine ⟨hinv.increasing, hinv.le_seq, hinv.cursor_le, hinv.log_ahead, hinv.batch_ahead, ?_,
    hinv.fresh, ?_⟩
  · intro d hd
    cases hd
    exact ⟨e, rest, hb, hres, hperm.nodup_iff.mpr hnodup, fun _ hdoom => nomatch hdoom⟩
  · intro id s hs hd
    refine (hinv.slots id s hs hd).congr le_rfl (fun x _ => ?_)
    -- 写しに入った購読者には、先頭の entry はまだ渡っていない。
    have hmem : id ∈ order := hperm.mem_iff.mpr (hinv.mem_registered hs hd)
    rw [reached_idle hi]
    refine and_congr_right (fun _ => or_iff_left ?_)
    rintro ⟨_, d, hdel, hnot, _⟩
    cases hdel
    exact hnot hmem

section Offer

variable {h : Hub} {e : ChangeLogModel} {rest : List ChangeLogModel} {id : Nat} {ids : List Nat}

/-- 一人に渡した後。他の購読者にとっては何も変わらない。 -/
theorem HubInv.handed (hinv : HubInv h) (hb : h.batch = e :: rest)
    (hi : h.inflight = some ⟨id :: ids, none⟩) (doomed : Option Nat)
    (hdoom : ∀ i, doomed = some i → i = id) {slots : Nat → Option Slot}
    (hother : ∀ i, i ≠ id → slots i = h.slots i) (hnone : h.slots id = none → slots id = none)
    (hslot : ∀ s, slots id = some s → s.sub.dropped = false →
      SlotInv (fun x => Reached h id x ∨ (x = e ∧ doomed ≠ some id)) h.log.seq s) :
    HubInv { h with slots := slots, inflight := some ⟨ids, doomed⟩ } := by
  obtain ⟨e', rest', hb', hres, hnodup, _⟩ := hinv.inflight _ hi
  obtain ⟨hnot, hnodup'⟩ := List.nodup_cons.mp hnodup
  have he := (hinv.head hb).1
  refine ⟨hinv.increasing, hinv.le_seq, hinv.cursor_le, hinv.log_ahead, hinv.batch_ahead, ?_, ?_,
    ?_⟩
  · intro d hd
    cases hd
    refine ⟨e', rest', hb', hres, hnodup', fun i hi => ?_⟩
    rw [hdoom i hi]
    exact hnot
  · intro i hlt
    by_cases hid : i = id
    · subst hid
      exact hnone (hinv.fresh i hlt)
    · exact (hother i hid).trans (hinv.fresh i hlt)
  · intro i s hs hd
    have hs' : slots i = some s := hs
    by_cases hid : i = id
    · subst hid
      refine (hslot s hs' hd).congr le_rfl (fun x _ => ?_)
      rw [reached_inflight (h := { h with slots := slots, inflight := some ⟨ids, doomed⟩ }) hb rfl,
        reached_inflight hb hi]
      show x ∈ h.history ∧ (x.revision ≤ h.cursor ∨ _) ↔ _
      constructor
      · rintro ⟨hx, hle | ⟨rfl, _, hne⟩⟩
        · exact Or.inl ⟨hx, Or.inl hle⟩
        · exact Or.inr ⟨rfl, hne⟩
      · rintro (⟨hx, hle | ⟨_, hmem, _⟩⟩ | ⟨rfl, hne⟩)
        · exact ⟨hx, Or.inl hle⟩
        · exact absurd List.mem_cons_self hmem
        · exact ⟨he, Or.inr ⟨rfl, hnot, hne⟩⟩
    · rw [hother i hid] at hs'
      refine (hinv.slots i s hs' hd).congr le_rfl (fun x _ => ?_)
      rw [reached_inflight (h := { h with slots := slots, inflight := some ⟨ids, doomed⟩ }) hb rfl,
        reached_inflight hb hi]
      refine and_congr_right (fun _ => or_congr_right (and_congr_right (fun _ => ?_)))
      have hdi : doomed ≠ some i := fun hd => hid (hdoom i hd)
      simp [hid, hdi]

/-- 渡せた時も、渡せずに落とす相手として覚えた時も、不変条件は保たれる。 -/
theorem hubInv_offerTo (hinv : HubInv h) (hb : h.batch = e :: rest)
    (hi : h.inflight = some ⟨id :: ids, none⟩) : HubInv (h.offerTo e id ids) := by
  have hres : isResourceChange e = true := by
    obtain ⟨e', rest', hb', hres, _⟩ := hinv.inflight _ hi
    rw [hb] at hb'
    cases hb'
    exact hres
  have hnew : ∀ x, Reached h id x → x.revision < e.revision := by
    refine fun x => hinv.reached_lt hb (fun d hd => ?_)
    rw [hi] at hd
    cases hd
    exact Or.inl List.mem_cons_self
  unfold Hub.offerTo
  cases hs : h.slots id with
  | none =>
    refine hinv.handed hb hi none (fun _ hd => nomatch hd) (fun _ _ => rfl) (fun hn => hn)
      (fun s hs' _ => nomatch hs.symm.trans hs')
  | some s =>
    by_cases hm : s.sub.reg.matches e = true
    · have hw : s.sub.reg.wants e = true := Bool.and_eq_true_iff.mpr ⟨hres, hm⟩
      have hsome : h.slots id ≠ none := by
        rw [hs]
        exact Option.some_ne_none s
      simp only [hm, if_true]
      rcases offer_cases s.sub e with hoff | ⟨sub, hoff, hopen, ho⟩
      · rw [hoff]
        refine hinv.handed hb hi (some id) (fun i hd => (Option.some.inj hd).symm)
          (fun i hid => if_neg hid) (fun hn => absurd hn hsome) (fun s' hs' hd => ?_)
        rw [slots_setSlot_self] at hs'
        cases hs'
        refine (hinv.slots id s hs hd).congr le_rfl (fun x _ => or_iff_left ?_)
        exact fun hx => hx.2 rfl
      · rw [hoff]
        refine hinv.handed hb hi none (fun _ hd => nomatch hd) (fun i hid => if_neg hid)
          (fun hn => absurd hn hsome) (fun s' hs' hd => ?_)
        rw [slots_setSlot_self] at hs'
        cases hs'
        refine ((hinv.slots id s hs hopen).offered hnew hw ho).congr le_rfl
          (fun x _ => or_congr_right (and_iff_left ?_))
        exact (Option.some_ne_none id).symm
    · simp only [hm]
      refine hinv.handed hb hi none (fun _ hd => nomatch hd) (fun _ _ => rfl) (fun hn => hn)
        (fun s' hs' hd => ?_)
      cases hs.symm.trans hs'
      refine (hinv.slots id s hs hd).congr le_rfl (fun x hw => or_iff_left ?_)
      rintro ⟨rfl, _⟩
      exact hm (Bool.and_eq_true_iff.mp hw).2

end Offer

theorem HubInv.slotStep (hinv : HubInv h) (hs : h.slots id = some s) {s' : Slot}
    (hstep : SlotStep h s s') : HubInv (h.setSlot id s') := by
  refine hinv.setSlot hs (fun hd => ?_)
  cases hstep with
  | read hready =>
    have hslot := hinv.slots id s hs hd
    have hw := hslot.waiting hready
    refine ⟨hslot.registered_le, fun r hr => ?_, fun _ => ?_, fun hret => ?_⟩
    · cases hr
      exact hslot.registered_le
    · exact ⟨hw.increasing, hw.sound, hw.complete, hw.nothingSent, hw.lastSent⟩
    · exact absurd (hready.symm.trans (hslot.streaming hret).1) Bool.false_ne_true
  | @activated bl hready hread =>
    have hopen : s.sub.dropped = false := (activate_fields s.sub bl).2.symm.trans hd
    exact (hinv.slots id s hs hopen).activated hopen hready hread rfl
  | closed => cases hd
  | received => exact (hinv.slots id s hs ((receive_fields s.sub).2.symm.trans hd)).received

theorem HubInv.dropped (hinv : HubInv h) {ids : List Nat}
    (hi : h.inflight = some ⟨ids, some id⟩) :
    HubInv { h.close id with inflight := some ⟨ids, none⟩ } := by
  have hclosed : HubInv (h.close id) := by
    unfold Hub.close
    split
    · next hs => exact hinv.slotStep hs .closed
    · exact hinv
  have hi' : (h.close id).inflight = some ⟨ids, some id⟩ := by
    unfold Hub.close
    split <;> exact hi
  have hdropped : ∀ s, (h.close id).slots id = some s → s.sub.dropped = true := by
    intro s hs
    unfold Hub.close at hs
    split at hs
    · rw [slots_setSlot_self] at hs
      cases hs
      rfl
    · next hnone => cases hnone.symm.trans hs
  generalize h.close id = h' at hclosed hi' hdropped ⊢
  obtain ⟨e, rest, hb, hres, hnodup, _⟩ := hclosed.inflight _ hi'
  refine ⟨hclosed.increasing, hclosed.le_seq, hclosed.cursor_le, hclosed.log_ahead,
    hclosed.batch_ahead, ?_, hclosed.fresh, ?_⟩
  · intro d hd
    cases hd
    exact ⟨e, rest, hb, hres, hnodup, fun _ hdoom => nomatch hdoom⟩
  · intro i s hs hd
    refine (hclosed.slots i s hs hd).congr le_rfl (fun x _ => ?_)
    rw [reached_inflight (h := { h' with inflight := some ⟨ids, none⟩ }) hb rfl,
      reached_inflight hb hi']
    refine and_congr_right (fun _ => or_congr_right (and_congr_right (fun _ =>
      and_congr_right (fun _ => ?_))))
    have hne : i ≠ id := by
      rintro rfl
      simp [hdropped s hs] at hd
    simp [Ne.symm hne]

theorem slotInv_new (hinv : HubInv h) (reg : Registration) (id : Nat) :
    SlotInv (Reached h id) h.log.seq
      ⟨Subscription.new reg h.bufferCap, none, false, currentRevision h.log⟩ where
  registered_le := le_rfl
  read_ge := fun _ hr => nomatch hr
  waiting := by
    intro _
    refine ⟨List.Pairwise.nil, fun e he => absurd he List.not_mem_nil, ?_, rfl, rfl⟩
    intro e hr _ hlt
    exact absurd hlt (Nat.not_lt_of_le (hinv.le_seq e hr.1))
  streaming := fun hret => nomatch hret

theorem HubInv.registered (hinv : HubInv h) (reg : Registration) :
    HubInv { h.setSlot (h.nextID + 1)
        ⟨Subscription.new reg h.bufferCap, none, false, currentRevision h.log⟩ with
      nextID := h.nextID + 1 } := by
  refine ⟨hinv.increasing, hinv.le_seq, hinv.cursor_le, hinv.log_ahead, hinv.batch_ahead,
    hinv.inflight, ?_, ?_⟩
  · intro id hlt
    have hlt' : h.nextID + 1 < id := hlt
    exact (slots_setSlot_of_ne h _ (Nat.ne_of_gt hlt')).trans
      (hinv.fresh id (Nat.lt_of_succ_lt hlt'))
  · intro id s hs hd
    by_cases hid : id = h.nextID + 1
    · subst hid
      cases (slots_setSlot_self h _ _).symm.trans hs
      exact slotInv_new hinv reg _
    · exact hinv.slots id s ((slots_setSlot_of_ne h _ hid).symm.trans hs) hd

/-- cursor より後の行は消さない。 -/
def PrunesBelowCursor (h : Hub) (a : Action) : Prop :=
  ∀ p, a = .prune p → ∀ e ∈ h.log, p e = true → e.revision ≤ h.cursor

theorem hubInv_act (hinv : HubInv h) (a : Action) (hp : PrunesBelowCursor h a) :
    HubInv (act h a) := by
  have heffect := act_effect h a
  generalize act h a = h' at heffect
  cases heffect with
  | same => exact hinv
  | committed entry namespaceID now => exact hubInv_commit hinv entry namespaceID now
  | pruned p => exact hubInv_prune hinv (hp p rfl)
  | drained hi => exact hinv.drained hi
  | began hb hi hres hperm => exact hinv.began hb hi hres hperm
  | passed hb hi hres =>
    refine hinv.advance hb (fun id s x hs hd hw hx => ?_)
    rw [reached_idle hi, and_iff_right hx]
    refine or_iff_left ?_
    rintro rfl
    unfold Registration.wants at hw
    exact hres (Bool.and_eq_true_iff.mp hw).1
  | offered hb hi => exact hubInv_offerTo hinv hb hi
  | dropped hi => exact hinv.dropped hi
  | finished hb hi =>
    refine hinv.advance hb (fun id s x hs hd hw hx => ?_)
    rw [reached_inflight hb hi, and_iff_right hx]
    refine or_congr_right ⟨fun hx => ⟨hx, List.not_mem_nil, ?_⟩, fun hx => hx.1⟩
    exact (Option.some_ne_none id).symm
  | registered reg => exact hinv.registered reg
  | slot _ hs hstep => exact hinv.slotStep hs hstep

/-! ## run の間に失われないもの -/

/-- 渡った entry は渡ったままで、購読者は番号を失わず、登録の中身も変わらず、閉じた購読は閉じたままである。 -/
structure Keeps (h h' : Hub) : Prop where
  reached : ∀ id x, Reached h id x → Reached h' id x
  slots : ∀ id s, h.slots id = some s → ∃ s', h'.slots id = some s' ∧ s'.sub.reg = s.sub.reg ∧
    (s.sub.dropped = true → s'.sub.dropped = true)

theorem Keeps.of_eq {h' : Hub} (hslots : h'.slots = h.slots)
    (hreached : ∀ id x, Reached h id x → Reached h' id x) : Keeps h h' where
  reached := hreached
  slots := fun id s hs => ⟨s, by rw [hslots]; exact hs, rfl, fun hd => hd⟩

theorem Keeps.of_setSlot {h' : Hub} {i : Nat} {t t' : Slot} (ht : h.slots i = some t)
    (hslots : h'.slots = (h.setSlot i t').slots) (hreg : t'.sub.reg = t.sub.reg)
    (hd : t.sub.dropped = true → t'.sub.dropped = true)
    (hreached : ∀ id x, Reached h id x → Reached h' id x) : Keeps h h' where
  reached := hreached
  slots := by
    intro id s hs
    rw [hslots]
    by_cases hid : id = i
    · subst hid
      cases ht.symm.trans hs
      exact ⟨t', slots_setSlot_self h id t', hreg, hd⟩
    · exact ⟨s, (slots_setSlot_of_ne h t' hid).trans hs, rfl, fun hd => hd⟩

theorem reached_handed {rest : List ChangeLogModel} {d d' : Delivery}
    {slots : Nat → Option Slot} (hb : h.batch = e :: rest) (hi : h.inflight = some d)
    (hd : ∀ j, j ∉ d.remaining → d.doomed ≠ some j →
      j ∉ d'.remaining ∧ d'.doomed ≠ some j) (id : Nat)
    (x : ChangeLogModel) (hr : Reached h id x) :
    Reached { h with slots, inflight := some d' } id x := by
  rw [reached_inflight hb hi] at hr
  refine (reached_inflight (h := { h with slots, inflight := some d' }) hb rfl).mpr ⟨hr.1, ?_⟩
  exact hr.2.imp_right (fun ⟨hx, hnot, hdoom⟩ => ⟨hx, hd id hnot hdoom⟩)

theorem keeps_act (hinv : HubInv h) (a : Action) : Keeps h (act h a) := by
  have heffect := act_effect h a
  generalize act h a = h' at heffect
  cases heffect with
  | same => exact .of_eq rfl (fun _ _ hr => hr)
  | committed => exact .of_eq rfl (fun _ _ hr => ⟨List.mem_append_left _ hr.1, hr.2⟩)
  | pruned p => exact .of_eq rfl (fun _ _ hr => hr)
  | drained hi | began _ hi =>
    refine .of_eq rfl (fun _ _ hr => ?_)
    rw [reached_idle hi] at hr
    exact ⟨hr.1, Or.inl hr.2⟩
  | passed hb hi =>
    refine .of_eq rfl (fun _ _ hr => ?_)
    rw [reached_idle hi] at hr
    exact ⟨hr.1, Or.inl (hr.2.trans (Nat.le_of_lt (hinv.head hb).2.1))⟩
  | finished hb hi =>
    refine .of_eq rfl (fun _ x hr => ?_)
    rw [reached_inflight hb hi] at hr
    rw [reached_idle rfl]
    exact ⟨hr.1, ((hinv.head hb).2.2.1 x hr.1).mpr (hr.2.imp_right (fun hx => hx.1))⟩
  | @offered e _ i ids hb hi =>
    have hreached : ∀ slots doomed, (∀ j, doomed = some j → j = i) → ∀ id x, Reached h id x →
        Reached { h with slots := slots, inflight := some ⟨ids, doomed⟩ } id x := by
      intro slots doomed hdoom
      refine reached_handed hb hi (fun j hnot _ => ⟨fun hmem => hnot (.tail _ hmem), fun hj => ?_⟩)
      exact hnot (hdoom j hj ▸ List.mem_cons_self)
    unfold Hub.offerTo
    split
    · exact .of_eq rfl (hreached _ _ (fun _ hd => nomatch hd))
    · next t ht =>
      split
      · rcases offer_cases t.sub e with hoff | ⟨sub, hoff, _, ho⟩
        · rw [hoff]
          exact .of_setSlot ht rfl rfl (fun hd => hd)
            (hreached _ _ (fun _ hd => (Option.some.inj hd).symm))
        · rw [hoff]
          refine .of_setSlot ht rfl ?_ ?_ (hreached _ _ (fun _ hd => nomatch hd))
          · cases ho <;> rfl
          · cases ho <;> exact fun hd => hd
      · exact .of_eq rfl (hreached _ _ (fun _ hd => nomatch hd))
  | @dropped i ids hi =>
    obtain ⟨e, rest, hb, _⟩ := hinv.inflight _ hi
    have hreached : ∀ slots, ∀ id x, Reached h id x →
        Reached { h with slots := slots, inflight := some ⟨ids, none⟩ } id x :=
      fun slots => reached_handed hb hi (fun j hnot _ => ⟨hnot, fun hj => nomatch hj⟩)
    unfold Hub.close
    split
    · next ht => exact .of_setSlot ht rfl rfl (fun _ => rfl) (hreached _)
    · exact .of_eq rfl (hreached _)
  | registered reg =>
    refine ⟨fun _ _ hr => hr, fun id s hs => ⟨s, ?_, rfl, fun hd => hd⟩⟩
    have hne : id ≠ h.nextID + 1 := by
      rintro rfl
      cases (hinv.fresh _ (Nat.lt_succ_self _)).symm.trans hs
    exact (slots_setSlot_of_ne h _ hne).trans hs
  | slot _ hs hstep =>
    refine .of_setSlot hs rfl ?_ (fun hd => ?_) (fun _ _ hr => hr)
    · cases hstep with
      | read | closed => rfl
      | activated => exact (activate_fields _ _).1
      | received => exact (receive_fields _).1
    · cases hstep with
      | read => exact hd
      | closed => rfl
      | activated => exact (activate_fields _ _).2.trans hd
      | received => exact (receive_fields _).2.trans hd

/-- 始めから run の終わりまで、hub の不変条件は成り立つ。 -/
theorem hubInv_run (hinv : HubInv h) {as : List Action}
    (hp : AlongSteps act PrunesBelowCursor h as) : HubInv (run act h as) :=
  run_steps_invariant (I := HubInv) (fun _ a hq hinv => hubInv_act hinv a hq) hinv hp

theorem keeps_run (hinv : HubInv h) {as : List Action}
    (hp : AlongSteps act PrunesBelowCursor h as) : Keeps h (run act h as) := by
  have hall : HubInv (run act h as) ∧ Keeps h (run act h as) := by
    refine run_steps_invariant (I := fun h' => HubInv h' ∧ Keeps h h') ?_
      ⟨hinv, .of_eq rfl (fun _ _ hr => hr)⟩ hp
    rintro h' a hq ⟨hinv', hkeeps⟩
    have hstep := keeps_act hinv' a
    refine ⟨hubInv_act hinv' a hq, fun id x hr => hstep.reached id x (hkeeps.reached id x hr),
      fun id s hs => ?_⟩
    obtain ⟨s', hs', hreg, hd⟩ := hkeeps.slots id s hs
    obtain ⟨s'', hs'', hreg', hd'⟩ := hstep.slots id s' hs'
    exact ⟨s'', hs'', hreg'.trans hreg, fun hdrop => hd' (hd hdrop)⟩
  exact hall.2

theorem HubInv.pending_wanted (hinv : HubInv h)
    (hs : h.slots id = some s) (hd : s.sub.dropped = false) (hready : s.sub.ready = false)
    (he : e ∈ s.sub.pending) :
    s.sub.reg.wants e = true ∧ Reached h id e :=
  ((hinv.slots id s hs hd).waiting hready).sound e he

/-! ## 主定理 -/

/-- `Subscribe` が返し、まだ閉じていない購読の channel には、backlog より後の配送済みの entry が、ちょうど一度ずつ、
revision の順に送られている。配送中でなければ、配送済みとは cursor までのことである。途中で溜めた entry は、backlog の
revision を超えるものだけが送られる。 -/
theorem handoff_exact (log : ChangeLog) (bufferCap : Nat) (before after : List Action)
    {h₀ h : Hub} (hrun₀ : run act (Hub.start log bufferCap) before = h₀)
    (hrun : run act (Hub.start log bufferCap) (before ++ after) = h)
    (hp : AlongSteps act PrunesBelowCursor (Hub.start log bufferCap) (before ++ after))
    {id : Nat} {s : Slot} (hs : h.slots id = some s)
    (hreturned : s.returned = true) (hopen : s.sub.dropped = false) :
    Increasing s.sub.sent ∧
      (∀ e, e ∈ s.sub.sent ↔ Reached h id e ∧ s.sub.reg.wants e = true ∧
        s.sub.backlog.revision < e.revision) ∧
      (h.inflight = none → s.sub.sent = h.history.filter (fun e => s.sub.reg.wants e &&
        decide (s.sub.backlog.revision < e.revision ∧ e.revision ≤ h.cursor))) ∧
      ∀ s₀, h₀.slots id = some s₀ → s₀.sub.ready = false → ∀ e ∈ s₀.sub.pending,
        (e ∈ s.sub.sent ↔ s.sub.backlog.revision < e.revision) := by
  obtain ⟨hp₀, hp₁⟩ := AlongSteps.append.mp hp
  rw [run_append, hrun₀] at hrun
  rw [hrun₀] at hp₁
  have hinv₀ : HubInv h₀ := hrun₀ ▸ hubInv_run (hubInv_start log bufferCap) hp₀
  have hinv : HubInv h := hrun ▸ hubInv_run hinv₀ hp₁
  obtain ⟨_, _, hst⟩ := (hinv.slots id s hs hopen).streaming hreturned
  refine ⟨hst.increasing, hst.mem_sent, fun hidle => ?_, fun s₀ hs₀ hready₀ e he => ?_⟩
  · refine hst.increasing.ext (hinv.increasing.filter _) (fun e => ?_)
    rw [hst.mem_sent e, reached_idle hidle, List.mem_filter, Bool.and_eq_true, decide_eq_true_eq]
    exact ⟨fun ⟨⟨hx, hle⟩, hw, hlt⟩ => ⟨hx, hw, hlt, hle⟩,
      fun ⟨hx, hw, hlt, hle⟩ => ⟨⟨hx, hle⟩, hw, hlt⟩⟩
  · have hkeeps := keeps_run hinv₀ hp₁
    rw [hrun] at hkeeps
    obtain ⟨s', hs', hreg, hd⟩ := hkeeps.slots id s₀ hs₀
    rw [hs] at hs'
    cases hs'
    -- 終わりに開いているので、その時も開いていた。
    have hopen₀ : s₀.sub.dropped = false := by
      cases hd₀ : s₀.sub.dropped with
      | false => rfl
      | true => exact absurd (hopen.symm.trans (hd hd₀)) Bool.false_ne_true
    obtain ⟨hw, hr⟩ := hinv₀.pending_wanted hs₀ hopen₀ hready₀ he
    rw [hst.mem_sent e, hreg]
    exact ⟨fun hc => hc.2.2, fun hlt => ⟨hkeeps.reached id e hr, hw, hlt⟩⟩

section Sample

/-- backlog の読み出しの前後で、一つずつ entry が溜まる。 -/
def sampleBefore : List Action :=
  [.register sampleRegistration, .commit sampleChange 1 0, .drain, .dispatch [1], .offer, .finish,
    .readRevision 1, .commit sampleChange 1 0, .drain, .dispatch [1], .offer, .finish]

def sampleHandOff : Hub :=
  run act (Hub.start Journal.empty 4) (sampleBefore ++ [.activate 1 ⟨true, [], [], 1⟩])

theorem handoff_exact_sample :
    sampleHandOff.inflight = none ∧ ∃ s, sampleHandOff.slots 1 = some s ∧
      s.sub.sent = sampleHandOff.history.filter (fun e => s.sub.reg.wants e &&
        decide (s.sub.backlog.revision < e.revision ∧ e.revision ≤ sampleHandOff.cursor)) ∧
      s.sub.sent.map (·.revision) = [2] := by
  have hidle : sampleHandOff.inflight = none := by decide
  have hsome : (sampleHandOff.slots 1).isSome = true := by decide
  obtain ⟨s, hs⟩ := Option.isSome_iff_exists.mp hsome
  have hret : ((sampleHandOff.slots 1).map (fun s => (s.returned, s.sub.dropped))) =
    some (true, false) := by decide
  have hsent : ((sampleHandOff.slots 1).map (fun s => s.sub.sent.map (·.revision))) =
    some [2] := by decide
  rw [hs] at hret hsent
  obtain ⟨hr, hd⟩ := Prod.mk.inj (Option.some.inj hret)
  have hp : AlongSteps act PrunesBelowCursor (Hub.start Journal.empty 4)
      (sampleBefore ++ [.activate 1 ⟨true, [], [], 1⟩]) := by
    simp [sampleBefore, AlongSteps, PrunesBelowCursor]
  have h := handoff_exact Journal.empty 4 sampleBefore [.activate 1 ⟨true, [], [], 1⟩] rfl rfl hp
    hs hr hd
  exact ⟨hidle, s, hs, h.2.2.1 hidle, Option.some.inj hsent⟩

end Sample

end Kms.Watch
