import Kms.Client.HandleInv

/-!
# 登録された値の収束

追い付いた後に store が変わらなければ、stream が書くのは今の値だけである。その後に始まった reconcile の一巡が最後まで
走れば、handle は全て store の今の値を持つ。ただし、一巡が始まった後の登録で path の最初の handle になるものは、今の値から
始まらなければならない (`SeedsCurrent`)。

* `QuietInv` — 追い付いた後の、一つの path についての不変条件
* `Manager.SeedsCurrent` — 一巡が始まった後の登録の条件
* `FinalInv` — 追い付いた後に始まった一巡
* `Manager.converges` — 収束
-/

namespace Kms.Client

open Kms.Infra

/-- manager は `p` の今の値を知っている。 -/
def Manager.Settled {sdk : Sdk} (m : Manager sdk) (p : Ref) : Prop :=
  m.knownValue p = current m.log p

/-! ## 追い付いた後 -/

structure QuietInv {sdk : Sdk} (p : Ref) (m : Manager sdk) : Prop where
  subscribed : p.ns ∈ m.namespaces
  unchanged : Unchanged m.log m.lastRev p
  fresh : ∀ k, m.known? p = some k → sdk.rev k ≤ m.lastRev ∨ sdk.value k = current m.log p

/-- 値を変えない登録は、revision を `bound` より上げず、今の値でなくしもしない。 -/
theorem Manager.fresh_registerRead {sdk : Sdk} (m : Manager sdk) {p q : Ref} {t : sdk.Ticket}
    {v : String} {bound : Nat}
    (hagree : ∀ k, m.known? q = some k → sdk.value (sdk.register (some k) t v).1 = sdk.value k)
    (hb : ∀ k, m.known? p = some k → sdk.rev k ≤ bound ∨ sdk.value k = current m.log p)
    {k : sdk.Known} (hk : (m.registerRead q t v).known? p = some k) :
    sdk.rev k ≤ bound ∨ sdk.value k = current m.log p := by
  rw [Manager.known?_registerRead] at hk
  split at hk
  · next hq =>
    subst hq
    cases hk
    cases hk' : m.known? q with
    | none => exact .inl (Nat.le_trans (Nat.le_of_eq (sdk.register_none t v).2.1) (Nat.zero_le _))
    | some k' =>
      refine (hb k' hk').imp (Nat.le_trans (sdk.rev_register_le k' t v)) (fun hval => ?_)
      exact (hagree k' hk').trans hval
  · exact hb k hk

namespace QuietInv

variable {sdk : Sdk} {p : Ref} {m : Manager sdk}

theorem start (hm : ManagerInv m) (hc : m.caughtUp = true) (hp : p.ns ∈ m.namespaces) :
    QuietInv p m := by
  have hunchanged := hm.unchanged_of_caughtUp hc hp
  simp only [Manager.caughtUp, Bool.and_eq_true, decide_eq_true_eq] at hc
  refine ⟨hp, hunchanged, fun k hk => .inl ?_⟩
  have hle := hm.known_rev p k hk
  rw [hc.1.1] at hle
  exact hle.trans (Nat.max_le.mpr ⟨le_rfl, Nat.zero_le _⟩)

theorem congr (h : QuietInv p m) {m' : Manager sdk} (hlog : m'.log = m.log)
    (hknown : m'.known = m.known) (hrev : m'.lastRev = m.lastRev)
    (hns : m.namespaces ⊆ m'.namespaces) : QuietInv p m' := by
  have hk : m'.known? p = m.known? p := by
    unfold Manager.known?
    rw [hknown]
  refine ⟨hns h.subscribed, ?_, ?_⟩
  · rw [hlog, hrev]
    exact h.unchanged
  · rw [hk, hrev, hlog]
    exact h.fresh

theorem queue (h : QuietInv p m) (hm : ManagerInv m) {rev : Nat} {q : List (Ref × Option String)}
    {a : Option (List Ref)} (hh : m.handling = .applying rev q a) {v : Option String}
    (hv : (p, v) ∈ q) : v = current m.log p := by
  have hhand := hm.handling
  rw [hh] at hhand
  obtain ⟨hle, hval⟩ := hhand.1 _ hv
  exact hval.symm.trans (h.unchanged.mono hle).valueAt

theorem write (h : QuietInv p m) {t : Thread} {r : Ref} {v : Option String} {rev : Nat}
    {reconcile : Bool}
    (hv : r = p → v = current m.log p ∨ (reconcile = true ∧ rev ≤ m.lastRev)) :
    QuietInv p (m.write t r v rev reconcile) :=
  { h with
    fresh := fun k hk => by
      rcases Manager.known?_write hk with hold | ⟨hr, hval, hrev, hall⟩
      · exact h.fresh k hold
      · rcases hv hr with hcur | ⟨hrec, hle⟩
        · exact .inr (hval.trans hcur)
        · refine .inl ?_
          show sdk.rev k ≤ m.lastRev
          rw [hrev]
          refine Nat.max_le.mpr ⟨?_, hle⟩
          cases hprev : m.known? r with
          | none => exact Nat.zero_le _
          | some k' =>
            have hallow := hall k' hprev
            rw [hrec] at hallow
            exact Nat.le_trans (of_decide_eq_true hallow) hle }

theorem settled_write (hs : m.Settled p) {t : Thread} {r : Ref} {v : Option String} {rev : Nat}
    {reconcile : Bool} (hv : r = p → v = current m.log p) :
    (m.write t r v rev reconcile).Settled p := by
  unfold Manager.Settled
  rcases m.knownValue_write_cases t r v rev reconcile with ⟨-, -, -, hout⟩ | ⟨-, hvalue, -⟩
  · rw [hout]
    exact hs
  · rw [hvalue]
    split
    · next hr => exact hv hr
    · exact hs

theorem registerRead (h : QuietInv p m) {q : Ref} {t : sdk.Ticket} {v : String}
    (hagree : ∀ k, m.known? q = some k →
      sdk.value (sdk.register (some k) t v).1 = sdk.value k) :
    QuietInv p (m.registerRead q t v) := by
  have hfresh := fun k => m.fresh_registerRead hagree h.fresh (k := k)
  rw [m.registerRead_eq] at hfresh ⊢
  exact ⟨m.subset_addNamespace _ h.subscribed, h.unchanged, hfresh⟩

theorem settled_registerRead (hset : m.Settled p) (hknown : m.known? p ≠ none) {q : Ref}
    {t : sdk.Ticket} {v : String} (hagree : ∀ k, m.known? q = some k →
      sdk.value (sdk.register (some k) t v).1 = sdk.value k) :
    (m.registerRead q t v).Settled p := by
  unfold Manager.Settled at hset ⊢
  rw [show (m.registerRead q t v).log = m.log by rw [m.registerRead_eq], ← hset]
  unfold Manager.knownValue
  rw [Manager.known?_registerRead]
  split
  · next hq =>
    subst hq
    obtain ⟨k, hk⟩ := Option.ne_none_iff_exists'.mp hknown
    rw [hk]
    exact hagree k hk
  · rfl

theorem streamStep (h : QuietInv p m) (hm : ManagerInv m) : QuietInv p m.streamStep := by
  unfold Manager.streamStep
  split
  · unfold Manager.notify
    split <;> exact h.congr rfl rfl rfl (List.Subset.refl _)
  · exact h
  · next rev r v rest snap _ hh =>
    refine QuietInv.write (m := { m with handling := .applying rev rest snap })
      (h.congr rfl rfl rfl (List.Subset.refl _)) (fun hr => .inl ?_)
    subst hr
    exact h.queue hm hh List.mem_cons_self
  · exact h.congr rfl rfl rfl (List.Subset.refl _)
  · exact
      ⟨h.subscribed, h.unchanged.mono (Nat.le_max_left ..),
        fun k hk => (h.fresh k hk).imp (fun hle => hle.trans (Nat.le_max_left ..)) id⟩

theorem passStep (h : QuietInv p m) (hm : ManagerInv m) (ok : Bool) :
    QuietInv p (m.passStep ok) := by
  unfold Manager.passStep
  split
  · unfold Manager.notify
    split <;> exact h.congr rfl rfl rfl (List.Subset.refl _)
  · exact h
  · exact h.congr rfl rfl rfl (List.Subset.refl _)
  · next pass _ hp =>
    split
    · next r v rest hq =>
      refine QuietInv.write (m := { m with pass := .running { pass with queue := rest } })
        (h.congr rfl rfl rfl (List.Subset.refl _)) (fun _ => .inr ⟨rfl, hm.pass_rev pass hp⟩)
    · exact h.congr rfl rfl rfl (List.Subset.refl _)

end QuietInv

theorem quietInv_step {sdk : Sdk} {p : Ref} {m : Manager sdk} {ev : WatchEvent}
    (h : QuietInv p m) (hm : ManagerInv m) (hagree : m.Agrees ev)
    (hquiet : ∀ e, ev ≠ .commit e) : QuietInv p (watchStep m ev) := by
  generalize hs : watchStep m ev = m'
  cases watchStep_effect hs with
  | committed e => exact absurd rfl (hquiet e)
  | booked _ hns => exact h.congr rfl rfl rfl hns
  | registered hr =>
    have hagree := hagree _ (Manager.registering_of_read hr)
    exact (h.registerRead (fun k hk => (hagree k hk).1)).congr rfl rfl rfl (List.Subset.refl _)
  | streamed => exact h.streamStep hm
  | passed ok => exact h.passStep hm ok
  | _ => exact h.congr rfl rfl rfl (List.Subset.refl _)

/-! ## 最後の一巡 -/

namespace Manager

variable {sdk : Sdk} {m : Manager sdk}

def Watched (m : Manager sdk) (p : Ref) : Prop := p ∈ m.handles.map Handle.ref

def SeedsCurrent (m : Manager sdk) (ev : WatchEvent) : Prop :=
  ∀ r ∈ m.registering ev, r.1 ∉ m.handles.map Handle.ref →
    (sdk.register (m.known? r.1) r.2.1 r.2.2).2 = current m.log r.1

instance {ev : WatchEvent} : Decidable (m.SeedsCurrent ev) :=
  inferInstanceAs (Decidable (∀ r ∈ m.registering ev, _))

end Manager

def FinalInv {sdk : Sdk} (p : Ref) (m : Manager sdk) : Prop :=
  match m.pass with
  | .idle => False
  | .captured namespaces paths => p.ns ∈ namespaces ∧ (m.Watched p → p ∈ paths ∨ m.Settled p)
  | .running pass =>
    p.ns ∈ pass.namespaces ∧ PassInv sdk.sweepTime m.log p (m.Watched p → m.Settled p) pass ∧
      ∀ k, m.known? p = some k → sdk.rev k ≤ pass.snapRev ∨ sdk.value k = current m.log p

namespace FinalInv

variable {sdk : Sdk} {p : Ref} {m : Manager sdk}

/-- 一巡に触れず、`known` の項を悪くしない一歩。 -/
theorem mono (h : FinalInv p m) {m' : Manager sdk} (hpass : m'.pass = m.pass)
    (hlog : m'.log = m.log)
    (hset : m'.Watched p → m'.Settled p ∨ (m.Watched p ∧ (m.Settled p → m'.Settled p)))
    (hfresh : ∀ bound, (∀ k, m.known? p = some k → sdk.rev k ≤ bound ∨
        sdk.value k = current m.log p) →
      ∀ k, m'.known? p = some k → sdk.rev k ≤ bound ∨ sdk.value k = current m.log p) :
    FinalInv p m' := by
  have hwatched : (m.Watched p → m.Settled p) → m'.Watched p → m'.Settled p := fun hs hw =>
    (hset hw).elim id (fun hold => hold.2 (hs hold.1))
  unfold FinalInv at h ⊢
  rw [hpass, hlog]
  split
  · next hp => rw [hp] at h; exact h
  · next hp =>
    rw [hp] at h
    exact ⟨h.1, fun hw => (hset hw).elim .inr (fun hold => (h.2 hold.1).imp id hold.2)⟩
  · next pass hp =>
    rw [hp] at h
    exact ⟨h.1, h.2.1.mono hwatched, hfresh pass.snapRev h.2.2⟩

theorem congr (h : FinalInv p m) {m' : Manager sdk} (hpass : m'.pass = m.pass)
    (hlog : m'.log = m.log) (hknown : m'.known = m.known)
    (hrefs : m'.handles.map Handle.ref = m.handles.map Handle.ref) : FinalInv p m' := by
  have hk : m'.known? p = m.known? p := by
    unfold Manager.known?
    rw [hknown]
  refine h.mono hpass hlog (fun hw => .inr ⟨?_, fun hset => ?_⟩)
    (fun bound hb k hk' => hb k (hk ▸ hk'))
  · unfold Manager.Watched at hw ⊢
    rwa [hrefs] at hw
  · unfold Manager.Settled Manager.knownValue at hset ⊢
    rw [hk, hlog]
    exact hset

theorem notify (h : FinalInv p m) (t : Thread) (d : Delivery) : FinalInv p (m.notify t d) := by
  have hrefs := m.map_notify (f := Handle.ref) (fun _ _ => rfl) t d
  unfold Manager.notify at hrefs ⊢
  split at hrefs
  · exact h.congr rfl rfl rfl rfl
  · exact h.congr rfl rfl rfl hrefs

theorem streamStep (h : FinalInv p m) (hq : QuietInv p m) (hm : ManagerInv m) :
    FinalInv p m.streamStep := by
  unfold Manager.streamStep
  split
  · exact h.notify ..
  · exact h
  · next rev r v rest snap _ hh =>
    have hv : r = p → v = current m.log p := by
      rintro rfl
      exact hq.queue hm hh List.mem_cons_self
    refine h.mono rfl rfl
      (fun hw => .inr ⟨hw, fun hset => QuietInv.settled_write (t := .stream) hset hv⟩)
      (fun bound hb k hk => ?_)
    rcases Manager.known?_write hk with hold | ⟨hr, hval, -, -⟩
    · exact hb k hold
    · exact .inr (hval.trans (hv hr))
  all_goals exact h.congr rfl rfl rfl rfl

theorem registerRead (h : FinalInv p m) (hm : ManagerInv m) {q : Ref} {t : sdk.Ticket} {v : String}
    (hagree : ∀ k ∈ m.known? q, sdk.value (sdk.register (some k) t v).1 = sdk.value k ∧
      (sdk.register (some k) t v).2 = sdk.value k)
    (hseed : q ∉ m.handles.map Handle.ref →
      (sdk.register (m.known? q) t v).2 = current m.log q) :
    FinalInv p (m.registerRead q t v) := by
  have hlog : (m.registerRead q t v).log = m.log := by rw [m.registerRead_eq]
  refine h.mono (by rw [m.registerRead_eq]) hlog (fun hw => ?_)
    (fun bound hb k => m.fresh_registerRead (fun k hk => (hagree k hk).1) hb)
  by_cases hold : m.Watched p
  · exact .inr ⟨hold, fun hset => QuietInv.settled_registerRead hset (hm.handles p hold).1
      (fun k hk => (hagree k hk).1)⟩
  · -- 最初の handle は、登録した path のものである
    obtain rfl : p = q := by
      unfold Manager.Watched at hold hw
      rw [m.registerRead_eq] at hw
      simpa [hold] using hw
    refine .inl ?_
    unfold Manager.Settled
    rw [m.knownValue_registerRead hagree, hlog]
    exact hseed hold

theorem passStep (h : FinalInv p m) (hq : QuietInv p m) (ok : Bool) :
    FinalInv p (m.passStep ok) := by
  unfold Manager.passStep
  split
  · exact h.notify ..
  · exact h
  · next namespaces paths _ hp =>
    unfold FinalInv at h
    rw [hp] at h
    refine ⟨h.1, PassInv.start (fun _ => ?_), hq.fresh⟩
    by_cases hw : m.Watched p
    · exact (h.2 hw).symm.imp (fun hset _ => hset) id
    · exact .inl (fun hw' => absurd hw' hw)
  · next pass _ hp =>
    unfold FinalInv at h
    rw [hp] at h
    obtain ⟨hns, hinv, hfresh⟩ := h
    split
    · next r v rest hqueue =>
      have hv : r = p → v = current m.log p := by
        rintro rfl
        exact hinv.queue v (by rw [hqueue]; exact List.mem_cons_self)
      have hwrite : r = p →
          (({ m with pass := .running { pass with queue := rest } } : Manager sdk).write
            .reconcile r v pass.snapRev true).Settled p := by
        rintro rfl
        unfold Manager.Settled
        rcases Manager.knownValue_write_cases
          { m with pass := .running { pass with queue := rest } }
          .reconcile r v pass.snapRev true with ⟨k, hk, hrej, hout⟩ | ⟨-, hvalue, -⟩
        · have hlt : ¬ sdk.rev k ≤ pass.snapRev := of_decide_eq_false hrej
          rw [hout]
          show (m.known? r).bind sdk.value = current m.log r
          rw [show m.known? r = some k from hk]
          exact (hfresh k hk).resolve_left hlt
        · rw [hvalue, if_pos rfl]
          exact hv rfl
      refine ⟨hns, hinv.pop hqueue
        (fun hset hw => QuietInv.settled_write (t := .reconcile) (hset hw) hv)
        (fun hr _ => hwrite hr), fun k hk => ?_⟩
      rcases Manager.known?_write hk with hold | ⟨hr, hval, -, -⟩
      · exact hfresh k hold
      · exact .inr (hval.trans (hv hr))
    · next hqueue =>
      have hcap := Pass.captured_advance sdk.sweepTime sdk.maxReconcilePages m.log ok pass
      refine ⟨?_, hinv.advance hqueue ok, ?_⟩
      · rw [hcap.2]
        exact hns
      · rw [hcap.1]
        exact hfresh

end FinalInv

theorem finalInv_step {sdk : Sdk} {p : Ref} {m : Manager sdk} {ev : WatchEvent}
    (h : FinalInv p m) (hq : QuietInv p m) (hm : ManagerInv m) (hagree : m.Agrees ev)
    (hseed : m.SeedsCurrent ev) (hquiet : ∀ e, ev ≠ .commit e) : FinalInv p (watchStep m ev) := by
  generalize hs : watchStep m ev = m'
  cases watchStep_effect hs with
  | committed e => exact absurd rfl (hquiet e)
  | registered hr =>
    have hread := Manager.registering_of_read hr
    exact (h.registerRead hm (hagree _ hread) (hseed _ hread)).congr rfl rfl rfl rfl
  | streamed => exact h.streamStep hq hm
  | begun => exact ⟨hq.subscribed, fun hw => .inl (List.mem_dedup.mpr hw)⟩
  | passed ok => exact h.passStep hq ok
  | passReordered hp hperm hw =>
    unfold FinalInv at h ⊢
    rw [hp] at h
    exact ⟨h.1, h.2.1.reorder hperm hw, h.2.2⟩
  | _ => exact h.congr rfl rfl rfl rfl

/-! ## 収束 -/

/-- 最後の一巡が、全ての namespace を一覧して終わった。 -/
def Manager.passComplete {sdk : Sdk} (m : Manager sdk) : Bool :=
  (m.delivering .reconcile).isNone &&
    match m.pass with
    | .running pass => pass.complete
    | _ => false

theorem FinalInv.settled {sdk : Sdk} {p : Ref} {m : Manager sdk} (h : FinalInv p m)
    (hdone : m.passComplete = true) (hw : m.Watched p) :
    m.delivering .reconcile = none ∧ m.Settled p := by
  simp only [Manager.passComplete, Bool.and_eq_true, Option.isNone_iff_eq_none] at hdone
  refine ⟨hdone.1, ?_⟩
  unfold FinalInv at h
  have hc := hdone.2
  split at hc
  · next pass hp =>
    rw [hp] at h
    exact h.2.1.settled_of_complete h.1 hc hw
  · cases hc

/-- どの run でも、条件に沿えば `ManagerInv` と `HandleInv` が成り立つ。 -/
theorem inv_run {sdk : Sdk} {evs : List WatchEvent}
    (h : AlongSteps watchStep (fun m ev => m.Agrees ev ∧ m.Unraced ev) (Manager.empty sdk) evs) :
    ManagerInv (run watchStep (Manager.empty sdk) evs) ∧
      HandleInv (run watchStep (Manager.empty sdk) evs) :=
  run_steps_invariant (I := fun m => ManagerInv m ∧ HandleInv m)
    (fun _ ev hc hi => ⟨managerInv_step hi.1 ev, handleInv_step hi.2 hi.1 hc.1 hc.2⟩)
    ⟨ManagerInv.empty, HandleInv.empty⟩ h

/--
登録された値の収束。

stream が追い付いた後 (`pre`)、store が変わらない間に始まった reconcile の一巡 (`b`) が最後まで走れば、追い付いた stream
の購読する namespace の handle は、一巡の間に登録されたものも含めて、全て store の今の値を持つ。
-/
theorem Manager.converges {sdk : Sdk} {pre a b : List WatchEvent}
    (hcond : AlongSteps watchStep (fun m ev => m.Agrees ev ∧ m.Unraced ev) (Manager.empty sdk)
      (pre ++ a ++ .beginPass :: b))
    (hcaught : (run watchStep (Manager.empty sdk) pre).caughtUp = true)
    (hquiet : ∀ e, .commit e ∉ a ++ b)
    (hidle : (run watchStep (Manager.empty sdk) (pre ++ a)).passIdle = true)
    (hseeds : AlongSteps watchStep (fun m ev => m.SeedsCurrent ev)
      (watchStep (run watchStep (Manager.empty sdk) (pre ++ a)) .beginPass) b) {m : Manager sdk}
    (hm : m = run watchStep (Manager.empty sdk) (pre ++ a ++ .beginPass :: b))
    (hdone : m.passComplete = true) (hstream : m.delivering .stream = none) {h : Handle}
    (hh : h ∈ m.handles) (hns : h.ref.ns ∈ (run watchStep (Manager.empty sdk) pre).namespaces) :
    h.held = current m.log h.ref := by
  have hall := inv_run hcond
  obtain ⟨hsteps, hrest⟩ := AlongSteps.append.mp hcond
  obtain ⟨hpre, ha⟩ := AlongSteps.append.mp hsteps
  -- 追い付いた所から一巡の始めまで
  have hstart := inv_run hpre
  have hquietA : ∀ ev ∈ a, ∀ e, ev ≠ .commit e := fun ev hev e heq =>
    hquiet e (List.mem_append_left _ (heq ▸ hev))
  obtain ⟨hmA, hqA⟩ : ManagerInv (run watchStep (Manager.empty sdk) (pre ++ a)) ∧
      QuietInv h.ref (run watchStep (Manager.empty sdk) (pre ++ a)) := by
    rw [run_append]
    exact run_steps_invariant (I := fun m => ManagerInv m ∧ QuietInv h.ref m)
      (fun _ ev hc hi => ⟨managerInv_step hi.1 ev, quietInv_step hi.2 hi.1 hc.1.1 hc.2⟩)
      ⟨hstart.1, QuietInv.start hstart.1 hcaught hns⟩ (ha.and (AlongSteps.of_forall hquietA))
  -- 一巡の始めから終わりまで
  have hbegin : FinalInv h.ref
      (watchStep (run watchStep (Manager.empty sdk) (pre ++ a)) .beginPass) := by
    simp only [watchStep, Manager.beginPass, hidle, if_true]
    exact ⟨hqA.subscribed, fun hw => .inl (List.mem_dedup.mpr hw)⟩
  have hquietB : ∀ ev ∈ b, ∀ e, ev ≠ .commit e := fun ev hev e heq =>
    hquiet e (List.mem_append_right _ (heq ▸ hev))
  have hfinal : FinalInv h.ref m := by
    rw [hm, run_append, run_cons]
    refine (run_steps_invariant
      (I := fun m' => ManagerInv m' ∧ QuietInv h.ref m' ∧ FinalInv h.ref m')
      (fun m' ev hc hi => ?_) ?_
      (hrest.2.and (hseeds.and (AlongSteps.of_forall hquietB)))).2.2
    · obtain ⟨hmi, hqi, hfi⟩ := hi
      exact ⟨managerInv_step hmi ev, quietInv_step hqi hmi hc.1.1 hc.2.2,
        finalInv_step hfi hqi hmi hc.1.1 hc.2.1 hc.2.2⟩
    · exact ⟨managerInv_step hmA _, quietInv_step hqA hmA hrest.1.1 (fun e heq => by cases heq),
        hbegin⟩
  -- manager は今の値を知っていて、知らせ終えている
  obtain ⟨hrec, hsettled⟩ := hfinal.settled hdone (List.mem_map_of_mem hh)
  obtain ⟨i, hi⟩ := List.mem_iff_getElem?.mp hh
  rw [← hm] at hall
  rcases hall.2.held i h hi with hheld | ⟨t, d, hd, -⟩
  · exact hheld.trans hsettled
  · cases t with
    | stream => cases hstream.symm.trans hd
    | reconcile => cases hrec.symm.trans hd

end Kms.Client
