import Kms.Client.TsInv

/-!
# TypeScript の登録された値の収束

追い付いた後に store が変わらなければ、session が書くのは今の値だけである。その後に始まった reconcile の一巡が `true` を
返せば、登録されている handle は、全て store の今の値を持つ。ただし、一巡が始まった後の登録で path の最初の handle になる
ものは、今の値から始まらなければならない (`SeedsCurrent`)。

* `Kept` — 追い付いた後の一歩は、今の値を忘れない
* `PassGoal` / `passGoal_step` — 追い付いた後に始まった一巡
* `ts_values_converge` — 収束
* `ts_registration_keeps_stale_read` — 一巡の間に、前に読んだ値で登録された handle は古い値を持ち得る
-/

namespace Kms.Client

open Kms.Infra

def TsManager.Settled (m : TsManager) (p : Ref) : Prop := m.knownValue p = current m.log p

namespace TsManager

variable {m : TsManager} {p : Ref}

theorem knownValue_store (m : TsManager) (p : Ref) (k : KnownValue) (q : Ref) :
    (m.store p k).knownValue q = if p = q then k.current else m.knownValue q := by
  unfold knownValue
  rw [known?_store]
  split
  · split
    · next hdrop => simp [KnownValue.current, hdrop.1]
    · rfl
  · rfl

theorem knownValue_setValue (m : TsManager) (p : Ref) (v : Option String) (revision : Nat)
    (reconcile : Bool) :
    (m.setValue p v revision reconcile = m ∧
      ((reconcile = true ∧ revision < m.lastRevision) ∨
        ∃ k, m.known? p = some k ∧ revAllowsWrite k.revision revision reconcile = false)) ∨
    ∀ q, (m.setValue p v revision reconcile).knownValue q =
      if p = q then v else m.knownValue q := by
  rcases m.setValue_cases p v revision reconcile with hrej | ⟨-, heq⟩
  · exact .inl hrej
  · refine .inr (fun q => ?_)
    rw [heq]
    show (m.store p (nextKnown (m.known? p) v revision)).knownValue q = _
    rw [knownValue_store, current_nextKnown]

theorem log_setValue (m : TsManager) (q : Ref) (v : Option String) (revision : Nat)
    (reconcile : Bool) : (m.setValue q v revision reconcile).log = m.log := by
  obtain ⟨_, _, heq⟩ := m.setValue_eq q v revision reconcile
  rw [heq]

theorem Settled.setValue (h : m.Settled p) {q : Ref} {v : Option String}
    (hv : q = p → v = current m.log p) (revision : Nat) (reconcile : Bool) :
    (m.setValue q v revision reconcile).Settled p := by
  unfold Settled
  rw [log_setValue]
  rcases m.knownValue_setValue q v revision reconcile with ⟨heq, -⟩ | hval
  · rw [heq]
    exact h
  · rw [hval]
    split
    · next hq => exact hv hq
    · exact h

theorem Settled.setValues (h : m.Settled p) {items : List (Ref × Option String)}
    (hv : ∀ v, (p, v) ∈ items → v = current m.log p) (revision : Nat) (reconcile : Bool) :
    (m.setValues items revision reconcile).Settled p := by
  refine (setValues_induction (I := fun m' => m'.log = m.log ∧ m'.Settled p) ?_ ⟨rfl, h⟩).2
  rintro m' ⟨hlog, hset⟩ ⟨q, v⟩ hmem
  refine ⟨(log_setValue ..).trans hlog, hset.setValue ?_ revision reconcile⟩
  rintro rfl
  rw [hlog]
  exact hv v hmem

theorem settled_setValues_of_mem {items : List (Ref × Option String)} {v : Option String}
    (hrev : ∀ q k, m.known? q = some k → k.revision ≤ m.lastRevision)
    (hv : ∀ v, (p, v) ∈ items → v = current m.log p) (hmem : (p, v) ∈ items) :
    (m.setValues items m.lastRevision true).Settled p := by
  induction items generalizing m with
  | nil => exact absurd hmem List.not_mem_nil
  | cons item rest ih =>
    obtain ⟨q, w⟩ := item
    obtain ⟨known, handles, heq⟩ := m.setValue_eq q w m.lastRevision true
    have hlast : (m.setValue q w m.lastRevision true).lastRevision = m.lastRevision := by rw [heq]
    have hlog := m.log_setValue q w m.lastRevision true
    have hrest : ∀ v, (p, v) ∈ rest →
        v = current (m.setValue q w m.lastRevision true).log p := by
      intro v hmem
      rw [hlog]
      exact hv v (List.mem_cons_of_mem _ hmem)
    show ((m.setValue q w m.lastRevision true).setValues rest m.lastRevision true).Settled p
    rcases List.mem_cons.mp hmem with hhead | htail
    · cases hhead
      refine Settled.setValues ?_ hrest _ _
      unfold Settled
      rw [hlog]
      rcases m.knownValue_setValue p v m.lastRevision true with ⟨-, hrej⟩ | hval
      · rcases hrej with ⟨-, hlt⟩ | ⟨k, hk, hrej⟩
        · exact absurd hlt (Nat.lt_irrefl _)
        · exact absurd (hrev p k hk) (of_decide_eq_false hrej)
      · rw [hval, if_pos rfl]
        exact hv v List.mem_cons_self
    · have hbound : ∀ q' k, (m.setValue q w m.lastRevision true).known? q' = some k →
          k.revision ≤ (m.setValue q w m.lastRevision true).lastRevision := by
        intro q' k hk
        rw [hlast]
        exact revision_le_setValue hrev le_rfl hk
      have hih := ih hbound hrest htail
      rwa [hlast] at hih

/-! ## 一巡の一歩 -/

/-- 一歩が reconcile として書く値と、その revision。 -/
def nextWrites (m : TsManager) : TsEvent → Nat × List (Ref × Option String)
  | .pass _ =>
    match m.pass with
    | .running generation pass =>
      match pass.queue with
      | [] =>
        if pass.listing = none ∧ pass.waiting = [] ∧ m.unmoved generation pass = true then
          (pass.snapRev,
            (pass.missing pass.listed).filter (fun rv => decide (rv.1.ns ∈ m.namespaces)))
        else (0, [])
      | items => if generation = m.namespaceGeneration then (pass.snapRev, items) else (0, [])
    | _ => (0, [])
  | _ => (0, [])

theorem passStep_eq (m : TsManager) (ok : Bool) :
    ∃ pass, m.passStep ok = { m.setValues (m.nextWrites (.pass ok)).2
      (m.nextWrites (.pass ok)).1 true with pass := pass } := by
  unfold passStep nextWrites
  cases hp : m.pass with
  | idle | returned complete => exact ⟨m.pass, rfl⟩
  | running generation pass =>
    cases hq : pass.queue with
    | nil =>
      simp only [hq]
      by_cases hend : pass.listing = none ∧ pass.waiting = []
      · rw [if_pos hend]
        unfold finishPass
        by_cases hun : m.unmoved generation pass = true
        · rw [if_pos hun, if_pos ⟨hend.1, hend.2, hun⟩]
          exact ⟨_, rfl⟩
        · rw [if_neg hun, if_neg (fun h => hun h.2.2)]
          exact ⟨_, rfl⟩
      · rw [if_neg hend, if_neg (fun h => hend ⟨h.1, h.2.1⟩)]
        exact ⟨_, rfl⟩
    | cons item rest =>
      simp only [hq]
      split <;> exact ⟨_, rfl⟩

end TsManager

/-! ## 追い付いた後 -/

structure Kept (p : Ref) (m m' : TsManager) : Prop where
  pass : m'.pass = m.pass
  log : m'.log = m.log
  generation : m.namespaceGeneration ≤ m'.namespaceGeneration
  retained : m'.namespaceGeneration = m.namespaceGeneration → p.ns ∈ m'.retained → p.ns ∈ m.retained
  lastRevision : m.lastRevision ≤ m'.lastRevision
  settled : m.known? p ≠ none → m'.known? p ≠ none → m.Settled p → m'.Settled p

namespace Kept

variable {p : Ref} {m n : TsManager}

theorem of_eq (hpass : n.pass = m.pass) (hlog : n.log = m.log)
    (hgen : n.namespaceGeneration = m.namespaceGeneration) (hret : n.retained = m.retained)
    (hrev : n.lastRevision = m.lastRevision) (hknown : n.known = m.known) : Kept p m n where
  pass := hpass
  log := hlog
  generation := hgen.symm.le
  retained := fun _ hp => hret ▸ hp
  lastRevision := hrev.symm.le
  settled := fun _ _ h => by
    unfold TsManager.Settled TsManager.knownValue TsManager.known? at h ⊢
    rw [hknown, hlog]
    exact h

theorem of_shrink (hpass : n.pass = m.pass) (hlog : n.log = m.log)
    (hgen : m.namespaceGeneration ≤ n.namespaceGeneration) (hret : n.retained ⊆ m.retained)
    (hrev : n.lastRevision = m.lastRevision)
    (hknown : ∀ k, n.known? p = some k → m.known? p = some k) : Kept p m n where
  pass := hpass
  log := hlog
  generation := hgen
  retained := fun _ hp => hret hp
  lastRevision := hrev.symm.le
  settled := fun _ hne h => by
    obtain ⟨k, hk⟩ := Option.ne_none_iff_exists'.mp hne
    unfold TsManager.Settled TsManager.knownValue at h ⊢
    rw [hk, hlog]
    rwa [hknown k hk] at h

theorem retain (h : Kept p m n) (ns : NamespaceRef) : Kept p m (n.retain ns) := by
  have hgen : (n.retain ns).namespaceGeneration =
      if ns ∈ n.retained then n.namespaceGeneration else n.namespaceGeneration + 1 := rfl
  have hle := h.generation
  refine { h with generation := ?_, retained := fun heq hp => ?_ }
  · rw [hgen]
    split <;> omega
  · rw [hgen] at heq
    split at heq
    · next hmem =>
      refine h.retained heq ?_
      rcases List.mem_append.mp hp with hp | hp
      · exact hp
      · exact List.mem_singleton.mp hp ▸ hmem
    · omega

theorem registerParameter (m : TsManager) (q : Ref) (initial : String) :
    Kept p m (m.registerParameter q initial) := by
  unfold TsManager.registerParameter
  refine Kept.retain ?_ q.ns
  cases hq : m.known? q with
  | some k => exact of_eq rfl rfl rfl rfl rfl rfl
  | none =>
    refine ⟨rfl, rfl, le_rfl, fun _ => id, le_rfl, fun hknown _ h => ?_⟩
    have hne : q ≠ p := by
      rintro rfl
      exact hknown hq
    unfold TsManager.Settled TsManager.knownValue at h ⊢
    rw [TsManager.known?_of_upsert rfl, if_neg hne]
    exact h

theorem known?_releaseNamespace {ns : NamespaceRef} {q : Ref} {k : KnownValue}
    (h : (m.releaseNamespace ns).known? q = some k) : m.known? q = some k := by
  simp only [TsManager.releaseNamespace] at h
  split at h
  · exact h
  · have h' : (m.deleteKnown (fun r => decide (r.ns = ns))).known? q = some k := h
    rw [TsManager.known?_deleteKnown] at h'
    split at h'
    · cases h'
    · exact h'

theorem releaseNamespace (hpass : n.pass = m.pass) (hlog : n.log = m.log)
    (hgen : n.namespaceGeneration = m.namespaceGeneration) (hret : n.retained = m.retained)
    (hrev : n.lastRevision = m.lastRevision)
    (hknown : ∀ k, n.known? p = some k → m.known? p = some k) (ns : NamespaceRef) :
    Kept p m (n.releaseNamespace ns) := by
  refine of_shrink ?_ ?_ ?_ ?_ ?_ (fun k hk => hknown k (known?_releaseNamespace hk))
  all_goals simp only [TsManager.releaseNamespace]
  all_goals split
  all_goals first
    | exact hpass
    | exact hlog
    | exact hrev
    | exact hret ▸ List.erase_subset ..
    | exact hgen.symm.le
    | exact Nat.le_succ_of_le hgen.symm.le

theorem handled (hq : Unchanged m.log m.lastRevision p) {session : Option TsSession}
    {items : List (Ref × Option String)} {revision : Nat} (generation : Nat)
    (hvalue : ∀ rv ∈ items, m.lastRevision ≤ revision ∧ valueAt m.log revision rv.1 = rv.2) :
    Kept p m ({ TsManager.setValues { m with session } items revision false with
      snapshotGeneration := generation }.advanceRevision revision) := by
  have hset : m.Settled p →
      (TsManager.setValues { m with session := session } items revision false).Settled p := by
    intro hset
    refine TsManager.Settled.setValues (m := { m with session := session }) hset
      (fun v hv => ?_) _ _
    obtain ⟨hle, hval⟩ := hvalue _ hv
    exact hval.symm.trans (hq.mono hle).valueAt
  obtain ⟨known, handles, heq⟩ :=
    TsManager.setValues_eq { m with session := session } items revision false
  rw [heq] at hset ⊢
  rw [TsManager.advanceRevision_eq]
  exact ⟨rfl, rfl, le_rfl, fun _ => id, Nat.le_max_left .., fun _ _ => hset⟩

end Kept

variable {m : TsManager} {p : Ref} {ev : TsEvent}

/-- 一巡の他の一歩は、`p` の今の値を忘れない。 -/
theorem kept_step (hq : Unchanged m.log m.lastRevision p) (hm : TsInv m)
    (hquiet : ∀ e, ev ≠ .commit e) (hbegin : ev ≠ .beginPass) (hpass : ∀ ok, ev ≠ .pass ok) :
    Kept p m (tsStep m ev) := by
  generalize hstep : tsStep m ev = m'
  cases tsStep_effect hm hstep with
  | committed e => exact absurd rfl (hquiet e)
  | registered hr => exact { Kept.registerParameter m _ _ with }
  | watched ns =>
    refine Kept.retain (Kept.of_eq ?_ ?_ ?_ ?_ ?_ ?_) ns
    all_goals rfl
  | handleReleased hx ha hknown =>
    refine Kept.releaseNamespace (by rfl) (by rfl) (by rfl) (by rfl) (by rfl) (fun k hk => ?_) _
    rcases hknown p with heq | ⟨hnone, -⟩
    · exact heq.symm.trans hk
    · cases hnone.symm.trans hk
  | watcherReleased =>
    exact Kept.releaseNamespace (by rfl) (by rfl) (by rfl) (by rfl) (by rfl)
      (by exact fun _ hk => hk) _
  | handled generation _ hvalue => exact Kept.handled hq generation hvalue
  | begun => exact absurd rfl hbegin
  | passed ok => exact absurd rfl (hpass ok)
  | _ => exact Kept.of_eq rfl rfl rfl rfl rfl rfl

theorem unchanged_step (hq : Unchanged m.log m.lastRevision p) (hm : TsInv m)
    (hquiet : ∀ e, ev ≠ .commit e) :
    Unchanged (tsStep m ev).log (tsStep m ev).lastRevision p := by
  by_cases hpass : ev = .beginPass ∨ ∃ ok, ev = .pass ok
  · rcases hpass with rfl | ⟨ok, rfl⟩
    · simp only [tsStep, TsManager.beginPass]
      split <;> exact hq
    · obtain ⟨pass, heq⟩ := m.passStep_eq ok
      obtain ⟨known, handles, hset⟩ := m.setValues_eq (m.nextWrites (.pass ok)).2
        (m.nextWrites (.pass ok)).1 true
      simp only [tsStep, heq, hset]
      exact hq
  · have hk := kept_step hq hm hquiet (fun heq => hpass (.inl heq))
      (fun ok heq => hpass (.inr ⟨ok, heq⟩))
    rw [hk.log]
    exact hq.mono hk.lastRevision

/-! ## 最後の一巡 -/

namespace TsManager

/-- 登録されている handle のある path なら、今の値を知っている。 -/
def Converged (m : TsManager) (p : Ref) : Prop := m.hasHandlers p = true → m.Settled p

def registering (m : TsManager) : TsEvent → Option (Ref × String)
  | .register i => m.reads i
  | _ => none

/-- 登録が path の最初の handle を作る時、その handle は store の今の値から始まる。 -/
def SeedsCurrent (m : TsManager) (ev : TsEvent) : Prop :=
  ∀ r ∈ m.registering ev, m.hasHandlers r.1 = false → m.seed r.1 r.2 = current m.log r.1

instance (m : TsManager) (ev : TsEvent) : Decidable (m.SeedsCurrent ev) :=
  inferInstanceAs (Decidable (∀ r ∈ m.registering ev, _))

theorem hasHandlers_of_setValues {items : List (Ref × Option String)} {revision : Nat}
    {reconcile : Bool} (h : (m.setValues items revision reconcile).hasHandlers p = true) :
    m.hasHandlers p = true := by
  refine setValues_induction (I := fun n => n.hasHandlers p = true → m.hasHandlers p = true)
    (fun n hn rv _ hhas => hn ?_) id h
  rcases n.setValue_cases rv.1 rv.2 revision reconcile with ⟨heq, -⟩ | ⟨-, heq⟩
  · rwa [heq] at hhas
  · rw [heq] at hhas
    obtain ⟨x, hx, ha, href⟩ := hasHandlers_iff.mp hhas
    obtain ⟨y, hy, rfl⟩ := mem_notified hx
    refine hasHandlers_iff.mpr ⟨y, hy, ?_, ?_⟩
    · split at ha <;> exact ha
    · split at href <;> exact href

theorem knownValue_registerParameter (m : TsManager) (p : Ref) (initial : String) :
    (m.registerParameter p initial).knownValue p = m.seed p initial := by
  unfold registerParameter seed
  cases hk : m.known? p with
  | none =>
    show (known? { m with known := m.known.upsert (p, ⟨initial, true, 0⟩) } p).bind _ = _
    rw [known?_of_upsert rfl, if_pos rfl]
    rfl
  | some k =>
    show (m.known? p).bind _ = _
    rw [hk]
    rfl

theorem hasHandlers_step (hm : TsInv m) {ev : TsEvent}
    (h : (tsStep m ev).hasHandlers p = true) :
    m.hasHandlers p = true ∨ ∃ initial, m.registering ev = some (p, initial) ∧
      (tsStep m ev).knownValue p = m.seed p initial := by
  generalize hstep : tsStep m ev = m' at h ⊢
  cases tsStep_effect hm hstep with
  | @registered i q initial hr =>
    obtain ⟨x, hx, ha, href⟩ := hasHandlers_iff.mp h
    have hx' : x ∈ m.handles ++ [⟨q, m.seed q initial, m.seed q initial, [], true⟩] := by
      have hmem : x ∈ (m.registerParameter q initial).handles := hx
      unfold registerParameter at hmem
      cases hk : m.known? q <;> simpa only [hk, retain] using hmem
    rcases List.mem_append.mp hx' with hold | hnew
    · exact .inl (hasHandlers_iff.mpr ⟨x, hold, ha, href⟩)
    · rw [List.mem_singleton.mp hnew] at href
      cases href
      exact .inr ⟨initial, hr, m.knownValue_registerParameter q initial⟩
  | @handleReleased i y _ hy =>
    have hframe : ∀ (n : TsManager) (ns : NamespaceRef),
        (n.releaseNamespace ns).handles = n.handles := by
      intro n ns
      simp only [releaseNamespace]
      split <;> rfl
    obtain ⟨x, hx, ha, href⟩ := hasHandlers_iff.mp h
    rw [hframe] at hx
    rcases List.mem_or_eq_of_mem_set hx with hx | rfl
    · exact .inl (hasHandlers_iff.mpr ⟨x, hx, ha, href⟩)
    · cases ha
  | watcherReleased =>
    refine .inl ?_
    simp only [releaseNamespace] at h
    split at h <;> exact h
  | @handled _ session =>
    exact .inl (hasHandlers_of_setValues (m := { m with session := session }) h)
  | passed ok =>
    obtain ⟨pass, heq⟩ := m.passStep_eq ok
    rw [heq] at h
    exact .inl (hasHandlers_of_setValues h)
  | _ => exact .inl h

end TsManager

def PassGoal (p : Ref) (m : TsManager) : Prop :=
  match m.pass with
  | .idle => False
  | .running generation pass =>
    generation = m.namespaceGeneration → pass.snapRev = m.lastRevision →
      (p.ns ∈ m.retained → p.ns ∈ pass.namespaces) ∧
        PassInv .afterAll m.log p (m.Converged p) pass
  | .returned complete => complete = true → m.Converged p

namespace PassGoal

variable {p : Ref} {m n : TsManager}

theorem mono (h : PassGoal p m) (hm : TsInv m) (hk : Kept p m n)
    (hset : m.Converged p → n.Converged p) : PassGoal p n := by
  unfold PassGoal at h ⊢
  rw [hk.pass]
  cases hp : m.pass with
  | idle =>
    rw [hp] at h
    exact h
  | returned complete =>
    rw [hp] at h
    exact fun hc => hset (h hc)
  | running generation pass =>
    rw [hp] at h
    intro hgen hrev
    obtain ⟨hle, hgle⟩ := hm.pass generation pass hp
    have hgen' : generation = m.namespaceGeneration := by
      have := hk.generation
      omega
    have hrev' : pass.snapRev = m.lastRevision := by
      have := hk.lastRevision
      omega
    rw [hk.log]
    exact (h hgen' hrev').imp (fun hns hret => hns (hk.retained (hgen.symm.trans hgen') hret))
      (fun hi => hi.mono hset)

theorem start (hm : TsInv m) (p : Ref) :
    PassGoal p { m with
      pass := .running m.namespaceGeneration (Pass.start m.lastRevision m.namespaces
        ((m.known.rows.filter (fun row => row.2.present)).map Prod.fst)) } := by
  refine fun _ _ => ⟨List.mem_dedup.mpr, PassInv.start (fun hcur => ?_)⟩
  by_cases hhas : m.hasHandlers p = true
  · obtain ⟨x, hx, ha, rfl⟩ := TsManager.hasHandlers_iff.mp hhas
    obtain ⟨k, hk, -⟩ := Option.map_eq_some_iff.mp (hm.held x hx ha)
    by_cases hpres : k.present = true
    · obtain ⟨row, hrow, rfl⟩ := Option.map_eq_some_iff.mp hk
      refine .inr (List.mem_map.mpr ⟨row, List.mem_filter.mpr ⟨?_, hpres⟩, Table.key_of_get hrow⟩)
      exact Table.mem_of_get hrow
    · refine .inl (fun _ => ?_)
      show (m.known? x.ref).bind KnownValue.current = current m.log x.ref
      rw [hk]
      exact (if_neg hpres).trans hcur.symm
  · exact .inl (fun hhas' => absurd hhas' hhas)

theorem finishPass (hm : TsInv m) {generation : Nat} {pass : Pass} (hwaiting : pass.queue = [])
    (h : generation = m.namespaceGeneration → pass.snapRev = m.lastRevision →
      (p.ns ∈ m.retained → p.ns ∈ pass.namespaces) ∧
        PassInv .afterAll m.log p (m.Converged p) pass) :
    PassGoal p (m.finishPass generation pass) := by
  unfold TsManager.finishPass
  split
  · next hun =>
    simp only [TsManager.unmoved, Bool.and_eq_true, decide_eq_true_eq] at hun
    obtain ⟨hns, hinv⟩ := h hun.1 hun.2
    intro hc hhas'
    have hhas : m.hasHandlers p = true := TsManager.hasHandlers_of_setValues hhas'
    obtain ⟨x, hx, ha, href⟩ := TsManager.hasHandlers_iff.mp hhas
    have hret : p.ns ∈ m.retained := href ▸ hm.mem_retained hx ha
    simp only [Bool.and_eq_true, List.all_eq_true, decide_eq_true_eq] at hc
    have hlisted := hc.1 p.ns (hns hret)
    have hempty : ∀ w, ¬ (p, w) ∈ pass.queue := fun w => by simp [hwaiting]
    -- 一覧に無かった path は、今は無い
    have hsweep : ∀ v, (p, v) ∈ (pass.missing pass.listed).filter
        (fun rv => decide (rv.1.ns ∈ m.namespaces)) → v = current m.log p := by
      intro v hv
      obtain ⟨-, hnot, -, rfl⟩ := Pass.mem_missing.mp (List.mem_filter.mp hv).1
      by_contra hcur
      exact hnot (hinv.listed (Ne.symm hcur) hlisted)
    show (m.setValues _ pass.snapRev true).Settled p
    have hsettled : m.Settled p → (m.setValues ((pass.missing pass.listed).filter
        (fun rv => decide (rv.1.ns ∈ m.namespaces))) pass.snapRev true).Settled p :=
      fun hset => hset.setValues hsweep _ _
    cases hcur : current m.log p with
    | some v =>
      have hpresent := hinv.listed (by rw [hcur]; exact Option.some_ne_none v) hlisted
      exact hsettled ((hinv.found v hcur hpresent).resolve_right (hempty _) hhas)
    | none =>
      rcases hinv.path hcur with hset | hpath
      · exact hsettled (hset hhas)
      · rw [hun.2]
        refine TsManager.settled_setValues_of_mem hm.known_rev hsweep (v := none) ?_
        refine List.mem_filter.mpr ⟨Pass.mem_missing.mpr ⟨hpath, ?_, hlisted, rfl⟩,
          decide_eq_true (List.mem_dedup.mpr hret)⟩
        exact fun hpres => hinv.present hpres hcur
  · intro hc
    cases hc

theorem passStep (h : PassGoal p m) (hm : TsInv m) (ok : Bool) : PassGoal p (m.passStep ok) := by
  unfold TsManager.passStep
  cases hpass : m.pass with
  | idle => exact h
  | returned complete => exact h
  | running generation pass =>
    unfold PassGoal at h
    rw [hpass] at h
    cases hq : pass.queue with
    | nil =>
      simp only [hq]
      split
      · exact finishPass hm hq h
      · intro hgen hrev
        have hcap := Pass.captured_advance .afterAll TsManager.maxReconcilePages m.log ok pass
        rw [hcap.1] at hrev
        rw [hcap.2]
        exact (h hgen hrev).imp id (fun hi => hi.advance hq ok)
    | cons item rest =>
      simp only [hq]
      split
      · next hgen =>
        obtain ⟨known, handles, heq⟩ := m.setValues_eq (item :: rest) pass.snapRev true
        have hlog : (m.setValues (item :: rest) pass.snapRev true).log = m.log := by rw [heq]
        have hret : (m.setValues (item :: rest) pass.snapRev true).retained = m.retained :=
          by rw [heq]
        intro _ hrev
        have hrev : pass.snapRev = m.lastRevision := hrev.trans (by rw [heq])
        obtain ⟨hns, hinv⟩ := h hgen hrev
        refine ⟨fun hp => hns (hret ▸ hp), ?_⟩
        have hv : ∀ v, (p, v) ∈ item :: rest → v = current m.log p := by
          intro v hv
          exact hinv.queue v (hq ▸ hv)
        have hconv : m.Converged p → (m.setValues (item :: rest) pass.snapRev true).Converged p :=
          fun hset hhas =>
            (hset (TsManager.hasHandlers_of_setValues hhas)).setValues hv _ _
        have hleft : ∀ w, m.Converged p ∨ (p, w) ∈ pass.queue →
            (m.setValues (item :: rest) pass.snapRev true).Converged p := by
          rintro w (hset | hmem)
          · exact hconv hset
          · rw [hq] at hmem
            rw [hrev]
            exact fun _ => TsManager.settled_setValues_of_mem hm.known_rev hv hmem
        show PassInv .afterAll (m.setValues (item :: rest) pass.snapRev true).log p
          (TsManager.Converged (m.setValues (item :: rest) pass.snapRev true) p) _
        rw [hlog]
        exact
          { hinv with
            path := fun hcur => (hinv.path hcur).imp hconv id
            queue := fun _ hmem => absurd hmem List.not_mem_nil
            found := fun v hcur hpres => .inl (hleft _ (hinv.found v hcur hpres))
            missed := fun hcur hs => .inl (hleft _ (hinv.missed hcur hs)) }
      · next hgen => exact fun heq => absurd heq hgen

end PassGoal

theorem passGoal_step (h : PassGoal p m) (hm : TsInv m) (hq : Unchanged m.log m.lastRevision p)
    (hseed : m.SeedsCurrent ev) (hquiet : ∀ e, ev ≠ .commit e) : PassGoal p (tsStep m ev) := by
  by_cases hpass : ev = .beginPass ∨ ∃ ok, ev = .pass ok
  · rcases hpass with rfl | ⟨ok, rfl⟩
    · simp only [tsStep, TsManager.beginPass]
      split
      · exact h
      · exact PassGoal.start hm p
    · exact h.passStep hm ok
  · have hk := kept_step hq hm hquiet (fun heq => hpass (.inl heq))
      (fun ok heq => hpass (.inr ⟨ok, heq⟩))
    refine h.mono hm hk (fun hset hhas' => ?_)
    have hknown : ∀ n : TsManager, n.Held → n.hasHandlers p = true → n.known? p ≠ none := by
      intro n hheld hhas hnone
      obtain ⟨x, hx, ha, rfl⟩ := TsManager.hasHandlers_iff.mp hhas
      have := hheld x hx ha
      rw [hnone] at this
      cases this
    by_cases hhas : m.hasHandlers p = true
    · exact hk.settled (hknown m hm.held hhas) (hknown _ (tsInv_step hm ev).held hhas') (hset hhas)
    · -- 最初の handle は、今の値から始まる
      rcases TsManager.hasHandlers_step hm hhas' with hold | ⟨initial, hreg, hvalue⟩
      · exact absurd hold hhas
      · show (tsStep m ev).knownValue p = current (tsStep m ev).log p
        rw [hvalue, hk.log]
        exact hseed _ hreg (Bool.eq_false_iff.mpr hhas)

/-! ## 収束 -/

/--
TypeScript の登録された値の収束。

一巡の始まった後に path の最初の handle になるものが今の値から始まれば、stream が追い付いた後 (`pre`)、store が変わらない間に
始まった reconcile の一巡が `true` を返した時、追い付いた時に購読していた namespace の登録されている handle は、全て store の
今の値 (無ければ無いこと) を持つ。
-/
theorem ts_values_converge {pre a b : List TsEvent}
    (hcaught : (run tsStep TsManager.empty pre).caughtUp = true)
    (hquiet : ∀ e, .commit e ∉ a ++ b)
    (hidle : ∀ g pass, (run tsStep TsManager.empty (pre ++ a)).pass ≠ .running g pass)
    (hseeds : AlongSteps tsStep TsManager.SeedsCurrent
      (tsStep (run tsStep TsManager.empty (pre ++ a)) .beginPass) b) {m : TsManager}
    (hm : m = run tsStep TsManager.empty (pre ++ a ++ .beginPass :: b))
    (hdone : m.pass = .returned true) :
    ∀ h ∈ m.handles, h.active = true →
      h.ref.ns ∈ (run tsStep TsManager.empty pre).namespaces → h.held = current m.log h.ref := by
  intro h hh ha hns
  -- 追い付いた所から一巡の始めまで
  have hquietA : ∀ ev ∈ a, ∀ e, ev ≠ .commit e := fun ev hev e heq =>
    hquiet e (List.mem_append_left _ (heq ▸ hev))
  have hpre : TsInv (run tsStep TsManager.empty pre) :=
    run_invariant (I := TsInv) (fun _ ev hi => tsInv_step hi ev) TsInv.empty pre
  obtain ⟨hmA, hqA⟩ : TsInv (run tsStep TsManager.empty (pre ++ a)) ∧
      Unchanged (run tsStep TsManager.empty (pre ++ a)).log
        (run tsStep TsManager.empty (pre ++ a)).lastRevision h.ref := by
    rw [run_append]
    exact run_steps_invariant (I := fun m => TsInv m ∧ Unchanged m.log m.lastRevision h.ref)
      (fun _ ev hc hi => ⟨tsInv_step hi.1 ev, unchanged_step hi.2 hi.1 hc⟩)
      ⟨hpre, hpre.unchanged_of_caughtUp hcaught hns⟩ (AlongSteps.of_forall hquietA)
  -- 一巡の始めから終わりまで
  have hbegin : PassGoal h.ref (tsStep (run tsStep TsManager.empty (pre ++ a)) .beginPass) := by
    simp only [tsStep, TsManager.beginPass]
    exact PassGoal.start hmA h.ref
  have hquietB : ∀ ev ∈ b, ∀ e, ev ≠ .commit e := fun ev hev e heq =>
    hquiet e (List.mem_append_right _ (heq ▸ hev))
  obtain ⟨hmF, -, hgoal⟩ : TsInv m ∧ Unchanged m.log m.lastRevision h.ref ∧ PassGoal h.ref m := by
    rw [hm, run_append, run_cons]
    exact run_steps_invariant
      (I := fun m => TsInv m ∧ Unchanged m.log m.lastRevision h.ref ∧ PassGoal h.ref m)
      (fun _ ev hc hi => ⟨tsInv_step hi.1 ev, unchanged_step hi.2.1 hi.1 hc.2,
        passGoal_step hi.2.2 hi.1 hi.2.1 hc.1 hc.2⟩)
      ⟨tsInv_step hmA _, unchanged_step hqA hmA (fun _ heq => by cases heq), hbegin⟩
      (hseeds.and (AlongSteps.of_forall hquietB))
  unfold PassGoal at hgoal
  rw [hdone] at hgoal
  rw [← hmF.held.knownValue hh ha]
  exact hgoal rfl (TsManager.hasHandlers_iff.mpr ⟨h, hh, ha, rfl⟩)

section Sample

private def sampleTsParam : Ref := ⟨⟨"prod", "billing"⟩, "limit"⟩

private def sampleTsBurst : Ref := ⟨⟨"prod", "billing"⟩, "burst"⟩

/-- 同じ path の二つの handle が登録され、値が変わり、stream が追い付く。 -/
private def sampleTsPair : List TsEvent :=
  [.commit (.parameter sampleTsBurst (some "9")), .commit (.parameter sampleTsParam (some "1")),
    .fetch 0 sampleTsParam none, .register 0, .fetch 1 sampleTsParam none, .register 1,
    .commit (.parameter sampleTsParam (some "2")), .subscribe, .answer false, .receive]

private def sampleTsPass : List TsEvent := List.replicate 4 (.pass true)

/-- 一巡の間に、別の path の最初の handle が登録される。 -/
private def sampleTsPassJoined : List TsEvent :=
  [.pass true, .fetch 2 sampleTsBurst none, .register 2] ++ sampleTsPass

theorem ts_values_converge_pair :
    (run tsStep TsManager.empty
        (sampleTsPair ++ [] ++ .beginPass :: sampleTsPassJoined)).handles.map TsHandle.ref =
        [sampleTsParam, sampleTsParam, sampleTsBurst] ∧
      ∀ h ∈ (run tsStep TsManager.empty
          (sampleTsPair ++ [] ++ .beginPass :: sampleTsPassJoined)).handles,
        h.active = true → h.ref.ns ∈ (run tsStep TsManager.empty sampleTsPair).namespaces →
        h.held = current (run tsStep TsManager.empty
          (sampleTsPair ++ [] ++ .beginPass :: sampleTsPassJoined)).log h.ref :=
  ⟨by decide, ts_values_converge (by decide) (by simp [sampleTsPassJoined, sampleTsPass])
    (by
      have hpass : (run tsStep TsManager.empty (sampleTsPair ++ [])).pass = .idle := by decide
      intro g pass
      rw [hpass]
      exact TsPassState.noConfusion)
    (by decide) rfl (by decide)⟩

/-- 登録の前に読んだ値が、handle の無い間に消える。 -/
private def sampleTsStale : List TsEvent :=
  [.watch sampleTsParam.ns, .commit (.parameter sampleTsParam (some "1")), .subscribe,
    .answer false, .receive, .fetch 0 sampleTsParam none,
    .commit (.parameter sampleTsParam none), .receive]

/--
追い付いた後の一巡の間に登録された handle は、前に読んだ値を持ったまま残り得る。消えたという項は handle の無い path には
残らず、その一巡は始めに控えた path しか消さない。
-/
theorem ts_registration_keeps_stale_read :
    (run tsStep TsManager.empty sampleTsStale).caughtUp = true ∧
      (run tsStep TsManager.empty
        (sampleTsStale ++ .beginPass :: .register 0 :: sampleTsPass)).pass = .returned true ∧
      (run tsStep TsManager.empty
        (sampleTsStale ++ .beginPass :: .register 0 :: sampleTsPass)).handles =
          [⟨sampleTsParam, some "1", some "1", [], true⟩] ∧
      current (run tsStep TsManager.empty
        (sampleTsStale ++ .beginPass :: .register 0 :: sampleTsPass)).log sampleTsParam = none := by
  decide

end Sample

end Kms.Client
