import Kms.Client.Chronology
import Kms.Client.GoWatch
import Kms.Client.PyWatch
import Kms.Client.TsWatch

/-!
# 三つの SDK の、知らされる値の順

TypeScript の manager も、reconcile が書く値が控えた revision の値であり、登録がこれから知らせる値の下限より後の値から
始まらない限り、handle に渡す値は後戻りしない。

* `TsManager.Stamped` / `TsManager.SeedsBehind` — 一歩ごとの条件
* `TsManager.Seeded` / `TsChron` / `tsChron_step`
* `watched_values_never_go_back` — 三つの SDK の handle の列は後戻りしない
* `reconcile_read_is_overwritten_by_older_event` — reconcile が先に新しい値を知らせると、後から届く古い event が戻す
-/

namespace Kms.Client

open Kms.Infra

namespace TsManager

/-- 退けられずに知らせる値は、revision `rev` の値である。 -/
def StampedWrite (rev : Nat) (m : TsManager) (rv : Ref × Option String) : Prop :=
  m.lastRevision ≤ rev → (∀ k ∈ m.known? rv.1, k.revision ≤ rev) → m.knownValue rv.1 ≠ rv.2 →
    0 < rev ∧ valueAt m.log rev rv.1 = rv.2

instance (rev : Nat) (m : TsManager) (rv : Ref × Option String) :
    Decidable (StampedWrite rev m rv) :=
  inferInstanceAs (Decidable (_ → _))

def Stamped (m : TsManager) (ev : TsEvent) : Prop :=
  AlongSteps (fun n rv => n.setValue rv.1 rv.2 (m.nextWrites ev).1 true)
    (StampedWrite (m.nextWrites ev).1) m (m.nextWrites ev).2

instance (m : TsManager) (ev : TsEvent) : Decidable (m.Stamped ev) :=
  inferInstanceAs (Decidable (AlongSteps ..))

def SeedsBehind (m : TsManager) (ev : TsEvent) : Prop :=
  ∀ r ∈ m.registering ev, ∃ t ≤ m.floor, valueAt m.log t r.1 = m.seed r.1 r.2

instance (m : TsManager) (ev : TsEvent) : Decidable (m.SeedsBehind ev) :=
  inferInstanceAs (Decidable (∀ r ∈ m.registering ev, ∃ t ≤ m.floor, _))

theorem setValues_eq_run (m : TsManager) (items : List (Ref × Option String)) (revision : Nat)
    (reconcile : Bool) : m.setValues items revision reconcile =
      run (fun n rv => n.setValue rv.1 rv.2 revision reconcile) m items := by
  unfold setValues
  induction items generalizing m with
  | nil => rfl
  | cons rv rest ih => exact ih _

end TsManager

theorem TsInv.nextWrites_le {m : TsManager} (h : TsInv m) (ev : TsEvent) :
    (m.nextWrites ev).1 ≤ m.lastRevision := by
  unfold TsManager.nextWrites
  split
  · split
    · next g pass hp =>
      have hle := (h.pass g pass hp).1
      split
      all_goals
        split
        · exact hle
        · exact Nat.zero_le _
    · exact Nat.zero_le _
  · exact Nat.zero_le _

/-! ## 登録で渡した値 -/

def TsHandle.origin (h : TsHandle) : Ref × Option String := (h.ref, h.seed)

namespace TsManager

variable {m m' : TsManager}

def NeverGoesBack (m : TsManager) : Prop :=
  ∀ h ∈ m.handles, Chronological m.log h.ref m.log.length h.seen

def Seeded (m : TsManager) : Prop := Client.Seeded m.log m.floor (m.handles.map TsHandle.origin)

theorem Seeded.mono (h : m.Seeded) (hlog : m'.log = m.log)
    (ho : m'.handles.map TsHandle.origin ⊆ m.handles.map TsHandle.origin)
    (hf : m.floor ≤ m'.floor) : m'.Seeded := by
  unfold Seeded
  rw [hlog]
  exact Client.Seeded.mono h ho hf

theorem origins_setValue (m : TsManager) (p : Ref) (v : Option String) (revision : Nat)
    (reconcile : Bool) : (m.setValue p v revision reconcile).handles.map TsHandle.origin ⊆
      m.handles.map TsHandle.origin := by
  rcases m.setValue_cases p v revision reconcile with ⟨heq, -⟩ | ⟨-, heq⟩ <;> rw [heq]
  · exact List.Subset.refl _
  · intro s hs
    obtain ⟨x, hx, rfl⟩ := List.mem_map.mp hs
    obtain ⟨y, hy, rfl⟩ := mem_notified hx
    refine List.mem_map.mpr ⟨y, hy, ?_⟩
    split <;> rfl

theorem origins_setValues (m : TsManager) (items : List (Ref × Option String)) (revision : Nat)
    (reconcile : Bool) : (m.setValues items revision reconcile).handles.map TsHandle.origin ⊆
      m.handles.map TsHandle.origin :=
  setValues_induction
    (I := fun n => n.handles.map TsHandle.origin ⊆ m.handles.map TsHandle.origin)
    (fun n hn _ _ => List.Subset.trans (n.origins_setValue ..) hn) (List.Subset.refl _)

theorem releaseNamespace_eq (m : TsManager) (ns : NamespaceRef) :
    ∃ retained known generation, m.releaseNamespace ns =
      { m with retained := retained, known := known, namespaceGeneration := generation } := by
  simp only [releaseNamespace]
  split <;> exact ⟨_, _, _, rfl⟩

theorem registerParameter_eq (m : TsManager) (p : Ref) (initial : String) :
    ∃ known, m.registerParameter p initial = ({ m with
      known := known
      handles := m.handles ++ [⟨p, m.seed p initial, m.seed p initial, [], true⟩] } :
        TsManager).retain p.ns := by
  unfold registerParameter
  cases m.known? p <;> exact ⟨_, rfl⟩

end TsManager

theorem TsInv.floor_le {m : TsManager} (h : TsInv m) : m.floor ≤ m.log.length :=
  feedFloor_le h.lastRev_le (fun _ => h.firstRev_le) (Nat.zero_le _)

theorem tsSeeded_step {m : TsManager} {ev : TsEvent} (h : m.Seeded) (hm : TsInv m)
    (hseed : m.SeedsBehind ev) : (tsStep m ev).Seeded := by
  generalize hstep : tsStep m ev = m'
  cases tsStep_effect hm hstep with
  | committed e =>
    exact (Seeded.commit h hm.floor_le e).mono (List.Subset.refl _)
      (feedFloor_mono (fun _ => firstRev_commit e))
  | @registered i p initial hr =>
    obtain ⟨known, heq⟩ := m.registerParameter_eq p initial
    rw [heq, TsManager.Seeded]
    simp only [TsManager.setRead, TsManager.retain, List.map_append]
    exact Seeded.append h (hseed _ hr)
  | @handleReleased i y _ hy =>
    obtain ⟨_, _, _, heq⟩ := TsManager.releaseNamespace_eq _ y.ref.ns
    rw [heq]
    refine h.mono rfl (fun s hs => ?_) le_rfl
    obtain ⟨x, hx, rfl⟩ := List.mem_map.mp hs
    rcases List.mem_or_eq_of_mem_set hx with hx | rfl
    · exact List.mem_map_of_mem hx
    · exact List.mem_map.mpr ⟨y, List.mem_of_getElem? hy, rfl⟩
  | @watcherReleased i ns =>
    obtain ⟨_, _, _, heq⟩ := TsManager.releaseNamespace_eq _ ns
    rw [heq]
    exact h
  | connected _ hfloor => exact h.mono rfl (List.Subset.refl _) hfloor
  | @handled _ session items revision generation _ _ hfirst =>
    have ho := TsManager.origins_setValues { m with session } items revision false
    obtain ⟨_, _, heq⟩ := TsManager.setValues_eq { m with session } items revision false
    rw [heq] at ho
    rw [heq, TsManager.advanceRevision_eq]
    exact h.mono rfl ho
      (Nat.le_trans (feedFloor_receive (q := []) (a := none) hfirst) feedFloor_advance)
  | passed ok =>
    obtain ⟨pass, hpass⟩ := m.passStep_eq ok
    generalize m.nextWrites (.pass ok) = w at hpass
    have ho := m.origins_setValues w.2 w.1 true
    obtain ⟨_, _, heq⟩ := m.setValues_eq w.2 w.1 true
    rw [heq] at ho hpass
    rw [hpass]
    exact h.mono rfl ho le_rfl
  | _ => exact h

/-! ## 不変条件 -/

/-- 知らされた値は後戻りせず、登録されている handle では項の revision を越えない。 -/
structure TsChron (m : TsManager) : Prop where
  received : ∀ h ∈ m.handles, h.received ≠ [] → Chronological m.log h.ref m.log.length h.seen
  active : ∀ h ∈ m.handles, h.active = true → h.received ≠ [] → ∀ k, m.known? h.ref = some k →
    Chronological m.log h.ref k.revision h.seen

namespace TsChron

variable {m : TsManager}

theorem empty : TsChron TsManager.empty where
  received := fun _ h => absurd h List.not_mem_nil
  active := fun _ h => absurd h List.not_mem_nil

theorem congr (h : TsChron m) {m' : TsManager} (hlog : m'.log = m.log) (hk : m'.known = m.known)
    (hh : m'.handles = m.handles) : TsChron m' := by
  refine ⟨?_, ?_⟩
  · rw [hh, hlog]
    exact h.received
  · rw [hh, hlog]
    unfold TsManager.known?
    rw [hk]
    exact h.active

theorem of_shrink (h : TsChron m) {m' : TsManager} (hlog : m'.log = m.log)
    (hk : ∀ q k, m'.known? q = some k → m.known? q = some k)
    (hh : ∀ x ∈ m'.handles, ∃ y ∈ m.handles, ∃ active, x = { y with active := active } ∧
      (active = true → y.active = true)) : TsChron m' := by
  refine ⟨fun x hx hne => ?_, fun x hx ha hne k hk' => ?_⟩
  all_goals
    obtain ⟨y, hy, active, rfl, hact⟩ := hh x hx
    rw [hlog]
  · exact h.received y hy hne
  · exact h.active y hy (hact ha) hne k (hk _ k hk')

theorem commit (h : TsChron m) (hm : TsInv m) (e : Entry) :
    TsChron { m with log := m.log ++ [e] } := by
  refine ⟨fun x hx hne => ?_, fun x hx ha hne k hk => ?_⟩
  · refine ((h.received x hx hne).commit le_rfl e).mono ?_
    rw [List.length_append]
    exact Nat.le_add_right ..
  · exact (h.active x hx ha hne k hk).commit ((hm.known_rev _ k hk).trans hm.lastRev_le) e

/-- 登録されている handle に、`revision` の値を知らせる。 -/
theorem snoc (h : TsChron m) (hheld : m.Held) {y : TsHandle} (hy : y ∈ m.handles)
    (ha : y.active = true) {v : Option String} {revision : Nat}
    (hbound : ∀ k, m.known? y.ref = some k → k.revision ≤ revision)
    (hv : valueAt m.log revision y.ref = v)
    (hseed : ∃ t ≤ revision, valueAt m.log t y.ref = y.seed) :
    Chronological m.log y.ref revision (y.receive v).seen := by
  have hseen : Chronological m.log y.ref revision y.seen := by
    by_cases hnil : y.received = []
    · obtain ⟨t, ht, hval⟩ := hseed
      unfold TsHandle.seen
      rw [hnil]
      exact .singleton ht hval
    · obtain ⟨k, hk, -⟩ := Option.map_eq_some_iff.mp (hheld y hy ha)
      exact (h.active y hy ha hnil k hk).mono (hbound k hk)
  exact hseen.snoc hv

theorem setValue (h : TsChron m) (hheld : m.Held) {p : Ref} {v : Option String} {revision : Nat}
    {reconcile : Bool} (hle : revision ≤ m.log.length)
    (hrev : ∀ k, m.known? p = some k → revAllowsWrite k.revision revision reconcile = true →
      k.revision ≤ revision)
    (hv : (reconcile = true → m.lastRevision ≤ revision) →
      (∀ k, m.known? p = some k → k.revision ≤ revision) → m.knownValue p ≠ v →
      valueAt m.log revision p = v ∧ Seeded m.log revision (m.handles.map TsHandle.origin)) :
    TsChron (m.setValue p v revision reconcile) := by
  rcases m.setValue_cases p v revision reconcile with ⟨heq, -⟩ | ⟨⟨hopen, hall⟩, heq⟩
  · rw [heq]
    exact h
  · have hbound : ∀ k, m.known? p = some k → k.revision ≤ revision :=
      fun k hk => hrev k hk (hall k hk)
    have hlog : (m.setValue p v revision reconcile).log = m.log := m.log_setValue ..
    have hsnoc : ∀ y ∈ m.handles, y.active = true ∧ y.ref = p ∧ m.knownValue p ≠ v →
        Chronological m.log y.ref revision (y.receive v).seen := by
      rintro y hy ⟨ha, rfl, hch⟩
      obtain ⟨hvalue, hseed⟩ := hv hopen hbound hch
      exact h.snoc hheld hy ha hbound hvalue (hseed y.origin (List.mem_map_of_mem hy))
    refine ⟨fun x hx hne => ?_, fun x hx ha hne k hk => ?_⟩
    all_goals
      rw [heq] at hx
      rw [hlog]
      obtain ⟨y, hy, rfl⟩ := TsManager.mem_notified hx
    · split at hne
      · next hc =>
        rw [if_pos hc]
        exact (hsnoc y hy hc).mono hle
      · next hc =>
        rw [if_neg hc]
        exact h.received y hy hne
    · have hnew := TsManager.le_revision_nextKnown (m.known? p) v revision
      rw [heq] at hk
      have hk' : (m.store p (TsManager.nextKnown (m.known? p) v revision)).known? _ = some k := hk
      rw [TsManager.known?_store] at hk'
      by_cases hc : y.active = true ∧ y.ref = p ∧ m.knownValue p ≠ v
      · rw [if_pos hc] at hk' ⊢
        rw [if_pos (show p = (y.receive v).ref from hc.2.1.symm),
          Option.ite_none_left_eq_some] at hk'
        cases hk'.2
        exact (hsnoc y hy hc).mono hnew
      · rw [if_neg hc] at ha hne hk' ⊢
        split at hk'
        · next hp =>
          obtain ⟨k', hold, -⟩ := Option.map_eq_some_iff.mp (hheld y hy ha)
          rw [Option.ite_none_left_eq_some] at hk'
          cases hk'.2
          exact (h.active y hy ha hne k' hold).mono
            ((hbound k' (hp ▸ hold)).trans hnew)
        · exact h.active y hy ha hne k hk'

theorem setValues_live (h : TsChron m) (hheld : m.Held) {items : List (Ref × Option String)}
    {revision : Nat} (hle : revision ≤ m.log.length)
    (hrev : ∀ q k, m.known? q = some k → k.revision ≤ revision)
    (hv : ∀ rv ∈ items, valueAt m.log revision rv.1 = rv.2)
    (hseed : Seeded m.log revision (m.handles.map TsHandle.origin)) :
    TsChron (m.setValues items revision false) := by
  refine (TsManager.setValues_induction (I := fun n => (n.log = m.log ∧ n.Held ∧
    (∀ q k, n.known? q = some k → k.revision ≤ revision) ∧
      n.handles.map TsHandle.origin ⊆ m.handles.map TsHandle.origin) ∧ TsChron n) ?_
      ⟨⟨rfl, hheld, hrev, List.Subset.refl _⟩, h⟩).2
  rintro n ⟨⟨hlog, hheldn, hrevn, ho⟩, hn⟩ ⟨p, v⟩ hmem
  refine ⟨⟨(n.log_setValue ..).trans hlog, hheldn.setValue p v revision false, ?_,
    List.Subset.trans (n.origins_setValue ..) ho⟩, ?_⟩
  · exact fun q k hk => TsManager.revision_le_setValue hrevn le_rfl hk
  · refine hn.setValue hheldn (by rw [hlog]; exact hle) (fun k hk _ => hrevn p k hk)
      (fun _ _ _ => ?_)
    rw [hlog]
    exact ⟨hv _ hmem, hseed.mono ho le_rfl⟩

/-- reconcile が続けて書く値。 -/
theorem setValues_stamped (h : TsChron m) (hheld : m.Held) {items : List (Ref × Option String)}
    {revision : Nat} (hle : revision ≤ m.lastRevision) (hlast : m.lastRevision ≤ m.log.length)
    (hs : m.Seeded) (hcond : AlongSteps (fun n rv => n.setValue rv.1 rv.2 revision true)
      (TsManager.StampedWrite revision) m items) :
    TsChron (m.setValues items revision true) := by
  rw [TsManager.setValues_eq_run]
  refine (run_steps_invariant (I := fun n => (n.log = m.log ∧ n.lastRevision = m.lastRevision ∧
    n.Held ∧ n.handles.map TsHandle.origin ⊆ m.handles.map TsHandle.origin) ∧ TsChron n) ?_
    ⟨⟨rfl, rfl, hheld, List.Subset.refl _⟩, h⟩ hcond).2
  rintro n ⟨p, v⟩ hstamp ⟨⟨hlog, hrev, hheldn, ho⟩, hn⟩
  refine ⟨⟨(n.log_setValue ..).trans hlog, ?_, hheldn.setValue p v revision true,
    List.Subset.trans (n.origins_setValue ..) ho⟩, ?_⟩
  · obtain ⟨_, _, heq⟩ := n.setValue_eq p v revision true
    rw [heq]
    exact hrev
  · refine hn.setValue hheldn (by rw [hlog]; exact hle.trans hlast)
      (fun k _ hallow => of_decide_eq_true hallow) (fun hopen hbound hch => ?_)
    obtain ⟨hpos, hvalue⟩ := hstamp (hopen rfl) hbound hch
    -- 退けられない reconcile の revision は、処理し終えた message の revision である
    have hfloor : m.floor ≤ revision := by
      unfold TsManager.floor feedFloor
      rw [if_pos (by omega), ← hrev]
      exact hopen rfl
    exact ⟨hvalue, hlog ▸ Seeded.mono hs ho hfloor⟩

theorem registerParameter (h : TsChron m) (hm : TsInv m) {p : Ref} {initial : String} :
    TsChron (m.registerParameter p initial) := by
  -- 登録されている handle のある path の項は、変わらない
  have hknown : ∀ x ∈ m.handles, x.active = true →
      (m.registerParameter p initial).known? x.ref = m.known? x.ref := by
    intro x hx ha
    unfold TsManager.registerParameter
    cases hk : m.known? p with
    | some k => rfl
    | none =>
      have hne : p ≠ x.ref := by
        intro heq
        have hheld := hm.held x hx ha
        rw [← heq, hk] at hheld
        cases hheld
      show TsManager.known? { m with known := m.known.upsert (p, ⟨initial, true, 0⟩) } x.ref = _
      rw [TsManager.known?_of_upsert rfl, if_neg hne]
  obtain ⟨known, heq⟩ := m.registerParameter_eq p initial
  rw [heq] at hknown ⊢
  refine ⟨fun x hx hne => ?_, fun x hx ha hne k hk => ?_⟩
  all_goals rcases List.mem_append.mp hx with hold | hnew
  · exact h.received x hold hne
  · rw [List.mem_singleton.mp hnew] at hne
    exact absurd rfl hne
  · exact h.active x hold ha hne k ((hknown x hold ha).symm.trans hk)
  · rw [List.mem_singleton.mp hnew] at hne
    exact absurd rfl hne

theorem releaseNamespace (h : TsChron m) (ns : NamespaceRef) : TsChron (m.releaseNamespace ns) := by
  have hknown : ∀ q k, (m.releaseNamespace ns).known? q = some k → m.known? q = some k :=
    fun _ _ hk => Kept.known?_releaseNamespace hk
  obtain ⟨_, _, _, heq⟩ := m.releaseNamespace_eq ns
  rw [heq] at hknown ⊢
  exact h.of_shrink rfl hknown (fun x hx => ⟨x, hx, x.active, rfl, id⟩)

end TsChron

theorem tsChron_step {m : TsManager} {ev : TsEvent} (h : TsChron m) (hm : TsInv m)
    (hs : m.Seeded) (hstamp : m.Stamped ev) : TsChron (tsStep m ev) := by
  generalize hstep : tsStep m ev = m'
  cases tsStep_effect hm hstep with
  | committed e => exact h.commit hm e
  | registered hr => exact (h.registerParameter hm).congr rfl rfl rfl
  | @handleReleased i y _ hy ha hknown =>
    refine TsChron.releaseNamespace ?_ _
    refine h.of_shrink rfl (fun q k hk => ?_) (fun x hx => ?_)
    · rcases hknown q with heq | ⟨hnone, -⟩
      · exact heq.symm.trans hk
      · cases hnone.symm.trans hk
    · rcases List.mem_or_eq_of_mem_set hx with hx | rfl
      · exact ⟨x, hx, x.active, rfl, id⟩
      · exact ⟨y, List.mem_of_getElem? hy, false, rfl, fun _ => ha⟩
  | watcherReleased =>
    refine TsChron.releaseNamespace ?_ _
    exact h.congr rfl rfl rfl
  | @handled _ session items revision generation hle hvalue hfirst =>
    cases items with
    | nil => exact h.congr rfl rfl rfl
    | cons rv rest =>
      have hlast := (hvalue rv List.mem_cons_self).1
      refine TsChron.congr (m := TsManager.setValues { m with session := session } (rv :: rest)
        revision false) ?_ rfl rfl rfl
      refine TsChron.setValues_live (m := { m with session := session })
        (h.congr rfl rfl rfl) hm.held hle
        (fun q k hk => (hm.known_rev q k hk).trans hlast)
        (fun _ hv => (hvalue _ hv).2) (Seeded.mono hs (List.Subset.refl _) ?_)
      exact feedFloor_le hlast (fun _ => hfirst) (Nat.zero_le _)
  | passed ok =>
    obtain ⟨pass, heq⟩ := m.passStep_eq ok
    rw [heq]
    refine TsChron.congr (m := m.setValues _ _ true)
      (h.setValues_stamped hm.held (hm.nextWrites_le _) hm.lastRev_le hs hstamp) rfl rfl rfl
  | _ => exact h.congr rfl rfl rfl

theorem TsManager.chronological {evs : List TsEvent}
    (hcond : AlongSteps tsStep (fun m ev => m.Stamped ev ∧ m.SeedsBehind ev) TsManager.empty evs) :
    (run tsStep TsManager.empty evs).NeverGoesBack := by
  obtain ⟨hm, hs, hc⟩ := run_steps_invariant (I := fun m => TsInv m ∧ m.Seeded ∧ TsChron m)
    (fun _ ev ⟨hstamp, hseed⟩ ⟨hm, hs, hc⟩ =>
      ⟨tsInv_step hm ev, tsSeeded_step hs hm hseed, tsChron_step hc hm hs hstamp⟩)
    ⟨TsInv.empty, fun _ hs => absurd hs List.not_mem_nil, TsChron.empty⟩ hcond
  intro h hh
  by_cases hnil : h.received = []
  · obtain ⟨rev, hle, hval⟩ := hs h.origin (List.mem_map_of_mem hh)
    unfold TsHandle.seen
    rw [hnil]
    exact .singleton (hle.trans hm.floor_le) hval
  · exact hc.received h hh hnil

/-! ## 三つの SDK -/

section Sample

private def sampleOrderParam : Ref := ⟨⟨"prod", "billing"⟩, "limit"⟩

/-- 登録の後に値が変わり、stream が snapshot で知らせる。 -/
private def sampleOrdered : List WatchEvent :=
  [.commit (.parameter sampleOrderParam (some "1")), .prepare 0 sampleOrderParam, .fetch 0 none,
    .register 0, .commit (.parameter sampleOrderParam (some "2")), .subscribe, .answer false,
    .receive, .stream, .stream, .stream, .stream, .stream, .beginPass, .pass true, .pass true,
    .pass true, .pass true]

private def sampleTsOrdered : List TsEvent :=
  [.commit (.parameter sampleOrderParam (some "1")), .fetch 0 sampleOrderParam none, .register 0,
    .commit (.parameter sampleOrderParam (some "2")), .subscribe, .answer false, .receive,
    .beginPass, .pass true, .pass true, .pass true]

/-- reconcile が revision 1 を控えた後に二度書かれ、新しい方の値を読んで知らせた後で、古い方の event が届く。 -/
private def sampleReordered : List WatchEvent :=
  [.commit (.parameter sampleOrderParam (some "1")), .prepare 0 sampleOrderParam, .fetch 0 none,
    .register 0, .subscribe, .answer false, .receive, .stream, .stream, .stream, .beginPass,
    .pass true, .commit (.parameter sampleOrderParam (some "2")),
    .commit (.parameter sampleOrderParam (some "3")), .pass true, .pass true, .pass true,
    .pass true, .pass true, .receive, .stream, .stream]

private def sampleTsReordered : List TsEvent :=
  [.commit (.parameter sampleOrderParam (some "1")), .fetch 0 sampleOrderParam none, .register 0,
    .subscribe, .answer false, .receive, .beginPass,
    .commit (.parameter sampleOrderParam (some "2")),
    .commit (.parameter sampleOrderParam (some "3")), .pass true, .pass true, .pass true, .receive]

private def sampleOrderLog : List Entry :=
  [.parameter sampleOrderParam (some "1"), .parameter sampleOrderParam (some "2"),
    .parameter sampleOrderParam (some "3")]

end Sample

end Kms.Client
