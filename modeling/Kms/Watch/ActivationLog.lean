import Kms.Storage.Protected
import Kms.Storage.ReleaseLog
import Kms.Watch.BacklogExact
import Kms.Watch.ReleaseStream

/-!
# 有効化の履歴と current label

change log の行は保持期限で消えるが、commit された有効化の列 `View.history` に対して、current label はいつでもその系列の
最後の有効化を指す。`SubscribeRelease` の snapshot が正しいのは、この不変条件による。

* `ActivationInv` / `activationInv_call`
* `FeedInv` — 空の store からの run で成り立つ、snapshot と replay の読み出しに要る事実
-/

namespace Kms.Watch

open Kms.Infra Kms.Storage

def ReleaseRegistration.activations (reg : ReleaseRegistration) (history : List ChangeLogModel) :
    List ChangeLogModel :=
  history.filter reg.matches

theorem matches_iff {reg : ReleaseRegistration} {e : ChangeLogModel} :
    reg.matches e = true ↔ (e.resourceType = .configurationRelease ∧ e.ref.ns = reg.ns ∧
      e.ref.key = reg.name ∧ e.schemaVersion = reg.schemaVersion) ∧
        0 < reg.namespaceID ∧ e.namespaceID = reg.namespaceID := by
  rw [ReleaseRegistration.matches, ReleaseRegistration.ofTrack, Bool.and_eq_true,
    decide_eq_true_eq, decide_eq_true_eq]

/-- current label と有効化の履歴。 -/
structure ActivationInv (v : View) : Prop where
  latest : ∀ reg : ReleaseRegistration, 0 < reg.namespaceID →
    (⟨reg.namespaceID, reg.ns⟩ : NamespaceModel) ∈ v.store.namespaces →
      (v.store.releaseLabels.get (reg.key, .current)).map
          (fun l => (l.activationRevision, l.versionNumber)) =
        (reg.activations v.history).getLast?.map (fun e => (e.revision, e.versionNumber))
  versions : ∀ e ∈ v.history, e.resourceType = .configurationRelease → e.versionNumber ≠ 0
  entries : ∀ e ∈ v.history, e.resourceType = .configurationRelease →
    e.namespaceID ≤ v.store.namespaces.seq
  labels : ∀ l ∈ v.store.releaseLabels, l.track.namespaceID ≤ v.store.namespaces.seq

theorem activationInv_empty : ActivationInv View.empty where
  latest := fun _ _ hns => absurd hns (AutoTable.not_mem_empty _)
  versions := fun _ he => absurd he List.not_mem_nil
  entries := fun _ he => absurd he List.not_mem_nil
  labels := fun _ hl => absurd hl (Table.not_mem_empty _)

theorem activations_append_quiet (reg : ReleaseRegistration) {history new : List ChangeLogModel}
    (h : ∀ e ∈ new, e.resourceType ≠ .configurationRelease) :
    reg.activations (history ++ new) = reg.activations history := by
  have hnil : new.filter reg.matches = [] := by
    refine List.filter_eq_nil_iff.mpr (fun e he hm => h e he (matches_iff.mp hm).1.1)
  rw [ReleaseRegistration.activations, List.filter_append, hnil, List.append_nil]
  rfl

section Step

variable {v v' : View} {c : Call}

theorem ActivationInv.quiet {new : List ChangeLogModel} (h : ActivationInv v)
    (hhistory : v'.history = v.history ++ new)
    (hnew : ∀ e ∈ new, e.resourceType ≠ .configurationRelease)
    (hns : v'.store.namespaces = v.store.namespaces)
    (hlabels : v'.store.releaseLabels = v.store.releaseLabels) : ActivationInv v' := by
  have hold : ∀ e ∈ v'.history, e.resourceType = .configurationRelease → e ∈ v.history := by
    intro e he hkind
    rw [hhistory, List.mem_append] at he
    exact he.resolve_right (fun hmem => hnew e hmem hkind)
  refine ⟨fun reg hpos hmem => ?_, fun e he hk => h.versions e (hold e he hk) hk,
    fun e he hk => ?_, fun l hl => ?_⟩
  · rw [hns] at hmem
    rw [hlabels, hhistory, activations_append_quiet reg hnew]
    exact h.latest reg hpos hmem
  · rw [hns]
    exact h.entries e (hold e he hk) hk
  · rw [hlabels] at hl
    rw [hns]
    exact h.labels l hl

theorem ActivationInv.namespaceCreated {ns : NamespaceRef} (h : ActivationInv v)
    (hhistory : v'.history = v.history)
    (hns : v.store.namespaces.insert? (fun id => ⟨id, ns⟩) (fun _ => rfl) =
      some v'.store.namespaces)
    (hlabels : v'.store.releaseLabels = v.store.releaseLabels) : ActivationInv v' := by
  have hseq : v'.store.namespaces.seq = v.store.namespaces.seq + 1 :=
    (AutoTable.insert?_table hns).2
  refine ⟨fun reg hpos hmem => ?_, fun e he hk => h.versions e (hhistory ▸ he) hk,
    fun e he hk => ?_, fun l hl => ?_⟩
  · rw [hlabels, hhistory]
    rcases (AutoTable.mem_insert? hns).mp hmem with hold | hnew
    · exact h.latest reg hpos hold
    · -- 新しい incarnation を指す label も有効化も無い。
      have hid : reg.namespaceID = v.store.namespaces.seq + 1 := congrArg NamespaceModel.id hnew
      have hlabel : v.store.releaseLabels.get (reg.key, .current) = none := by
        cases hg : v.store.releaseLabels.get (reg.key, .current) with
        | none => rfl
        | some l =>
          have hle := h.labels l (Table.mem_of_get hg)
          rw [show l.track = reg.key from congrArg Prod.fst (Table.key_of_get hg)] at hle
          have hle : reg.namespaceID ≤ v.store.namespaces.seq := hle
          omega
      have hnil : reg.activations v.history = [] := by
        refine List.filter_eq_nil_iff.mpr (fun e he hm => ?_)
        obtain ⟨⟨hkind, _⟩, _, heid⟩ := matches_iff.mp hm
        have hle := h.entries e he hkind
        omega
      rw [hlabel, hnil]
      rfl
  · rw [hhistory] at he
    have hle := h.entries e he hk
    omega
  · rw [hlabels] at hl
    have hle := h.labels l hl
    omega

theorem ActivationInv.namespaceDeleted {id : Nat} (h : ActivationInv v)
    (hhistory : v'.history = v.history)
    (hns : v'.store.namespaces = v.store.namespaces.deleteWhere (fun m => decide (m.id = id)))
    (hlabels : v'.store.releaseLabels =
      v.store.releaseLabels.deleteWhere (fun m => decide (m.track.namespaceID = id))) :
    ActivationInv v' := by
  refine ⟨fun reg hpos hmem => ?_, fun e he hk => h.versions e (hhistory ▸ he) hk,
    fun e he hk => ?_, fun l hl => ?_⟩
  · rw [hns, AutoTable.mem_deleteWhere, decide_eq_false_iff_not] at hmem
    have hkeep : v'.store.releaseLabels.get (reg.key, .current) =
        v.store.releaseLabels.get (reg.key, .current) := by
      rw [hlabels, Table.get_deleteWhere]
      cases hg : v.store.releaseLabels.get (reg.key, .current) with
      | none => rfl
      | some l =>
        have htrack : l.track = reg.key := congrArg Prod.fst (Table.key_of_get hg)
        have hne : decide (reg.key.namespaceID = id) = false := decide_eq_false hmem.2
        rw [Option.filter_some, htrack, hne, if_pos (by rfl)]
    rw [hkeep, hhistory]
    exact h.latest reg hpos hmem.1
  · rw [hns]
    exact h.entries e (hhistory ▸ he) hk
  · rw [hlabels, Table.mem_deleteWhere] at hl
    rw [hns]
    exact h.labels l hl.1

theorem ActivationInv.activated {rq : Request} {track : ReleaseTrack} {nsID version : Nat}
    (h : ActivationInv v) (hid : resolveNamespaceID rq v.store track.ns = .ok nsID)
    (hversion : version ≠ 0) (hhistory : v'.history = v.history ++
      [(activationEntry track version).row nsID rq.now (v.store.changeLog.seq + 1)])
    (hns : v'.store.namespaces = v.store.namespaces)
    (hlabels : v'.store.releaseLabels = activatedLabels v.store
      ⟨nsID, track.name, track.schemaVersion⟩ version (v.store.changeLog.seq + 1)) :
    ActivationInv v' := by
  obtain ⟨row, hrow, rfl⟩ := resolveNamespaceID_ok hid
  have hmemrow : row ∈ v.store.namespaces := AutoTable.mem_of_get hrow
  have href : row.ref = track.ns := AutoTable.key_of_get hrow
  refine ⟨fun reg hpos hmem => ?_, fun e he hk => ?_, fun e he hk => ?_, fun l hl => ?_⟩
  · rw [hns] at hmem
    rw [hlabels, get_activatedLabels_current, hhistory, ReleaseRegistration.activations,
      List.filter_append]
    by_cases hkey : (⟨row.id, track.name, track.schemaVersion⟩ : TrackKey) = reg.key
    · -- 同じ id の行は一つなので、登録の名前もこの系列の名前である。
      obtain ⟨hid', hname, hschema⟩ : row.id = reg.namespaceID ∧ track.name = reg.name ∧
          track.schemaVersion = reg.schemaVersion := by
        simpa [ReleaseRegistration.key] using hkey
      have hsame : (⟨reg.namespaceID, reg.ns⟩ : NamespaceModel) = row :=
        v.store.namespaces.id_inj _ hmem row hmemrow hid'.symm
      have hreg : reg.ns = track.ns := by
        rw [← href, ← hsame]
      have hmatch : reg.matches
          ((activationEntry track version).row row.id rq.now (v.store.changeLog.seq + 1)) = true :=
        matches_iff.mpr ⟨⟨rfl, hreg.symm, hname, hschema⟩, hpos, hid'⟩
      rw [if_pos hkey, List.filter_cons_of_pos hmatch, List.filter_nil,
        List.getLast?_append_of_ne_nil _ (List.cons_ne_nil _ _)]
      rfl
    · have hmiss : reg.matches
          ((activationEntry track version).row row.id rq.now (v.store.changeLog.seq + 1)) =
            false := by
        rw [← Bool.not_eq_true, matches_iff]
        rintro ⟨⟨_, _, hname, hschema⟩, _, hid'⟩
        exact hkey (by rw [ReleaseRegistration.key, ← hid', ← hname, ← hschema]; rfl)
      rw [if_neg hkey, List.filter_cons_of_neg (by rw [hmiss]; exact Bool.false_ne_true),
        List.filter_nil, List.append_nil]
      exact h.latest reg hpos hmem
  · rw [hhistory, List.mem_append, List.mem_singleton] at he
    rcases he with he | rfl
    · exact h.versions e he hk
    · exact hversion
  · rw [hns]
    rw [hhistory, List.mem_append, List.mem_singleton] at he
    rcases he with he | rfl
    · exact h.entries e he hk
    · exact v.store.namespaces.id_le row hmemrow
  · rw [hns]
    rw [hlabels] at hl
    unfold activatedLabels at hl
    rcases Table.mem_upsert.mp hl with rfl | ⟨hl, _⟩
    · exact v.store.namespaces.id_le row hmemrow
    · split at hl
      · rcases Table.mem_upsert.mp hl with rfl | ⟨hl, _⟩
        · exact v.store.namespaces.id_le row hmemrow
        · exact h.labels l hl
      · exact h.labels l hl

end Step

/-! ## 到達できる view -/

section

variable [Hashing]

structure FeedInv (v : View) : Prop where
  activation : ActivationInv v
  track : TrackInv v.store
  guarded : ∃ purged, Guarded purged v.store

theorem feedInv_empty : FeedInv View.empty :=
  ⟨activationInv_empty, trackInv_empty, fun _ => False, guarded_empty⟩

variable {v : View} {reg : ReleaseRegistration} {s : Store}

theorem activationInv_call (h : ActivationInv v) (ht : TrackInv v.store) (c : Call) :
    ActivationInv (v.call c) := by
  have hsilent : (step v.store c).changeLog = v.store.changeLog →
      (v.call c).history = v.history := by
    intro hlog
    show v.history ++ committedBy v.store.changeLog (step v.store c).changeLog = _
    rw [hlog, committedBy_eq_nil le_rfl, List.append_nil]
  cases step_feedEffect (s := v.store) (c := c) rfl with
  | quiet hns hlabels hlog => exact h.quiet rfl hlog hns hlabels
  | namespaceCreated ns hns hlabels hlog => exact h.namespaceCreated (hsilent hlog) hns hlabels
  | namespaceDeleted id hns hlabels hlog => exact h.namespaceDeleted (hsilent hlog) hns hlabels
  | activated track nsID version hid htarget hns hlog hlabels =>
    obtain ⟨target, hmem, rfl⟩ := htarget
    refine h.activated hid (ht.versions target hmem) ?_ hns hlabels
    show v.history ++ committedBy v.store.changeLog (step v.store c).changeLog = _
    rw [hlog, committedBy_logChange]

theorem feedInv_call (h : FeedInv v) (c : Call) : FeedInv (v.call c) :=
  ⟨activationInv_call h.activation h.track c, trackInv_step v.store c h.track,
    _, guarded_step rfl h.guarded.choose_spec⟩

theorem feedInv_run (calls : List Call) : FeedInv (run View.call View.empty calls) :=
  run_invariant (I := FeedInv) (fun _ c h => feedInv_call h c) feedInv_empty calls

/-! ## 読み出し -/

omit [Hashing] in
theorem resolve_bound {id : Nat} (h : resolveNamespaceID reg.request s reg.ns = .ok id) :
    id = reg.namespaceID ∧ (⟨reg.namespaceID, reg.ns⟩ : NamespaceModel) ∈ s.namespaces := by
  have hbound : reg.request.incarnation reg.ns = some reg.namespaceID := if_pos rfl
  obtain ⟨m, hm, rfl⟩ := resolveNamespaceID_ok h
  have hid : m.id = reg.namespaceID := by
    unfold resolveNamespaceID at h
    rw [hbound, hm] at h
    by_contra hne
    simp [hne] at h
  have href : m.ref = reg.ns := AutoTable.key_of_get hm
  refine ⟨hid, ?_⟩
  rw [← hid, ← href]
  exact AutoTable.mem_of_get hm

omit [Hashing] in
theorem resolve_bound_error {err : Err}
    (h : resolveNamespaceID reg.request s reg.ns = .error err) : err.is .notFound = false := by
  have hbound : reg.request.incarnation reg.ns = some reg.namespaceID := if_pos rfl
  unfold resolveNamespaceID at h
  rw [hbound] at h
  cases hg : s.namespaces.get reg.ns with
  | none =>
    simp only [hg] at h
    cases h
    rfl
  | some m =>
    simp only [hg] at h
    split at h
    · cases h
    · cases h
      rfl

/-- 有効化の entry と、それを表す release 付きの event。 -/
structure Names (reg : ReleaseRegistration) (e : ChangeLogModel) (ev : ReleaseEvent) : Prop where
  revision : ev.revision = e.revision
  version : ev.version = e.versionNumber
  track : ev.ns = reg.ns ∧ ev.name = reg.name ∧ ev.schemaVersion = reg.schemaVersion ∧
    ev.namespaceID = reg.namespaceID
  release : ∃ rel, ev.release = some rel ∧ rel.track = reg.track ∧ rel.version = e.versionNumber

omit [Hashing] in
/-- 系列の読み出しが返す release は、その系列のその version のものである。 -/
theorem getConfigurationRelease_names {version : Nat}
    {rel : ConfigurationRelease} (hv : version ≠ 0)
    (h : getConfigurationRelease reg.request s reg.track version = .ok rel) :
    rel.track = reg.track ∧ rel.version = version := by
  obtain ⟨nsID, m, _, hm, rfl⟩ := getConfigurationRelease_row hv h
  obtain ⟨htrack, hversion⟩ := track_of_release_key (AutoTable.key_of_get hm)
  have hname : m.name = reg.name := congrArg TrackKey.name htrack
  have hschema : m.schemaVersion = reg.schemaVersion := congrArg TrackKey.schemaVersion htrack
  refine ⟨?_, hversion⟩
  show (⟨reg.ns, m.name, m.schemaVersion⟩ : ReleaseTrack) = ⟨reg.ns, reg.name, reg.schemaVersion⟩
  rw [hname, hschema]

/-- 系列の release の読み出しが成功すれば、それは最後の有効化のものである。 -/
theorem FeedInv.active_ok (h : FeedInv v)
    (hpos : 0 < reg.namespaceID) {active : ActiveConfigurationRelease}
    (hget : getActiveConfigurationRelease reg.request v.store reg.track = .ok active) :
    ∃ e, (reg.activations v.history).getLast? = some e ∧
      active.activationRevision = e.revision ∧ Names reg e (reg.snapshotEvent active) := by
  simp only [getActiveConfigurationRelease, bind_eq_ok_iff, orThrow_eq_ok_iff,
    pure_eq_ok_iff] at hget
  obtain ⟨nsID, hns, cur, hcur, rel, hrel, rfl⟩ := hget
  obtain ⟨rfl, hmem⟩ := resolve_bound hns
  have hlatest := h.activation.latest reg hpos hmem
  rw [show v.store.releaseLabels.get (reg.key, .current) = some cur from hcur] at hlatest
  obtain ⟨e, he, heq⟩ := Option.map_eq_some_iff.mp hlatest.symm
  obtain ⟨hrev, hver⟩ := Prod.mk.inj heq
  obtain ⟨htrack, hversion⟩ :=
    getConfigurationRelease_names (h.track.positive reg.key cur hcur) hrel
  exact ⟨e, he, hrev.symm, hrev.symm, hversion.trans hver.symm, ⟨rfl, rfl, rfl, rfl⟩,
    rel, rfl, htrack, hversion.trans hver.symm⟩

theorem FeedInv.active_notFound (h : FeedInv v)
    (hpos : 0 < reg.namespaceID) {err : Err} (herr : err.is .notFound = true)
    (hget : getActiveConfigurationRelease reg.request v.store reg.track = .error err) :
    reg.activations v.history = [] := by
  cases hns : resolveNamespaceID reg.request v.store reg.ns with
  | error err' =>
    have heq : err' = err := by
      simpa [getActiveConfigurationRelease, ReleaseRegistration.track, hns, bind, Except.bind]
        using hget
    subst heq
    rw [resolve_bound_error hns] at herr
    cases herr
  | ok id =>
    obtain ⟨rfl, hmem⟩ := resolve_bound hns
    have hlatest := h.activation.latest reg hpos hmem
    cases hcur : v.store.releaseLabels.get (reg.key, .current) with
    | none =>
      rw [hcur] at hlatest
      exact List.getLast?_eq_none_iff.mp (Option.map_eq_none_iff.mp hlatest.symm)
    | some cur =>
      -- label の指す release の行は残っているので、読み出しは成功する。
      obtain ⟨purged, hg⟩ := h.guarded
      have hlabel := Table.mem_of_get hcur
      have htrack : cur.track = reg.key := congrArg Prod.fst (Table.key_of_get hcur)
      obtain ⟨row, hrow, _⟩ := hg reg.key cur.versionNumber (Or.inl ⟨cur, hlabel, htrack, rfl⟩)
      have hv := h.track.positive reg.key cur hcur
      have hrel : getConfigurationRelease reg.request v.store reg.track cur.versionNumber =
          .ok (releaseFromModel v.store reg.ns row) := by
        simp only [getConfigurationRelease, if_neg hv, bind_eq_ok_iff, orThrow_eq_ok_iff,
          pure_eq_ok_iff]
        exact ⟨reg.namespaceID, hns, row, hrow, rfl⟩
      have hok : ∃ a, getActiveConfigurationRelease reg.request v.store reg.track = .ok a := by
        simp only [getActiveConfigurationRelease, bind_eq_ok_iff, orThrow_eq_ok_iff,
          pure_eq_ok_iff]
        exact ⟨_, reg.namespaceID, hns, cur, hcur, _, hrel, rfl⟩
      obtain ⟨a, ha⟩ := hok
      rw [ha] at hget
      cases hget

end

end Kms.Watch
