import Kms.Storage.SecretFrame

/-!
# secret の version 番号と label

version 番号は `(namespace の行, key)` ごとの高水位から採番され、高水位は namespace が消えるまで下がらない。label は必ず
実在する version を指し、secret の行は current が指す version の content type と metadata の写しである。

* `highWater_le` — 一歩で高水位は下がらない
* `assigned_increasing` — 採番した番号は run を通して狭義に増える
* `Labelled` — label と写しの不変条件
* `secret_versions_and_labels` — 主定理
-/

namespace Kms.Storage

open Kms.Infra

/-! ## 高水位 -/

variable {s s' : Store} {k : Nat × String} {c : Call} {t : Table SecretLabelModel.key}
  {id version : Nat} {l : SecretLabelModel} {sec' sec : SecretModel}
  {sv' row : SecretVersionModel} {rq : Request} {ref : Ref} {selector : PurgeSelector}
  {test : SecretVersionModel → Except Err Unit}

theorem lastSecretVersion_congr (h : s'.secretHighWater = s.secretHighWater)
    (k : Nat × String) : lastSecretVersion s' k = lastSecretVersion s k := by
  unfold lastSecretVersion
  rw [h]

theorem HighWaterChange.le (h : HighWaterChange s s')
    (hk : (∃ n ∈ s'.namespaces, n.id = k.1) ∨ ∃ sec ∈ s'.secrets, sec.namespaceID = k.1) :
    lastSecretVersion s k ≤ lastSecretVersion s' k := by
  cases h with
  | same h => exact Nat.le_of_eq (lastSecretVersion_congr h k).symm
  | raised k' h =>
    rw [lastSecretVersion_upsert h]
    split
    · next heq =>
      subst heq
      exact Nat.le_succ _
    · exact le_rfl
  | dropped id h hns hsec =>
    have hne : k.1 ≠ id := by
      rcases hk with ⟨n, hn, hid⟩ | ⟨sec, hs, hid⟩
      · rw [← hid]
        exact hns n hn
      · rw [← hid]
        exact hsec sec hs
    unfold lastSecretVersion
    rw [h, Table.get_deleteWhere]
    cases hg : s.secretHighWater.get k with
    | none => exact le_rfl
    | some m =>
      have hm : m.namespaceID ≠ id := by
        rw [show m.namespaceID = k.1 from congrArg Prod.fst (Table.key_of_get hg)]
        exact hne
      rw [Option.filter_some, decide_eq_false hm]
      exact le_rfl

theorem SecretEffect.namespaceOrigin (h : SecretEffect s c s') :
    (∀ n ∈ s'.namespaces, n ∈ s.namespaces ∨ s.namespaces.seq < n.id) ∧
      s.namespaces.seq ≤ s'.namespaces.seq := by
  cases h.delta.outer with
  | neutral h => exact ⟨h.namespacesFresh, h.namespacesSeq⟩
  | namespaceDeleted ns h =>
    obtain ⟨id, _, _, _, rfl⟩ := deleteNamespaceTx_ok_cases h
    exact ⟨fun n hn => Or.inl (AutoTable.mem_deleteWhere.mp hn).1, le_rfl⟩
  | rotated hc h =>
    obtain ⟨keys, _, _, _, rfl⟩ := rotateKEK_ok_cases h
    exact ⟨fun n hn => Or.inl hn, le_rfl⟩
  | logged entry nsID now hs =>
    subst hs
    exact ⟨fun n hn => Or.inl hn, le_rfl⟩

/-! ## 採番 -/

/-- 一つの transaction が採番した version。namespace の行の id と key を添える。 -/
def assigned (s : Store) (c : Call) : Option ((Nat × String) × Nat) :=
  match c.op with
  | .secret (.create p) =>
    match resolveNamespaceID c.rq s p.ref.ns, createSecretVersion c.rq s p with
    | .ok nsID, .ok (out, _) => some ((nsID, p.ref.key), out.1)
    | _, _ => none
  | .secret (.transition p) =>
    match findSecret c.rq s p.ref, transitionSecretVersion c.rq s p with
    | .ok sec, .ok (out, _) => some (sec.key, out.currentVersion)
    | _, _ => none
  | _ => none

/-- run が採番した version の列。 -/
def assignedAlong [Hashing] : Store → List Call → List ((Nat × String) × Nat)
  | _, [] => []
  | s, c :: cs => (assigned s c).toList ++ assignedAlong (step s c) cs

theorem assigned_spec [Hashing] {v : Nat} (h : assigned s c = some (k, v)) :
    (∃ n ∈ s.namespaces, n.id = k.1 ∧ n ∈ (step s c).namespaces) ∧
      v = lastSecretVersion s k + 1 ∧ lastSecretVersion (step s c) k = v := by
  obtain ⟨rq, op⟩ := c
  cases op with
  | secret op =>
    cases op with
    | create p =>
      simp only [assigned] at h
      split at h
      · next nsID out s' hns hok =>
        cases h
        have hstep : step s ⟨rq, .secret (.create p)⟩ = s' := by
          simp only [step, exec, SecretOp.exec, hok, commit]
        obtain ⟨nsID', _, _, _, _, _, _, hns', _, _, _, _, _, _, hout, hs'⟩ :=
          createSecretVersion_ok_cases hok
        have heq : nsID' = nsID := Except.ok.inj (hns'.symm.trans hns)
        subst heq
        obtain ⟨n, hn, hid⟩ := resolveNamespaceID_ok hns
        have hmem := AutoTable.mem_of_get hn
        rw [hstep]
        refine ⟨⟨n, hmem, hid, by rw [hs']; exact hmem⟩, hout, ?_⟩
        rw [lastSecretVersion_upsert (by rw [hs']), if_pos rfl, hout]
      · cases h
    | transition p =>
      simp only [assigned] at h
      split at h
      · next sec out s' hfind hok =>
        cases h
        have hstep : step s ⟨rq, .secret (.transition p)⟩ = s' := by
          simp only [step, exec, SecretOp.exec, hok, commit]
        obtain ⟨nsID, sec', _, hw, _, _, _, _, _,
          hns, hsec, _, _, _, hhw, _, _, _, _, _, hout, hs'⟩ :=
          transitionSecretVersion_ok_cases hok
        have heq : sec = sec' := by
          simp only [findSecret, bind_eq_ok_iff, orThrow_eq_ok_iff] at hfind
          obtain ⟨nsID', hns', hsec'⟩ := hfind
          have hid : nsID' = nsID := Except.ok.inj (hns'.symm.trans hns)
          subst hid
          exact Option.some.inj (hsec'.symm.trans hsec)
        subst heq
        obtain ⟨n, hn, hid⟩ := resolveNamespaceID_ok hns
        have hmem := AutoTable.mem_of_get hn
        have hkey := AutoTable.key_of_get hsec
        rw [hstep]
        refine ⟨⟨n, hmem, hid.trans (congrArg Prod.fst hkey).symm, by rw [hs']; exact hmem⟩, ?_, ?_⟩
        · rw [lastSecretVersion_of_get hhw, hout]
        · rw [lastSecretVersion_upsert (by rw [hs']),
            if_pos (show (sec.namespaceID, sec.name) = sec.key from rfl), hout]
      · cases h
    | _ => cases h
  | _ => cases h

section

variable [Hashing]

variable {s : Store} {cs : List Call}

theorem mem_assignedAlong_cons {c : Call} {a : (Nat × String) × Nat} :
    a ∈ assignedAlong s (c :: cs) ↔
      assigned s c = some a ∨ a ∈ assignedAlong (step s c) cs := by
  simp only [assignedAlong, List.mem_append, Option.mem_toList]

theorem namespace_of_assigned {k : Nat × String} {v : Nat}
    (h : (k, v) ∈ assignedAlong s cs) (hk : k.1 ≤ s.namespaces.seq) :
    ∃ n ∈ s.namespaces, n.id = k.1 := by
  induction cs generalizing s with
  | nil => cases h
  | cons c cs ih =>
    rcases mem_assignedAlong_cons.mp h with hhead | htail
    · obtain ⟨⟨n, hn, hid, _⟩, _⟩ := assigned_spec hhead
      exact ⟨n, hn, hid⟩
    · obtain ⟨horigin, hseq⟩ := (step_secretEffect (s := s) (c := c) rfl).namespaceOrigin
      obtain ⟨n, hn, hid⟩ := ih htail (hk.trans hseq)
      rcases horigin n hn with hold | hlt
      · exact ⟨n, hold, hid⟩
      · omega

theorem lastSecretVersion_lt_assigned {k : Nat × String} {v : Nat}
    (h : (k, v) ∈ assignedAlong s cs) (hk : k.1 ≤ s.namespaces.seq) :
    lastSecretVersion s k < v := by
  induction cs generalizing s with
  | nil => cases h
  | cons c cs ih =>
    rcases mem_assignedAlong_cons.mp h with hhead | htail
    · obtain ⟨_, hv, _⟩ := assigned_spec hhead
      omega
    · have heff := step_secretEffect (s := s) (c := c) rfl
      have hk' := hk.trans heff.namespaceOrigin.2
      have hns := namespace_of_assigned htail hk'
      exact Nat.lt_of_le_of_lt (heff.delta.highWater.le (Or.inl hns)) (ih htail hk')

theorem assigned_increasing (s : Store) (cs : List Call) :
    (assignedAlong s cs).Pairwise (fun a b => a.1 = b.1 → a.2 < b.2) := by
  induction cs generalizing s with
  | nil => exact List.Pairwise.nil
  | cons c cs ih =>
    simp only [assignedAlong]
    cases ha : assigned s c with
    | none => exact ih (step s c)
    | some a =>
      refine List.pairwise_cons.mpr ⟨fun b hb hkey => ?_, ih (step s c)⟩
      obtain ⟨⟨n, _, hid, hn⟩, _, hlast⟩ := assigned_spec ha
      have hle : b.1.1 ≤ (step s c).namespaces.seq := by
        rw [← hkey, ← hid]
        exact (step s c).namespaces.id_le n hn
      have hlt := lastSecretVersion_lt_assigned (k := b.1) (v := b.2) hb hle
      rw [← hkey, hlast] at hlt
      exact hlt

end

/-! ## label の表 -/

theorem get_upsert_label {id' : Nat} {label label' : Label} :
    (t.upsert ⟨id, label, version⟩).get (id', label') =
      if id = id' ∧ label = label' then some ⟨id, label, version⟩ else t.get (id', label') := by
  rw [Table.get_upsert]
  simp only [SecretLabelModel.key, Prod.mk.injEq]

theorem get_movedSecretLabels_current :
    (movedSecretLabels t id version).get (id, .current) = some ⟨id, .current, version⟩ := by
  unfold movedSecretLabels
  split
  · split
    all_goals simp [get_upsert_label]
  · simp [get_upsert_label]

theorem get_movedSecretLabels_previous
    (h : (movedSecretLabels t id version).get (id, .previous) = some l) :
    (∃ old, t.get (id, .current) = some old ∧ old.versionNumber ≠ version ∧
        l.versionNumber = old.versionNumber) ∨
      (t.get (id, .previous) = some l ∧
        ∀ old, t.get (id, .current) = some old → old.versionNumber = version) := by
  unfold movedSecretLabels at h
  cases hold : t.get (id, .current) with
  | none =>
    simp only [hold] at h
    refine Or.inr ⟨by simpa [get_upsert_label] using h, fun old ho => ?_⟩
    cases ho
  | some old =>
    simp only [hold] at h
    by_cases hne : old.versionNumber = version
    · rw [if_neg (not_not.mpr hne)] at h
      refine Or.inr ⟨by simpa [get_upsert_label] using h, fun old' ho => ?_⟩
      cases ho
      exact hne
    · rw [if_pos hne, get_upsert_label, if_pos ⟨rfl, rfl⟩] at h
      cases h
      exact Or.inl ⟨old, rfl, hne, rfl⟩

theorem get_movedSecretLabels_of_ne {id' : Nat} (hne : id ≠ id') (label : Label) :
    (movedSecretLabels t id version).get (id', label) = t.get (id', label) := by
  unfold movedSecretLabels
  split
  · split
    all_goals simp [get_upsert_label, hne]
  · simp [get_upsert_label, hne]

/-! ## 不変条件 -/

/-- secret の行と、current が指す version の行が、同じ content type と metadata を持つ。 -/
def Projects (s : Store) (sec : SecretModel) : Prop :=
  ∃ l sv, s.secretLabels.get (sec.id, .current) = some l ∧
    s.secretVersions.get (sec.id, l.versionNumber) = some sv ∧
    sec.contentType = sv.contentType ∧ sec.metadataJSON = sv.metadataJSON

structure Labelled (s : Store) : Prop where
  housed : Housed s
  projects : ∀ sec ∈ s.secrets, Projects s sec
  points : ∀ l ∈ s.secretLabels, ∃ sv, s.secretVersions.get (l.secretID, l.versionNumber) = some sv
  distinct : ∀ id cur prev, s.secretLabels.get (id, .current) = some cur →
    s.secretLabels.get (id, .previous) = some prev → cur.versionNumber ≠ prev.versionNumber
  nonblank : ∀ sv ∈ s.secretVersions, sv.state ≠ .destroyed →
    sv.contentType ≠ "" ∧ sv.metadataJSON ≠ ""
  highWater : ∀ sec ∈ s.secrets, ∀ sv ∈ s.secretVersions, sv.secretID = sec.id →
    sv.versionNumber ≤ lastSecretVersion s sec.key

theorem Labelled.empty : Labelled Store.empty where
  housed := ⟨(fun _ h => nomatch h), (fun _ h => nomatch h)⟩
  projects := fun _ h => nomatch h
  points := fun _ h => nomatch h
  distinct := fun _ _ _ h => nomatch h
  nonblank := fun _ h => nomatch h
  highWater := fun _ h => nomatch h

/-- label が指すので、その secret の行がある。 -/
theorem Labelled.owner (h : Labelled s) {label : Label}
    (hl : s.secretLabels.get (id, label) = some l) : ∃ sec ∈ s.secrets, sec.id = id := by
  obtain ⟨sv, hsv⟩ := h.points l (Table.mem_of_get hl)
  obtain ⟨sec, hsec, hid⟩ := h.housed.versions sv (Table.mem_of_get hsv)
  have hsid : sv.secretID = l.secretID := congrArg Prod.fst (Table.key_of_get hsv)
  have hlid : l.secretID = id := congrArg Prod.fst (Table.key_of_get hl)
  exact ⟨sec, hsec, hid.trans (hsid.trans hlid)⟩

theorem highWater_of_kept (h : Labelled s) (he : SecretEffect s c s')
    (hsec' : sec' ∈ s'.secrets) {sv : SecretVersionModel}
    (hsv : sv ∈ s.secretVersions) (hkey : sv'.key = sv.key) (hid : sv'.secretID = sec'.id) :
    sv'.versionNumber ≤ lastSecretVersion s' sec'.key := by
  have hsid : sv'.secretID = sv.secretID := congrArg Prod.fst hkey
  obtain ⟨sec, hsec, hown⟩ := h.housed.versions sv hsv
  rcases he.delta.secrets.origin hsec' with ⟨sec₀, hsec₀, hid₀, hkey₀⟩ | ⟨hlt, _⟩
  · have heq : sec₀ = sec := s.secrets.id_inj _ hsec₀ _ hsec
      (hid₀.trans (hid.symm.trans (hsid.trans hown.symm)))
    subst heq
    have hle := h.highWater sec₀ hsec sv hsv hown.symm
    have hver : sv'.versionNumber = sv.versionNumber := congrArg Prod.snd hkey
    have hmono := he.delta.highWater.le (k := sec'.key) (Or.inr ⟨sec', hsec', rfl⟩)
    rw [hkey₀] at hle
    omega
  · have hle := s.secrets.id_le sec hsec
    have : sec.id = sec'.id := hown.trans (hsid.symm.trans hid)
    omega

theorem highWater_step (h : Labelled s) (he : SecretEffect s c s') (hsec' : sec' ∈ s'.secrets)
    (hsv' : sv' ∈ s'.secretVersions) (hid : sv'.secretID = sec'.id) :
    sv'.versionNumber ≤ lastSecretVersion s' sec'.key := by
  cases he.versionOrigin hsv' with
  | kept hsv => exact highWater_of_kept h he hsec' hsv rfl hid
  | restated sv state hsv hlive hst heq
  | rewrapped hc hsv hlive hdek heq =>
    exact highWater_of_kept h he hsec' hsv (by rw [heq]; rfl) hid
  | erased sv hsv hkey her => exact highWater_of_kept h he hsec' hsv hkey hid
  | assigned hc hnew hrow =>
    obtain ⟨sec, hsec, hown, hver⟩ := hrow.owner
    rw [s'.secrets.id_inj _ hsec' _ hsec (hid.symm.trans hown.symm)]
    exact hver.le

theorem nonblank_step (h : Labelled s) (he : SecretEffect s c s')
    (hsv' : sv' ∈ s'.secretVersions) (hst' : sv'.state ≠ .destroyed) :
    sv'.contentType ≠ "" ∧ sv'.metadataJSON ≠ "" := by
  cases he.versionOrigin hsv' with
  | kept hsv => exact h.nonblank sv' hsv hst'
  | restated sv state hsv hlive hst heq
  | rewrapped hc hsv hlive hdek heq =>
    have hold := h.nonblank _ hsv hlive
    rw [heq]
    exact hold
  | erased sv hsv hkey her => exact absurd her.state hst'
  | assigned hc hnew hrow => exact ⟨hrow.contentType, hrow.metadataJSON⟩

/-! ## label の一歩 -/

/-- 一つの transaction が label と、その写しに対してすること。 -/
inductive LabelsChange (s s' : Store) : Prop
  | kept (hsec : s'.secrets = s.secrets) (h : s'.secretLabels = s.secretLabels)
      (hv : ∀ k sv, s.secretVersions.get k = some sv → ∃ sv', s'.secretVersions.get k = some sv' ∧
        sv'.contentType = sv.contentType ∧ sv'.metadataJSON = sv.metadataJSON)
  /-- current を動かし、secret の行をその version の写しにする。 -/
  | moved (id version : Nat) (row : SecretVersionModel)
      (h : s'.secretLabels = movedSecretLabels s.secretLabels id version)
      (hrow : s'.secretVersions.get (id, version) = some row)
      (hv : ∀ k sv, s.secretVersions.get k = some sv → s'.secretVersions.get k = some sv)
      (hsec : ∀ sec' ∈ s'.secrets, (sec'.id = id ∧ sec'.contentType = row.contentType ∧
        sec'.metadataJSON = row.metadataJSON) ∨ (sec' ∈ s.secrets ∧ sec'.id ≠ id))
  | deleted (id : Nat)
      (hsec : s'.secrets = s.secrets.deleteWhere (fun m => decide (m.id = id)))
      (h : s'.secretLabels = s.secretLabels.deleteWhere (fun m => decide (m.secretID = id)))
      (hv : s'.secretVersions = s.secretVersions.deleteWhere (fun m => decide (m.secretID = id)))
  | purged {rq : Request} {ref : Ref} {guard : SecretBindingCASGuard} {selector : PurgeSelector}
      {actor : String} {out : List Nat × Nat}
      (hok : purgeSecretVersions rq s ref guard selector actor = .ok (out, s'))

theorem transitionLabels_eq {new source : Nat}
    (hl : t.get (id, .current) = some l) (hsource : l.versionNumber = source)
    (hne : source ≠ new) : transitionLabels t id new source = movedSecretLabels t id new := by
  unfold transitionLabels movedSecretLabels
  simp only [hl, hsource, if_pos hne]

theorem updateWhere_content {t : Table SecretVersionModel.key} {p : SecretVersionModel → Bool}
    {f : SecretVersionModel → SecretVersionModel} (hf : ∀ m, (f m).key = m.key)
    (hc : ∀ m, (f m).contentType = m.contentType ∧ (f m).metadataJSON = m.metadataJSON)
    (k : Nat × Nat) (sv : SecretVersionModel) (h : t.get k = some sv) :
    ∃ sv', (t.updateWhere p f).get k = some sv' ∧ sv'.contentType = sv.contentType ∧
      sv'.metadataJSON = sv.metadataJSON := by
  rw [Table.get_updateWhere hf, h]
  by_cases hp : p sv = true
  · exact ⟨f sv, congrArg some (if_pos hp), hc sv⟩
  · exact ⟨sv, congrArg some (if_neg hp), rfl, rfl⟩

theorem zeroOr_of_ne {v default : String} (h : v ≠ "") : zeroOr v default = v := if_neg h

theorem labelsChange_created {p : CreateSecretParams} {out : Nat × Nat}
    (hok : createSecretVersion rq s p = .ok (out, s')) : LabelsChange s s' := by
  obtain ⟨nsID, secretID, secrets, _, _, _, _, _, hens, _, _, _, _, hver, _, rfl⟩ :=
    createSecretVersion_ok_cases hok
  have hct : zeroOr p.contentType "application/octet-stream" ≠ "" := zeroOr_ne_empty (by decide)
  have hmd : zeroOr p.metadata "\x7b\x7d" ≠ "" := zeroOr_ne_empty (by decide)
  refine .moved secretID _ _ rfl ((Table.get_insert? hver _).trans (if_pos rfl))
    (fun k sv hsv => Table.get_insert?_of_some hver hsv) (fun sec' hsec' => ?_)
  have hget := ensureSecret_mem hens
  by_cases hid : sec'.id = secretID
  · have heq := secrets.id_inj _ hsec' _ (AutoTable.mem_of_get hget) hid
    subst heq
    exact Or.inl ⟨rfl, (zeroOr_of_ne hct).symm, (zeroOr_of_ne hmd).symm⟩
  · refine Or.inr ⟨?_, hid⟩
    unfold ensureSecret at hens
    cases hg : s.secrets.get (nsID, p.ref.key) with
    | none =>
      simp only [hg, bind_eq_ok_iff, orThrow_eq_ok_iff, pure_eq_ok_iff] at hens
      obtain ⟨t, ht, heq⟩ := hens
      cases heq
      rcases (AutoTable.mem_insert? ht).mp hsec' with hold | rfl
      · exact hold
      · exact absurd rfl hid
    | some sec =>
      simp only [hg, pure_eq_ok_iff] at hens
      cases hens
      rcases touchSecret_cases hsec' with ⟨_, _, hid', rfl⟩ | ⟨hold, _⟩
      · exact absurd hid' hid
      · exact hold

theorem labelsChange_transitioned {p : SecretVersionTransitionParams}
    {out : SecretVersionTransitionResult} (h : Labelled s)
    (hok : transitionSecretVersion rq s p = .ok (out, s')) : LabelsChange s s' := by
  obtain ⟨_, sec, source, hw, _, _, _, _, _, _, hsec, hsrc, ⟨l, hl, hlv⟩, hcheck, hhw, _, _, _, _,
    hver, _, rfl⟩ := transitionSecretVersion_ok_cases hok
  have hmem := Table.mem_of_get hsrc
  have hle := h.highWater sec (AutoTable.mem_of_get hsec) source hmem
    (congrArg Prod.fst (Table.key_of_get hsrc))
  rw [lastSecretVersion_of_get hhw] at hle
  have hlive : source.state ≠ .destroyed := by
    simp only [checkTransitionSource, bind_eq_ok_iff, require_eq_ok_iff] at hcheck
    obtain ⟨_, _, _, hst, _⟩ := hcheck
    exact hst.1
  obtain ⟨hct, hmd⟩ := h.nonblank source hmem hlive
  refine .moved sec.id _ _ (transitionLabels_eq hl hlv (by omega))
    ((Table.get_insert? hver _).trans (if_pos rfl))
    (fun k sv hsv => Table.get_insert?_of_some hver hsv) (fun sec' hsec' => ?_)
  rcases touchSecret_cases hsec' with ⟨sec₀, _, hid, rfl⟩ | hold
  · exact Or.inl ⟨hid, (zeroOr_of_ne hct).symm, (zeroOr_of_ne hmd).symm⟩
  · exact Or.inr hold

theorem SecretEffect.labelsChange (h : Labelled s)
    (he : SecretEffect s c s') : LabelsChange s s' := by
  cases he with
  | neutral h =>
    exact .kept h.secrets h.secretLabels
      (fun k sv hsv => ⟨sv, by rw [h.secretVersions, hsv], rfl, rfl⟩)
  | namespaceDeleted ns h =>
    obtain ⟨id, _, _, _, rfl⟩ := deleteNamespaceTx_ok_cases h
    exact .kept rfl rfl (fun k sv hsv => ⟨sv, hsv, rfl, rfl⟩)
  | rotated hc h =>
    obtain ⟨keys, _, _, _, rfl⟩ := rotateKEK_ok_cases h
    exact .kept rfl rfl (updateWhere_content (fun _ => rfl) (fun _ => ⟨rfl, rfl⟩))
  | created p out hc hok => exact labelsChange_created hok
  | transitioned p out hc hok => exact labelsChange_transitioned h hok
  | stateSet ref version state rev h =>
    obtain ⟨_, _, _, _, _, _, _, rfl⟩ := setSecretVersionState_ok_cases h
    exact .kept rfl rfl (updateWhere_content (fun _ => rfl) (fun _ => ⟨rfl, rfl⟩))
  | destroyed ref version rev h =>
    obtain ⟨_, _, _, _, _, _, _, _, _, _, rfl⟩ := destroySecretVersion_ok_cases h
    exact .kept rfl rfl (updateWhere_content (fun _ => rfl) (fun _ => ⟨rfl, rfl⟩))
  | promoted ref version out h =>
    obtain ⟨_, sec, sv, _, _, _, hsv, rfl⟩ := promoteSecretVersion_ok_cases h
    refine .moved sec.id version sv rfl hsv (fun k sv hsv => hsv) (fun sec' hsec' => ?_)
    rcases touchSecret_cases hsec' with ⟨sec₀, _, hid, rfl⟩ | hold
    · exact Or.inl ⟨hid, rfl, rfl⟩
    · exact Or.inr hold
  | deleted ref rev h =>
    obtain ⟨_, sec, _, _, _, _, rfl⟩ := deleteSecretTx_ok_cases h
    exact .deleted sec.id rfl rfl rfl
  | purged ref guard selector actor out hc h => exact .purged h

theorem get_deleted_version {t : Table SecretVersionModel.key} {k : Nat × Nat}
    {sv : SecretVersionModel} (h : t.get k = some sv) (hne : k.1 ≠ id) :
    (t.deleteWhere (fun m => decide (m.secretID = id))).get k = some sv := by
  have hsid : sv.secretID ≠ id := by
    rw [show sv.secretID = k.1 from congrArg Prod.fst (Table.key_of_get h)]
    exact hne
  rw [Table.get_deleteWhere, h, Option.filter_some, decide_eq_false hsid]
  rfl

theorem points_step (h : Labelled s) (hl : LabelsChange s s') (hmem : l ∈ s'.secretLabels) :
    ∃ sv, s'.secretVersions.get (l.secretID, l.versionNumber) = some sv := by
  cases hl with
  | kept _ heq hv =>
    rw [heq] at hmem
    obtain ⟨sv, hsv⟩ := h.points l hmem
    obtain ⟨sv', hsv', _⟩ := hv _ sv hsv
    exact ⟨sv', hsv'⟩
  | moved id version row heq hrow hv _ =>
    have hold : ∀ l' ∈ s.secretLabels,
        ∃ sv, s'.secretVersions.get (l'.secretID, l'.versionNumber) = some sv := by
      intro l' hl'
      obtain ⟨sv, hsv⟩ := h.points l' hl'
      exact ⟨sv, hv _ sv hsv⟩
    have hget := Table.get_of_mem hmem
    rw [heq] at hget
    by_cases hid : l.secretID = id
    · subst hid
      cases hlab : l.label with
      | current =>
        rw [SecretLabelModel.key, hlab, get_movedSecretLabels_current] at hget
        rw [← Option.some.inj hget]
        exact ⟨row, hrow⟩
      | previous =>
        rw [SecretLabelModel.key, hlab] at hget
        rcases get_movedSecretLabels_previous hget with ⟨old, ho, _, hver⟩ | ⟨hprev, _⟩
        · have hoid : old.secretID = l.secretID := congrArg Prod.fst (Table.key_of_get ho)
          rw [hver, ← hoid]
          exact hold old (Table.mem_of_get ho)
        · exact hold l (Table.mem_of_get hprev)
    · rw [SecretLabelModel.key, get_movedSecretLabels_of_ne (Ne.symm hid)] at hget
      exact hold l (Table.mem_of_get hget)
  | deleted id _ heq hv =>
    rw [heq] at hmem
    obtain ⟨hmem, hne⟩ := Table.mem_deleteWhere.mp hmem
    obtain ⟨sv, hsv⟩ := h.points l hmem
    rw [hv]
    exact ⟨sv, get_deleted_version hsv (of_decide_eq_false hne)⟩
  | purged hok =>
    obtain ⟨_, _, _, _, _, _, _, rfl⟩ := purgeSecretVersions_ok_cases hok
    obtain ⟨sv, hsv⟩ := h.points l hmem
    exact updateWhere_keeps (f := fun m => tombstone m _) (fun _ => rfl) _ sv hsv

theorem distinct_step (h : Labelled s) (hl : LabelsChange s s')
    {cur prev : SecretLabelModel} (hcur : s'.secretLabels.get (id, .current) = some cur)
    (hprev : s'.secretLabels.get (id, .previous) = some prev) :
    cur.versionNumber ≠ prev.versionNumber := by
  cases hl with
  | kept _ heq _ =>
    rw [heq] at hcur hprev
    exact h.distinct id cur prev hcur hprev
  | moved id' version _ heq _ _ _ =>
    rw [heq] at hcur hprev
    by_cases hid : id' = id
    · subst hid
      rw [get_movedSecretLabels_current] at hcur
      cases hcur
      rcases get_movedSecretLabels_previous hprev with ⟨old, _, hne, hver⟩ | ⟨hp, hold⟩
      · rw [hver]
        exact Ne.symm hne
      · -- previous だけが残っていることはない。行があれば current もある。
        obtain ⟨sec, hsec, rfl⟩ := h.owner hp
        obtain ⟨old, _, ho, _⟩ := h.projects sec hsec
        rw [← hold old ho]
        exact h.distinct _ old prev ho hp
    · rw [get_movedSecretLabels_of_ne hid] at hcur hprev
      exact h.distinct id cur prev hcur hprev
  | deleted id' _ heq _ =>
    rw [heq, Table.get_deleteWhere, Option.filter_eq_some_iff] at hcur hprev
    exact h.distinct id cur prev hcur.1 hprev.1
  | purged hok =>
    obtain ⟨_, _, _, _, _, _, _, rfl⟩ := purgeSecretVersions_ok_cases hok
    exact h.distinct id cur prev hcur hprev

/-! ## 写し -/

theorem Projects.congr (h : Projects s sec)
    (hl : s'.secretLabels.get (sec.id, .current) = s.secretLabels.get (sec.id, .current))
    (hv : ∀ v sv, s.secretVersions.get (sec.id, v) = some sv →
      ∃ sv', s'.secretVersions.get (sec.id, v) = some sv' ∧ sv'.contentType = sv.contentType ∧
        sv'.metadataJSON = sv.metadataJSON) : Projects s' sec := by
  obtain ⟨l, sv, hcur, hsv, hct, hmd⟩ := h
  obtain ⟨sv', hsv', hct', hmd'⟩ := hv _ sv hsv
  exact ⟨l, sv', by rw [hl, hcur], hsv', hct.trans hct'.symm, hmd.trans hmd'.symm⟩

theorem projects_purged {guard : SecretBindingCASGuard} {actor : String} {out : List Nat × Nat}
    (h : Labelled s) (hok : purgeSecretVersions rq s ref guard selector actor = .ok (out, s'))
    (hsec' : sec' ∈ s'.secrets) : Projects s' sec' := by
  obtain ⟨_, sec, affected, _, _, _, hsec, rfl⟩ := purgeSecretVersions_ok_cases hok
  obtain ⟨l, row, hl, hrow, _⟩ := h.projects sec (AutoTable.mem_of_get hsec)
  have hkept : ∀ x ∈ s.secrets, (x.id = sec.id → l.versionNumber ∉ affected) →
      Projects { s with
        secretVersions := s.secretVersions.updateWhere (purgeTarget sec.id affected)
          (fun m => tombstone m rq.now) } x := by
    intro x hx hnot
    obtain ⟨lx, svx, hlx, hsvx, hct, hmd⟩ := h.projects x hx
    have hpx : purgeTarget sec.id affected svx = false := by
      have hkey := Table.key_of_get hsvx
      have hsid : svx.secretID = x.id := congrArg Prod.fst hkey
      have hver : svx.versionNumber = lx.versionNumber := congrArg Prod.snd hkey
      unfold purgeTarget
      rw [hsid, hver]
      by_cases hid : x.id = sec.id
      · rw [hid, hl] at hlx
        cases hlx
        simp [hnot hid]
      · simp [hid]
    refine ⟨lx, svx, hlx, ?_, hct, hmd⟩
    show (s.secretVersions.updateWhere _ _).get _ = _
    rw [Table.get_updateWhere (fun _ => by rfl), hsvx, Option.map_some, hpx]
    rfl
  have hsec'' : sec' ∈ purgedSecrets s sec.id affected := hsec'
  unfold purgedSecrets at hsec''
  rw [hl] at hsec''
  by_cases hin : l.versionNumber ∈ affected
  · simp only [if_pos hin] at hsec''
    rcases touchSecret_cases hsec'' with ⟨sec₀, _, hid, rfl⟩ | ⟨hold, hne⟩
    · refine ⟨l, tombstone row rq.now, ?_, ?_, rfl, rfl⟩
      · show s.secretLabels.get (sec₀.id, .current) = some l
        rw [hid, hl]
      · show (s.secretVersions.updateWhere _ _).get (sec₀.id, l.versionNumber) = _
        have hkey := Table.key_of_get hrow
        have ht : purgeTarget sec.id affected row = true := by
          unfold purgeTarget
          rw [show row.secretID = sec.id from congrArg Prod.fst hkey,
            show row.versionNumber = l.versionNumber from congrArg Prod.snd hkey]
          simp [hin]
        rw [hid, Table.get_updateWhere (fun _ => by rfl), hrow, Option.map_some, if_pos ht]
    · exact (hkept sec' hold (fun hid => absurd hid hne)).congr rfl
        (fun v sv hsv => ⟨sv, hsv, rfl, rfl⟩)
  · simp only [if_neg hin] at hsec''
    exact (hkept sec' hsec'' (fun _ => hin)).congr rfl (fun v sv hsv => ⟨sv, hsv, rfl, rfl⟩)

theorem projects_step (h : Labelled s) (hl : LabelsChange s s')
    (hsec' : sec' ∈ s'.secrets) : Projects s' sec' := by
  cases hl with
  | kept hsec heq hv =>
    rw [hsec] at hsec'
    exact (h.projects sec' hsec').congr (by rw [heq]) (fun v sv hsv => hv _ sv hsv)
  | moved id version row heq hrow hv hsec =>
    rcases hsec sec' hsec' with ⟨rfl, hct, hmd⟩ | ⟨hold, hne⟩
    · refine ⟨⟨sec'.id, .current, version⟩, row, ?_, hrow, hct, hmd⟩
      rw [heq]
      exact get_movedSecretLabels_current
    · refine (h.projects sec' hold).congr ?_ (fun v sv hsv => ⟨sv, hv _ sv hsv, rfl, rfl⟩)
      rw [heq]
      exact get_movedSecretLabels_of_ne (Ne.symm hne) .current
  | deleted id hsec heq hv =>
    rw [hsec] at hsec'
    obtain ⟨hold, hne⟩ := AutoTable.mem_deleteWhere.mp hsec'
    have hne' : sec'.id ≠ id := of_decide_eq_false hne
    refine (h.projects sec' hold).congr ?_ (fun v sv hsv => ⟨sv, ?_, rfl, rfl⟩)
    · rw [heq, Table.get_deleteWhere]
      cases hl : s.secretLabels.get (sec'.id, .current) with
      | none => rfl
      | some l =>
        have hlid : l.secretID = sec'.id := congrArg Prod.fst (Table.key_of_get hl)
        simp [hlid, hne']
    · rw [hv]
      exact get_deleted_version hsv hne'
  | purged hok => exact projects_purged h hok hsec'

theorem labelled_step (h : Labelled s) (he : SecretEffect s c s') :
    Labelled s' where
  housed := housed_step he h.housed
  projects := fun _ hsec => projects_step h (he.labelsChange h) hsec
  points := fun _ hl => points_step h (he.labelsChange h) hl
  distinct := fun _ _ _ hcur hprev => distinct_step h (he.labelsChange h) hcur hprev
  nonblank := fun _ hsv hst => nonblank_step h he hsv hst
  highWater := fun _ hsec _ hsv hid => highWater_step h he hsec hsv hid

theorem labelled_run [Hashing] (cs : List Call) : Labelled (run step Store.empty cs) :=
  run_invariant (fun _ _ hi => labelled_step hi (step_secretEffect rfl)) Labelled.empty cs

/-! ## 消去の後 -/

theorem inCohort_mem (h : inCohort s id test version = some row) :
    row ∈ s.secretVersions ∧ row.secretID = id := by
  have hget := (Option.filter_eq_some_iff.mp h).1
  exact ⟨Table.mem_of_get hget, congrArg Prod.fst (Table.key_of_get hget)⟩

theorem PurgeSelector.select_mem {anchor : Nat} {rows : List SecretVersionModel}
    (h : selector.select rq s ref = .ok (sec, anchor, rows))
    (hrow : row ∈ rows) : row ∈ s.secretVersions ∧ row.secretID = sec.id := by
  cases selector with
  | bindingCohort requested test =>
    simp only [select, discoverSecretBindingCohort, bind_eq_ok_iff, pure_eq_ok_iff] at h
    obtain ⟨⟨sec', anchor'⟩, hres, _, _, _, _, _, _, _, _, _, hdown, _, hup, heq⟩ := h
    obtain ⟨_, version, _, _, hanchor, _⟩ := resolveBindingVersion_ok hres
    cases heq
    simp only [List.mem_append, List.mem_singleton, List.mem_reverse] at hrow
    rcases hrow with (hbelow | rfl) | habove
    · obtain ⟨_, hm⟩ := mem_scan hdown hbelow
      split at hm
      · exact inCohort_mem hm
      · cases hm
    · exact ⟨Table.mem_of_get hanchor, congrArg Prod.fst (Table.key_of_get hanchor)⟩
    · obtain ⟨_, hm⟩ := mem_scan hup habove
      exact inCohort_mem hm
  | unboundVersions =>
    simp only [select, discoverSecretUnboundVersions, bind_eq_ok_iff] at h
    obtain ⟨sec', _, h⟩ := h
    split at h
    · cases h
    · next first rest hrows =>
      rw [pure_eq_ok_iff] at h
      cases h
      rw [← hrows, List.mem_insertionSort] at hrow
      obtain ⟨hmem, hsel⟩ := List.mem_filter.mp hrow
      simp only [Bool.and_eq_true, decide_eq_true_eq] at hsel
      exact ⟨hmem, hsel.1.1⟩

/-- 消去は、guard の revision と version が合うときだけ、選んだ行をちょうど tombstone にする。 -/
theorem purgeSecretVersions_spec {guard : SecretBindingCASGuard} {actor : String}
    {affected : List Nat} {rev : Nat}
    (hok : purgeSecretVersions rq s ref guard selector actor = .ok ((affected, rev), s')) :
    ∃ sec, findSecret rq s ref = .ok sec ∧ guard.expectedRevision = s.changeLog.seq ∧
      guard.expectedAffectedVersions = affected ∧
      (∀ v ∈ affected, ∃ row, s.secretVersions.get (sec.id, v) = some row) ∧
      ∀ k, s'.secretVersions.get k = (s.secretVersions.get k).map
        (fun m => if k.1 = sec.id ∧ k.2 ∈ affected then tombstone m rq.now else m) := by
  simp only [purgeSecretVersions, bind_eq_ok_iff, require_eq_ok_iff, pure_eq_ok_iff,
    appendChange] at hok
  obtain ⟨_, _, ⟨sec, anchor, rows⟩, hsel, _, ⟨hseq, haffected⟩, _, _, heq⟩ := hok
  obtain ⟨nsID, hns, hsec⟩ := PurgeSelector.select_ok hsel
  cases heq
  refine ⟨sec, ?_, hseq, haffected, fun v hv => ?_, fun k => ?_⟩
  · simp only [findSecret, bind_eq_ok_iff, orThrow_eq_ok_iff]
    exact ⟨nsID, hns, hsec⟩
  · obtain ⟨row, hrow, rfl⟩ := List.mem_map.mp hv
    obtain ⟨hmem, hid⟩ := PurgeSelector.select_mem hsel hrow
    rw [← hid]
    exact ⟨row, Table.get_of_mem hmem⟩
  · show (s.secretVersions.updateWhere _ _).get k = _
    rw [Table.get_updateWhere (fun _ => by rfl)]
    cases hget : s.secretVersions.get k with
    | none => rfl
    | some row =>
      have hkey : row.key = k := Table.key_of_get hget
      subst hkey
      simp only [Option.map_some, purgeTarget, SecretVersionModel.key, Bool.and_eq_true,
        decide_eq_true_eq]
      congr

theorem purgeSecretVersions_blanks {guard : SecretBindingCASGuard} {actor : String}
    {affected : List Nat} {rev : Nat}
    (hok : purgeSecretVersions rq s ref guard selector actor = .ok ((affected, rev), s')) :
    ∃ sec, findSecret rq s ref = .ok sec ∧ ∀ v ∈ affected, Blanked s' (sec.id, v) := by
  obtain ⟨sec, hfind, _, _, hrows, hget⟩ := purgeSecretVersions_spec hok
  refine ⟨sec, hfind, fun v hv => ?_⟩
  obtain ⟨row, hrow⟩ := hrows v hv
  refine Or.inl ⟨tombstone row rq.now, ?_, rfl, rfl⟩
  rw [hget, hrow, Option.map_some, if_pos ⟨rfl, hv⟩]

theorem Labelled.blank_of_current (h : Labelled s) (hsec : sec ∈ s.secrets)
    (hl : s.secretLabels.get (sec.id, .current) = some l)
    (hb : Blanked s (sec.id, l.versionNumber)) : sec.contentType = "" ∧ sec.metadataJSON = "" := by
  obtain ⟨l', sv, hl', hsv, hct, hmd⟩ := h.projects sec hsec
  rw [hl] at hl'
  cases hl'
  obtain ⟨hct', hmd'⟩ := hb.holds h.housed hsv
  exact ⟨hct.trans hct', hmd.trans hmd'⟩

/-! ## 主定理 -/

section

variable [Hashing]

theorem blanked_run {s : Store} (h : Labelled s) {key : Nat × Nat} (hb : Blanked s key)
    (cs : List Call) : Blanked (run step s cs) key := by
  have hinv : ∀ s c, (Labelled s ∧ Blanked s key) → Labelled (step s c) ∧ Blanked (step s c) key :=
    fun s c hi => ⟨labelled_step hi.1 (step_secretEffect rfl),
      blanked_step (step_secretEffect rfl) hi.1.housed hi.2⟩
  exact (run_invariant hinv ⟨h, hb⟩ cs).2

/--
空の store からの全ての run で、採番は namespace の行と key ごとに狭義に増え、secret の行には current
の label があり、label は同じ secret の実在する version を指し、current と previous は異なる version を
指し、secret の行は current の version の写しである。消去が commit したなら、その後ずっと、current が
消去した version を指す間は写しも空である。
-/
theorem secret_versions_and_labels (cs : List Call) :
    (assignedAlong Store.empty cs).Pairwise (fun a b => a.1 = b.1 → a.2 < b.2) ∧
      (∀ sec ∈ (run step Store.empty cs).secrets, ∃ l sv,
        (run step Store.empty cs).secretLabels.get (sec.id, .current) = some l ∧
        (run step Store.empty cs).secretVersions.get (sec.id, l.versionNumber) = some sv ∧
        sec.contentType = sv.contentType ∧ sec.metadataJSON = sv.metadataJSON) ∧
      (∀ l ∈ (run step Store.empty cs).secretLabels, ∃ sv,
        (run step Store.empty cs).secretVersions.get (l.secretID, l.versionNumber) = some sv) ∧
      (∀ id cur prev, (run step Store.empty cs).secretLabels.get (id, .current) = some cur →
        (run step Store.empty cs).secretLabels.get (id, .previous) = some prev →
        cur.versionNumber ≠ prev.versionNumber) ∧
      (∀ rq ref guard selector actor affected rev s',
        purgeSecretVersions rq (run step Store.empty cs) ref guard selector actor =
          .ok ((affected, rev), s') →
        ∃ old, findSecret rq (run step Store.empty cs) ref = .ok old ∧
          ∀ more, ∀ sec ∈ (run step s' more).secrets, sec.id = old.id →
            ∀ l, (run step s' more).secretLabels.get (sec.id, .current) = some l →
              l.versionNumber ∈ affected → sec.contentType = "" ∧ sec.metadataJSON = "") := by
  have hinv := labelled_run cs
  refine ⟨assigned_increasing _ cs, hinv.projects, hinv.points, hinv.distinct, ?_⟩
  intro rq ref guard selector actor affected rev s' hok
  obtain ⟨old, hfind, hblank⟩ := purgeSecretVersions_blanks hok
  refine ⟨old, hfind, fun more sec hsec hid l hl hv => ?_⟩
  -- 消去そのものも run の一歩なので、不変条件は `s'` でも成り立つ。
  have hinv' : Labelled s' := by
    have hstep :
        step (run step Store.empty cs) ⟨rq, .secret (.purge ref guard selector actor)⟩ = s' := by
      simp only [step, exec, SecretOp.exec, hok, commit]
    rw [← hstep]
    exact labelled_step hinv (step_secretEffect rfl)
  have hlast : Labelled (run step s' more) :=
    run_invariant (fun _ _ hi => labelled_step hi (step_secretEffect rfl)) hinv' more
  refine hlast.blank_of_current hsec hl ?_
  rw [hid]
  exact blanked_run hinv' (hblank _ hv) more

end

end Kms.Storage
