import Kms.Core.World

/-!
# 保存した secret は開け続けられる

破棄されていない全ての version は、active な KEK の下に、渡された平文と binding key で封じられている。書き込みは active な KEK の
id を transaction の中で確かめ、交換は全ての行を一度に包み直すので、古い keyring や古い書き込みがあっても崩れない。

* `SealInv` — 不変条件
* `sealInv_put` / `sealInv_transition` / `sealInv_rotate` / `sealInv_other` — 一歩で保たれる
* `secrets_stay_decryptable` — 主定理
-/

namespace Kms.Core

open Kms.Infra Kms.Storage Kms.Crypto

section

variable {C : Cipher keySize}

/-! ## 封じられた行 -/

/-- 行が、渡された平文と binding key で、この KEK の下に封じられている。 -/
structure SealedRow (s : Store) (kek : KEK C) (v : Option (Bytes × String))
    (sv : SecretVersionModel) (ref : Ref) (plaintext : Bytes) (bindingKey : String) : Prop where
  kekID : sv.kekID = kek.id
  owner : VersionRef s sv ref
  supplied : v = some (plaintext, bindingKey)
  aad : sv.aad = buildAAD ref.ns ref.key sv.versionNumber
  bound : sv.bound = decide (bindingKey ≠ "")
  sealed : ∀ b, Sealed C kek.key plaintext bindingKey (rowInput sv sv.aad b)

structure SealInv (w : World C) (active : KeyMetadataModel) (kek : KEK C) : Prop where
  onlyActive : OnlyActive w.store active
  genuine : Genuine active kek
  rings : ∀ p ring, w.rings p = some ring → Registered w.store ring.active
  writers : ∀ i p k, w.writers i = some (p, k) → Registered w.store k
  housed : Housed w.store
  rows : ∀ sv ∈ w.store.secretVersions, sv.state ≠ .destroyed →
    ∃ ref plaintext bindingKey,
      SealedRow w.store kek (w.supplied sv.key) sv ref plaintext bindingKey
  erased : ∀ sv ∈ w.store.secretVersions, sv.state = .destroyed → Erased sv
  caKeys : ∀ ca ∈ w.store.caKeys, ca.kekID = active.id

/-- 最初の状態。KEK が一つ登録され、secret はまだ無い。 -/
structure Initialised (w : World C) (active : KeyMetadataModel) (kek : KEK C) : Prop where
  onlyActive : OnlyActive w.store active
  genuine : Genuine active kek
  rings : ∀ p, w.rings p = none
  writers : ∀ i, w.writers i = none
  secrets : ∀ sec, sec ∉ w.store.secrets
  versions : ∀ sv, sv ∉ w.store.secretVersions
  caKeys : ∀ ca ∈ w.store.caKeys, ca.kekID = active.id

variable {w : World C} {active : KeyMetadataModel} {kek : KEK C} {p : EncryptedPayload}
  {s s' : Store} {ref : Ref} {plaintext : Bytes} {bindingKey id : String} {version : Nat}
  {sv : SecretVersionModel} {v : Option (Bytes × String)} {c : Call} {ring : Keyring C}

theorem Initialised.sealInv (h : Initialised w active kek) : SealInv w active kek where
  onlyActive := h.onlyActive
  genuine := h.genuine
  rings := fun p ring hr => by rw [h.rings p] at hr; cases hr
  writers := fun i p k hw => by rw [h.writers i] at hw; cases hw
  housed := ⟨fun sv hsv => absurd hsv (h.versions sv), fun sec hsec => absurd hsec (h.secrets sec)⟩
  rows := fun sv hsv => absurd hsv (h.versions sv)
  erased := fun sv hsv => absurd hsv (h.versions sv)
  caKeys := h.caKeys

/-! ## 行を作る -/

theorem rowInput_secretVersionRow (hmode : p.wrapMode ≠ .other "")
    (id version : Nat) (contentType metadata createdBy : String) (bound : Bool)
    (state : VersionState) (expiresAt : Option Time) (b : String) :
    rowInput (secretVersionRow id version contentType metadata createdBy bound state expiresAt p)
      p.aad b = payloadInput p b := by
  simp only [rowInput, secretVersionRow, payloadInput, WrapMode.orStandard, if_neg hmode]

/-- 封じた payload から作った行は、封じられた行である。 -/
theorem sealedRow_new {p : EncryptedPayload} {id : Nat}
    {contentType metadata createdBy : String} {bound : Bool} {state : VersionState}
    {expiresAt : Option Time}
    (hsv : sv = secretVersionRow id version contentType metadata createdBy bound state expiresAt p)
    (hkek : p.kekID = kek.id) (hmode : p.wrapMode ≠ .other "")
    (haad : p.aad = buildAAD ref.ns ref.key version)
    (hsealed : ∀ b, Sealed C kek.key plaintext bindingKey (payloadInput p b))
    (hbound : bound = decide (bindingKey ≠ "")) (href : VersionRef s sv ref)
    (hv : v = some (plaintext, bindingKey)) :
    SealedRow s kek v sv ref plaintext bindingKey := by
  subst hsv
  refine ⟨hkek, href, hv, haad, hbound, fun b => ?_⟩
  show Sealed C kek.key plaintext bindingKey (rowInput _ p.aad b)
  rw [rowInput_secretVersionRow hmode]
  exact hsealed b

/-- 前からある行は、鍵と記録が変わらなければ、封じられたままである。 -/
theorem SealedRow.step {sv' : SecretVersionModel}
    (h : SealedRow s kek v sv ref plaintext bindingKey) (he : SecretEffect s c s')
    (hsv' : sv' ∈ s'.secretVersions) {state : VersionState} (heq : sv' = { sv with state }) :
    SealedRow s' kek v sv' ref plaintext bindingKey := by
  subst heq
  exact ⟨h.kekID, h.owner.step he hsv' rfl, h.supplied, h.aad, h.bound, h.sealed⟩

/-! ## 記録 -/

theorem noteSupplied_old {supplied : Nat × Nat → Option (Bytes × String)}
    (h : sv ∈ s.secretVersions) : noteSupplied s s' v supplied sv.key = supplied sv.key := by
  unfold noteSupplied
  rw [if_neg]
  rw [Table.get_of_mem h]
  exact fun hn => Bool.noConfusion hn.1

theorem noteSupplied_new {supplied : Nat × Nat → Option (Bytes × String)}
    (hnone : s.secretVersions.get sv.key = none) (h : sv ∈ s'.secretVersions) :
    noteSupplied s s' v supplied sv.key = v := by
  unfold noteSupplied
  rw [if_pos]
  rw [hnone, Table.get_of_mem h]
  exact ⟨rfl, rfl⟩

/-! ## 書き込み -/

theorem encryptValue_sealed {r : Fresh} {value : Bytes} {version : Nat}
    (h : encryptValue kek r ref value bindingKey version = .ok p) :
    (∀ b, Sealed C kek.key value bindingKey (payloadInput p b)) ∧ p.kekID = kek.id ∧
      p.aad = buildAAD ref.ns ref.key version := by
  simp only [encryptValue, mapError_eq_ok_iff] at h
  by_cases hb : bindingKey = ""
  · subst hb
    rw [if_pos rfl] at h
    exact ⟨fun b => (encrypt_sealed (b := b) h).1, (encrypt_sealed (b := "") h).2⟩
  · rw [if_neg hb] at h
    exact ⟨fun b => (encryptBindingKey_sealed (b := b) h).1,
      (encryptBindingKey_sealed (b := "") h).2⟩

/-- 新しい version を一つだけ加える書き込み。 -/
theorem sealInv_write (h : SealInv w active kek) (he : SecretEffect w.store c s') (i : Nat)
    {row : SecretVersionModel}
    (hkeys : s'.keyMetadata = w.store.keyMetadata) (hca : s'.caKeys = w.store.caKeys)
    (hins : w.store.secretVersions.insert? row = some s'.secretVersions)
    (hlive : row.state ≠ .destroyed)
    (hrow : ∃ ref plaintext bindingKey, SealedRow s' kek v row ref plaintext bindingKey) :
    SealInv { w.release i with
      store := s', supplied := noteSupplied w.store s' v w.supplied } active kek := by
  have hmem : ∀ {sv}, sv ∈ s'.secretVersions → sv ∈ w.store.secretVersions ∨ sv = row :=
    fun hsv => (Table.mem_insert? hins).mp hsv
  refine ⟨⟨?_, h.onlyActive.state, ?_⟩, h.genuine, ?_, ?_, housed_step he h.housed, ?_, ?_, ?_⟩
  · rw [hkeys]
    exact h.onlyActive.mem
  · rw [hkeys]
    exact h.onlyActive.unique
  · intro p ring hr
    obtain ⟨km, hkm, hg⟩ := h.rings p ring hr
    exact ⟨km, hkeys ▸ hkm, hg⟩
  · intro j p k hw
    simp only [World.release, Function.update_apply] at hw
    split at hw
    · cases hw
    · obtain ⟨km, hkm, hg⟩ := h.writers j p k hw
      exact ⟨km, hkeys ▸ hkm, hg⟩
  · intro sv hsv hst
    rcases hmem hsv with hold | rfl
    · obtain ⟨ref, plaintext, bindingKey, hs⟩ := h.rows sv hold hst
      refine ⟨ref, plaintext, bindingKey, ?_⟩
      show SealedRow s' kek (noteSupplied w.store s' v w.supplied sv.key) sv _ _ _
      rw [noteSupplied_old hold]
      exact hs.step he hsv rfl
    · show ∃ ref plaintext bindingKey,
        SealedRow s' kek (noteSupplied w.store s' v w.supplied sv.key) sv _ _ _
      rw [noteSupplied_new (Table.insert?_eq_some_iff.mp hins).1 hsv]
      exact hrow
  · intro sv hsv hd
    rcases hmem hsv with hold | rfl
    · exact h.erased sv hold hd
    · exact absurd hd hlive
  · intro ca hca'
    rw [hca] at hca'
    exact h.caKeys ca hca'

theorem SealInv.release
    (h : SealInv w active kek) (i : Nat) : SealInv (w.release i) active kek := by
  refine ⟨h.onlyActive, h.genuine, h.rings, fun j p k hw => ?_, h.housed, h.rows, h.erased,
    h.caKeys⟩
  simp only [World.release, Function.update_apply] at hw
  split at hw
  · cases hw
  · exact h.writers j p k hw

theorem SealInv.kek_eq {km : KeyMetadataModel} {kek' : KEK C}
    (h : SealInv w active kek) (hreg : Registered w.store kek')
    (hactive : activeKey w.store = some km) (hid : kek'.id = km.id) : kek' = kek := by
  have hkm := h.onlyActive.of_activeKey hactive
  subst hkm
  exact hreg.eq_active h.onlyActive.mem h.genuine hid

theorem sealInv_finish {α : Type}
    (h : SealInv w active kek) {i : Nat} {result : Except Err (α × Store)}
    (hok : ∀ out s', result = .ok (out, s') → SealInv { w.release i with
      store := s', supplied := noteSupplied w.store s' v w.supplied } active kek) :
    SealInv (w.finish i result v) active kek := by
  cases result with
  | error e => exact h.release i
  | ok out => exact hok out.1 out.2 rfl

theorem sealInv_put
    (h : SealInv w active kek) (i : Nat) (rq : Request) (r : Fresh) (input : PutSecretInput) :
    SealInv (w.put i rq r input) active kek := by
  unfold World.put
  split
  · exact h
  · next p kek' hw =>
    refine sealInv_finish h (fun out s' hput => ?_)
    have hcreate := putSecret_ok hput
    have he : SecretEffect w.store ⟨rq, .secret (.create _)⟩ s' := .created _ out rfl hcreate
    obtain ⟨nsID, secretID, secrets, payload, km, versions, entry, hns, hens, henc, _, hact, hkid,
      hver, _, hs'⟩ := createSecretVersion_ok_cases hcreate
    obtain ⟨hsealed, hpk, haad⟩ := encryptValue_sealed henc
    have hk := h.kek_eq (h.writers i p kek' hw) hact (hpk.symm.trans hkid)
    subst hk
    refine sealInv_write h he i (by rw [hs']) (by rw [hs']) (by rw [hs']; exact hver)
      VersionState.noConfusion ⟨input.ref, input.value, input.bindingKey, ?_⟩
    refine sealedRow_new rfl hpk ((hsealed "").wrapMode_ne) haad hsealed rfl ?_ rfl
    obtain ⟨n, hn, hnid⟩ := resolveNamespaceID_ok hns
    have hsec := AutoTable.mem_of_get (ensureSecret_mem hens)
    refine ⟨_, by rw [hs']; exact hsec, n, by rw [hs']; exact AutoTable.mem_of_get hn, rfl, hnid,
      ?_⟩
    rw [show n.ref = input.ref.ns from AutoTable.key_of_get hn]
    rfl

/-! ## 遷移 -/

/-- 遷移は、元の version に渡された平文を、新しい binding key で封じ直す。 -/
theorem transitionEncrypt_sealed {activeKEK : KEK C} {r : Fresh}
    {kind : SecretTransitionKind} {input : TransitionInput} {source : SecretVersionModel}
    {plaintext : Bytes}
    (hs : SealedRow s kek v source input.ref plaintext bindingKey)
    (hunbind : kind = .unbind → input.newBindingKey = "")
    (h : transitionEncrypt ring activeKEK r kind input source version = .ok p) :
    (∀ b, Sealed C activeKEK.key plaintext input.newBindingKey (payloadInput p b)) ∧
      p.kekID = activeKEK.id ∧ p.aad = buildAAD input.ref.ns input.ref.key version ∧
      kind.targetBound = decide (input.newBindingKey ≠ "") := by
  simp only [transitionEncrypt, bind_eq_ok_iff, mapError_eq_ok_iff] at h
  obtain ⟨sourceKEK, _, plaintext', hdec, _, _, henc⟩ := h
  rw [← hs.aad] at hdec
  obtain ⟨_, rfl, _⟩ := (hs.sealed input.oldBindingKey).decrypt_eq_ok hdec
  by_cases hk : kind = .unbind
  · rw [if_pos hk] at henc
    rw [hunbind hk, hk]
    exact ⟨fun b => (encrypt_sealed (b := b) henc).1, (encrypt_sealed (b := "") henc).2.1,
      (encrypt_sealed (b := "") henc).2.2, rfl⟩
  · rw [if_neg hk] at henc
    have hne : input.newBindingKey ≠ "" := by
      simp only [encryptBindingKey, bind_eq_ok_iff] at henc
      obtain ⟨_, hval, _⟩ := henc
      exact ne_empty_of_validateBindingKey hval
    refine ⟨fun b => (encryptBindingKey_sealed (b := b) henc).1,
      (encryptBindingKey_sealed (b := "") henc).2.1,
      (encryptBindingKey_sealed (b := "") henc).2.2, ?_⟩
    rw [decide_eq_true hne]
    cases kind with
    | bind => rfl
    | rotate => rfl
    | unbind => exact absurd rfl hk

theorem checkTransitionSource_ok {p : SecretVersionTransitionParams} {source : SecretVersionModel}
    (h : checkTransitionSource p source = .ok ()) :
    source.versionNumber = p.expectedCurrentVersion ∧ source.state ≠ .destroyed := by
  simp only [checkTransitionSource, bind_eq_ok_iff, require_eq_ok_iff] at h
  obtain ⟨_, hver, _, hst, _⟩ := h
  exact ⟨hver, hst.1⟩

theorem sealInv_transition
    (h : SealInv w active kek) (i : Nat) (rq : Request) (r : Fresh) (kind : SecretTransitionKind)
    (input : TransitionInput) : SealInv (w.transition i rq r kind input) active kek := by
  unfold World.transition
  split
  · exact h
  · next p kek' hw =>
    split
    · exact h
    · next ring hring =>
      refine sealInv_finish h (fun out s' htr => ?_)
      obtain ⟨input', href, hexp, hnew, htx⟩ := transitionSecret_ok htr
      have he : SecretEffect w.store ⟨rq, .secret (.transition _)⟩ s' :=
        .transitioned _ out rfl htx
      obtain ⟨nsID, sec, source, hw', payload, km, versions, entry, _, hns, hsec, hsrc, _, hcheck,
        _, henc, _, hact, hkid, hver, _, hs'⟩ := transitionSecretVersion_ok_cases htx
      obtain ⟨hexp', hlive⟩ := checkTransitionSource_ok hcheck
      obtain ⟨ref, plaintext, bindingKey, hrow⟩ := h.rows source (Table.mem_of_get hsrc) hlive
      obtain ⟨n, hn, hnid⟩ := resolveNamespaceID_ok hns
      -- 元の行の同一性は、要求の参照である。
      have hown : VersionRef w.store source input'.ref := by
        have hkey := AutoTable.key_of_get hsec
        refine ⟨sec, AutoTable.mem_of_get hsec, n, AutoTable.mem_of_get hn,
          (congrArg Prod.fst (Table.key_of_get hsrc)).symm,
          hnid.trans (congrArg Prod.fst hkey).symm, ?_⟩
        rw [show sec.name = input'.ref.key from congrArg Prod.snd hkey,
          show n.ref = input'.ref.ns from AutoTable.key_of_get hn]
      have hrefeq : input'.ref = ref := hrow.owner.unique hown
      subst hrefeq
      obtain ⟨hsealed, hpk, haad, hbound⟩ :=
        transitionEncrypt_sealed hrow (fun hk => by rw [hnew, if_pos hk]) henc
      have hk := h.kek_eq (h.writers i p kek' hw) hact (hpk.symm.trans hkid)
      subst hk
      rw [show versions = s'.secretVersions by rw [hs']] at hver
      refine sealInv_write h he i (by rw [hs']) (by rw [hs']) hver hlive
        ⟨input'.ref, plaintext, input'.newBindingKey, ?_⟩
      refine sealedRow_new rfl hpk ((hsealed "").wrapMode_ne) haad hsealed hbound ?_ ?_
      · exact hown.step he ((Table.mem_insert? hver).mpr (Or.inr rfl))
          (congrArg Prod.fst (Table.key_of_get hsrc)).symm
      · have hfind : findSecret rq w.store input.ref = .ok sec := by
          simp only [findSecret, bind_eq_ok_iff, orThrow_eq_ok_iff]
          rw [← href]
          exact ⟨nsID, hns, hsec⟩
        have hsup : w.supplied (sec.id, input.expectedCurrentVersion) =
            some (plaintext, bindingKey) := by
          rw [← hrow.supplied, ← hexp, Table.key_of_get hsrc, hexp']
          rfl
        rw [suppliedByTransition, hfind]
        simp only [hsup, Option.map_some, hnew]

/-! ## KEK の交換 -/

theorem Registered.of_activated {keys : Table KeyMetadataModel.id} (h : ∃ km ∈ keys, Genuine km kek)
    (hs' : s'.keyMetadata = activateKey keys id) : Registered s' kek := by
  obtain ⟨km, hkm, hg⟩ := h
  refine ⟨if decide (km.id ≠ id) then { km with state := .retired } else km, ?_, ?_⟩
  · rw [hs']
    exact (Table.mem_updateWhere (fun _ => by rfl)).mpr ⟨km, hkm, rfl⟩
  · split
    all_goals exact hg

theorem onlyActive_rotate {keyCheck : Bytes} {createdAt : Time} {keys : Table KeyMetadataModel.id}
    (hk : s.keyMetadata.insert? ⟨id, keyCheck, .active, createdAt⟩ = some keys)
    (hs' : s'.keyMetadata = activateKey keys id) :
    OnlyActive s' ⟨id, keyCheck, .active, createdAt⟩ := by
  have hnew : (⟨id, keyCheck, .active, createdAt⟩ : KeyMetadataModel) ∈ keys :=
    (Table.mem_insert? hk).mpr (Or.inr rfl)
  refine ⟨?_, rfl, fun km hkm hst => ?_⟩
  · rw [hs']
    refine (Table.mem_updateWhere (fun _ => by rfl)).mpr ⟨_, hnew, ?_⟩
    simp
  · rw [hs'] at hkm
    obtain ⟨km₀, hkm₀, rfl⟩ := (Table.mem_updateWhere (fun _ => by rfl)).mp hkm
    by_cases hid : km₀.id = id
    · rw [if_neg (by simpa using hid)]
      exact Table.eq_of_key_eq hkm₀ hnew hid
    · rw [if_pos (by simpa using hid)] at hst
      cases hst

theorem sealedRow_rewrap {newKEK : KEK C} {sv : SecretVersionModel} {nonce : Nonce} {dek : Bytes}
    (h : SealedRow s kek v sv ref plaintext bindingKey) (he : SecretEffect s c s')
    (hr : rewrapRow ring newKEK sv.kekID sv.encryptedDEK sv.aad nonce = .ok dek)
    (hmem : { sv with encryptedDEK := dek, kekID := newKEK.id } ∈ s'.secretVersions) :
    SealedRow s' newKEK v { sv with encryptedDEK := dek, kekID := newKEK.id } ref plaintext
      bindingKey := by
  simp only [rewrapRow, bind_eq_ok_iff, mapError_eq_ok_iff] at hr
  obtain ⟨oldKEK, _, hdek⟩ := hr
  exact ⟨rfl, h.owner.step he hmem rfl, h.supplied, h.aad, h.bound,
    fun b => (h.sealed b).rewrap nonce.length hdek⟩

theorem rotateMasterKey_cases {ring' : Keyring C} {material : Bytes}
    {createdAt : Time} {nonces : RotationNonces} {result : Except Err ((Nat × Nat) × Store)}
    (h : rotateMasterKey s ring id material createdAt nonces = (result, ring')) :
    (∃ e, result = .error e ∧ ring'.active = ring.active) ∨
      ∃ newKEK out s', result = .ok (out, s') ∧ newKEK.id = id ∧ ring'.active = newKEK ∧
        rotateKEK s id (newKeyCheck C newKEK nonces.keyCheck) createdAt
          (fun rec => rewrapRow (ring.add newKEK) newKEK rec.kekID rec.encryptedDEK rec.aad
            (nonces.secret rec))
          (fun rec => rewrapRow (ring.add newKEK) newKEK rec.kekID rec.encryptedDEK
            (caKeyAAD rec.id) (nonces.ca rec)) = .ok (out, s') := by
  unfold rotateMasterKey at h
  split at h
  · next e _ =>
    cases h
    exact Or.inl ⟨e, rfl, rfl⟩
  · next newKEK hnew =>
    simp only at h
    split at h
    · next out hrot =>
      cases h
      exact Or.inr ⟨newKEK, out.1, out.2, rfl, newKEKFromMaterial_id hnew, rfl, hrot⟩
    · next e _ =>
      cases h
      exact Or.inl ⟨e, rfl, rfl⟩

/-- keyring の active が登録済みのままなら、失敗した交換は不変条件を保つ。 -/
theorem SealInv.setRing (h : SealInv w active kek) (p : Nat)
    (hring : Registered w.store ring.active) :
    SealInv { w with rings := Function.update w.rings p (some ring) } active kek := by
  refine ⟨h.onlyActive, h.genuine, fun q ring' hr => ?_, h.writers, h.housed, h.rows, h.erased,
    h.caKeys⟩
  simp only [Function.update_apply] at hr
  split at hr
  · cases hr
    exact hring
  · exact h.rings q ring' hr

theorem sealInv_rotate
    (h : SealInv w active kek) (p : Nat) (id : String) (material : Bytes) (createdAt : Time)
    (nonces : RotationNonces) :
    ∃ active' kek', SealInv (w.rotate p id material createdAt nonces) active' kek' := by
  unfold World.rotate
  split
  · exact ⟨active, kek, h⟩
  · next ring hring =>
    split
    · next out s' ring' hrot =>
      rcases rotateMasterKey_cases hrot with ⟨e, he, _⟩ | ⟨newKEK, out', s'', heq, rfl, hact, hok⟩
      · cases he
      cases heq
      have he : SecretEffect w.store ⟨⟨0, fun _ => none⟩, .rotateKEK _ _ _ _ _⟩ s' :=
        .rotated rfl hok
      obtain ⟨keys, hk, hsecrets, hca, hs'⟩ := rotateKEK_ok_cases hok
      have hkeys : s'.keyMetadata = activateKey keys newKEK.id := by rw [hs']
      have hreg : ∀ {k : KEK C}, Registered w.store k → Registered s' k := by
        rintro k ⟨km, hkm, hg⟩
        exact Registered.of_activated ⟨km, (Table.mem_insert? hk).mpr (Or.inl hkm), hg⟩ hkeys
      refine ⟨_, newKEK, onlyActive_rotate hk hkeys, ⟨rfl, nonces.keyCheck, rfl⟩, ?_, ?_,
        housed_step he h.housed, ?_, ?_, ?_⟩
      · intro q ring₁ hr
        simp only [Function.update_apply] at hr
        split at hr
        · cases hr
          rw [hact]
          exact Registered.of_activated
            ⟨_, (Table.mem_insert? hk).mpr (Or.inr rfl), rfl, nonces.keyCheck, rfl⟩ hkeys
        · exact hreg (h.rings q ring₁ hr)
      · exact fun i q k hw => hreg (h.writers i q k hw)
      · intro sv' hsv' hst
        have hsv'' := hsv'
        rw [hs'] at hsv''
        obtain ⟨sv, hsv, rfl⟩ := (Table.mem_updateWhere (fun _ => by rfl)).mp hsv''
        by_cases hd : sv.state = .destroyed
        · rw [if_neg (by simpa using hd)] at hst
          exact absurd hd hst
        · rw [if_pos (by simpa using hd)] at hsv' ⊢
          obtain ⟨dek, hdek⟩ := hsecrets sv hsv hd
          simp only [hdek, rewrapped] at hsv' ⊢
          obtain ⟨ref, plaintext, bindingKey, hrow⟩ := h.rows sv hsv hd
          exact ⟨ref, plaintext, bindingKey, sealedRow_rewrap hrow he hdek hsv'⟩
      · intro sv' hsv' hd
        rw [hs'] at hsv'
        obtain ⟨sv, hsv, rfl⟩ := (Table.mem_updateWhere (fun _ => by rfl)).mp hsv'
        by_cases hd' : sv.state = .destroyed
        · rw [if_neg (by simpa using hd')]
          exact h.erased sv hsv hd'
        · rw [if_pos (by simpa using hd')] at hd
          exact absurd hd hd'
      · intro ca hca'
        rw [hs'] at hca'
        obtain ⟨ca₀, _, rfl⟩ := (Table.mem_updateWhere (fun _ => by rfl)).mp hca'
        rfl
    · next e ring' hrot =>
      rcases rotateMasterKey_cases hrot with ⟨_, _, hact⟩ | ⟨_, _, _, heq, _⟩
      · refine ⟨active, kek, h.setRing p ?_⟩
        rw [hact]
        exact h.rings p ring hring
      · cases heq

/-! ## 他の操作 -/

theorem keys_of_not_usesKEK (h : SecretEffect s c s')
    (hno : ¬ UsesKEK c.op) : s'.keyMetadata = s.keyMetadata ∧ s'.caKeys = s.caKeys := by
  cases h.delta.outer with
  | neutral h => exact ⟨h.keyMetadata, h.caKeys⟩
  | namespaceDeleted ns h =>
    obtain ⟨id, _, _, _, rfl⟩ := deleteNamespaceTx_ok_cases h
    exact ⟨rfl, rfl⟩
  | rotated hc h =>
    rw [hc] at hno
    exact absurd trivial hno
  | logged entry nsID now hs =>
    subst hs
    exact ⟨rfl, rfl⟩

theorem sealInv_other (h : SealInv w active kek) (he : SecretEffect w.store c s')
    (hno : ¬ UsesKEK c.op) : SealInv { w with store := s' } active kek := by
  obtain ⟨hkeys, hca⟩ := keys_of_not_usesKEK he hno
  have hreg : ∀ {k : KEK C}, Registered w.store k → Registered s' k := by
    rintro k ⟨km, hkm, hg⟩
    exact ⟨km, hkeys ▸ hkm, hg⟩
  refine ⟨⟨hkeys ▸ h.onlyActive.mem, h.onlyActive.state, hkeys ▸ h.onlyActive.unique⟩, h.genuine,
    fun p ring hr => hreg (h.rings p ring hr), fun i p k hw => hreg (h.writers i p k hw),
    housed_step he h.housed, ?_, ?_, fun ca hm => h.caKeys ca (hca ▸ hm)⟩
  · intro sv' hsv' hst
    cases he.versionOrigin hsv' with
    | kept hsv =>
      obtain ⟨ref, plaintext, bindingKey, hrow⟩ := h.rows sv' hsv hst
      exact ⟨ref, plaintext, bindingKey, hrow.step he hsv' rfl⟩
    | restated sv state hsv hlive hst' heq =>
      obtain ⟨ref, plaintext, bindingKey, hrow⟩ := h.rows sv hsv hlive
      have hkey : sv'.key = sv.key := by rw [heq]; rfl
      refine ⟨ref, plaintext, bindingKey, ?_⟩
      show SealedRow s' kek (w.supplied sv'.key) sv' ref plaintext bindingKey
      rw [hkey]
      exact hrow.step he hsv' heq
    | erased sv hsv hkey her => exact absurd her.state hst
    | rewrapped hc hsv hlive hdek heq =>
      rw [hc] at hno
      exact absurd trivial hno
    | assigned hc _ _ =>
      obtain ⟨p, hc⟩ | ⟨p, hc⟩ := hc
      all_goals
        rw [hc] at hno
        exact absurd trivial hno
  · intro sv' hsv' hd
    cases he.versionOrigin hsv' with
    | kept hsv => exact h.erased sv' hsv hd
    | restated sv state hsv hlive hst' heq =>
      rw [heq] at hd
      exact absurd hd hst'
    | erased sv hsv hkey her => exact her
    | rewrapped hc hsv hlive hdek heq =>
      rw [hc] at hno
      exact absurd trivial hno
    | assigned hc _ _ =>
      obtain ⟨p, hc⟩ | ⟨p, hc⟩ := hc
      all_goals
        rw [hc] at hno
        exact absurd trivial hno

/-! ## run -/

theorem sealInv_start (h : SealInv w active kek) (p : Nat) (material : Bytes) :
    SealInv (w.start p material) active kek := by
  unfold World.start
  split
  · exact h
  · next km hkm =>
    have heq := h.onlyActive.of_activeKey hkm
    subst heq
    split
    · next ring hu =>
      refine h.setRing p ⟨km, h.onlyActive.mem, ?_⟩
      rw [unlock_active h.genuine hu]
      exact h.genuine
    · exact h

theorem sealInv_capture
    (h : SealInv w active kek) (i p : Nat) : SealInv (w.capture i p) active kek := by
  unfold World.capture
  split
  · exact h
  · next ring hring =>
    refine ⟨h.onlyActive, h.genuine, h.rings, fun j q k hw => ?_, h.housed, h.rows, h.erased,
      h.caKeys⟩
    simp only [Function.update_apply] at hw
    split at hw
    · cases hw
      exact h.rings p ring hring
    · exact h.writers j q k hw

variable [Hashing]

theorem sealInv_step (h : ∃ active kek, SealInv w active kek) (op : CoreOp) :
    ∃ active kek, SealInv (coreStep w op) active kek := by
  obtain ⟨active, kek, h⟩ := h
  cases op with
  | start p material => exact ⟨active, kek, sealInv_start h p material⟩
  | capture i p => exact ⟨active, kek, sealInv_capture h i p⟩
  | put i rq r input => exact ⟨active, kek, sealInv_put h i rq r input⟩
  | transition i rq r kind input => exact ⟨active, kek, sealInv_transition h i rq r kind input⟩
  | rotate p id material createdAt nonces => exact sealInv_rotate h p id material createdAt nonces
  | other c hno => exact ⟨active, kek, sealInv_other h (step_secretEffect rfl) hno⟩

theorem coreStep_effect (w : World C) (op : CoreOp) :
    ∃ c, SecretEffect w.store c (coreStep w op).store := by
  have hrefl : ∃ c, SecretEffect w.store c w.store :=
    ⟨⟨⟨0, fun _ => none⟩, .pruneSessions 0⟩, .neutral (SecretNeutral.refl _)⟩
  cases op with
  | start p material =>
    show ∃ c, SecretEffect w.store c (w.start p material).store
    unfold World.start
    split
    · exact hrefl
    · split
      all_goals exact hrefl
  | capture i p =>
    show ∃ c, SecretEffect w.store c (w.capture i p).store
    unfold World.capture
    split <;> exact hrefl
  | put i rq r input =>
    show ∃ c, SecretEffect w.store c (w.put i rq r input).store
    unfold World.put
    split
    · exact hrefl
    · unfold World.finish
      split
      · next hok => exact ⟨⟨rq, _⟩, .created _ _ rfl (putSecret_ok hok)⟩
      · exact hrefl
  | transition i rq r kind input =>
    show ∃ c, SecretEffect w.store c (w.transition i rq r kind input).store
    unfold World.transition
    split
    · exact hrefl
    · split
      · exact hrefl
      · unfold World.finish
        split
        · next hok =>
          obtain ⟨input', _, _, _, htx⟩ := transitionSecret_ok hok
          exact ⟨⟨rq, _⟩, .transitioned _ _ rfl htx⟩
        · exact hrefl
  | rotate p id material createdAt nonces =>
    show ∃ c, SecretEffect w.store c (w.rotate p id material createdAt nonces).store
    unfold World.rotate
    split
    · exact hrefl
    · split
      · next hrot =>
        rcases rotateMasterKey_cases hrot with ⟨_, he, _⟩ | ⟨_, _, _, heq, _, _, hok⟩
        · cases he
        · cases heq
          exact ⟨⟨⟨0, fun _ => none⟩, _⟩, .rotated rfl hok⟩
      · exact hrefl
  | other c hno => exact ⟨c, step_secretEffect rfl⟩

theorem sealInv_run (h : Initialised w active kek) (ops : List CoreOp) :
    ∃ active' kek', SealInv (run coreStep w ops) active' kek' :=
  run_invariant (I := fun w => ∃ active kek, SealInv w active kek)
    (fun _ op hi => sealInv_step hi op) ⟨active, kek, h.sealInv⟩ ops

theorem retired_run (hh : Housed w.store) {key : Nat × Nat}
    (hr : Retired w.store key) (ops : List CoreOp) :
    Housed (run coreStep w ops).store ∧ Retired (run coreStep w ops).store key := by
  refine run_invariant (I := fun w : World C => Housed w.store ∧ Retired w.store key) ?_ ⟨hh, hr⟩
    ops
  rintro w op ⟨hh, hr⟩
  obtain ⟨c, he⟩ := coreStep_effect w op
  exact ⟨housed_step he hh, retired_step he hh hr⟩

omit [Hashing] in
theorem decryptVersion_error {b : String} (h : ∀ p, decryptVersion ring ref sv b ≠ .ok p) :
    ∃ e, decryptVersion ring ref sv b = .error e ∧ e.is .decryptFailed = true := by
  cases hd : decryptVersion ring ref sv b with
  | ok p => exact absurd hd (h p)
  | error e =>
    refine ⟨e, rfl, ?_⟩
    unfold decryptVersion at hd
    rcases bind_eq_error_iff.mp hd with hget | ⟨kek, _, hdec⟩
    · cases hg : ring.get sv.kekID with
      | ok kek =>
        rw [hg] at hget
        cases hget
      | error e' =>
        rw [hg] at hget
        cases hget
        rfl
    · cases hx : decrypt C kek (rowInput sv (buildAAD ref.ns ref.key sv.versionNumber) b) with
      | ok p =>
        simp only [hx] at hdec
        cases hdec
      | error e' =>
        simp only [hx] at hdec
        cases hdec
        rfl

/-- 行は、この KEK とこの binding key でだけ、この平文に開く。 -/
structure OpensTo (kek : KEK C) (ref : Ref) (sv : SecretVersionModel) (plaintext : Bytes)
    (bindingKey : String) : Prop where
  opens : ∀ (ring : Keyring C) b, ring.byID sv.kekID = some kek →
    (sv.bound = true → b = bindingKey) → decryptVersion ring ref sv b = .ok plaintext
  onlyKEK : ∀ (ring : Keyring C) b p, decryptVersion ring ref sv b = .ok p →
    p = plaintext ∧ ∃ k, ring.byID sv.kekID = some k ∧ k.key = kek.key
  refuses : ∀ (ring : Keyring C) b, sv.bound = true → b ≠ bindingKey →
    ∃ e, decryptVersion ring ref sv b = .error e ∧ e.is .decryptFailed = true

omit [Hashing] in
theorem SealedRow.decrypt_eq_ok {ref : Ref} {p : Bytes} {b : String}
    (h : SealedRow s kek v sv ref plaintext bindingKey)
    (ho : decryptVersion ring ref sv b = .ok p) :
    p = plaintext ∧ (bindingKey ≠ "" → b = bindingKey) ∧
      ∃ k, ring.byID sv.kekID = some k ∧ k.key = kek.key := by
  simp only [decryptVersion, Keyring.get, bind_eq_ok_iff, mapError_eq_ok_iff,
    orThrow_eq_ok_iff] at ho
  obtain ⟨k, hk, hdec⟩ := ho
  rw [← h.aad] at hdec
  obtain ⟨hkey, hp, hb⟩ := (h.sealed b).decrypt_eq_ok hdec
  exact ⟨hp, hb, k, hk, hkey⟩

omit [Hashing] in
theorem SealedRow.opensTo {ref : Ref} (h : SealedRow s kek v sv ref plaintext bindingKey) :
    OpensTo kek ref sv plaintext bindingKey where
  opens := by
    intro ring b hk hb
    simp only [decryptVersion, Keyring.get, bind_eq_ok_iff, mapError_eq_ok_iff, orThrow_eq_ok_iff]
    refine ⟨kek, hk, ?_⟩
    rw [← h.aad]
    refine (h.sealed b).decrypt (fun hne => hb ?_)
    rw [h.bound]
    exact decide_eq_true hne
  onlyKEK := by
    intro ring b p ho
    obtain ⟨hp, _, hk⟩ := h.decrypt_eq_ok ho
    exact ⟨hp, hk⟩
  refuses := by
    intro ring b hbound hne
    refine decryptVersion_error (fun p ho => hne ((h.decrypt_eq_ok ho).2.1 ?_))
    rw [h.bound] at hbound
    exact of_decide_eq_true hbound

/--
保存した secret は開け続けられる。

どの出来事の列の後も、active な KEK はちょうど一つである。破棄されていない version と全ての CA の行は、その KEK を
指し、version は渡された平文に開く。結び付けた version は、最後に結び付けた binding key でだけ開く。破棄された version は
材料を持たず、その後も破棄されたままである。
-/
theorem secrets_stay_decryptable {w : World C} {active₀ : KeyMetadataModel} {kek₀ : KEK C}
    (h₀ : Initialised w active₀ kek₀) (ops : List CoreOp) :
    ∃ (active : KeyMetadataModel) (kek : KEK C),
      OnlyActive (run coreStep w ops).store active ∧ Genuine active kek ∧
      (∀ sv ∈ (run coreStep w ops).store.secretVersions, sv.state ≠ .destroyed →
        sv.kekID = active.id ∧ ∃ ref plaintext bindingKey,
          VersionRef (run coreStep w ops).store sv ref ∧
          (run coreStep w ops).supplied sv.key = some (plaintext, bindingKey) ∧
          sv.bound = decide (bindingKey ≠ "") ∧ OpensTo kek ref sv plaintext bindingKey) ∧
      (∀ ca ∈ (run coreStep w ops).store.caKeys, ca.kekID = active.id) ∧
      ∀ sv ∈ (run coreStep w ops).store.secretVersions, sv.state = .destroyed →
        Erased sv ∧ ∀ more sv',
          (run coreStep w (ops ++ more)).store.secretVersions.get sv.key = some sv' →
            sv'.state = .destroyed := by
  obtain ⟨active, kek, h⟩ := sealInv_run h₀ ops
  refine ⟨active, kek, h.onlyActive, h.genuine, fun sv hsv hst => ?_, h.caKeys,
    fun sv hsv hd => ⟨h.erased sv hsv hd, fun more sv' hget => ?_⟩⟩
  · obtain ⟨ref, plaintext, bindingKey, hrow⟩ := h.rows sv hsv hst
    exact ⟨hrow.kekID.trans h.genuine.1, ref, plaintext, bindingKey, hrow.owner, hrow.supplied,
      hrow.bound, hrow.opensTo⟩
  · rw [run_append] at hget
    obtain ⟨hh, hr⟩ := retired_run h.housed (Or.inl ⟨sv, Table.get_of_mem hsv, hd⟩) more
    exact hr.destroyed hh hget

end

/-! ## 例 -/

section Sample

local instance sampleHashingCore : Hashing := sampleHashing

variable (C : Cipher keySize)

def sampleNonce : Nonce := ⟨List.replicate nonceSize 0, rfl⟩

def sampleKeyRow : KeyMetadataModel :=
  ⟨"kek-1", newKeyCheck C (sampleKEK C) sampleNonce, .active, 0⟩

def sampleWorld : World C where
  store := { step Store.empty ⟨sampleRequest, .createNamespace sampleNamespace⟩ with
    keyMetadata := ⟨[sampleKeyRow C], List.nodup_singleton _⟩ }
  rings := fun _ => none
  writers := fun _ => none
  supplied := fun _ => none

def samplePut : PutSecretInput :=
  ⟨⟨sampleNamespace, "db"⟩, [1, 2, 3], "", "", "ops", "", none, none⟩

def sampleOps : List CoreOp :=
  [.start 0 sampleMaterial, .capture 0 0, .put 0 sampleRequest sampleFresh samplePut]

theorem sampleWorld_initialised : Initialised (sampleWorld C) (sampleKeyRow C) (sampleKEK C) where
  onlyActive := ⟨List.mem_singleton.mpr rfl, rfl, fun _ hkm _ => List.mem_singleton.mp hkm⟩
  genuine := ⟨rfl, sampleNonce, rfl⟩
  rings := fun _ => rfl
  writers := fun _ => rfl
  secrets := fun _ hsec => List.not_mem_nil hsec
  versions := fun _ hsv => List.not_mem_nil hsv
  caKeys := fun _ hca => absurd hca List.not_mem_nil

theorem sampleWorld_start : (sampleWorld C).start 0 sampleMaterial =
    { sampleWorld C with
      rings := Function.update (sampleWorld C).rings 0 (some (newKeyring (sampleKEK C))) } := by
  have hkm : activeKey (sampleWorld C).store = some (sampleKeyRow C) := rfl
  have hu : unlock (C := C) (sampleKeyRow C) sampleMaterial = .ok (newKeyring (sampleKEK C)) := by
    simp only [unlock, newKEKFromMaterial, bind_eq_ok_iff, pure_eq_ok_iff, mapError_eq_ok_iff,
      orThrow_eq_ok_iff, require_eq_ok_iff]
    refine ⟨sampleKEK C, ⟨_, (Option.some_get _).symm, ⟨⟩,
      show "kek-1" ≠ "" by decide, rfl⟩, (), ?_, rfl⟩
    exact (verifyKeyCheck_eq_ok_iff ⟨rfl, sampleNonce, rfl⟩ rfl).mpr rfl
  unfold World.start
  simp only [hkm, hu]

theorem sampleOps_store {out : Nat × Nat} {s : Store} (hput : putSecret sampleRequest
    (sampleWorld C).store (sampleKEK C) sampleFresh samplePut = .ok (out, s)) :
    (run coreStep (sampleWorld C) sampleOps).store = s := by
  show (World.put (World.capture ((sampleWorld C).start 0 sampleMaterial) 0 0) 0 sampleRequest
    sampleFresh samplePut).store = s
  rw [sampleWorld_start]
  show (World.finish _ 0 (putSecret sampleRequest (sampleWorld C).store (sampleKEK C) sampleFresh
    samplePut) _).store = s
  rw [hput]
  rfl

theorem sampleOps_stored :
    ∃ sv ∈ (run coreStep (sampleWorld (Cipher.ideal keySize)) sampleOps).store.secretVersions,
      sv.state = .enabled := by
  rw [sampleOps_store (Cipher.ideal keySize) rfl]
  exact ⟨_, List.mem_cons_self, rfl⟩

theorem secrets_stay_decryptable_sample :
    ∃ sv ∈ (run coreStep (sampleWorld (Cipher.ideal keySize)) sampleOps).store.secretVersions,
      sv.state = .enabled ∧ ∃ (kek : KEK (Cipher.ideal keySize)) (ref : Ref) (plaintext : Bytes)
        (bindingKey : String),
        (run coreStep (sampleWorld (Cipher.ideal keySize)) sampleOps).supplied sv.key =
          some (plaintext, bindingKey) ∧ OpensTo kek ref sv plaintext bindingKey := by
  obtain ⟨active, kek, _, _, hrows, _⟩ :=
    secrets_stay_decryptable (sampleWorld_initialised (Cipher.ideal keySize)) sampleOps
  obtain ⟨sv, hsv, hst⟩ := sampleOps_stored
  obtain ⟨_, ref, plaintext, bindingKey, _, hsup, _, hopen⟩ :=
    hrows sv hsv (by rw [hst]; exact VersionState.noConfusion)
  exact ⟨sv, hsv, hst, kek, ref, plaintext, bindingKey, hsup, hopen⟩

end Sample

end Kms.Core
