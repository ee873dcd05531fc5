import Kms.Crypto.Envelope

/-!
# keyring

`internal/crypto/kek.go` と `unseal.go` を写す。key metadata の行には、その KEK で封じた canary が入っている。起動時に
canary を開けることを確かめるので、keyring の active は必ず登録済みの KEK である。

* `Genuine` — key metadata の行が、この KEK を登録している
* `Genuine.key_eq` — 同じ行が登録する KEK は一つである
* `verifyKeyCheck_eq_ok_iff` — 検査を通るのは、登録した KEK だけである
-/

namespace Kms.Crypto

open Kms.Infra Kms.Storage

/-! ## key check -/

def keyCheckCanary : Bytes := "kms/v1 key-check canary".toUTF8.toList

def keyCheckAAD (kekID : String) : String := "kms/v1|key-check|kek:" ++ kekID

/-- AEAD の nonce。 -/
structure Nonce where
  bytes : Bytes
  length : bytes.length = nonceSize

section

variable (C : Cipher keySize)

def newKeyCheck (kek : KEK C) (nonce : Nonce) : Bytes :=
  sealPacked C kek.key nonce.bytes keyCheckCanary (keyCheckAAD kek.id)

def verifyKeyCheck (kek : KEK C) (stored : Bytes) : Except CryptoError Unit := do
  let plaintext ← orThrow (openPacked C kek.key stored (keyCheckAAD kek.id)) .decryptFailed
  require (plaintext = keyCheckCanary) .decryptFailed

/-! ## keyring -/

structure Keyring where
  active : KEK C
  byID : String → Option (KEK C)

variable {C}

def newKeyring (active : KEK C) : Keyring C :=
  ⟨active, fun id => if id = active.id then some active else none⟩

def Keyring.get (ring : Keyring C) (id : String) : Except Err (KEK C) :=
  orThrow (ring.byID id) (.sentinel .decryptFailed s!"unknown KEK {id}")

def Keyring.add (ring : Keyring C) (kek : KEK C) : Keyring C :=
  { ring with byID := fun id => if id = kek.id then some kek else ring.byID id }

def Keyring.setActive (ring : Keyring C) (kek : KEK C) : Keyring C :=
  { ring.add kek with active := kek }

/-- `unlock`。示された material が、登録した KEK であることを確かめる。 -/
def unlock (km : KeyMetadataModel) (material : Bytes) : Except Err (Keyring C) := do
  let kek ← newKEKFromMaterial C km.id material
  (verifyKeyCheck C kek km.keyCheck).mapError
    (fun _ => .sentinel .decryptFailed "master key verification failed")
  pure (newKeyring kek)

/-! ## 登録された KEK -/

def Genuine (km : KeyMetadataModel) (kek : KEK C) : Prop :=
  kek.id = km.id ∧ ∃ nonce, km.keyCheck = newKeyCheck C kek nonce

variable {km : KeyMetadataModel} {kek kek' : KEK C}

theorem Genuine.key_eq (h : Genuine km kek) (h' : Genuine km kek') : kek'.key = kek.key := by
  obtain ⟨hid, nonce, hcheck⟩ := h
  obtain ⟨hid', nonce', hcheck'⟩ := h'
  have hopen : openPacked C kek'.key km.keyCheck (keyCheckAAD kek'.id) = some keyCheckCanary := by
    rw [hcheck']
    exact openPacked_sealPacked nonce'.length
  rw [hcheck] at hopen
  exact (openPacked_eq_some nonce.length hopen).1

theorem Genuine.eq (h : Genuine km kek) (h' : Genuine km kek') : kek' = kek := by
  have hk := h.key_eq h'
  have hid := h'.1.trans h.1.symm
  cases kek
  cases kek'
  simp only at hk hid
  rw [hk, hid]

theorem verifyKeyCheck_eq_ok_iff {u : Unit} (h : Genuine km kek) (hid : kek'.id = km.id) :
    verifyKeyCheck C kek' km.keyCheck = .ok u ↔ kek' = kek := by
  obtain ⟨hkid, nonce, hcheck⟩ := h
  constructor
  · intro hv
    simp only [verifyKeyCheck, bind_eq_ok_iff, orThrow_eq_ok_iff, hcheck] at hv
    obtain ⟨plaintext, hopen, _⟩ := hv
    have hkey := (openPacked_eq_some nonce.length hopen).1
    cases kek
    cases kek'
    simp only at hkey hid hkid
    rw [hkey, hid, hkid]
  · rintro rfl
    simp only [verifyKeyCheck, bind_eq_ok_iff, orThrow_eq_ok_iff, require_eq_ok_iff, hcheck]
    exact ⟨keyCheckCanary, openPacked_sealPacked nonce.length, rfl⟩

theorem unlock_active {material : Bytes} {ring : Keyring C}
    (h : Genuine km kek) (hu : unlock km material = .ok ring) : ring.active = kek := by
  simp only [unlock, bind_eq_ok_iff, pure_eq_ok_iff, mapError_eq_ok_iff] at hu
  obtain ⟨kek', hnew, _, hv, rfl⟩ := hu
  exact (verifyKeyCheck_eq_ok_iff h (newKEKFromMaterial_id hnew)).mp hv

end

end Kms.Crypto
