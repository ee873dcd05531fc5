import Kms.Infra.Aead
import Kms.Storage.Secrets

/-!
# envelope encryption

`internal/crypto/aead.go` と `envelope.go` を写す。値を DEK で封じ、DEK を KEK で封じる。binding key があれば、DEK を
先に binding key から導いた key で封じる。乱数は `Fresh` で外から渡す。

* `Sealed` — 平文と binding key を、どの key で封じた行か
* `encrypt_sealed` — 暗号化の結果は `Sealed` である
* `Sealed.decrypt` / `Sealed.decrypt_eq_ok` — 開けるのは、その KEK と binding key でだけ
* `Sealed.rewrap` — 外側の包み直しは `Sealed` を新しい KEK に移す
-/

namespace Kms.Crypto

open Kms.Infra Kms.Storage

/-! ## AEAD -/

def keySize : Nat := 32
def nonceSize : Nat := 12

def aadSuffixValue : String := "|layer:value"
def aadSuffixDEK : String := "|layer:dek"
def aadSuffixDEKInner : String := "|layer:dek-inner"

def minBindingKeyBytes : Nat := 32
def maxBindingKeyBytes : Nat := 1024

/-- `crypto` package の error。 -/
inductive CryptoError where
  | keySize (got : Nat)
  | bindingKeyRequired
  | bindingKeyTooShort
  | bindingKeyTooLong
  | unknownWrapMode
  | decryptFailed
  deriving DecidableEq

/-- `sealPacked`。nonce を暗号文の前に置く。 -/
def sealPacked (C : Cipher keySize) (key : C.Key) (nonce plaintext : Bytes) (aad : String) :
    Bytes :=
  nonce ++ C.sealRaw key nonce plaintext aad

def openPacked (C : Cipher keySize) (key : C.Key) (packed : Bytes) (aad : String) : Option Bytes :=
  if packed.length < nonceSize then none
  else C.openRaw key (packed.take nonceSize) (packed.drop nonceSize) aad

section Packed

variable {C : Cipher keySize} {key key' : C.Key} {nonce plaintext plaintext' : Bytes}
  {aad aad' : String}

theorem openPacked_of_sealPacked (hn : nonce.length = nonceSize) :
    openPacked C key' (sealPacked C key nonce plaintext aad) aad' =
      C.openRaw key' nonce (C.sealRaw key nonce plaintext aad) aad' := by
  unfold openPacked sealPacked
  rw [if_neg, ← hn, List.take_left, List.drop_left]
  rw [List.length_append, hn]
  exact Nat.not_lt_of_le (Nat.le_add_right _ _)

theorem openPacked_sealPacked (hn : nonce.length = nonceSize) :
    openPacked C key (sealPacked C key nonce plaintext aad) aad = some plaintext := by
  rw [openPacked_of_sealPacked hn, C.openRaw_sealRaw]

theorem openPacked_eq_some (hn : nonce.length = nonceSize)
    (h : openPacked C key' (sealPacked C key nonce plaintext aad) aad' = some plaintext') :
    key' = key ∧ aad' = aad ∧ plaintext' = plaintext := by
  rw [openPacked_of_sealPacked hn] at h
  obtain ⟨hk, _, ha, hp⟩ := C.openRaw_eq_some h
  exact ⟨hk, ha, hp⟩

end Packed

/-! ## binding key -/

def buildAAD (ns : NamespaceRef) (key : String) (version : Nat) : String :=
  s!"env={ns.env};app={ns.app};key={key};version={version}"

/-- `ValidateBindingKey`。長さは UTF-8 の byte 数で測る。 -/
def validateBindingKey (bindingKey : String) : Except CryptoError Unit :=
  if bindingKey = "" then .error .bindingKeyRequired
  else if bindingKey.utf8ByteSize > maxBindingKeyBytes then .error .bindingKeyTooLong
  else if bindingKey.utf8ByteSize < minBindingKeyBytes then .error .bindingKeyTooShort
  else .ok ()

theorem ne_empty_of_validateBindingKey {bindingKey : String} {u : Unit}
    (h : validateBindingKey bindingKey = .ok u) : bindingKey ≠ "" := by
  rintro rfl
  cases h

/-! ## 暗号化 -/

/-- key-encryption key。 -/
structure KEK (C : Cipher keySize) where
  id : String
  key : C.Key

def newKEKFromMaterial (C : Cipher keySize) (id : String) (material : Bytes) :
    Except Err (KEK C) := do
  let key ← orThrow (C.ofBytes material)
    (.plain s!"KEK material must be {keySize} bytes, got {material.length}")
  require (id ≠ "") (.plain "KEK id must not be empty")
  pure ⟨id, key⟩

theorem newKEKFromMaterial_id {C : Cipher keySize} {id : String} {material : Bytes} {kek : KEK C}
    (h : newKEKFromMaterial C id material = .ok kek) : kek.id = id := by
  simp only [newKEKFromMaterial, bind_eq_ok_iff, pure_eq_ok_iff] at h
  obtain ⟨_, _, _, _, rfl⟩ := h
  rfl

/-- 一回の暗号化で引く乱数。 -/
structure Fresh where
  dek : Bytes
  nonce : Bytes
  dekNonce : Bytes
  innerNonce : Bytes
  salt : Bytes
  dek_length : dek.length = keySize
  nonce_length : nonce.length = nonceSize
  dekNonce_length : dekNonce.length = nonceSize
  innerNonce_length : innerNonce.length = nonceSize
  salt_length : salt.length = bindingKeySaltSize

section

variable (C : Cipher keySize)

/-- `wrapDEKWithBindingKey`。内側を binding key で、外側を KEK で封じる。 -/
def wrapDEKWithBindingKey (kek : KEK C) (r : Fresh) (aad bindingKey : String) :
    Except CryptoError Bytes := do
  validateBindingKey bindingKey
  let inner := sealPacked C (C.derive bindingKey r.salt) r.innerNonce r.dek
    (aad ++ aadSuffixDEKInner)
  pure (sealPacked C kek.key r.dekNonce inner (aad ++ aadSuffixDEK))

/-- `encrypt`。binding key が空なら standard wrapping。 -/
def encrypt (kek : KEK C) (r : Fresh) (plaintext : Bytes) (aad bindingKey : String) :
    Except CryptoError EncryptedPayload := do
  let dek ← orThrow (C.ofBytes r.dek) (.keySize r.dek.length)
  let result : EncryptedPayload :=
    { ciphertext := C.sealRaw dek r.nonce plaintext (aad ++ aadSuffixValue)
      encryptedDEK := []
      kekID := kek.id
      wrapMode := .standard
      bindingKeySalt := []
      algorithm := "AES-256-GCM"
      nonce := r.nonce
      aad }
  if bindingKey = "" then
    pure { result with encryptedDEK := sealPacked C kek.key r.dekNonce r.dek (aad ++ aadSuffixDEK) }
  else
    let encryptedDEK ← wrapDEKWithBindingKey C kek r aad bindingKey
    pure { result with encryptedDEK, wrapMode := .bindingKey, bindingKeySalt := r.salt }

def encryptBindingKey (kek : KEK C) (r : Fresh) (plaintext : Bytes) (aad bindingKey : String) :
    Except CryptoError EncryptedPayload := do
  validateBindingKey bindingKey
  encrypt C kek r plaintext aad bindingKey

/-! ## 復号と包み直し -/

structure DecryptInput where
  ciphertext : Bytes
  encryptedDEK : Bytes
  nonce : Bytes
  aad : String
  wrapMode : WrapMode
  bindingKeySalt : Bytes
  bindingKey : String

/-- 長さの合う DEK だけを通す。 -/
def checkDEK (dek : Bytes) : Option Bytes := if dek.length = keySize then some dek else none

def openStandardDEK (kek : KEK C) (encryptedDEK : Bytes) (aad : String) : Option Bytes :=
  (openPacked C kek.key encryptedDEK (aad ++ aadSuffixDEK)).bind checkDEK

def openBindingKeyDEK (kek : KEK C) (encryptedDEK bindingKeySalt : Bytes)
    (aad bindingKey : String) : Option Bytes :=
  if bindingKeySalt.length = bindingKeySaltSize then
    (openPacked C kek.key encryptedDEK (aad ++ aadSuffixDEK)).bind (fun inner =>
      (openPacked C (C.derive bindingKey bindingKeySalt) inner (aad ++ aadSuffixDEKInner)).bind
        checkDEK)
  else none

/-- DEK を開く。 -/
def openDEK (kek : KEK C) (d : DecryptInput) : Except CryptoError Bytes :=
  match d.wrapMode with
  | .standard =>
    if d.bindingKeySalt.length ≠ 0 then .error .decryptFailed
    else orThrow (openStandardDEK C kek d.encryptedDEK d.aad) .decryptFailed
  | .bindingKey => do
    validateBindingKey d.bindingKey
    orThrow (openBindingKeyDEK C kek d.encryptedDEK d.bindingKeySalt d.aad d.bindingKey)
      .decryptFailed
  | .other _ => .error .unknownWrapMode

def decrypt (kek : KEK C) (d : DecryptInput) : Except CryptoError Bytes := do
  let dek ← openDEK C kek d
  let key ← orThrow (C.ofBytes dek) .decryptFailed
  require (d.nonce.length = nonceSize) .decryptFailed
  orThrow (C.openRaw key d.nonce d.ciphertext (d.aad ++ aadSuffixValue)) .decryptFailed

/-- `RewrapDEK`。内側には触れない。 -/
def rewrapDEK (source target : KEK C) (encryptedDEK : Bytes) (aad : String) (nonce : Bytes) :
    Except CryptoError Bytes := do
  let inner ← orThrow (openPacked C source.key encryptedDEK (aad ++ aadSuffixDEK)) .decryptFailed
  pure (sealPacked C target.key nonce inner (aad ++ aadSuffixDEK))

end

/-! ## 封じられた行 -/

section Sealed

variable {C : Cipher keySize}

/-- DEK の包み。binding key が空なら一重、そうでなければ二重である。 -/
def Wraps (C : Cipher keySize) (key : C.Key) (bindingKey : String) (dek : Bytes)
    (d : DecryptInput) : Prop :=
  if bindingKey = "" then
    d.wrapMode = .standard ∧ d.bindingKeySalt = [] ∧ ∃ nonce, nonce.length = nonceSize ∧
      d.encryptedDEK = sealPacked C key nonce dek (d.aad ++ aadSuffixDEK)
  else
    d.wrapMode = .bindingKey ∧ d.bindingKeySalt.length = bindingKeySaltSize ∧
      validateBindingKey bindingKey = .ok () ∧ ∃ nonce innerNonce, nonce.length = nonceSize ∧
        innerNonce.length = nonceSize ∧
        d.encryptedDEK = sealPacked C key nonce
          (sealPacked C (C.derive bindingKey d.bindingKeySalt) innerNonce dek
            (d.aad ++ aadSuffixDEKInner)) (d.aad ++ aadSuffixDEK)

def Sealed (C : Cipher keySize) (key : C.Key) (plaintext : Bytes) (bindingKey : String)
    (d : DecryptInput) : Prop :=
  ∃ dek dekKey, C.ofBytes dek = some dekKey ∧ d.nonce.length = nonceSize ∧
    d.ciphertext = C.sealRaw dekKey d.nonce plaintext (d.aad ++ aadSuffixValue) ∧
    Wraps C key bindingKey dek d

/-- 暗号化の結果を、復号の入力として読む。 -/
def payloadInput (p : EncryptedPayload) (bindingKey : String) : DecryptInput where
  ciphertext := p.ciphertext
  encryptedDEK := p.encryptedDEK
  nonce := p.nonce
  aad := p.aad
  wrapMode := p.wrapMode
  bindingKeySalt := p.bindingKeySalt
  bindingKey := bindingKey

variable {kek : KEK C} {plaintext dek : Bytes} {bindingKey : String} {d : DecryptInput}
  {key : C.Key}

theorem encrypt_sealed {r : Fresh} {aad b : String}
    {p : EncryptedPayload} (h : encrypt C kek r plaintext aad bindingKey = .ok p) :
    Sealed C kek.key plaintext bindingKey (payloadInput p b) ∧ p.kekID = kek.id ∧ p.aad = aad := by
  simp only [encrypt, bind_eq_ok_iff, orThrow_eq_ok_iff] at h
  obtain ⟨dekKey, hdek, h⟩ := h
  by_cases hb : bindingKey = ""
  · rw [if_pos hb, pure_eq_ok_iff] at h
    subst h
    refine ⟨⟨r.dek, dekKey, hdek, r.nonce_length, rfl, ?_⟩, rfl, rfl⟩
    unfold Wraps
    rw [if_pos hb]
    exact ⟨rfl, rfl, r.dekNonce, r.dekNonce_length, rfl⟩
  · rw [if_neg hb] at h
    simp only [wrapDEKWithBindingKey, bind_eq_ok_iff, pure_eq_ok_iff] at h
    obtain ⟨_, ⟨_, hval, rfl⟩, rfl⟩ := h
    refine ⟨⟨r.dek, dekKey, hdek, r.nonce_length, rfl, ?_⟩, rfl, rfl⟩
    unfold Wraps
    rw [if_neg hb]
    exact ⟨rfl, r.salt_length, hval, r.dekNonce, r.innerNonce, r.dekNonce_length,
      r.innerNonce_length, rfl⟩

theorem encryptBindingKey_sealed {r : Fresh} {aad b : String} {p : EncryptedPayload}
    (h : encryptBindingKey C kek r plaintext aad bindingKey = .ok p) :
    Sealed C kek.key plaintext bindingKey (payloadInput p b) ∧ p.kekID = kek.id ∧ p.aad = aad := by
  simp only [encryptBindingKey, bind_eq_ok_iff] at h
  obtain ⟨_, _, h⟩ := h
  exact encrypt_sealed h

theorem checkDEK_of_ofBytes {dekKey : C.Key} (h : C.ofBytes dek = some dekKey) :
    checkDEK dek = some dek := by
  have hlen : dek.length = keySize := C.ofBytes_isSome.mp (by rw [h]; rfl)
  rw [checkDEK, if_pos hlen]

theorem Wraps.openDEK {dekKey : C.Key}
    (h : Wraps C kek.key bindingKey dek d) (hdek : C.ofBytes dek = some dekKey)
    (hb : bindingKey ≠ "" → d.bindingKey = bindingKey) : openDEK C kek d = .ok dek := by
  unfold Wraps at h
  by_cases hempty : bindingKey = ""
  · rw [if_pos hempty] at h
    obtain ⟨hmode, hsalt, nonce, hn, henc⟩ := h
    unfold Crypto.openDEK
    simp [hmode, hsalt, openStandardDEK, henc, openPacked_sealPacked hn, checkDEK_of_ofBytes hdek,
      orThrow]
  · rw [if_neg hempty] at h
    obtain ⟨hmode, hsalt, hval, nonce, innerNonce, hn, hin, henc⟩ := h
    unfold Crypto.openDEK
    simp only [hmode, hb hempty, hval, openBindingKeyDEK, if_pos hsalt, henc,
      openPacked_sealPacked hn, Option.bind_some, openPacked_sealPacked hin,
      checkDEK_of_ofBytes hdek, orThrow]
    rfl

theorem Wraps.openDEK_eq_ok {dek' : Bytes}
    (h : Wraps C key bindingKey dek d) (ho : Crypto.openDEK C kek d = .ok dek') :
    kek.key = key ∧ dek' = dek ∧ (bindingKey ≠ "" → d.bindingKey = bindingKey) := by
  have hcheck : ∀ {x y : Bytes}, checkDEK x = some y → y = x := by
    intro x y hxy
    unfold checkDEK at hxy
    split at hxy
    · exact (Option.some.inj hxy).symm
    · cases hxy
  unfold Wraps at h
  by_cases hempty : bindingKey = ""
  · rw [if_pos hempty] at h
    obtain ⟨hmode, hsalt, nonce, hn, henc⟩ := h
    unfold Crypto.openDEK at ho
    simp only [hmode, hsalt, List.length_nil, ne_eq, not_true_eq_false, if_false,
      orThrow_eq_ok_iff, openStandardDEK, henc, Option.bind_eq_some_iff] at ho
    obtain ⟨x, hx, hc⟩ := ho
    obtain ⟨hk, _, rfl⟩ := openPacked_eq_some hn hx
    exact ⟨hk, hcheck hc, fun hne => absurd hempty hne⟩
  · rw [if_neg hempty] at h
    obtain ⟨hmode, hsalt, hval, nonce, innerNonce, hn, hin, henc⟩ := h
    unfold Crypto.openDEK at ho
    simp only [hmode, bind_eq_ok_iff, orThrow_eq_ok_iff, openBindingKeyDEK, if_pos hsalt, henc,
      Option.bind_eq_some_iff] at ho
    obtain ⟨_, _, inner, hinner, x, hx, hc⟩ := ho
    obtain ⟨hk, _, rfl⟩ := openPacked_eq_some hn hinner
    obtain ⟨hderive, _, rfl⟩ := openPacked_eq_some hin hx
    exact ⟨hk, hcheck hc, fun _ => C.derive_inj hderive⟩

theorem Sealed.decrypt (h : Sealed C kek.key plaintext bindingKey d)
    (hb : bindingKey ≠ "" → d.bindingKey = bindingKey) : decrypt C kek d = .ok plaintext := by
  obtain ⟨dek, dekKey, hdek, hn, hct, hwrap⟩ := h
  unfold Crypto.decrypt
  simp only [bind_eq_ok_iff, orThrow_eq_ok_iff, require_eq_ok_iff]
  refine ⟨dek, hwrap.openDEK hdek hb, dekKey, hdek, ⟨⟩, hn, ?_⟩
  rw [hct, C.openRaw_sealRaw]

theorem Sealed.wrapMode_ne {text : String}
    (h : Sealed C key plaintext bindingKey d) : d.wrapMode ≠ .other text := by
  obtain ⟨_, _, _, _, _, hw⟩ := h
  unfold Wraps at hw
  split at hw
  all_goals
    rw [hw.1]
    exact WrapMode.noConfusion

theorem Sealed.decrypt_eq_ok {plaintext' : Bytes}
    {d : DecryptInput} (h : Sealed C key plaintext bindingKey d)
    (ho : Crypto.decrypt C kek d = .ok plaintext') :
    kek.key = key ∧ plaintext' = plaintext ∧ (bindingKey ≠ "" → d.bindingKey = bindingKey) := by
  obtain ⟨dek, dekKey, hdek, hn, hct, hwrap⟩ := h
  unfold Crypto.decrypt at ho
  simp only [bind_eq_ok_iff, orThrow_eq_ok_iff] at ho
  obtain ⟨dek', hopen, dekKey', hdek', _, _, hpt⟩ := ho
  obtain ⟨hk, rfl, hb⟩ := hwrap.openDEK_eq_ok hopen
  rw [hct] at hpt
  exact ⟨hk, (C.openRaw_eq_some hpt).2.2.2, hb⟩

theorem Sealed.rewrap {source target : KEK C}
    {d : DecryptInput} {nonce encryptedDEK : Bytes} (h : Sealed C key plaintext bindingKey d)
    (hn : nonce.length = nonceSize)
    (hr : rewrapDEK C source target d.encryptedDEK d.aad nonce = .ok encryptedDEK) :
    Sealed C target.key plaintext bindingKey { d with encryptedDEK } := by
  obtain ⟨dek, dekKey, hdek, hnonce, hct, hwrap⟩ := h
  simp only [rewrapDEK, bind_eq_ok_iff, orThrow_eq_ok_iff, pure_eq_ok_iff] at hr
  obtain ⟨inner, hinner, rfl⟩ := hr
  refine ⟨dek, dekKey, hdek, hnonce, hct, ?_⟩
  unfold Wraps at hwrap ⊢
  by_cases hempty : bindingKey = ""
  · rw [if_pos hempty] at hwrap ⊢
    obtain ⟨hmode, hsalt, nonce', hn', henc⟩ := hwrap
    rw [henc] at hinner
    obtain ⟨_, _, rfl⟩ := openPacked_eq_some hn' hinner
    exact ⟨hmode, hsalt, nonce, hn, rfl⟩
  · rw [if_neg hempty] at hwrap ⊢
    obtain ⟨hmode, hsalt, hval, nonce', innerNonce, hn', hin, henc⟩ := hwrap
    rw [henc] at hinner
    obtain ⟨_, _, rfl⟩ := openPacked_eq_some hn' hinner
    exact ⟨hmode, hsalt, hval, nonce, innerNonce, hn, hin, rfl⟩

end Sealed

/-! ## 例の材料 -/

def sampleMaterial : Bytes := List.replicate keySize 7

def sampleKEK (C : Cipher keySize) : KEK C :=
  ⟨"kek-1", (C.ofBytes sampleMaterial).get (C.ofBytes_isSome.mpr rfl)⟩

def sampleFresh : Fresh :=
  ⟨List.replicate keySize 1, List.replicate nonceSize 2, List.replicate nonceSize 3,
    List.replicate nonceSize 4, List.replicate bindingKeySaltSize 5, rfl, rfl, rfl, rfl, rfl⟩

end Kms.Crypto
