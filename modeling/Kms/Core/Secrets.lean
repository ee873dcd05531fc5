import Kms.Crypto.Keyring
import Kms.Storage.SecretFrame

/-!
# secret の service 層

`internal/core/secrets.go` と `admin.go` のうち、KEK を使う操作を写す。service は暗号化の関数を作って store に渡し、store は
transaction の中でそれを呼ぶ。認可・監査・大きさと期限の検査は、ここでは早い失敗でしかないので持たない。

* `putSecret` / `bindSecret` / `unbindSecret` / `rotateSecretBindingKey` — version を作る操作
* `rotateMasterKey` — KEK の交換。新しい KEK を keyring に加えてから store に渡す
* `decryptVersion` — 読み出し。AAD は行の同一性から作り直す
-/

namespace Kms.Core

open Kms.Infra Kms.Storage Kms.Crypto

/-! ## error -/

def errDecryptFailed : Err := .sentinel .decryptFailed "decryption failed"

def invalidBindingKeyArgument : Err :=
  .invalidArgument (s!"binding_key must be valid UTF-8 and between {minBindingKeyBytes} " ++
    s!"and {maxBindingKeyBytes} bytes")

/-- `crypto` の error を、そのまま上に返した形。 -/
def cryptoError : CryptoError → Err
  | .keySize got => .plain s!"key must be {Crypto.keySize} bytes, got {got}"
  | .bindingKeyRequired => .plain "binding key required"
  | .bindingKeyTooShort => .plain "binding key must be at least 32 UTF-8 bytes"
  | .bindingKeyTooLong => .plain "binding key must be at most 1024 UTF-8 bytes"
  | .unknownWrapMode => .sentinel .decryptFailed "unknown wrap mode"
  | .decryptFailed => errDecryptFailed

def validateNewBindingKeyArgument (bindingKey : String) : Except Err Unit :=
  (validateBindingKey bindingKey).mapError (fun _ => invalidBindingKeyArgument)

def validateBindingKeySizeArgument (bindingKey : String) : Except Err Unit :=
  require (bindingKey.utf8ByteSize ≤ maxBindingKeyBytes) invalidBindingKeyArgument

/-- `sanitizeBindingMutationError`。監査の失敗は持たない。 -/
def sanitizeBindingMutationError (e : Err) : Err :=
  if e.is .decryptFailed then errDecryptFailed else e

/-! ## 書き込み -/

/-- `PutSecretInput` と、transaction の前に読んだ前提。 -/
structure PutSecretInput where
  ref : Ref
  value : Bytes
  contentType : String
  metadata : String
  createdBy : String
  bindingKey : String
  expiresAt : Option Time
  expected : Option SecretWriteExpectation

section

variable {C : Cipher keySize}

/-- 新しい version の暗号化。binding key が空でなければ二重に包む。 -/
def encryptValue (kek : KEK C) (r : Fresh) (ref : Ref) (value : Bytes) (bindingKey : String)
    (version : Nat) : Except Err EncryptedPayload :=
  let aad := buildAAD ref.ns ref.key version
  let encrypted :=
    if bindingKey = "" then encrypt C kek r value aad ""
    else encryptBindingKey C kek r value aad bindingKey
  encrypted.mapError cryptoError

/-- store に渡す引数。 -/
def putParams (kek : KEK C) (r : Fresh) (input : PutSecretInput) : CreateSecretParams where
  ref := input.ref
  contentType := zeroOr input.contentType "application/octet-stream"
  metadata := input.metadata
  createdBy := input.createdBy
  bound := decide (input.bindingKey ≠ "")
  expected := input.expected
  expiresAt := input.expiresAt
  encrypt := encryptValue kek r input.ref input.value input.bindingKey

def putSecret (rq : Request) (s : Store) (kek : KEK C) (r : Fresh) (input : PutSecretInput) :
    Except Err ((Nat × Nat) × Store) := do
  let bound := decide (input.bindingKey ≠ "")
  (if bound then validateNewBindingKeyArgument input.bindingKey else pure ())
  createSecretVersion rq s (putParams kek r input)

theorem putSecret_ok {rq : Request} {s : Store} {kek : KEK C} {r : Fresh} {input : PutSecretInput}
    {out : (Nat × Nat) × Store} (h : putSecret rq s kek r input = .ok out) :
    createSecretVersion rq s (putParams kek r input) = .ok out := by
  simp only [putSecret] at h
  obtain ⟨_, _, h⟩ := bind_eq_ok_iff.mp h
  exact h

/-! ## 読み出し -/

/-- version の行を、復号の入力として読む。 -/
def rowInput (sv : SecretVersionModel) (aad bindingKey : String) : DecryptInput where
  ciphertext := sv.ciphertext
  encryptedDEK := sv.encryptedDEK
  nonce := sv.nonce
  aad := aad
  wrapMode := sv.wrapMode
  bindingKeySalt := sv.bindingKeySalt
  bindingKey := bindingKey

def decryptVersion (ring : Keyring C) (ref : Ref) (sv : SecretVersionModel) (bindingKey : String) :
    Except Err Bytes := do
  let kek ← (ring.get sv.kekID).mapError
    (fun _ => .sentinel .decryptFailed s!"secret {ref} v{sv.versionNumber}: decryption failed")
  -- 保存された AAD は信用せず、行の同一性から作り直す。
  let aad := buildAAD ref.ns ref.key sv.versionNumber
  (decrypt C kek (rowInput sv aad bindingKey)).mapError (fun _ => errDecryptFailed)

/-! ## binding key の遷移 -/

/-- 遷移の引数。 -/
structure TransitionInput where
  ref : Ref
  expectedCurrentVersion : Nat
  oldBindingKey : String
  newBindingKey : String
  createdBy : String

/-- 遷移の暗号化。元の version を開いてから、新しい version として封じる。 -/
def transitionEncrypt (ring : Keyring C) (activeKEK : KEK C) (r : Fresh)
    (kind : SecretTransitionKind) (input : TransitionInput) (source : SecretVersionModel)
    (newVersion : Nat) : Except Err EncryptedPayload := do
  let sourceKEK ← (ring.get source.kekID).mapError (fun _ => errDecryptFailed)
  let oldAAD := buildAAD input.ref.ns input.ref.key source.versionNumber
  let plaintext ← (decrypt C sourceKEK (rowInput source oldAAD input.oldBindingKey)).mapError
    (fun _ => errDecryptFailed)
  -- 古い binding key を確かめた後で、同じ key の使い回しを断る。
  require (kind ≠ .rotate ∨ input.oldBindingKey ≠ input.newBindingKey)
    (.invalidArgument "new binding key must differ from current binding key")
  let newAAD := buildAAD input.ref.ns input.ref.key newVersion
  let encrypted :=
    if kind = .unbind then encrypt C activeKEK r plaintext newAAD ""
    else encryptBindingKey C activeKEK r plaintext newAAD input.newBindingKey
  encrypted.mapError cryptoError

/-- store に渡す引数。 -/
def transitionParams (ring : Keyring C) (activeKEK : KEK C) (r : Fresh)
    (kind : SecretTransitionKind) (input : TransitionInput) : SecretVersionTransitionParams where
  ref := input.ref
  expectedCurrentVersion := input.expectedCurrentVersion
  kind := kind
  createdBy := input.createdBy
  actor := input.createdBy
  encrypt := transitionEncrypt ring activeKEK r kind input

def transitionSecretProtection (rq : Request) (s : Store) (ring : Keyring C) (activeKEK : KEK C)
    (r : Fresh) (kind : SecretTransitionKind) (input : TransitionInput) :
    Except Err (SecretVersionTransitionResult × Store) := do
  require (input.expectedCurrentVersion ≠ 0)
    (.invalidArgument "expected_current_version is required")
  (transitionSecretVersion rq s (transitionParams ring activeKEK r kind input)).mapError
    sanitizeBindingMutationError

def bindSecret (rq : Request) (s : Store) (ring : Keyring C) (activeKEK : KEK C) (r : Fresh)
    (input : TransitionInput) : Except Err (SecretVersionTransitionResult × Store) := do
  validateNewBindingKeyArgument input.newBindingKey
  transitionSecretProtection rq s ring activeKEK r .bind { input with oldBindingKey := "" }

def unbindSecret (rq : Request) (s : Store) (ring : Keyring C) (activeKEK : KEK C) (r : Fresh)
    (input : TransitionInput) : Except Err (SecretVersionTransitionResult × Store) := do
  validateBindingKeySizeArgument input.oldBindingKey
  transitionSecretProtection rq s ring activeKEK r .unbind { input with newBindingKey := "" }

def rotateSecretBindingKey (rq : Request) (s : Store) (ring : Keyring C) (activeKEK : KEK C)
    (r : Fresh) (input : TransitionInput) : Except Err (SecretVersionTransitionResult × Store) := do
  validateBindingKeySizeArgument input.oldBindingKey
  validateNewBindingKeyArgument input.newBindingKey
  transitionSecretProtection rq s ring activeKEK r .rotate input

/-- 三つの入口を種類で選ぶ。 -/
def transitionSecret (rq : Request) (s : Store) (ring : Keyring C) (activeKEK : KEK C) (r : Fresh)
    (input : TransitionInput) :
    SecretTransitionKind → Except Err (SecretVersionTransitionResult × Store)
  | .bind => bindSecret rq s ring activeKEK r input
  | .unbind => unbindSecret rq s ring activeKEK r input
  | .rotate => rotateSecretBindingKey rq s ring activeKEK r input

/-- どの入口も、同じ transaction に行き着く。新しい binding key は、unbind では空である。 -/
theorem transitionSecret_ok {rq : Request} {s : Store} {ring : Keyring C} {activeKEK : KEK C}
    {r : Fresh} {input : TransitionInput} {kind : SecretTransitionKind}
    {out : SecretVersionTransitionResult × Store}
    (h : transitionSecret rq s ring activeKEK r input kind = .ok out) :
    ∃ input', input'.ref = input.ref ∧
      input'.expectedCurrentVersion = input.expectedCurrentVersion ∧
      input'.newBindingKey = (if kind = .unbind then "" else input.newBindingKey) ∧
      transitionSecretVersion rq s (transitionParams ring activeKEK r kind input') = .ok out := by
  cases kind with
  | bind =>
    simp only [transitionSecret, bindSecret, transitionSecretProtection, bind_eq_ok_iff,
      mapError_eq_ok_iff] at h
    obtain ⟨_, _, _, _, h⟩ := h
    exact ⟨{ input with oldBindingKey := "" }, rfl, rfl, rfl, h⟩
  | unbind =>
    simp only [transitionSecret, unbindSecret, transitionSecretProtection, bind_eq_ok_iff,
      mapError_eq_ok_iff] at h
    obtain ⟨_, _, _, _, h⟩ := h
    exact ⟨{ input with newBindingKey := "" }, rfl, rfl, rfl, h⟩
  | rotate =>
    simp only [transitionSecret, rotateSecretBindingKey, transitionSecretProtection, bind_eq_ok_iff,
      mapError_eq_ok_iff] at h
    obtain ⟨_, _, _, _, _, _, h⟩ := h
    exact ⟨input, rfl, rfl, rfl, h⟩

/-! ## KEK の交換 -/

def caKeyAAD (id : String) : String := "kms/v1|ca-key|id=" ++ id

/-- 行ごとに引く nonce。 -/
structure RotationNonces where
  keyCheck : Nonce
  secret : SecretVersionModel → Nonce
  ca : CAKeyModel → Nonce

/-- 一つの行の DEK を、行の KEK から新しい KEK に移す。 -/
def rewrapRow (ring : Keyring C) (newKEK : KEK C) (kekID : String) (encryptedDEK : Bytes)
    (aad : String) (nonce : Nonce) : Except Err Bytes := do
  let oldKEK ← ring.get kekID
  (rewrapDEK C oldKEK newKEK encryptedDEK aad nonce.bytes).mapError cryptoError

/--
`RotateKEK`。store の transaction に先立って新しい KEK を keyring に加え、成功したら active にする。

返り値の keyring は、失敗しても加えた KEK を持つ。
-/
def rotateMasterKey (s : Store) (ring : Keyring C) (id : String) (material : Bytes)
    (createdAt : Time) (nonces : RotationNonces) : Except Err ((Nat × Nat) × Store) × Keyring C :=
  match newKEKFromMaterial C id material with
  | .error e => (.error e, ring)
  | .ok newKEK =>
    let ring := ring.add newKEK
    let result := rotateKEK s id (newKeyCheck C newKEK nonces.keyCheck) createdAt
      (fun rec => rewrapRow ring newKEK rec.kekID rec.encryptedDEK rec.aad (nonces.secret rec))
      (fun rec =>
        rewrapRow ring newKEK rec.kekID rec.encryptedDEK (caKeyAAD rec.id) (nonces.ca rec))
    match result with
    | .ok out => (.ok out, ring.setActive newKEK)
    | .error e => (.error e, ring)

end

end Kms.Core
