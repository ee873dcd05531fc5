import Kms.Core.Request
import Kms.Crypto.Keyring

/-!
# envelope と secret の同一性

関連 data は `BuildAAD` と層の接尾辞を繋いだ文字列である。`keyutil` の文法は区切りの `;` と `|` を許さないので、
異なる (environment, application, key, version, 層) からは異なる byte 列ができる。AEAD の箱は関連 data に縛られるので、
どの層の箱も、他の同一性・version・層に移すと開かない。

* `SecretIdentity` — 文法に合う同一性
* `layerAAD_inj` — 関連 data は同一性と層を決める
* `Envelope` — 暗号化した結果
* `rewrapAll` — `RewrapDEK` の列
* `Foreign` — 他から取った箱を含む入力
* `envelope_binds_identity` — 正しい同一性と key でだけ元の平文が開く
-/

namespace Kms.Crypto

open Kms.Infra Kms.Storage Kms.Core

/-! ## 関連 data -/

@[ext]
structure SecretIdentity where
  ref : Ref
  version : Nat
  ns_valid : validateNamespace ref.ns = .ok ()
  key_valid : validateKey ref.key = .ok ()

/-- 箱を作る層。 -/
inductive Layer where
  | value
  | dek
  | dekInner
  deriving DecidableEq

/-- 層ごとの接尾辞。 -/
def Layer.suffix : Layer → String
  | .value => aadSuffixValue
  | .dek => aadSuffixDEK
  | .dekInner => aadSuffixDEKInner

namespace SecretIdentity

def aad (i : SecretIdentity) : String := buildAAD i.ref.ns i.ref.key i.version

def layerAAD (i : SecretIdentity) (layer : Layer) : String := i.aad ++ layer.suffix

variable (i : SecretIdentity)

theorem labels : (∀ c ∈ i.ref.ns.env.toList, isLabelRune c = true) ∧
    ∀ c ∈ i.ref.ns.app.toList, isLabelRune c = true := by
  have h := i.ns_valid
  simp only [validateNamespace, bind_eq_ok_iff, mapError_eq_ok_iff] at h
  obtain ⟨_, henv, happ⟩ := h
  exact ⟨isLabelRune_of_validateLabel henv, isLabelRune_of_validateLabel happ⟩

theorem semicolon_notMem_env : ';' ∉ i.ref.ns.env.toList := fun h =>
  absurd (i.labels.1 _ h) (by decide)

theorem semicolon_notMem_app : ';' ∉ i.ref.ns.app.toList := fun h =>
  absurd (i.labels.2 _ h) (by decide)

theorem semicolon_notMem_key : ';' ∉ i.ref.key.toList := by
  intro h
  rcases isKeyRune_of_validateKey i.key_valid _ h with hs | hr
  · cases hs
  · exact absurd hr (by decide)

theorem bar_notMem_version : '|' ∉ i.version.repr.toList := by
  intro h
  exact absurd (isDigit_of_mem_repr h) (by decide)

theorem layerAAD_toList (layer : Layer) : (i.layerAAD layer).toList =
    "env=".toList ++ (i.ref.ns.env.toList ++ ';' :: ("app=".toList ++ (i.ref.ns.app.toList ++
      ';' :: ("key=".toList ++ (i.ref.key.toList ++ ';' :: ("version=".toList ++
        (i.version.repr.toList ++ '|' :: layer.suffix.toList.drop 1))))))) := by
  have hs : layer.suffix.toList = '|' :: layer.suffix.toList.drop 1 := by
    cases layer <;> rfl
  simp only [layerAAD, aad, buildAAD, String.toList_append]
  rw [hs]
  simp [toString]

variable {i}

theorem layerAAD_inj {j : SecretIdentity} {layer layer' : Layer}
    (h : i.layerAAD layer = j.layerAAD layer') : i = j ∧ layer = layer' := by
  have hlist := congrArg String.toList h
  rw [i.layerAAD_toList, j.layerAAD_toList] at hlist
  -- 前から順に、区切りまでを一つずつ読み取る
  obtain ⟨henv, hlist⟩ := append_cons_inj i.semicolon_notMem_env j.semicolon_notMem_env
    (List.append_cancel_left hlist)
  obtain ⟨happ, hlist⟩ := append_cons_inj i.semicolon_notMem_app j.semicolon_notMem_app
    (List.append_cancel_left hlist)
  obtain ⟨hkey, hlist⟩ := append_cons_inj i.semicolon_notMem_key j.semicolon_notMem_key
    (List.append_cancel_left hlist)
  obtain ⟨hversion, hsuffix⟩ := append_cons_inj i.bar_notMem_version j.bar_notMem_version
    (List.append_cancel_left hlist)
  refine ⟨?_, ?_⟩
  · obtain ⟨⟨⟨env, app⟩, key⟩, version, _, _⟩ := i
    obtain ⟨⟨⟨env', app'⟩, key'⟩, version', _, _⟩ := j
    obtain rfl : env = env' := String.toList_inj.mp henv
    obtain rfl : app = app' := String.toList_inj.mp happ
    obtain rfl : key = key' := String.toList_inj.mp hkey
    obtain rfl : version = version' := by
      have hread := congrArg parseNat hversion
      simpa only [parseNat_repr, Option.some.injEq] using hread
    rfl
  · cases layer <;> cases layer' <;> first | rfl | exact absurd hsuffix (by decide)

end SecretIdentity

/-! ## 箱 -/

section

variable (C : Cipher keySize)

/-- AEAD の箱。どの同一性のどの層として封じたかを持つ。 -/
structure Box where
  identity : SecretIdentity
  layer : Layer
  key : C.Key
  nonce : Nonce
  content : Bytes

variable {C}

def Box.raw (b : Box C) : Bytes :=
  C.sealRaw b.key b.nonce.bytes b.content (b.identity.layerAAD b.layer)

def Box.packed (b : Box C) : Bytes :=
  sealPacked C b.key b.nonce.bytes b.content (b.identity.layerAAD b.layer)

/-- 同一性 `i` の、この層の箱である。 -/
def Box.At (b : Box C) (i : SecretIdentity) (layer : Layer) : Prop :=
  b.identity = i ∧ b.layer = layer

theorem Box.at_of_openRaw {b : Box C} {i : SecretIdentity} {layer : Layer} {key : C.Key}
    {nonce plaintext : Bytes}
    (h : C.openRaw key nonce b.raw (i.layerAAD layer) = some plaintext) : b.At i layer := by
  obtain ⟨hi, hl⟩ := SecretIdentity.layerAAD_inj (C.authentic h).2.2
  exact ⟨hi.symm, hl.symm⟩

theorem Box.at_of_openPacked {b : Box C} {i : SecretIdentity} {layer : Layer} {key : C.Key}
    {plaintext : Bytes}
    (h : openPacked C key b.packed (i.layerAAD layer) = some plaintext) : b.At i layer := by
  rw [Box.packed, openPacked_of_sealPacked b.nonce.length] at h
  exact Box.at_of_openRaw h

end

/-! ## 復号の内訳 -/

section

variable {C : Cipher keySize}

variable {key : C.Key} {plaintext dek : Bytes} {d : DecryptInput} {bindingKey : String}

theorem length_openPacked (hC : C.Shrinks) {packed : Bytes}
    {aad : String} (h : openPacked C key packed aad = some plaintext) :
    plaintext.length + nonceSize ≤ packed.length := by
  unfold openPacked at h
  split at h
  · cases h
  · have hle := hC h
    rw [List.length_drop] at hle
    omega

theorem Box.length_packed (hC : C.Shrinks) (b : Box C) :
    b.content.length + nonceSize ≤ b.packed.length :=
  length_openPacked hC (openPacked_sealPacked b.nonce.length)

theorem length_of_checkDEK {x : Bytes} (h : checkDEK x = some dek) :
    x = dek ∧ dek.length = keySize := by
  unfold checkDEK at h
  split at h
  · next hlen =>
    obtain rfl := Option.some.inj h
    exact ⟨rfl, hlen⟩
  · cases h

/-- DEK が開いたのなら、外側の箱が開き、中身は DEK か、binding key の箱である。 -/
theorem openDEK_eq_ok {kek : KEK C} (h : openDEK C kek d = .ok dek) :
    ∃ inner, openPacked C kek.key d.encryptedDEK (d.aad ++ aadSuffixDEK) = some inner ∧
      dek.length = keySize ∧
      (d.wrapMode = .standard ∧ inner = dek ∨
        d.wrapMode = .bindingKey ∧ openPacked C (C.derive d.bindingKey d.bindingKeySalt) inner
          (d.aad ++ aadSuffixDEKInner) = some dek) := by
  unfold openDEK at h
  split at h
  · next hmode =>
    split at h
    · cases h
    · simp only [orThrow_eq_ok_iff, openStandardDEK, Option.bind_eq_some_iff] at h
      obtain ⟨inner, hinner, hcheck⟩ := h
      obtain ⟨heq, hlen⟩ := length_of_checkDEK hcheck
      exact ⟨inner, hinner, hlen, .inl ⟨hmode, heq⟩⟩
  · next hmode =>
    simp only [bind_eq_ok_iff, orThrow_eq_ok_iff, openBindingKeyDEK] at h
    obtain ⟨_, _, h⟩ := h
    split at h
    · simp only [Option.bind_eq_some_iff] at h
      obtain ⟨inner, hinner, x, hx, hcheck⟩ := h
      obtain ⟨rfl, hlen⟩ := length_of_checkDEK hcheck
      exact ⟨inner, hinner, hlen, .inr ⟨hmode, hx⟩⟩
    · cases h
  · cases h

theorem decrypt_opens {kek : KEK C}
    (h : decrypt C kek d = .ok plaintext) : (∃ dek, openDEK C kek d = .ok dek) ∧
      ∃ key, C.openRaw key d.nonce d.ciphertext (d.aad ++ aadSuffixValue) = some plaintext := by
  simp only [decrypt, bind_eq_ok_iff, orThrow_eq_ok_iff] at h
  obtain ⟨dek, hdek, key, _, _, _, hopen⟩ := h
  exact ⟨⟨dek, hdek⟩, key, hopen⟩

/-! ## 他から取った箱 -/

/-- 復号は error を返す。 -/
def Refused (x : Except CryptoError Bytes) : Prop := ∃ e, x = .error e

theorem refused_of_ne_ok {x : Except CryptoError Bytes} (h : ∀ p, x ≠ .ok p) : Refused x := by
  cases x with
  | error e => exact ⟨e, rfl⟩
  | ok p => exact absurd rfl (h p)

/--
同一性 `i` の行として復号する入力が、他から取った箱を含む。内側の箱は、binding key の箱として開くか、DEK を中身に持つ
ものである。
-/
inductive Foreign (C : Cipher keySize) (i : SecretIdentity) (d : DecryptInput) : Prop
  | ciphertext (b : Box C) (hd : d.ciphertext = b.raw) (hb : ¬ b.At i .value)
  | encryptedDEK (b : Box C) (hd : d.encryptedDEK = b.packed) (hb : ¬ b.At i .dek)
  | inner (outer b : Box C) (hd : d.encryptedDEK = outer.packed) (hin : outer.content = b.packed)
      (hb : ¬ b.At i .dekInner)
      (hlayer : d.wrapMode = .bindingKey ∨ b.content.length = keySize)

theorem Foreign.refused (hC : C.Shrinks) {i : SecretIdentity}
    (h : Foreign C i d) (haad : d.aad = i.aad) (kek : KEK C) : Refused (decrypt C kek d) := by
  refine refused_of_ne_ok (fun plaintext hok => ?_)
  obtain ⟨⟨dek, hdek⟩, key, hvalue⟩ := decrypt_opens hok
  obtain ⟨inner, hinner, hlen, hmode⟩ := openDEK_eq_ok hdek
  rw [haad] at hvalue hinner hmode
  cases h with
  | ciphertext b hd hb =>
    rw [hd] at hvalue
    exact hb (Box.at_of_openRaw hvalue)
  | encryptedDEK b hd hb =>
    rw [hd] at hinner
    exact hb (Box.at_of_openPacked hinner)
  | inner outer b hd hin hb hlayer =>
    rw [hd] at hinner
    obtain ⟨_, _, rfl⟩ := openPacked_eq_some outer.nonce.length hinner
    rw [hin] at hmode
    rcases hmode with ⟨hstd, heq⟩ | ⟨_, hopen⟩
    · -- DEK として読むには、箱が長過ぎる
      have hcontent : b.content.length = keySize := by
        rcases hlayer with hbound | hcontent
        · rw [hstd] at hbound
          cases hbound
        · exact hcontent
      have hle := b.length_packed hC
      rw [heq, hlen, hcontent] at hle
      exact absurd hle (by decide)
    · exact hb (Box.at_of_openPacked hopen)

/-! ## envelope と包み直し -/

structure Envelope (C : Cipher keySize) where
  identity : SecretIdentity
  kek : KEK C
  fresh : Fresh
  plaintext : Bytes
  bindingKey : String
  payload : EncryptedPayload
  encrypted : encrypt C kek fresh plaintext identity.aad bindingKey = .ok payload

/-- 包み直しの一段。 -/
structure Rewrap (C : Cipher keySize) where
  source : KEK C
  target : KEK C
  nonce : Nonce

def rewrapAll (C : Cipher keySize) (aad : String) :
    List (Rewrap C) → Bytes → Except CryptoError Bytes
  | [], encryptedDEK => .ok encryptedDEK
  | step :: rest, encryptedDEK => do
    let encryptedDEK ← rewrapDEK C step.source step.target encryptedDEK aad step.nonce.bytes
    rewrapAll C aad rest encryptedDEK

/-- 列を終えた時に DEK を包んでいる KEK。 -/
def lastKEK (kek : KEK C) : List (Rewrap C) → KEK C
  | [] => kek
  | step :: rest => lastKEK step.target rest

/-- どの段も、その時に DEK を包んでいる KEK から移す。 -/
def Chained (kek : KEK C) : List (Rewrap C) → Prop
  | [] => True
  | step :: rest => step.source.key = kek.key ∧ Chained step.target rest

/-- envelope の行を、包み直した DEK と示された binding key で復号する入力。 -/
def Envelope.input (e : Envelope C) (encryptedDEK : Bytes) (bindingKey : String) : DecryptInput :=
  { payloadInput e.payload bindingKey with encryptedDEK }

theorem Wraps.outer (h : Wraps C key bindingKey dek d) : ∃ nonce inner, nonce.length = nonceSize ∧
      d.encryptedDEK = sealPacked C key nonce inner (d.aad ++ aadSuffixDEK) := by
  unfold Wraps at h
  split at h
  · obtain ⟨_, _, nonce, hn, henc⟩ := h
    exact ⟨nonce, _, hn, henc⟩
  · obtain ⟨_, _, _, nonce, _, hn, _, henc⟩ := h
    exact ⟨nonce, _, hn, henc⟩

theorem Sealed.rewrapDEK_ok_iff {source target : KEK C} {d : DecryptInput} {nonce : Bytes}
    (h : Sealed C key plaintext bindingKey d) :
    (∃ encryptedDEK, rewrapDEK C source target d.encryptedDEK d.aad nonce = .ok encryptedDEK) ↔
      source.key = key := by
  obtain ⟨_, _, _, _, _, hwrap⟩ := h
  obtain ⟨nonce', inner, hn, henc⟩ := hwrap.outer
  simp only [rewrapDEK, bind_eq_ok_iff, orThrow_eq_ok_iff, pure_eq_ok_iff, henc]
  constructor
  · rintro ⟨_, _, hopen, _⟩
    exact (openPacked_eq_some hn hopen).1
  · rintro rfl
    exact ⟨_, inner, openPacked_sealPacked hn, rfl⟩

theorem Sealed.rewrapAll (chain : List (Rewrap C)) :
    ∀ {kek : KEK C} {d : DecryptInput}, Sealed C kek.key plaintext bindingKey d →
      (Chained kek chain ↔ ∃ enc, rewrapAll C d.aad chain d.encryptedDEK = .ok enc) ∧
      ∀ enc, rewrapAll C d.aad chain d.encryptedDEK = .ok enc →
        Sealed C (lastKEK kek chain).key plaintext bindingKey { d with encryptedDEK := enc } := by
  induction chain with
  | nil =>
    intro kek d h
    refine ⟨⟨fun _ => ⟨_, rfl⟩, fun _ => trivial⟩, fun enc henc => ?_⟩
    obtain rfl := Except.ok.inj henc
    exact h
  | cons step rest ih =>
    intro kek d h
    have hstep : (∃ enc, rewrapDEK C step.source step.target d.encryptedDEK d.aad
        step.nonce.bytes = .ok enc) ↔ step.source.key = kek.key := h.rewrapDEK_ok_iff
    refine ⟨⟨?_, ?_⟩, ?_⟩
    · rintro ⟨hsource, hrest⟩
      obtain ⟨enc, henc⟩ := hstep.mpr hsource
      obtain ⟨enc', henc'⟩ := (ih (h.rewrap step.nonce.length henc)).1.mp hrest
      exact ⟨enc', bind_eq_ok_iff.mpr ⟨enc, henc, henc'⟩⟩
    · rintro ⟨enc', h'⟩
      obtain ⟨enc, henc, henc'⟩ := bind_eq_ok_iff.mp h'
      exact ⟨hstep.mp ⟨enc, henc⟩, (ih (h.rewrap step.nonce.length henc)).1.mpr ⟨enc', henc'⟩⟩
    · intro enc' h'
      obtain ⟨enc, henc, henc'⟩ := bind_eq_ok_iff.mp h'
      exact (ih (h.rewrap step.nonce.length henc)).2 enc' henc'

theorem Sealed.boxes
    {i : SecretIdentity} (h : Sealed C key plaintext bindingKey d) (haad : d.aad = i.aad) :
    (∃ value : Box C, value.At i .value ∧ d.ciphertext = value.raw) ∧
    ∃ outer : Box C, outer.At i .dek ∧ d.encryptedDEK = outer.packed ∧
      (bindingKey ≠ "" → ∃ inner : Box C, inner.At i .dekInner ∧ outer.content = inner.packed ∧
        inner.content.length = keySize) := by
  obtain ⟨dek, dekKey, hdek, hn, hct, hwrap⟩ := h
  have hlen : dek.length = keySize := C.ofBytes_isSome.mp (by rw [hdek]; rfl)
  rw [haad] at hct
  refine ⟨⟨⟨i, .value, dekKey, ⟨d.nonce, hn⟩, plaintext⟩, ⟨rfl, rfl⟩, hct⟩, ?_⟩
  unfold Wraps at hwrap
  rw [haad] at hwrap
  split at hwrap
  · next hempty =>
    obtain ⟨_, _, nonce, hn', henc⟩ := hwrap
    exact ⟨⟨i, .dek, key, ⟨nonce, hn'⟩, dek⟩, ⟨rfl, rfl⟩, henc, fun hne => absurd hempty hne⟩
  · obtain ⟨_, _, _, nonce, innerNonce, hn', hin, henc⟩ := hwrap
    refine ⟨⟨i, .dek, key, ⟨nonce, hn'⟩, _⟩, ⟨rfl, rfl⟩, henc, fun _ => ?_⟩
    exact ⟨⟨i, .dekInner, C.derive bindingKey d.bindingKeySalt, ⟨innerNonce, hin⟩, dek⟩,
      ⟨rfl, rfl⟩, rfl, hlen⟩

theorem Sealed.refused_of_wrapMode (hC : C.Shrinks)
    {d' : DecryptInput} (h : Sealed C key plaintext bindingKey d)
    (hdek : d'.encryptedDEK = d.encryptedDEK) (haad : d'.aad = d.aad)
    (hmode : d'.wrapMode ≠ d.wrapMode) (kek : KEK C) : Refused (Crypto.decrypt C kek d') := by
  refine refused_of_ne_ok (fun plaintext' hok => ?_)
  obtain ⟨⟨dek', hdek'⟩, _⟩ := decrypt_opens hok
  obtain ⟨inner, hinner, hlen', hopen⟩ := openDEK_eq_ok hdek'
  obtain ⟨dek, dekKey, hkey, _, _, hwrap⟩ := h
  have hlen : dek.length = keySize := C.ofBytes_isSome.mp (by rw [hkey]; rfl)
  unfold Wraps at hwrap
  rw [hdek, haad] at hinner
  split at hwrap
  · obtain ⟨hstd, _, nonce, hn, henc⟩ := hwrap
    rw [henc] at hinner
    obtain ⟨_, _, rfl⟩ := openPacked_eq_some hn hinner
    rcases hopen with ⟨hm, _⟩ | ⟨_, hopen⟩
    · exact hmode (hm.trans hstd.symm)
    · -- 裸の DEK は、binding key の箱として開くには短過ぎる
      have hle := length_openPacked hC hopen
      rw [hlen, hlen'] at hle
      exact absurd hle (by decide)
  · obtain ⟨hbound, _, _, nonce, innerNonce, hn, hin, henc⟩ := hwrap
    rw [henc] at hinner
    obtain ⟨_, _, rfl⟩ := openPacked_eq_some hn hinner
    rcases hopen with ⟨_, heq⟩ | ⟨hm, _⟩
    · -- binding key の箱は、DEK として使うには長過ぎる
      have hinner : openPacked C (C.derive bindingKey d.bindingKeySalt)
          (sealPacked C (C.derive bindingKey d.bindingKeySalt) innerNonce dek
            (d.aad ++ aadSuffixDEKInner)) (d.aad ++ aadSuffixDEKInner) = some dek :=
        openPacked_sealPacked hin
      have hle := length_openPacked hC hinner
      rw [heq, hlen, hlen'] at hle
      exact absurd hle (by decide)
    · exact hmode (hm.trans hbound.symm)

theorem exists_envelope (i : SecretIdentity) (kek : KEK C) (fresh : Fresh) (plaintext : Bytes)
    (bindingKey : String) (hb : bindingKey = "" ∨ validateBindingKey bindingKey = .ok ()) :
    ∃ e : Envelope C, e.identity = i ∧ e.kek = kek ∧ e.plaintext = plaintext ∧
      e.bindingKey = bindingKey := by
  obtain ⟨dekKey, hdek⟩ := Option.isSome_iff_exists.mp (C.ofBytes_isSome.mpr fresh.dek_length)
  have hok : ∃ p, encrypt C kek fresh plaintext i.aad bindingKey = .ok p := by
    by_cases hempty : bindingKey = ""
    · exact ⟨_, bind_eq_ok_iff.mpr ⟨dekKey, orThrow_eq_ok_iff.mpr hdek, if_pos hempty⟩⟩
    · have hwrap : ∃ enc, wrapDEKWithBindingKey C kek fresh i.aad bindingKey = .ok enc :=
        ⟨_, bind_eq_ok_iff.mpr ⟨(), hb.resolve_left hempty, rfl⟩⟩
      obtain ⟨enc, henc⟩ := hwrap
      exact ⟨_, bind_eq_ok_iff.mpr ⟨dekKey, orThrow_eq_ok_iff.mpr hdek,
        (if_neg hempty).trans (bind_eq_ok_iff.mpr ⟨enc, henc, rfl⟩)⟩⟩
  obtain ⟨p, hp⟩ := hok
  exact ⟨⟨i, kek, fresh, plaintext, bindingKey, p, hp⟩, rfl, rfl, rfl, rfl⟩

theorem Envelope.sealed (e : Envelope C) (b : String) :
    Sealed C e.kek.key e.plaintext e.bindingKey (payloadInput e.payload b) :=
  (encrypt_sealed e.encrypted).1

theorem Envelope.aad_eq (e : Envelope C) : e.payload.aad = e.identity.aad :=
  (encrypt_sealed (b := "") e.encrypted).2.2

theorem Envelope.sealed_rewrapped (e : Envelope C) {chain : List (Rewrap C)} {enc : Bytes}
    (h : rewrapAll C e.identity.aad chain e.payload.encryptedDEK = .ok enc) (b : String) :
    Sealed C (lastKEK e.kek chain).key e.plaintext e.bindingKey (e.input enc b) := by
  rw [← e.aad_eq] at h
  exact ((e.sealed b).rewrapAll chain).2 enc h

/-! ## 主定理 -/

/--
envelope は、secret の同一性に縛られる。

関連 data は (environment, application, key, version, 層) を決める。`RewrapDEK` の列は、繋がっている時にだけ通り、その後の
envelope は、最後の KEK と正しい binding key でだけ元の平文に開く。standard の envelope に示された binding key は読まれない。
包み方を偽った行と、他の同一性・version・層から取った箱を含む行は、どの KEK と binding key でも開かない。
-/
theorem envelope_binds_identity (hC : C.Shrinks) :
    (∀ (i j : SecretIdentity) (layer layer' : Layer),
      (i.layerAAD layer).toUTF8 = (j.layerAAD layer').toUTF8 → i = j ∧ layer = layer') ∧
    (∀ (e : Envelope C) (chain : List (Rewrap C)),
      (Chained e.kek chain ↔
        ∃ enc, rewrapAll C e.identity.aad chain e.payload.encryptedDEK = .ok enc) ∧
      ∀ enc, rewrapAll C e.identity.aad chain e.payload.encryptedDEK = .ok enc →
        (∀ b, (e.bindingKey ≠ "" → b = e.bindingKey) →
          decrypt C (lastKEK e.kek chain) (e.input enc b) = .ok e.plaintext) ∧
        (∀ kek b, kek.key ≠ (lastKEK e.kek chain).key ∨ e.bindingKey ≠ "" ∧ b ≠ e.bindingKey →
          Refused (decrypt C kek (e.input enc b))) ∧
        (∀ kek b wrapMode bindingKeySalt, wrapMode ≠ e.payload.wrapMode →
          Refused (decrypt C kek { e.input enc b with wrapMode, bindingKeySalt })) ∧
        (∃ value : Box C, value.At e.identity .value ∧ e.payload.ciphertext = value.raw) ∧
        ∃ outer : Box C, outer.At e.identity .dek ∧ enc = outer.packed ∧
          (e.bindingKey ≠ "" → ∃ inner : Box C, inner.At e.identity .dekInner ∧
            outer.content = inner.packed ∧ inner.content.length = keySize)) ∧
    ∀ (i : SecretIdentity) (d : DecryptInput), d.aad = i.aad → Foreign C i d →
      ∀ kek, Refused (decrypt C kek d) := by
  refine ⟨?_, ?_, fun i d haad hforeign kek => hforeign.refused hC haad kek⟩
  · intro i j layer layer' h
    exact SecretIdentity.layerAAD_inj (String.toByteArray_inj.mp h)
  · intro e chain
    have hchain := ((e.sealed "").rewrapAll chain).1
    refine ⟨by rw [← e.aad_eq]; exact hchain, fun enc henc => ⟨?_, ?_, ?_, ?_⟩⟩
    · intro b hb
      exact (e.sealed_rewrapped henc b).decrypt hb
    · intro kek b hwrong
      refine refused_of_ne_ok (fun plaintext hok => ?_)
      obtain ⟨hkey, _, hb⟩ := (e.sealed_rewrapped henc b).decrypt_eq_ok hok
      rcases hwrong with hne | ⟨hbound, hne⟩
      · exact hne hkey
      · exact hne (hb hbound)
    · intro kek b wrapMode bindingKeySalt hmode
      exact Sealed.refused_of_wrapMode hC (e.sealed_rewrapped henc b) (by rfl) (by rfl) hmode kek
    · exact (e.sealed_rewrapped henc "").boxes e.aad_eq

end

section Sample

private def sampleIdentity : SecretIdentity :=
  ⟨⟨⟨"prod", "billing"⟩, "db/password"⟩, 3, by rfl, by rfl⟩

private def sampleBindingKey : String := "0123456789abcdef0123456789abcdef"

/-- 二重に包んだ envelope は、binding key が無ければ開かない。 -/
theorem envelope_binds_identity_bound : ∃ e : Envelope (Cipher.ideal keySize),
    e.bindingKey = sampleBindingKey ∧
      decrypt _ e.kek (e.input e.payload.encryptedDEK sampleBindingKey) = .ok e.plaintext ∧
      Refused (decrypt _ e.kek (e.input e.payload.encryptedDEK "")) := by
  obtain ⟨e, _, _, _, hb⟩ := exists_envelope sampleIdentity (sampleKEK _) sampleFresh [104, 105]
    sampleBindingKey (.inr (by rfl))
  have h := ((envelope_binds_identity (Cipher.ideal_shrinks keySize)).2.1 e []).2 _ rfl
  refine ⟨e, hb, h.1 _ (fun _ => hb.symm), h.2.1 _ _ (.inr ⟨?_, ?_⟩)⟩
  all_goals
    rw [hb]
    decide

/-- standard の envelope は、余計な binding key を示しても開く。 -/
theorem superfluous_binding_key_is_ignored : ∃ e : Envelope (Cipher.ideal keySize),
    e.bindingKey = "" ∧ e.payload.wrapMode = .standard ∧
      decrypt _ e.kek (e.input e.payload.encryptedDEK sampleBindingKey) = .ok e.plaintext := by
  obtain ⟨e, _, _, _, hb⟩ := exists_envelope sampleIdentity (sampleKEK _) sampleFresh [104, 105] ""
    (.inl rfl)
  refine ⟨e, hb, ?_, (e.sealed _).decrypt (fun hne => absurd hb hne)⟩
  obtain ⟨_, _, _, _, _, hwrap⟩ := e.sealed ""
  rw [Wraps, if_pos hb] at hwrap
  exact hwrap.1

end Sample

end Kms.Crypto
