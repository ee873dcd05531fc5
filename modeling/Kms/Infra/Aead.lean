import Mathlib.Logic.Equiv.List

/-!
# 理想的な AEAD と KDF

記号的な模型である。封じた暗号文は、同じ key・nonce・関連 data でだけ開き、他では必ず失敗する。KDF は、同じ salt の下で
異なる入力から異なる key を作る。key の型は抽象で、導出した key を byte 列に戻すことはできない。

* `Cipher` — 二つの関数の組と、その法則
* `Cipher.Shrinks` — 開いた平文は、暗号文より長くない
* `Cipher.ideal` — 法則を全て満たす具体的な組
-/

namespace Kms.Infra

structure Cipher (keySize : Nat) where
  Key : Type
  /-- byte 列を key として読む。 -/
  ofBytes : List UInt8 → Option Key
  /-- 合言葉と salt から key を導く。 -/
  derive : String → List UInt8 → Key
  /-- key・nonce・平文・関連 data から暗号文を作る。 -/
  sealRaw : Key → List UInt8 → List UInt8 → String → List UInt8
  /-- key・nonce・暗号文・関連 data から平文を開く。 -/
  openRaw : Key → List UInt8 → List UInt8 → String → Option (List UInt8)
  ofBytes_isSome : ∀ {b : List UInt8}, (ofBytes b).isSome = true ↔ b.length = keySize
  openRaw_sealRaw : ∀ {k : Key} {nonce plaintext : List UInt8} {aad : String},
    openRaw k nonce (sealRaw k nonce plaintext aad) aad = some plaintext
  authentic : ∀ {k k' : Key} {nonce nonce' plaintext plaintext' : List UInt8} {aad aad' : String},
    openRaw k' nonce' (sealRaw k nonce plaintext aad) aad' = some plaintext' →
      k' = k ∧ nonce' = nonce ∧ aad' = aad
  derive_inj : ∀ {a b : String} {salt : List UInt8}, derive a salt = derive b salt → a = b

namespace Cipher

variable {keySize : Nat} (C : Cipher keySize)

theorem openRaw_eq_some {k k' : C.Key} {nonce nonce' plaintext plaintext' : List UInt8}
    {aad aad' : String}
    (h : C.openRaw k' nonce' (C.sealRaw k nonce plaintext aad) aad' = some plaintext') :
    k' = k ∧ nonce' = nonce ∧ aad' = aad ∧ plaintext' = plaintext := by
  obtain ⟨rfl, rfl, rfl⟩ := C.authentic h
  rw [C.openRaw_sealRaw] at h
  exact ⟨rfl, rfl, rfl, (Option.some.inj h).symm⟩

def Shrinks : Prop :=
  ∀ {k : C.Key} {nonce ciphertext plaintext : List UInt8} {aad : String},
    C.openRaw k nonce ciphertext aad = some plaintext → plaintext.length ≤ ciphertext.length

end Cipher

/-! ## 具体的な組 -/

instance encodableUInt8 : Encodable UInt8 :=
  Encodable.ofLeftInjection UInt8.toNat (fun n => some (UInt8.ofNat n))
    (fun _ => congrArg some UInt8.ofNat_toNat)

instance encodableChar : Encodable Char :=
  Encodable.ofLeftInjection Char.toNat (fun n => some (Char.ofNat n))
    (fun c => congrArg some (Char.ofNat_toNat c))

instance encodableString : Encodable String :=
  Encodable.ofLeftInjection String.toList (fun l => some (String.ofList l))
    (fun _ => congrArg some String.ofList_toList)

def Cipher.ideal (keySize : Nat) : Cipher keySize where
  Key := List UInt8 ⊕ (String × List UInt8)
  ofBytes b := if b.length = keySize then some (.inl b) else none
  derive phrase salt := .inr (phrase, salt)
  sealRaw k nonce plaintext aad :=
    List.replicate (Encodable.encode (k, nonce, plaintext, aad)) 0
  openRaw k nonce ciphertext aad :=
    match (Encodable.decode ciphertext.length :
        Option ((List UInt8 ⊕ (String × List UInt8)) × List UInt8 × List UInt8 × String)) with
    | some (k', nonce', plaintext, aad') =>
      if k = k' ∧ nonce = nonce' ∧ aad = aad' then some plaintext else none
    | none => none
  ofBytes_isSome := by
    intro b
    split <;> simp_all
  openRaw_sealRaw := by
    intro k nonce plaintext aad
    simp
  authentic := by
    intro k k' nonce nonce' plaintext plaintext' aad aad' h
    simp only [List.length_replicate, Encodable.encodek] at h
    split at h
    · next heq => exact heq
    · cases h
  derive_inj := by
    intro a b salt h
    exact (Prod.mk.inj (Sum.inr.inj h)).1

theorem length_le_of_decode_list {α : Type} [Encodable α] (n : Nat) :
    ∀ {l : List α}, Encodable.decode n = some l → l.length ≤ n := by
  induction n using Nat.strongRecOn with
  | ind n ih =>
    intro l h
    cases n with
    | zero =>
      rw [Encodable.decode_list_zero] at h
      rw [← Option.some.inj h]
      exact Nat.le_refl 0
    | succ v =>
      simp only [Encodable.decode_list_succ, seq_eq_bind_map, Option.bind_eq_bind,
        Option.bind_eq_some_iff, Option.map_eq_map, Option.map_eq_some_iff] at h
      obtain ⟨_, ⟨a, _, rfl⟩, rest, hrest, rfl⟩ := h
      have hle : v.unpair.2 ≤ v := Nat.unpair_right_le v
      have := ih _ (Nat.lt_succ_of_le hle) hrest
      simp only [List.length_cons]
      omega

theorem Cipher.ideal_shrinks (keySize : Nat) : (Cipher.ideal keySize).Shrinks := by
  intro k nonce ciphertext plaintext aad h
  simp only [Cipher.ideal] at h
  split at h
  · next k' nonce' plaintext' aad' hdecode =>
    split at h
    · obtain rfl := Option.some.inj h
      simp only [Encodable.decode_prod_val, Option.bind_eq_some_iff,
        Option.map_eq_some_iff] at hdecode
      obtain ⟨_, _, ⟨_, ⟨_, _, ⟨_, ⟨l, hl, ⟨_, _, rfl⟩⟩, rfl⟩⟩, heq⟩⟩ := hdecode
      simp only [Prod.mk.injEq] at heq
      obtain ⟨_, _, rfl, _⟩ := heq
      calc l.length ≤ _ := length_le_of_decode_list _ hl
        _ ≤ _ := Nat.unpair_left_le _
        _ ≤ _ := Nat.unpair_right_le _
        _ ≤ ciphertext.length := Nat.unpair_right_le _
    · cases h
  · cases h

end Kms.Infra
