import Kms.Core.Validation
import Kms.Infra.Timestamp
import Kms.Storage.SecretFrame

/-!
# 読み出しと有効化での secret version の検査

読み出しは `checkVersionReadable` を、有効化は `validateReleasePinsTx` を通る。期限の列は文字列で、
年が四桁を超えると読み戻せない。そのとき、前者は期限が無いものとして通し、後者は期限切れとして断る。

* `parseTime_fmtTimePtr` — 四桁の年の時刻だけが、列から読み戻せる
* `readable_iff_pin_accepted` — 有効な version の二つの検査が一致するのは、期限が 10000 年より前のときである
* `far_expiry_splits_checks` — 10000 年の期限では一致しない
-/

namespace Kms.Core

open Kms.Infra Kms.Storage

/-! ## 時刻の列 -/

/-- `fmtTimePtr`。零の時刻は NULL になる。 -/
def fmtTimePtr (t : Time) : Option (List Char) := if t = 0 then none else some (formatTimestamp t)

/-- `parseTime`。読めない文字列は零の時刻になる。 -/
def parseTime (text : List Char) : Time := (parseTimestamp text).getD 0

/-- 10000 年より前の時刻。 -/
def FourDigitYear (t : Time) : Prop := (DateTime.ofNanos t).year < 10000

instance (t : Time) : Decidable (FourDigitYear t) := inferInstanceAs (Decidable (_ < _))

theorem parseTime_fmtTimePtr (t : Time) : (fmtTimePtr t).map parseTime =
    if t = 0 then none else some (if FourDigitYear t then t else 0) := by
  unfold fmtTimePtr parseTime
  split
  · rfl
  · rw [Option.map_some]
    split
    · next hyear => rw [parseTimestamp_formatTimestamp hyear, Option.getD_some]
    · next hyear => rw [parseTimestamp_far (Nat.le_of_not_lt hyear), Option.getD_none]

/-- `unixMSToTime`。0 は零の時刻である。 -/
def unixMSToTime (ms : Int) : Time := (ms * 1000000).toNat

/-- `PutSecret` の期限の検査と、書いた列から読み戻す値。 -/
def expiryColumn (now : Time) (expiresAt : Int) : Except Err (Option Time) := do
  require (expiresAt = 0 ∨ (now : Int) < expiresAt * 1000000)
    (.invalidArgument "expires_at is in the past")
  pure ((fmtTimePtr (unixMSToTime expiresAt)).map parseTime)

/-- `PutSecret` の書き込み。期限の列だけを、文字列を経た値で持つ。 -/
def putExpiringSecret (rq : Request) (s : Store) (p : CreateSecretParams) (expiresAt : Int) :
    Except Err ((Nat × Nat) × Store) := do
  let column ← expiryColumn rq.now expiresAt
  createSecretVersion rq s { p with expiresAt := column }

/-! ## version の行 -/

variable {s s' : Store} {key : Nat × Nat} {sv : SecretVersionModel} {contentType : String}
  {expiresAt : Option Time} {releaseID : Nat}

/-- 破棄されていない行は、書いたときの content type と期限を持つ。 -/
def Placed (contentType : String) (expiresAt : Option Time) (sv : SecretVersionModel) : Prop :=
  sv.state = .destroyed ∨
    (sv.destroyedAt = none ∧ sv.contentType = contentType ∧ sv.expiresAt = expiresAt)

theorem placed_step {c : Call} (h : SecretEffect s c s') (hh : Housed s)
    (hl : Lasting (Placed contentType expiresAt) s key) :
    Lasting (Placed contentType expiresAt) s' key := by
  refine lasting_step h hh ?_ hl
  intro sv sv' hsv hp hsv'
  have horigin := h.versionOrigin (Table.mem_of_get hsv')
  rcases horigin.source (by rw [Table.key_of_get hsv', hsv]) with
    rfl | ⟨hlive, _, hct, _, hdestroyed, hexp⟩ | ⟨he, _⟩
  · exact hp
  · obtain ⟨hd, ht, hx⟩ := hp.resolve_left hlive
    exact Or.inr ⟨hdestroyed.trans hd, hct.trans ht, hexp.trans hx⟩
  · exact Or.inl he.state

theorem placed_run [Hashing] (hh : Housed s)
    (hl : Lasting (Placed contentType expiresAt) s key) (cs : List Call) :
    Housed (run step s cs) ∧ Lasting (Placed contentType expiresAt) (run step s cs) key := by
  refine run_invariant
    (I := fun s => Housed s ∧ Lasting (Placed contentType expiresAt) s key) ?_ ⟨hh, hl⟩ cs
  rintro s c ⟨hh, hl⟩
  have he : SecretEffect s c (step s c) := step_secretEffect rfl
  exact ⟨housed_step he hh, placed_step he hh hl⟩

theorem placed_created {rq : Request} {p : CreateSecretParams} {out : Nat × Nat}
    (h : createSecretVersion rq s p = .ok (out, s')) (hnew : s.secretVersions.get key = none)
    (hsv : s'.secretVersions.get key = some sv) :
    Placed (zeroOr p.contentType "application/octet-stream") p.expiresAt sv := by
  obtain ⟨_, _, _, _, _, _, _, _, _, _, _, _, _, hver, _, rfl⟩ := createSecretVersion_ok_cases h
  rcases (Table.mem_insert? hver).mp (Table.mem_of_get hsv) with hold | rfl
  · rw [← Table.key_of_get hsv, Table.get_of_mem hold] at hnew
    cases hnew
  · refine Or.inr ⟨rfl, ?_, rfl⟩
    simp only [secretVersionRow, zeroOr]
    split <;> simp_all

/-! ## 二つの検査 -/

/-- release の唯一の entry が、同じ namespace の secret version `sv` を指す。 -/
structure PinsOnly (s : Store) (releaseID : Nat) (contentType : String)
    (sv : SecretVersionModel) (e : ConfigurationReleaseEntryModel) : Prop where
  entries : releaseEntriesOf s releaseID = [e]
  kind : e.kind = .secret
  contentType : e.contentType = contentType
  owner : ∃ owner, (s.releases.byId releaseID).bind (s.namespaces.byId ·.namespaceID) = some owner ∧
    e.resourceNamespaceID = owner.id ∧ e.resourceNS = owner.ref
  row : pinnedSecretVersion s e = some sv

theorem checkVersionReadable_ok_iff {now : Time} :
    checkVersionReadable now sv = .ok () ↔
      sv.destroyedAt.getD 0 = 0 ∧ sv.state = .enabled ∧
        (sv.expiresAt.getD 0 = 0 ∨ now ≤ sv.expiresAt.getD 0) := by
  cases hst : sv.state with
  | enabled => simp [checkVersionReadable, bind_eq_ok_iff, require_eq_ok_iff, hst]
  | _ => simp [checkVersionReadable, bind_eq_ok_iff, hst]

theorem validateReleasePinsTx_ok_iff [Hashing] {rq : Request} {e : ConfigurationReleaseEntryModel}
    (h : PinsOnly s releaseID contentType sv e) :
    validateReleasePinsTx rq s releaseID = .ok () ↔
      (sv.state = .enabled ∧ sv.destroyedAt = none) ∧
        (∀ t ∈ sv.expiresAt, t ≠ 0 ∧ rq.now ≤ t) ∧ sv.contentType = contentType := by
  obtain ⟨owner, hbind, hid, hns⟩ := h.owner
  obtain ⟨r, hr, howner⟩ := Option.bind_eq_some_iff.mp hbind
  have hby : s.namespaces.byId owner.id = some owner :=
    AutoTable.byId_of_mem (AutoTable.byId_eq_some_iff.mp howner).1
  simp only [validateReleasePinsTx, hr, howner, h.entries, List.forM_eq_forM, List.forM_cons,
    List.forM_nil, validateReleasePin, h.kind, h.row, hby, hid, hns, h.contentType,
    bind_eq_ok_iff, require_eq_ok_iff, orThrow_eq_ok_iff]
  simp [pure, Except.pure]

theorem readable_iff_of_placed [Hashing] {rq : Request} {e : ConfigurationReleaseEntryModel}
    (h : PinsOnly s releaseID contentType sv e) (hp : Placed contentType expiresAt sv) :
    (checkVersionReadable rq.now sv = .ok () ↔ validateReleasePinsTx rq s releaseID = .ok ()) ↔
      (sv.state = .enabled → expiresAt ≠ some 0) := by
  rw [checkVersionReadable_ok_iff, validateReleasePinsTx_ok_iff h]
  rcases hp with hd | ⟨hd, hct, hx⟩
  · simp [hd]
  · rw [hd, hct, hx]
    by_cases hstate : sv.state = .enabled
    · cases expiresAt with
      | none => simp
      | some t =>
        by_cases ht : t = 0
        · simp [hstate, ht]
        · simp [hstate, ht]
    · simp [hstate]

/--
書いた version を読む検査と、それを指す release の検査は、その後の操作が何で、今がいつであっても、期限が無いか 10000 年より
前なら一致する。10000 年からの期限では、有効な version について一致しない。
-/
theorem readable_iff_pin_accepted [Hashing] {s₀ s₁ : Store} (h₀ : Housed s₀)
    (before after : List Call) {rq : Request} {p : CreateSecretParams} {expires : Int}
    {out : Nat × Nat} {row : SecretVersionModel} {e : ConfigurationReleaseEntryModel}
    (hput : putExpiringSecret rq (run step s₀ before) p expires = .ok (out, s₁))
    (hnew : (run step s₀ before).secretVersions.get key = none)
    (hrow : s₁.secretVersions.get key = some row)
    (hpin : PinsOnly (run step s₁ after) releaseID
      (zeroOr p.contentType "application/octet-stream") sv e) (hkey : sv.key = key)
    (rq' : Request) :
    (checkVersionReadable rq'.now sv = .ok () ↔
      validateReleasePinsTx rq' (run step s₁ after) releaseID = .ok ()) ↔
      (sv.state = .enabled → FourDigitYear (unixMSToTime expires)) := by
  have hh : Housed (run step s₀ before) :=
    run_invariant (fun _ _ hi => housed_step (step_secretEffect rfl) hi) h₀ before
  simp only [putExpiringSecret, expiryColumn, bind_eq_ok_iff, pure_eq_ok_iff] at hput
  obtain ⟨column, ⟨_, _, rfl⟩, hok⟩ := hput
  have heff : SecretEffect (run step s₀ before) ⟨rq, .secret (.create _)⟩ s₁ :=
    .created _ out rfl hok
  obtain ⟨hh₂, hl⟩ := placed_run (housed_step heff hh)
    (Or.inl ⟨row, hrow, placed_created hok hnew hrow⟩) after
  have hget : (run step s₁ after).secretVersions.get key = some sv := by
    obtain ⟨sec, _, hsv⟩ := Option.bind_eq_some_iff.mp hpin.row
    rwa [← hkey, Table.key_of_get hsv]
  rw [readable_iff_of_placed hpin (hl.holds hh₂ hget)]
  refine imp_congr_right (fun _ => ?_)
  rw [parseTime_fmtTimePtr]
  by_cases h0 : unixMSToTime expires = 0
  · rw [if_pos h0, h0]
    exact ⟨fun _ => by decide, fun _ => (Option.some_ne_none 0).symm⟩
  · rw [if_neg h0]
    by_cases hyear : FourDigitYear (unixMSToTime expires)
    · simp [hyear, h0]
    · simp [hyear]

section Sample

local instance readabilityHashing : Hashing := sampleHashing

def sampleKeyed : Store :=
  { step Store.empty ⟨sampleRequest, .createNamespace sampleNamespace⟩ with
    keyMetadata := ⟨[⟨"kek-1", [], .active, 0⟩], List.nodup_singleton _⟩ }

def sampleSealed : CreateSecretParams :=
  { ref := ⟨sampleNamespace, "token"⟩, contentType := "text/plain",
    metadata := "", createdBy := "ops"
    bound := false, expected := none, expiresAt := none
    encrypt := fun _ => .ok ⟨[1], [2], "kek-1", .standard, [], "", [3], ""⟩ }

/-- 期限付きの version を書いた store。 -/
def sampleExpiring (expires : Int) : Store :=
  match putExpiringSecret sampleRequest sampleKeyed sampleSealed expires with
  | .ok (_, s) => s
  | .error _ => sampleKeyed

/-- その version を指す release を作る。 -/
def samplePinning : List Call :=
  [⟨sampleRequest, .createRelease { sampleRelease with
    entries := [⟨"token", .secret, ⟨sampleNamespace, "token"⟩, 1, 0, "text/plain", "", ""⟩] }
    ⟨false, none⟩⟩]

def sampleExpiringPinned (expires : Int) : Store := run step (sampleExpiring expires) samplePinning

def sampleExpiringRow (expiresAt : Option Time) : SecretVersionModel :=
  secretVersionRow 1 1 "text/plain" "" "ops" false .enabled expiresAt
    ⟨[1], [2], "kek-1", .standard, [], "", [3], ""⟩

def samplePinEntry : ConfigurationReleaseEntryModel :=
  ⟨1, "token", .secret, 1, sampleNamespace, "token", 1, "text/plain", "\x7b\x7d", ""⟩

theorem sampleExpiringPinned_pins {expires : Int} {column : Option Time}
    (h : (expires, column) ∈ [(253402300800000, some 0), (1000, some 1000000000)]) :
    PinsOnly (sampleExpiringPinned expires) 1 "text/plain" (sampleExpiringRow column)
      samplePinEntry := by
  simp only [List.mem_cons, Prod.mk.injEq, List.not_mem_nil, or_false] at h
  obtain ⟨rfl, rfl⟩ | ⟨rfl, rfl⟩ := h
  · exact ⟨by decide +kernel, rfl, rfl, ⟨⟨1, sampleNamespace⟩, by decide +kernel, rfl, rfl⟩,
      by decide +kernel⟩
  · exact ⟨by decide +kernel, rfl, rfl, ⟨⟨1, sampleNamespace⟩, by decide +kernel, rfl, rfl⟩,
      by decide +kernel⟩

/-- 10000 年の期限は列から読み戻せない。読み出しは期限の無い version として通し、有効化は期限切れとして断る。 -/
theorem far_expiry_splits_checks :
    (putExpiringSecret sampleRequest sampleKeyed sampleSealed 253402300800000).isOk = true ∧
      PinsOnly (sampleExpiringPinned 253402300800000) 1 "text/plain" (sampleExpiringRow (some 0))
        samplePinEntry ∧
      checkVersionReadable sampleRequest.now (sampleExpiringRow (some 0)) = .ok () ∧
      ¬ validateReleasePinsTx sampleRequest (sampleExpiringPinned 253402300800000) 1 = .ok () := by
  have hpin : PinsOnly (sampleExpiringPinned 253402300800000) 1 "text/plain"
      (sampleExpiringRow (some 0)) samplePinEntry := sampleExpiringPinned_pins (by decide)
  refine ⟨by decide +kernel, hpin, checkVersionReadable_ok_iff.mpr (by decide), fun h => ?_⟩
  exact absurd ((validateReleasePinsTx_ok_iff hpin).mp h).2.1 (by decide)

/-- 期限の text は `1970-01-01T00:00:01.000000000Z` である。 -/
theorem readable_iff_pin_accepted_soon :
    fmtTimePtr (unixMSToTime 1000) = some "1970-01-01T00:00:01.000000000Z".toList ∧
      ((checkVersionReadable sampleRequest.now (sampleExpiringRow (some 1000000000)) = .ok () ↔
        validateReleasePinsTx sampleRequest (sampleExpiringPinned 1000) 1 = .ok ()) ↔
        ((sampleExpiringRow (some 1000000000)).state = .enabled →
          FourDigitYear (unixMSToTime 1000))) := by
  refine ⟨by decide +kernel, ?_⟩
  have hok : (putExpiringSecret sampleRequest sampleKeyed sampleSealed 1000).isOk = true := by
    decide +kernel
  obtain ⟨out, hput⟩ : ∃ out, putExpiringSecret sampleRequest sampleKeyed sampleSealed 1000 =
      .ok (out, sampleExpiring 1000) := by
    unfold sampleExpiring
    split
    · next out s h => exact ⟨out, h⟩
    · next e h =>
      rw [h] at hok
      cases hok
  have hrow : (sampleExpiring 1000).secretVersions.get (1, 1) =
      some (sampleExpiringRow (some 1000000000)) := by decide +kernel
  have hh : Housed sampleKeyed := ⟨(fun _ h => nomatch h), (fun _ h => nomatch h)⟩
  exact readable_iff_pin_accepted hh [] samplePinning hput (by decide) hrow
    (sampleExpiringPinned_pins (by decide)) rfl sampleRequest

end Sample

end Kms.Core
