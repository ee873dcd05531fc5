import Kms.Core.Secrets

/-!
# 一つの database を共有する process 群

process は keyring を、書き込みは始めたときの active を、それぞれ memory に持つ。別の process が KEK を交換すると、
どちらも古くなる。transaction は database の上で直列化されるので、任意の割り込みは `CoreOp` の列で表せる。

`supplied` は観測のための記録で、どの操作もこれを読んで振る舞いを変えない。
-/

namespace Kms.Core

open Kms.Infra Kms.Storage Kms.Crypto

/-- 全体の状態。 -/
structure World (C : Cipher keySize) where
  store : Store
  /-- process ごとの keyring。 -/
  rings : Nat → Option (Keyring C)
  /-- 進行中の書き込みが掴んだ、process と active。 -/
  writers : Nat → Option (Nat × KEK C)
  /-- version ごとに、渡された平文と、結び付けた binding key。 -/
  supplied : Nat × Nat → Option (Bytes × String)

/-- KEK を使う store の操作。service を通してだけ呼ばれる。 -/
def UsesKEK : Op → Prop
  | .secret (.create _) => True
  | .secret (.transition _) => True
  | .rotateKEK .. => True
  | _ => False

/-- 一つの出来事。`r` と `nonces` は、その時に引いた乱数である。 -/
inductive CoreOp where
  | start (p : Nat) (material : Bytes)
  | capture (i p : Nat)
  | put (i : Nat) (rq : Request) (r : Fresh) (input : PutSecretInput)
  | transition (i : Nat) (rq : Request) (r : Fresh) (kind : SecretTransitionKind)
      (input : TransitionInput)
  | rotate (p : Nat) (id : String) (material : Bytes) (createdAt : Time) (nonces : RotationNonces)
  | other (c : Call) (h : ¬ UsesKEK c.op)

section

variable {C : Cipher keySize}

/-- 新しく現れた version に、渡された値を記録する。 -/
def noteSupplied (s s' : Store) (v : Option (Bytes × String))
    (supplied : Nat × Nat → Option (Bytes × String)) : Nat × Nat → Option (Bytes × String) :=
  fun k =>
    if (s.secretVersions.get k).isNone ∧ (s'.secretVersions.get k).isSome then v else supplied k

/-- 遷移の元の version に渡された平文と、新しい binding key。 -/
def suppliedByTransition (rq : Request) (s : Store) (kind : SecretTransitionKind)
    (input : TransitionInput) (supplied : Nat × Nat → Option (Bytes × String)) :
    Option (Bytes × String) :=
  match findSecret rq s input.ref with
  | .ok sec => (supplied (sec.id, input.expectedCurrentVersion)).map
      (fun v => (v.1, if kind = .unbind then "" else input.newBindingKey))
  | .error _ => none

def World.release (w : World C) (i : Nat) : World C :=
  { w with writers := Function.update w.writers i none }

/-- 書き込みの commit。失敗した transaction は store を変えない。 -/
def World.finish {α : Type} (w : World C) (i : Nat) (result : Except Err (α × Store))
    (v : Option (Bytes × String)) : World C :=
  match result with
  | .ok (_, s') =>
    { w.release i with store := s', supplied := noteSupplied w.store s' v w.supplied }
  | .error _ => w.release i

/-- 起動。active な行が登録した KEK を示せなければ、keyring は得られない。 -/
def World.start (w : World C) (p : Nat) (material : Bytes) : World C :=
  match activeKey w.store with
  | none => w
  | some km =>
    match unlock (C := C) km material with
    | .ok ring => { w with rings := Function.update w.rings p (some ring) }
    | .error _ => w

/-- 書き込みの始まり。 -/
def World.capture (w : World C) (i p : Nat) : World C :=
  match w.rings p with
  | none => w
  | some ring => { w with writers := Function.update w.writers i (some (p, ring.active)) }

def World.put (w : World C) (i : Nat) (rq : Request) (r : Fresh) (input : PutSecretInput) :
    World C :=
  match w.writers i with
  | none => w
  | some (_, kek) =>
    w.finish i (putSecret rq w.store kek r input) (some (input.value, input.bindingKey))

def World.transition (w : World C) (i : Nat) (rq : Request) (r : Fresh)
    (kind : SecretTransitionKind) (input : TransitionInput) : World C :=
  match w.writers i with
  | none => w
  | some (p, kek) =>
    match w.rings p with
    | none => w
    | some ring => w.finish i (transitionSecret rq w.store ring kek r input kind)
        (suppliedByTransition rq w.store kind input w.supplied)

def World.rotate (w : World C) (p : Nat) (id : String) (material : Bytes) (createdAt : Time)
    (nonces : RotationNonces) : World C :=
  match w.rings p with
  | none => w
  | some ring =>
    match rotateMasterKey w.store ring id material createdAt nonces with
    | (.ok (_, s'), ring') =>
      { w with store := s', rings := Function.update w.rings p (some ring') }
    | (.error _, ring') => { w with rings := Function.update w.rings p (some ring') }

/-- 一つの出来事の後の状態。 -/
def coreStep [Hashing] (w : World C) : CoreOp → World C
  | .start p material => w.start p material
  | .capture i p => w.capture i p
  | .put i rq r input => w.put i rq r input
  | .transition i rq r kind input => w.transition i rq r kind input
  | .rotate p id material createdAt nonces => w.rotate p id material createdAt nonces
  | .other c _ => { w with store := step w.store c }

/-! ## 鍵についての述語 -/

/-- active な KEK は、ちょうどこの一つである。 -/
structure OnlyActive (s : Store) (active : KeyMetadataModel) : Prop where
  mem : active ∈ s.keyMetadata
  state : active.state = .active
  unique : ∀ km ∈ s.keyMetadata, km.state = .active → km = active

theorem OnlyActive.of_activeKey {s : Store} {active km : KeyMetadataModel} (h : OnlyActive s active)
    (hkm : activeKey s = some km) : km = active :=
  h.unique km (activeKey_spec hkm).1 (activeKey_spec hkm).2

/-- 登録された KEK である。 -/
def Registered (s : Store) (kek : KEK C) : Prop := ∃ km ∈ s.keyMetadata, Genuine km kek

theorem Registered.eq_active {s : Store} {active : KeyMetadataModel} {kek kek' : KEK C}
    (h : Registered s kek') (hactive : active ∈ s.keyMetadata) (hg : Genuine active kek)
    (hid : kek'.id = active.id) : kek' = kek := by
  obtain ⟨km, hkm, hgen⟩ := h
  have heq : km = active := Table.eq_of_key_eq hkm hactive (hgen.1.symm.trans hid)
  subst heq
  exact hg.eq hgen

/-- version の行の同一性。 -/
def VersionRef (s : Store) (sv : SecretVersionModel) (ref : Ref) : Prop :=
  ∃ sec ∈ s.secrets, ∃ n ∈ s.namespaces, sec.id = sv.secretID ∧ n.id = sec.namespaceID ∧
    ref = ⟨n.ref, sec.name⟩

theorem VersionRef.unique {s : Store} {sv : SecretVersionModel} {ref ref' : Ref}
    (h : VersionRef s sv ref) (h' : VersionRef s sv ref') : ref' = ref := by
  obtain ⟨sec, hsec, n, hn, hid, hnid, rfl⟩ := h
  obtain ⟨sec', hsec', n', hn', hid', hnid', rfl⟩ := h'
  have hs : sec' = sec := s.secrets.id_inj _ hsec' _ hsec (hid'.trans hid.symm)
  subst hs
  rw [s.namespaces.id_inj _ hn' _ hn (hnid'.trans hnid.symm)]

/-- 一歩の後も、version の行が残る限り、その同一性は変わらない。 -/
theorem VersionRef.step {s s' : Store} {c : Call} (h : SecretEffect s c s')
    {sv sv' : SecretVersionModel} {ref : Ref} (hr : VersionRef s sv ref)
    (hsv' : sv' ∈ s'.secretVersions) (hid : sv'.secretID = sv.secretID) :
    VersionRef s' sv' ref := by
  obtain ⟨sec, hsec, n, hn, hsid, hnid, rfl⟩ := hr
  rcases h.delta.secrets.keeps hsec with ⟨sec', hsec', hsec'id, hkey⟩ | ⟨_, hgone, _⟩
  · have hns : sec'.namespaceID = sec.namespaceID := congrArg Prod.fst hkey
    rcases h.keepsNamespace hn with hn' | hnone
    · refine ⟨sec', hsec', n, hn', hsec'id.trans (hsid.trans hid.symm), hnid.trans hns.symm, ?_⟩
      rw [show sec'.name = sec.name from congrArg Prod.snd hkey]
    · exact absurd (hns.trans hnid.symm) (hnone sec' hsec')
  · exact absurd (hid.trans hsid.symm) (hgone sv' hsv')

end

end Kms.Core
