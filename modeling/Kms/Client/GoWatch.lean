import Kms.Client.Converge

/-!
# Go の watch manager

`subManager` の `known` の項は、stream か reconcile が書くごとに増える `generation` を持つ。登録は読み出しの前に
`generation` を控え、読み出しの間に書かれていれば `known` の値を、そうでなければ読んだ値を使う。

* `goSdk` — `knownVal` と `registerParam`
* `go_values_converge` — 収束
* `go_registration_hides_change` — 先の handle が知らされる前に、後の登録が `known` を新しい値にすると、先の handle は
  知らされない
-/

namespace Kms.Client

open Kms.Infra

structure KnownVal where
  value : String
  present : Bool
  rev : Nat
  generation : Nat
  deriving DecidableEq

namespace KnownVal

/-- map に無い時の零値。 -/
def zero : KnownVal := ⟨"", false, 0, 0⟩

def current (kv : KnownVal) : Option String := if kv.present then some kv.value else none

/-- `setValue` が書く項。 -/
def write (prev : Option KnownVal) (v : Option String) (rev : Nat) : KnownVal :=
  let kv := prev.getD zero
  match v with
  | some x => ⟨x, true, max kv.rev rev, kv.generation + 1⟩
  | none => ⟨"", false, max kv.rev rev, kv.generation + 1⟩

/-- `registerParam`。 -/
def register (prev : Option KnownVal) (readGeneration : Nat) (initial : String) :
    KnownVal × Option String :=
  match prev with
  | none => ({ zero with value := initial, present := true }, some initial)
  | some kv =>
    if kv.generation ≠ readGeneration then (kv, kv.current)
    else if kv.rev = 0 then ({ kv with value := initial, present := true }, some initial)
    else (kv, some initial)

end KnownVal

@[reducible] def goSdk : Sdk where
  Known := KnownVal
  Ticket := Nat
  value := KnownVal.current
  rev := KnownVal.rev
  write := KnownVal.write
  ticket := fun prev => (prev.getD KnownVal.zero).generation
  register := KnownVal.register
  sweepTime := .afterAll
  maxReconcilePages := 100
  value_write := by
    intro prev v r
    cases v <;> rfl
  rev_write := by
    intro prev v r
    cases prev <;> cases v <;> rfl
  register_none := fun _ _ => ⟨rfl, rfl, rfl⟩
  rev_register_le := by
    intro kv g v
    simp only [KnownVal.register]
    repeat' split
    all_goals exact le_rfl
  register_source := by
    intro kv g v
    simp only [KnownVal.register]
    repeat' split
    · exact ⟨.inl rfl, .inl rfl⟩
    · exact ⟨.inr rfl, .inr rfl⟩
    · exact ⟨.inl rfl, .inr rfl⟩

/-- 読み出しの間に書かれなかった既知の path の登録は、知られている値を読む。 -/
def GoReadsKnown (m : Manager goSdk) (ev : WatchEvent) : Prop :=
  ∀ r ∈ m.registering ev, ∀ kv ∈ m.known? r.1,
    KnownVal.generation kv = r.2.1 → KnownVal.current kv = some r.2.2

instance {m : Manager goSdk} {ev : WatchEvent} : Decidable (GoReadsKnown m ev) :=
  inferInstanceAs (Decidable (∀ r ∈ m.registering ev, ∀ kv ∈ m.known? r.1,
    KnownVal.generation kv = r.2.1 → KnownVal.current kv = some r.2.2))

theorem GoReadsKnown.agrees {m : Manager goSdk} {ev : WatchEvent} (h : GoReadsKnown m ev) :
    m.Agrees ev := by
  rintro ⟨p, g, v⟩ hread kv hknown
  show (KnownVal.register (some kv) g v).1.current = KnownVal.current kv ∧
    (KnownVal.register (some kv) g v).2 = KnownVal.current kv
  simp only [KnownVal.register]
  split
  · exact ⟨rfl, rfl⟩
  · next hgen =>
    have hval := h _ hread kv hknown (not_not.mp hgen)
    split
    · exact ⟨hval.symm, hval.symm⟩
    · exact ⟨rfl, hval.symm⟩

/--
Go の登録された値の収束。

既知の path の登録が知られている値を読み、二つの goroutine が同じ path の知らせを追い越さず、一巡の始まった後に path の
最初の handle になるものが今の値から始まれば、stream が追い付いた後、store が変わらない間に始まって最後まで走った reconcile の
一巡の後では、追い付いた時に購読していた namespace の全ての handle が、store の今の値 (無ければ無いこと) を持つ。
-/
theorem go_values_converge {pre a b : List WatchEvent}
    (hcond : AlongSteps watchStep (fun m ev => GoReadsKnown m ev ∧ m.Unraced ev)
      (Manager.empty goSdk) (pre ++ a ++ .beginPass :: b))
    (hcaught : (run watchStep (Manager.empty goSdk) pre).caughtUp = true)
    (hquiet : ∀ e, .commit e ∉ a ++ b)
    (hidle : (run watchStep (Manager.empty goSdk) (pre ++ a)).passIdle = true)
    (hseeds : AlongSteps watchStep (fun m ev => m.SeedsCurrent ev)
      (watchStep (run watchStep (Manager.empty goSdk) (pre ++ a)) .beginPass) b)
    {m : Manager goSdk}
    (hm : m = run watchStep (Manager.empty goSdk) (pre ++ a ++ .beginPass :: b))
    (hdone : m.passComplete = true) (hstream : m.delivering .stream = none) :
    ∀ h ∈ m.handles, h.ref.ns ∈ (run watchStep (Manager.empty goSdk) pre).namespaces →
      h.held = current m.log h.ref :=
  fun _ hh hns => Manager.converges (hcond.mono (fun _ _ hc => ⟨hc.1.agrees, hc.2⟩)) hcaught
    hquiet hidle hseeds hm hdone hstream hh hns

section Sample

private def sampleParam : Ref := ⟨⟨"prod", "billing"⟩, "limit"⟩

private def sampleBurst : Ref := ⟨⟨"prod", "billing"⟩, "burst"⟩

/-- 同じ path の二つの handle が登録され、値が変わり、stream が追い付く。 -/
private def samplePair : List WatchEvent :=
  [.commit (.parameter sampleBurst (some "9")), .commit (.parameter sampleParam (some "1")),
    .prepare 0 sampleParam, .fetch 0 none, .register 0, .prepare 1 sampleParam, .fetch 1 none,
    .register 1, .commit (.parameter sampleParam (some "2")), .subscribe, .answer false,
    .receive] ++ List.replicate 8 .stream

private def samplePass : List WatchEvent := List.replicate 5 (.pass true)

/-- 一巡の間に、別の path の最初の handle が登録され、map の列挙順で値を書く順が入れ替わる。 -/
private def samplePassJoined : List WatchEvent :=
  [.pass true, .pass true, .prepare 2 sampleBurst, .fetch 2 none, .register 2, .pass true,
    .reorder .reconcile [(sampleParam, some "2"), (sampleBurst, some "9")] []] ++ samplePass

theorem go_values_converge_pair :
    (run watchStep (Manager.empty goSdk)
        (samplePair ++ [] ++ .beginPass :: samplePassJoined)).handles.map Handle.ref =
        [sampleParam, sampleParam, sampleBurst] ∧
      ∀ h ∈ (run watchStep (Manager.empty goSdk)
          (samplePair ++ [] ++ .beginPass :: samplePassJoined)).handles,
        h.ref.ns ∈ (run watchStep (Manager.empty goSdk) samplePair).namespaces →
        h.held = current (run watchStep (Manager.empty goSdk)
          (samplePair ++ [] ++ .beginPass :: samplePassJoined)).log h.ref :=
  ⟨by decide, go_values_converge (by decide) (by decide) (by simp [samplePassJoined, samplePass])
    (by decide) (by decide) rfl (by decide) (by decide)⟩

/-- 二つ目の登録が、一つ目の handle に知らされていない値を読む。 -/
private def sampleHidden : List WatchEvent :=
  [.commit (.parameter sampleParam (some "1")), .prepare 0 sampleParam, .fetch 0 none, .register 0,
    .commit (.parameter sampleParam (some "2")), .prepare 1 sampleParam, .fetch 1 none, .register 1,
    .subscribe, .answer false, .receive, .stream, .stream, .stream]

/-- 追い付いて一巡が終わっても、先の handle は古い値を持ち続ける。 -/
theorem go_registration_hides_change :
    (run watchStep (Manager.empty goSdk) sampleHidden).caughtUp = true ∧
      (run watchStep (Manager.empty goSdk)
          (sampleHidden ++ .beginPass :: samplePass)).passComplete =
        true ∧
      (run watchStep (Manager.empty goSdk) (sampleHidden ++ .beginPass :: samplePass)).delivering
        .stream = none ∧
      (run watchStep (Manager.empty goSdk) (sampleHidden ++ .beginPass :: samplePass)).handles.map
        Handle.held = [some "1", some "2"] ∧
      current (run watchStep (Manager.empty goSdk) (sampleHidden ++ .beginPass :: samplePass)).log
        sampleParam = some "2" := by
  decide

end Sample

end Kms.Client
