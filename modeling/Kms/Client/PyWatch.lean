import Kms.Client.Converge

/-!
# Python の watch manager

`_SubManager` の `register_param` は、登録のたびに `known` の項を、読んだ値と revision `0` で置き換える。

* `pySdk` — `_Known` と `register_param`
* `py_values_converge` — 収束
* `py_registration_hides_change` — 先の handle が知らされる前に、後の登録が `known` を新しい値にすると、先の handle は
  知らされない
-/

namespace Kms.Client

open Kms.Infra

structure PyKnown where
  value : String
  present : Bool
  rev : Nat
  deriving DecidableEq

namespace PyKnown

def current (k : PyKnown) : Option String := if k.present then some k.value else none

/-- `_set_value` が書く項。 -/
def write (prev : Option PyKnown) (v : Option String) (rev : Nat) : PyKnown :=
  let newRev := match prev with
    | some k => if rev < k.rev then k.rev else rev
    | none => rev
  match v with
  | some x => ⟨x, true, newRev⟩
  | none => ⟨"", false, newRev⟩

/-- `register_param`。 -/
def register (initial : String) : PyKnown × Option String := (⟨initial, true, 0⟩, some initial)

end PyKnown

@[reducible] def pySdk : Sdk where
  Known := PyKnown
  Ticket := Unit
  value := PyKnown.current
  rev := PyKnown.rev
  write := PyKnown.write
  ticket := fun _ => ()
  register := fun _ _ initial => PyKnown.register initial
  sweepTime := .eachNamespace
  maxReconcilePages := 1000
  value_write := by
    intro prev v r
    cases v <;> rfl
  rev_write := by
    intro prev v r
    cases prev with
    | none => cases v <;> exact (Nat.max_eq_right (Nat.zero_le r)).symm
    | some k =>
      have hmax : (if r < k.rev then k.rev else r) = max k.rev r := by
        split <;> omega
      cases v <;> exact hmax
  register_none := fun _ _ => ⟨rfl, rfl, rfl⟩
  rev_register_le := fun _ _ _ => Nat.zero_le _
  register_source := fun _ _ _ => ⟨.inr rfl, .inr rfl⟩

/-- 既知の path の登録は、知られている値を読む。 -/
def PyReadsKnown (m : Manager pySdk) (ev : WatchEvent) : Prop :=
  ∀ r ∈ m.registering ev, ∀ k ∈ m.known? r.1, PyKnown.current k = some r.2.2

instance {m : Manager pySdk} {ev : WatchEvent} : Decidable (PyReadsKnown m ev) :=
  inferInstanceAs (Decidable (∀ r ∈ m.registering ev, ∀ k ∈ m.known? r.1,
    PyKnown.current k = some r.2.2))

theorem PyReadsKnown.agrees {m : Manager pySdk} {ev : WatchEvent} (h : PyReadsKnown m ev) :
    m.Agrees ev := by
  intro r hread k hknown
  have hval := h r hread k hknown
  exact ⟨hval.symm, hval.symm⟩

/--
Python の登録された値の収束。

既知の path の登録が知られている値を読み、二つの thread が同じ path の知らせを追い越さず、一巡の始まった後に path の最初の
handle になるものが今の値から始まれば、stream が追い付いた後、store が変わらない間に始まって最後まで走った reconcile の一巡の
後では、追い付いた時に購読していた namespace の全ての handle が、store の今の値 (無ければ無いこと) を持つ。
-/
theorem py_values_converge {pre a b : List WatchEvent}
    (hcond : AlongSteps watchStep (fun m ev => PyReadsKnown m ev ∧ m.Unraced ev)
      (Manager.empty pySdk) (pre ++ a ++ .beginPass :: b))
    (hcaught : (run watchStep (Manager.empty pySdk) pre).caughtUp = true)
    (hquiet : ∀ e, .commit e ∉ a ++ b)
    (hidle : (run watchStep (Manager.empty pySdk) (pre ++ a)).passIdle = true)
    (hseeds : AlongSteps watchStep (fun m ev => m.SeedsCurrent ev)
      (watchStep (run watchStep (Manager.empty pySdk) (pre ++ a)) .beginPass) b)
    {m : Manager pySdk}
    (hm : m = run watchStep (Manager.empty pySdk) (pre ++ a ++ .beginPass :: b))
    (hdone : m.passComplete = true) (hstream : m.delivering .stream = none) :
    ∀ h ∈ m.handles, h.ref.ns ∈ (run watchStep (Manager.empty pySdk) pre).namespaces →
      h.held = current m.log h.ref :=
  fun _ hh hns => Manager.converges (hcond.mono (fun _ _ hc => ⟨hc.1.agrees, hc.2⟩)) hcaught
    hquiet hidle hseeds hm hdone hstream hh hns

section Sample

private def sampleTimeout : Ref := ⟨⟨"prod", "billing"⟩, "timeout"⟩

private def sampleRetries : Ref := ⟨⟨"prod", "billing"⟩, "retries"⟩

/-- 二つの handle が同じ値を読んで登録され、parameter が消され、stream が追い付く。 -/
private def sampleGone : List WatchEvent :=
  [.commit (.parameter sampleRetries (some "3")), .commit (.parameter sampleTimeout (some "30")),
    .prepare 0 sampleTimeout, .fetch 0 none, .register 0, .prepare 1 sampleTimeout, .fetch 1 none,
    .register 1, .commit (.parameter sampleTimeout none), .subscribe, .answer true, .receive] ++
    List.replicate 8 .stream

private def sampleSweep : List WatchEvent := List.replicate 5 (.pass true)

/-- 一巡の間に、別の path の最初の handle が登録される。 -/
private def sampleSweepJoined : List WatchEvent :=
  [.pass true, .pass true, .prepare 2 sampleRetries, .fetch 2 none, .register 2] ++ sampleSweep

theorem py_values_converge_gone :
    (run watchStep (Manager.empty pySdk)
        (sampleGone ++ [] ++ .beginPass :: sampleSweepJoined)).handles.map Handle.ref =
        [sampleTimeout, sampleTimeout, sampleRetries] ∧
      ∀ h ∈ (run watchStep (Manager.empty pySdk)
          (sampleGone ++ [] ++ .beginPass :: sampleSweepJoined)).handles,
        h.ref.ns ∈ (run watchStep (Manager.empty pySdk) sampleGone).namespaces →
        h.held = current (run watchStep (Manager.empty pySdk)
          (sampleGone ++ [] ++ .beginPass :: sampleSweepJoined)).log h.ref :=
  ⟨by decide, py_values_converge (by decide) (by decide) (by simp [sampleSweepJoined, sampleSweep])
    (by decide) (by decide) rfl (by decide) (by decide)⟩

/-- 二つ目の登録が、一つ目の handle に知らされていない値を読む。 -/
private def sampleOverwritten : List WatchEvent :=
  [.commit (.parameter sampleTimeout (some "30")), .prepare 0 sampleTimeout, .fetch 0 none,
    .register 0, .commit (.parameter sampleTimeout (some "60")), .prepare 1 sampleTimeout,
    .fetch 1 none, .register 1, .subscribe, .answer false, .receive, .stream, .stream, .stream]

/-- 追い付いて一巡が終わっても、先の handle は古い値を持ち続ける。 -/
theorem py_registration_hides_change :
    (run watchStep (Manager.empty pySdk) sampleOverwritten).caughtUp = true ∧
      (run watchStep (Manager.empty pySdk)
        (sampleOverwritten ++ .beginPass :: sampleSweep)).passComplete = true ∧
      (run watchStep (Manager.empty pySdk)
        (sampleOverwritten ++ .beginPass :: sampleSweep)).delivering .stream = none ∧
      (run watchStep (Manager.empty pySdk)
        (sampleOverwritten ++ .beginPass :: sampleSweep)).handles.map Handle.held =
          [some "30", some "60"] ∧
      current (run watchStep (Manager.empty pySdk)
        (sampleOverwritten ++ .beginPass :: sampleSweep)).log sampleTimeout = some "60" := by
  decide

end Sample

end Kms.Client
