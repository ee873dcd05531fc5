import Mathlib.Logic.Basic

/-!
# 遷移の列

状態 `σ` と入力 `γ` の遷移関数 `step` を入力列で繰り返した run と、その上の帰納法。

* `run_invariant` — 一歩で保たれる性質は run 全体で保たれる
* `run_rel` — 一歩ごとに成り立つ推移的な関係は、run の始めと終わりでも成り立つ
* `run_steps_invariant` — 入力が条件を満たす一歩で保たれる性質
* `run_history` — それまでの入力列を引数に取る不変条件

* `RunsTo` — 条件 `P` を満たす入力だけの run で至る状態。反射的で推移的である
* `RunsTo.exists_of_measure` — 測度を減らす一歩がいつでもあれば、終わった状態に至る

`run_rel` は run の途中の全ての状態で成り立つ条件 `P` を、`run_history` は一歩ごとの入力の条件
`Q` を仮定に使える。
-/

namespace Kms.Infra

universe u v

variable {σ : Type u} {γ : Type v}

/-- 入力列に沿った run。 -/
def run (step : σ → γ → σ) : σ → List γ → σ
  | s, [] => s
  | s, c :: cs => run step (step s c) cs

@[simp] theorem run_nil (step : σ → γ → σ) (s : σ) : run step s [] = s := rfl

@[simp] theorem run_cons (step : σ → γ → σ) (s : σ) (c : γ) (cs : List γ) :
    run step s (c :: cs) = run step (step s c) cs := rfl

theorem run_append (step : σ → γ → σ) (s : σ) (cs ds : List γ) :
    run step s (cs ++ ds) = run step (run step s cs) ds := by
  induction cs generalizing s with
  | nil => rfl
  | cons c cs ih => exact ih (step s c)

/-- run の始めから終わりまで、全ての状態が `P` を満たす。 -/
def Along (step : σ → γ → σ) (P : σ → Prop) : σ → List γ → Prop
  | s, [] => P s
  | s, c :: cs => P s ∧ Along step P (step s c) cs

section

variable {step : σ → γ → σ} {P : σ → Prop}

variable {s : σ} {cs : List γ}

theorem Along.head (h : Along step P s cs) : P s := by
  cases cs with
  | nil => exact h
  | cons c cs => exact h.1

theorem run_invariant {I : σ → Prop} (hstep : ∀ s c, I s → I (step s c))
    (h : I s) (cs : List γ) : I (run step s cs) := by
  induction cs generalizing s with
  | nil => exact h
  | cons c cs ih => exact ih (hstep s c h)

theorem run_rel {I : σ → Prop} {R : σ → σ → Prop} (hrefl : ∀ s, R s s)
    (htrans : ∀ a b c, R a b → R b c → R a c) (hinv : ∀ s c, I s → I (step s c))
    (hstep : ∀ s c, I s → P s → P (step s c) → R s (step s c))
    (h : I s) (ha : Along step P s cs) : R s (run step s cs) := by
  induction cs generalizing s with
  | nil => exact hrefl s
  | cons c cs ih =>
    exact htrans _ _ _ (hstep s c h ha.1 ha.2.head) (ih (hinv s c h) ha.2)

end

/-- run の一歩ごとに、その時の状態と入力が `Q` を満たす。 -/
def AlongSteps (step : σ → γ → σ) (Q : σ → γ → Prop) : σ → List γ → Prop
  | _, [] => True
  | s, c :: cs => Q s c ∧ AlongSteps step Q (step s c) cs

section

variable {step : σ → γ → σ} {Q : σ → γ → Prop}

variable {s : σ} {cs : List γ}

theorem AlongSteps.append {ds : List γ} :
    AlongSteps step Q s (cs ++ ds) ↔
      AlongSteps step Q s cs ∧ AlongSteps step Q (run step s cs) ds := by
  induction cs generalizing s with
  | nil => exact ⟨fun h => ⟨trivial, h⟩, fun h => h.2⟩
  | cons c cs ih =>
    show Q s c ∧ AlongSteps step Q (step s c) (cs ++ ds) ↔ _
    rw [ih]
    exact ⟨fun h => ⟨⟨h.1, h.2.1⟩, h.2.2⟩, fun h => ⟨h.1.1, h.1.2, h.2⟩⟩

theorem AlongSteps.at {ds : List γ} {c : γ}
    (h : AlongSteps step Q s (cs ++ c :: ds)) : Q (run step s cs) c :=
  (AlongSteps.append.mp h).2.1

instance AlongSteps.decidable [h : ∀ s c, Decidable (Q s c)] :
    ∀ s cs, Decidable (AlongSteps step Q s cs)
  | _, [] => isTrue trivial
  | s, c :: cs => @instDecidableAnd _ _ (h s c) (AlongSteps.decidable (step s c) cs)

theorem AlongSteps.mono {R : σ → γ → Prop} (hqr : ∀ s c, Q s c → R s c)
    (h : AlongSteps step Q s cs) : AlongSteps step R s cs := by
  induction cs generalizing s with
  | nil => exact trivial
  | cons c cs ih => exact ⟨hqr s c h.1, ih h.2⟩

theorem AlongSteps.and {R : σ → γ → Prop} (h : AlongSteps step Q s cs)
    (h' : AlongSteps step R s cs) : AlongSteps step (fun s c => Q s c ∧ R s c) s cs := by
  induction cs generalizing s with
  | nil => exact trivial
  | cons c cs ih => exact ⟨⟨h.1, h'.1⟩, ih h.2 h'.2⟩

theorem AlongSteps.of_forall {R : γ → Prop} (h : ∀ c ∈ cs, R c) :
    AlongSteps step (fun _ c => R c) s cs := by
  induction cs generalizing s with
  | nil => exact trivial
  | cons c cs ih =>
    rw [List.forall_mem_cons] at h
    exact ⟨h.1, ih h.2⟩

theorem run_steps_invariant {I : σ → Prop} (hstep : ∀ s c, Q s c → I s → I (step s c))
    (h : I s) (hq : AlongSteps step Q s cs) : I (run step s cs) := by
  induction cs generalizing s with
  | nil => exact h
  | cons c cs ih => exact ih (hstep s c hq.1 h) hq.2

theorem run_history {I : List γ → σ → Prop}
    (hstep : ∀ hist s c, Q s c → I hist s → I (hist ++ [c]) (step s c))
    {hist : List γ} (h : I hist s) (hq : AlongSteps step Q s cs) :
    I (hist ++ cs) (run step s cs) := by
  induction cs generalizing hist s with
  | nil =>
    rw [List.append_nil]
    exact h
  | cons c cs ih =>
    have h' := ih (hstep hist s c hq.1 h) hq.2
    rw [List.append_assoc] at h'
    exact h'

end

/-! ## 至る -/

def RunsTo (step : σ → γ → σ) (P : γ → Prop) (s s' : σ) : Prop :=
  ∃ cs : List γ, (∀ c ∈ cs, P c) ∧ run step s cs = s'

namespace RunsTo

variable {step : σ → γ → σ} {P : γ → Prop}

theorem refl (s : σ) : RunsTo step P s s := ⟨[], List.forall_mem_nil _, rfl⟩

variable {s s' : σ}

theorem single {c : γ} (hp : P c) (h : step s c = s') : RunsTo step P s s' :=
  ⟨[c], List.forall_mem_singleton.mpr hp, h⟩

theorem trans {s'' : σ} (h : RunsTo step P s s') (h' : RunsTo step P s' s'') :
    RunsTo step P s s'' := by
  obtain ⟨cs, hcs, rfl⟩ := h
  obtain ⟨ds, hds, rfl⟩ := h'
  refine ⟨cs ++ ds, fun c hc => ?_, run_append step s cs ds⟩
  rcases List.mem_append.mp hc with hc | hc
  · exact hcs c hc
  · exact hds c hc

theorem mono {Q : γ → Prop} (hq : ∀ c, P c → Q c) (h : RunsTo step P s s') :
    RunsTo step Q s s' := by
  obtain ⟨cs, hcs, hs⟩ := h
  exact ⟨cs, fun c hc => hq c (hcs c hc), hs⟩

theorem invariant {I : σ → Prop} (hstep : ∀ s c, P c → I s → I (step s c))
    (h : RunsTo step P s s') (hi : I s) : I s' := by
  obtain ⟨cs, hcs, rfl⟩ := h
  exact run_steps_invariant (fun s c hc => hstep s c hc) hi (AlongSteps.of_forall hcs)

theorem exists_of_measure {I D : σ → Prop} (μ : σ → Nat)
    (hstep : ∀ s, I s → ¬ D s → ∃ c, P c ∧ I (step s c) ∧ μ (step s c) < μ s)
    (h : I s) : ∃ s', RunsTo step P s s' ∧ I s' ∧ D s' := by
  induction hμ : μ s using Nat.strongRecOn generalizing s with
  | _ n ih =>
    by_cases hd : D s
    · exact ⟨s, refl s, h, hd⟩
    · obtain ⟨c, hp, hi, hlt⟩ := hstep s h hd
      obtain ⟨s', hs', hi', hd'⟩ := ih _ (hμ ▸ hlt) hi rfl
      exact ⟨s', (single hp rfl).trans hs', hi', hd'⟩

end RunsTo

end Kms.Infra
