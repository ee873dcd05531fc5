import Mathlib.Logic.Relation

/-!
# 割り込まれるプログラム

共有状態 `σ` に、原子的な access を繰り返すプログラム `Prog` と、その実行 `Runs`。access と access の
間には、環境が関係 `R` に従って状態を動かす。実行は、自分の access の前後の状態の列（trace）と
結果を残す。

* `runs_bind_iff`・`runs_read_iff`・`runs_atomically_iff` — 実行を一段ずつほどく
* `Flow` — 失敗しうるプログラム。失敗はそこで止まる
* `Within P` — どの実行でも、自分の access が `P` を満たす
* `FailsWithin P` — 失敗した実行では、自分の access が `P` を満たす

`R` が推移的なら、実行の途中の状態は始めと終わりに `R` と自分の access で結ばれる（`Runs.rel`）。
-/

namespace Kms.Infra

/-- 共有状態 `σ` への access の列。`write` は access の書き込み、`next` は読んだ状態での続き。 -/
inductive Prog (σ α : Type) where
  | done (a : α)
  | access (write : σ → σ) (next : σ → Prog σ α)

variable {σ α β ε : Type}

namespace Prog

def bind : Prog σ α → (α → Prog σ β) → Prog σ β
  | .done a, f => f a
  | .access write next, f => .access write (fun s => (next s).bind f)

instance : Monad (Prog σ) where
  pure := .done
  bind := Prog.bind

/-- 一度の読み出し。 -/
def read (g : σ → α) : Prog σ α := .access id (fun s => .done (g s))

/-- 一つの transaction。 -/
def atomically (f : σ → α × σ) : Prog σ α :=
  .access (fun s => (f s).2) (fun s => .done (f s).1)

/-- 割り込みの無い実行。trace と結果と終わりの状態を返す。 -/
def alone : Prog σ α → σ → List (σ × σ) × α × σ
  | .done a, s => ([], a, s)
  | .access write next, s =>
    let (tr, out) := (next s).alone (write s)
    ((s, write s) :: tr, out)

end Prog

/-! ## 実行 -/

/-- 環境 `R` の中での実行。trace は自分の access の前後の状態の列である。 -/
inductive Runs (R : σ → σ → Prop) : Prog σ α → σ → List (σ × σ) → α → σ → Prop
  | done (a : α) (s : σ) : Runs R (.done a) s [] a s
  | access {write : σ → σ} {next : σ → Prog σ α} {s t s' : σ} {tr : List (σ × σ)} {a : α}
      (env : R s t) (rest : Runs R (next t) (write t) tr a s') :
      Runs R (.access write next) s ((t, write t) :: tr) a s'

section Runs

variable {R : σ → σ → Prop} {s s' : σ} {tr : List (σ × σ)}

variable {a : α} {p : Prog σ α}

theorem runs_pure_iff {b : α} :
    Runs R (pure a : Prog σ α) s tr b s' ↔ tr = [] ∧ b = a ∧ s' = s := by
  constructor
  · intro h
    cases h
    exact ⟨rfl, rfl, rfl⟩
  · rintro ⟨rfl, rfl, rfl⟩
    exact .done b s'

theorem runs_read_iff {g : σ → α} :
    Runs R (Prog.read g) s tr a s' ↔ R s s' ∧ tr = [(s', s')] ∧ a = g s' := by
  constructor
  · intro h
    cases h with
    | access env rest =>
      cases rest
      exact ⟨env, rfl, rfl⟩
  · rintro ⟨env, rfl, rfl⟩
    exact .access env (.done _ _)

theorem runs_atomically_iff {f : σ → α × σ} :
    Runs R (Prog.atomically f) s tr a s' ↔
      ∃ t, R s t ∧ f t = (a, s') ∧ tr = [(t, s')] := by
  constructor
  · intro h
    cases h with
    | access env rest =>
      cases rest
      exact ⟨_, env, rfl, rfl⟩
  · rintro ⟨t, env, hf, rfl⟩
    have h : Runs R (Prog.atomically f) s [(t, (f t).2)] (f t).1 (f t).2 := .access env (.done _ _)
    rw [hf] at h
    exact h

theorem runs_bind_iff {f : α → Prog σ β} {b : β} :
    Runs R (p >>= f) s tr b s' ↔
      ∃ tr₁ a t tr₂, Runs R p s tr₁ a t ∧ Runs R (f a) t tr₂ b s' ∧ tr = tr₁ ++ tr₂ := by
  show Runs R (p.bind f) s tr b s' ↔ _
  constructor
  · intro h
    induction p generalizing s tr with
    | done a => exact ⟨[], a, s, tr, .done a s, h, rfl⟩
    | access write next ih =>
      cases h with
      | access env rest =>
        obtain ⟨tr₁, a, t, tr₂, h₁, h₂, rfl⟩ := ih _ rest
        exact ⟨_, a, t, tr₂, .access env h₁, h₂, rfl⟩
  · rintro ⟨tr₁, a, t, tr₂, h₁, h₂, rfl⟩
    induction h₁ with
    | done a s => exact h₂
    | access env _ ih => exact .access env (ih h₂)

theorem runs_alone (hrefl : ∀ s, R s s) (p : Prog σ α) (s : σ) :
    Runs R p s (p.alone s).1 (p.alone s).2.1 (p.alone s).2.2 := by
  induction p generalizing s with
  | done a => exact .done a s
  | access write next ih => exact .access (hrefl s) (ih s (write s))

theorem Runs.mono {S : σ → σ → Prop} (hRS : ∀ a b, R a b → S a b)
    (h : Runs R p s tr a s') : Runs S p s tr a s' := by
  induction h with
  | done a s => exact .done a s
  | access env _ ih => exact .access (hRS _ _ env) ih

theorem Runs.rel (hrefl : ∀ a, R a a) (htrans : ∀ a b c, R a b → R b c → R a c)
    {a : α} (h : Runs R p s tr a s') (hown : ∀ x ∈ tr, R x.1 x.2) : R s s' := by
  induction h with
  | done a s => exact hrefl s
  | access env _ ih =>
    rw [List.forall_mem_cons] at hown
    exact htrans _ _ _ env (htrans _ _ _ hown.1 (ih hown.2))

end Runs

/-! ## 自分の access の枠 -/

/-- どの環境の実行でも、自分の access は `P` を満たす。 -/
def Within (P : σ → σ → Prop) (p : Prog σ α) : Prop :=
  ∀ s tr a s', Runs (fun _ _ => True) p s tr a s' → ∀ x ∈ tr, P x.1 x.2

namespace Within

variable {P : σ → σ → Prop}

theorem pure (a : α) : Within P (Pure.pure a : Prog σ α) := by
  intro s tr b s' h
  obtain ⟨rfl, _⟩ := runs_pure_iff.mp h
  exact List.forall_mem_nil _

theorem read (hrefl : ∀ s, P s s) (g : σ → α) : Within P (Prog.read g) := by
  intro s tr a s' h
  obtain ⟨_, rfl, _⟩ := runs_read_iff.mp h
  exact List.forall_mem_singleton.mpr (hrefl s')

theorem atomically {f : σ → α × σ} (hf : ∀ s, P s (f s).2) : Within P (Prog.atomically f) := by
  intro s tr a s' h
  obtain ⟨t, _, ht, rfl⟩ := runs_atomically_iff.mp h
  refine List.forall_mem_singleton.mpr ?_
  have h := hf t
  rwa [ht] at h

theorem bind {p : Prog σ α} {f : α → Prog σ β} (hp : Within P p) (hf : ∀ a, Within P (f a)) :
    Within P (p >>= f) := by
  intro s tr b s' h
  obtain ⟨tr₁, a, t, tr₂, h₁, h₂, rfl⟩ := runs_bind_iff.mp h
  intro x hx
  rcases List.mem_append.mp hx with hx | hx
  · exact hp s tr₁ a t h₁ x hx
  · exact hf a t tr₂ b s' h₂ x hx

theorem of_runs {R : σ → σ → Prop} {p : Prog σ α} {s s' : σ} {tr : List (σ × σ)} {a : α}
    (hp : Within P p) (h : Runs R p s tr a s') : ∀ x ∈ tr, P x.1 x.2 :=
  hp s tr a s' (h.mono (fun _ _ _ => trivial))

end Within

/-! ## 失敗しうるプログラム -/

abbrev Flow (σ ε : Type) := ExceptT ε (Prog σ)

namespace Flow

/-- 共有状態に触れない検査。 -/
def check (r : Except ε α) : Flow σ ε α := ExceptT.mk (Pure.pure r)

/-- 失敗しうる読み出し。 -/
def query (g : σ → Except ε α) : Flow σ ε α := ExceptT.mk (Prog.read g)

/-- 失敗しうる transaction。 -/
def transaction (f : σ → Except ε α × σ) : Flow σ ε α := ExceptT.mk (Prog.atomically f)

/-- 失敗しないプログラム。 -/
def lift (p : Prog σ α) : Flow σ ε α := ExceptT.lift p

/-- 失敗を別の失敗に読み替える。 -/
def mapError {ε' : Type} (f : ε → ε') (x : Flow σ ε α) : Flow σ ε' α :=
  ExceptT.mk (x.run >>= fun r => Pure.pure (r.mapError f))

/-- 失敗を値として受け取る。 -/
def attempt (x : Flow σ ε α) : Flow σ ε (Except ε α) := lift x.run

end Flow

section Flow

variable {R : σ → σ → Prop} {s s' : σ} {tr : List (σ × σ)}

variable {r : Except ε α} {x : Flow σ ε α}

theorem flow_check_iff {r' : Except ε α} :
    Runs R (Flow.check r : Flow σ ε α).run s tr r' s' ↔ tr = [] ∧ r' = r ∧ s' = s :=
  runs_pure_iff

theorem flow_query_iff {g : σ → Except ε α} :
    Runs R (Flow.query g).run s tr r s' ↔ R s s' ∧ tr = [(s', s')] ∧ r = g s' :=
  runs_read_iff

theorem flow_transaction_iff {f : σ → Except ε α × σ} :
    Runs R (Flow.transaction f).run s tr r s' ↔ ∃ t, R s t ∧ f t = (r, s') ∧ tr = [(t, s')] :=
  runs_atomically_iff

theorem flow_pure_iff {a : α} :
    Runs R (pure a : Flow σ ε α).run s tr r s' ↔ tr = [] ∧ r = .ok a ∧ s' = s :=
  runs_pure_iff

theorem flow_throw_iff {e : ε} :
    Runs R (throw e : Flow σ ε α).run s tr r s' ↔ tr = [] ∧ r = .error e ∧ s' = s :=
  runs_pure_iff

theorem flow_lift_iff {p : Prog σ α} :
    Runs R (Flow.lift p : Flow σ ε α).run s tr r s' ↔ ∃ a, r = .ok a ∧ Runs R p s tr a s' := by
  show Runs R (p >>= fun a => pure (.ok a)) s tr r s' ↔ _
  rw [runs_bind_iff]
  constructor
  · rintro ⟨tr₁, a, t, tr₂, h₁, h₂, rfl⟩
    obtain ⟨rfl, rfl, rfl⟩ := runs_pure_iff.mp h₂
    rw [List.append_nil]
    exact ⟨a, rfl, h₁⟩
  · rintro ⟨a, rfl, h⟩
    exact ⟨tr, a, s', [], h, .done _ _, (List.append_nil tr).symm⟩

theorem flow_attempt_iff {r : Except ε (Except ε α)} :
    Runs R x.attempt.run s tr r s' ↔ ∃ a, r = .ok a ∧ Runs R x.run s tr a s' :=
  flow_lift_iff

theorem flow_bind_iff {f : α → Flow σ ε β} {r : Except ε β} :
    Runs R (x >>= f).run s tr r s' ↔
      (∃ e, r = .error e ∧ Runs R x.run s tr (.error e) s') ∨
      ∃ tr₁ a t tr₂, Runs R x.run s tr₁ (.ok a) t ∧ Runs R (f a).run t tr₂ r s' ∧
        tr = tr₁ ++ tr₂ := by
  show Runs R (x.run >>= ExceptT.bindCont f) s tr r s' ↔ _
  rw [runs_bind_iff]
  constructor
  · rintro ⟨tr₁, a, t, tr₂, h₁, h₂, rfl⟩
    cases a with
    | error e =>
      obtain ⟨rfl, rfl, rfl⟩ := runs_pure_iff.mp h₂
      rw [List.append_nil]
      exact Or.inl ⟨e, rfl, h₁⟩
    | ok a => exact Or.inr ⟨tr₁, a, t, tr₂, h₁, h₂, rfl⟩
  · rintro (⟨e, rfl, h⟩ | ⟨tr₁, a, t, tr₂, h₁, h₂, rfl⟩)
    · exact ⟨tr, .error e, s', [], h, .done _ _, (List.append_nil tr).symm⟩
    · exact ⟨tr₁, .ok a, t, tr₂, h₁, h₂, rfl⟩

theorem flow_bind_ok_iff {f : α → Flow σ ε β} {b : β} :
    Runs R (x >>= f).run s tr (.ok b) s' ↔
      ∃ tr₁ a t tr₂, Runs R x.run s tr₁ (.ok a) t ∧ Runs R (f a).run t tr₂ (.ok b) s' ∧
        tr = tr₁ ++ tr₂ := by
  rw [flow_bind_iff]
  constructor
  · rintro (⟨e, he, _⟩ | h)
    · cases he
    · exact h
  · exact Or.inr

end Flow

/-! ## 失敗した実行の枠 -/

/-- 失敗した実行では、自分の access は `P` を満たす。 -/
def FailsWithin (P : σ → σ → Prop) (x : Flow σ ε α) : Prop :=
  ∀ s tr e s', Runs (fun _ _ => True) x.run s tr (.error e) s' → ∀ y ∈ tr, P y.1 y.2

section Fails

variable {P : σ → σ → Prop}

variable {x : Flow σ ε α}

theorem Within.fails (h : Within P x.run) : FailsWithin P x :=
  fun s tr e s' hr => h s tr (.error e) s' hr

theorem Within.flow_bind {f : α → Flow σ ε β} (hx : Within P x.run)
    (hf : ∀ a, Within P (f a).run) : Within P (x >>= f).run := by
  refine Within.bind hx (fun r => ?_)
  cases r with
  | error e => exact Within.pure _
  | ok a => exact hf a

theorem Within.flow_lift {p : Prog σ α} (h : Within P p) :
    Within P (Flow.lift p : Flow σ ε α).run :=
  Within.bind h (fun _ => Within.pure _)

theorem Within.flow_mapError {ε' : Type} {f : ε → ε'} (h : Within P x.run) :
    Within P (x.mapError f).run :=
  Within.bind h (fun _ => Within.pure _)

theorem FailsWithin.bind {f : α → Flow σ ε β} (hx : Within P x.run)
    (hf : ∀ a, FailsWithin P (f a)) : FailsWithin P (x >>= f) := by
  intro s tr e s' h
  rcases flow_bind_iff.mp h with ⟨e', _, h⟩ | ⟨tr₁, a, t, tr₂, h₁, h₂, rfl⟩
  · exact hx s tr (.error e') s' h
  · intro y hy
    rcases List.mem_append.mp hy with hy | hy
    · exact hx s tr₁ (.ok a) t h₁ y hy
    · exact hf a t tr₂ e s' h₂ y hy

theorem FailsWithin.of_runs {R : σ → σ → Prop} {s s' : σ} {tr : List (σ × σ)}
    {e : ε} (hx : FailsWithin P x) (h : Runs R x.run s tr (.error e) s') :
    ∀ y ∈ tr, P y.1 y.2 :=
  hx s tr e s' (h.mono (fun _ _ _ => trivial))

end Fails

end Kms.Infra
