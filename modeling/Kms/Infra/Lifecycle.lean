import Mathlib.Data.List.Basic
import Mathlib.Order.Basic

/-!
# 準備・確認・反映の protocol

候補を一つずつ取り、準備し、外の台帳を読み直し、読み直した値が候補と一致したときに限り反映する
手続きの仕様。実装の run は log を残し、log がこの仕様の受理する列であることを示せば、ここの定理が
使える。log は新しい順に並べる。

* `Accepts` — log を受理する automaton
* `Accepts.committed_fresh` — 反映の前に、準備の後で発行した読み出しが、一致する値を返している
* `Accepts.settlements_eq` — 準備した候補は、反映か破棄を丁度一度受ける
* `Accepts.commits_ordered` — 反映の順位は下がらない
-/

namespace Kms.Infra.Lifecycle

/-- 手続きが残す記録。`ticket` は手続きの一回を表し、使い回されない。 -/
inductive Entry (κ ρ : Type) where
  | started (ticket : Nat) (c : κ)
  | prepared (ticket : Nat)
  | issued (ticket : Nat)
  | returned (ticket : Nat) (answer : κ)
  | committed (ticket : Nat) (c : κ)
  | aborted (ticket : Nat)
  | reported (ticket : Nat) (c : κ) (r : ρ)
  | closed (ticket : Nat)

/-- 手続きの段階。 -/
inductive Stage (κ : Type) where
  | fetching
  | prepared
  | reading
  | read (answer : κ)
  | settled

/-- 準備した資源を抱えている段階か。 -/
def Stage.holding {κ : Type} : Stage κ → Bool
  | .fetching => false
  | .prepared => true
  | .reading => true
  | .read _ => true
  | .settled => false

@[simp] theorem Stage.holding_fetching {κ : Type} : (fetching : Stage κ).holding = false := rfl

@[simp] theorem Stage.holding_prepared {κ : Type} : (prepared : Stage κ).holding = true := rfl

@[simp] theorem Stage.holding_reading {κ : Type} : (reading : Stage κ).holding = true := rfl

@[simp] theorem Stage.holding_read {κ : Type} (a : κ) : (read a).holding = true := rfl

@[simp] theorem Stage.holding_settled {κ : Type} : (settled : Stage κ).holding = false := rfl

/-- 進行中の手続き。 -/
structure Job (κ : Type) where
  ticket : Nat
  candidate : κ
  stage : Stage κ

/-- automaton の状態。`last` は最後に始めた ticket、`floor` はその候補の順位。 -/
structure State (κ : Type) where
  last : Nat
  floor : Nat
  job : Option (Job κ)

variable {κ ρ : Type}

inductive Accepts (rev : κ → Nat) (fresh : κ → κ → Prop) :
    List (Entry κ ρ) → State κ → Prop
  | nil : Accepts rev fresh [] ⟨0, 0, none⟩
  | started {log : List (Entry κ ρ)} {last floor t : Nat} {c : κ}
      (h : Accepts rev fresh log ⟨last, floor, none⟩) (ht : last < t) (hf : floor ≤ rev c) :
      Accepts rev fresh (.started t c :: log) ⟨t, rev c, some ⟨t, c, .fetching⟩⟩
  | prepared {log : List (Entry κ ρ)} {last floor t : Nat} {c : κ}
      (h : Accepts rev fresh log ⟨last, floor, some ⟨t, c, .fetching⟩⟩) :
      Accepts rev fresh (.prepared t :: log) ⟨last, floor, some ⟨t, c, .prepared⟩⟩
  | issued {log : List (Entry κ ρ)} {last floor t : Nat} {c : κ}
      (h : Accepts rev fresh log ⟨last, floor, some ⟨t, c, .prepared⟩⟩) :
      Accepts rev fresh (.issued t :: log) ⟨last, floor, some ⟨t, c, .reading⟩⟩
  | returned {log : List (Entry κ ρ)} {last floor t : Nat} {c : κ} (a : κ)
      (h : Accepts rev fresh log ⟨last, floor, some ⟨t, c, .reading⟩⟩) :
      Accepts rev fresh (.returned t a :: log) ⟨last, floor, some ⟨t, c, .read a⟩⟩
  | committed {log : List (Entry κ ρ)} {last floor t : Nat} {c a : κ}
      (h : Accepts rev fresh log ⟨last, floor, some ⟨t, c, .read a⟩⟩) (hfresh : fresh c a) :
      Accepts rev fresh (.committed t c :: log) ⟨last, floor, some ⟨t, c, .settled⟩⟩
  | aborted {log : List (Entry κ ρ)} {last floor t : Nat} {c : κ} {stage : Stage κ}
      (h : Accepts rev fresh log ⟨last, floor, some ⟨t, c, stage⟩⟩) (hst : stage.holding = true) :
      Accepts rev fresh (.aborted t :: log) ⟨last, floor, some ⟨t, c, .settled⟩⟩
  | reported {log : List (Entry κ ρ)} {last floor t : Nat} {c : κ} {stage : Stage κ} (r : ρ)
      (h : Accepts rev fresh log ⟨last, floor, some ⟨t, c, stage⟩⟩) :
      Accepts rev fresh (.reported t c r :: log) ⟨last, floor, some ⟨t, c, stage⟩⟩
  | closed {log : List (Entry κ ρ)} {last floor t : Nat} {c : κ} {stage : Stage κ}
      (h : Accepts rev fresh log ⟨last, floor, some ⟨t, c, stage⟩⟩)
      (hst : stage.holding = false) :
      Accepts rev fresh (.closed t :: log) ⟨last, floor, none⟩

section

variable {rev : κ → Nat} {fresh : κ → κ → Prop} {log : List (Entry κ ρ)} {s : State κ}

/-- 進行中の手続きは、最後に始めたものである。 -/
theorem Accepts.job_last (h : Accepts rev fresh log s) {j : Job κ} (hj : s.job = some j) :
    j.ticket = s.last ∧ rev j.candidate = s.floor := by
  induction h generalizing j with
  | nil => cases hj
  | started _ _ _ _ =>
    cases hj
    exact ⟨rfl, rfl⟩
  | prepared _ ih | issued _ ih | returned _ _ ih | committed _ _ ih | aborted _ _ ih
  | reported _ _ ih =>
    cases hj
    have hjob := ih rfl
    exact hjob
  | closed _ _ _ => cases hj

theorem Accepts.tail {e : Entry κ ρ} (h : Accepts rev fresh (e :: log) s) :
    ∃ s', Accepts rev fresh log s' ∧ s'.last ≤ s.last := by
  cases h with
  | started h hlt _ => exact ⟨_, h, Nat.le_of_lt hlt⟩
  | prepared h | issued h | returned _ h | committed h _
  | aborted h _ | reported _ h | closed h _ => exact ⟨_, h, Nat.le_refl _⟩

theorem Accepts.suffix {post : List (Entry κ ρ)} (h : Accepts rev fresh (post ++ log) s) :
    ∃ s', Accepts rev fresh log s' ∧ s'.last ≤ s.last := by
  induction post generalizing s with
  | nil => exact ⟨s, h, Nat.le_refl _⟩
  | cons e post ih =>
    obtain ⟨s₁, h₁, hle₁⟩ := h.tail
    obtain ⟨s₂, h₂, hle₂⟩ := ih h₁
    exact ⟨s₂, h₂, Nat.le_trans hle₂ hle₁⟩

/-- log の上で最後に始めた ticket。 -/
def lastTicket : List (Entry κ ρ) → Nat
  | [] => 0
  | .started t _ :: _ => t
  | _ :: log => lastTicket log

theorem Accepts.last_eq (h : Accepts rev fresh log s) : s.last = lastTicket log := by
  induction h with
  | nil => rfl
  | started _ _ _ _ => rfl
  | prepared _ ih | issued _ ih | returned _ _ ih | committed _ _ ih | aborted _ _ ih
  | reported _ _ ih | closed _ _ ih => exact ih

theorem Accepts.lastTicket_le {post : List (Entry κ ρ)} (h : Accepts rev fresh (post ++ log) s) :
    lastTicket log ≤ s.last := by
  obtain ⟨s', h', hle⟩ := h.suffix
  rw [← h'.last_eq]
  exact hle

/-! ## 反映の前 -/

/-- 手続き `t` がこの段階に来るまでに残した記録。 -/
def Trail (log : List (Entry κ ρ)) (t : Nat) : Stage κ → Prop
  | .fetching => True
  | .prepared => ∃ p q, log = p ++ .prepared t :: q
  | .reading => ∃ p q r, log = p ++ .issued t :: q ++ .prepared t :: r
  | .read a => ∃ p q r u, log = p ++ .returned t a :: q ++ .issued t :: r ++ .prepared t :: u
  | .settled => True

theorem Trail.cons {t : Nat} {stage : Stage κ} (h : Trail log t stage) (e : Entry κ ρ) :
    Trail (e :: log) t stage := by
  cases stage with
  | fetching => trivial
  | settled => trivial
  | prepared =>
    obtain ⟨p, q, rfl⟩ := h
    exact ⟨e :: p, q, rfl⟩
  | reading =>
    obtain ⟨p, q, r, rfl⟩ := h
    exact ⟨e :: p, q, r, rfl⟩
  | read a =>
    obtain ⟨p, q, r, u, rfl⟩ := h
    exact ⟨e :: p, q, r, u, rfl⟩

theorem Accepts.trail (h : Accepts rev fresh log s) {j : Job κ} (hj : s.job = some j) :
    Trail log j.ticket j.stage := by
  induction h generalizing j with
  | nil | closed _ _ _ => cases hj
  | started _ _ _ _ | committed _ _ _ | aborted _ _ _ =>
    cases hj
    trivial
  | prepared _ _ =>
    cases hj
    exact ⟨[], _, rfl⟩
  | issued _ ih =>
    cases hj
    obtain ⟨p, q, rfl⟩ := ih rfl
    exact ⟨[], p, q, rfl⟩
  | returned a _ ih =>
    cases hj
    obtain ⟨p, q, r, rfl⟩ := ih rfl
    exact ⟨[], p, q, r, by simp⟩
  | reported r _ ih =>
    cases hj
    exact (ih rfl).cons _

theorem Accepts.committed_fresh (h : Accepts rev fresh log s) {post pre : List (Entry κ ρ)}
    {t : Nat} {c : κ} (hlog : log = post ++ .committed t c :: pre) :
    ∃ a, fresh c a ∧ Trail pre t (.read a) := by
  subst hlog
  obtain ⟨s', h', _⟩ := h.suffix
  cases h' with
  | committed hpre hfresh => exact ⟨_, hfresh, hpre.trail rfl⟩

/-! ## 丁度一度 -/

def Entry.settles (t : Nat) : Entry κ ρ → Bool
  | .committed t' _ => t' == t
  | .aborted t' => t' == t
  | _ => false

def Entry.prepares (t : Nat) : Entry κ ρ → Bool
  | .prepared t' => t' == t
  | _ => false

/-- `t` が受けた反映と破棄の数。 -/
def settlements (log : List (Entry κ ρ)) (t : Nat) : Nat := log.countP (Entry.settles t)

def preparations (log : List (Entry κ ρ)) (t : Nat) : Nat := log.countP (Entry.prepares t)

/-- `t` の準備した資源を、まだ抱えているか。 -/
def State.holds (s : State κ) (t : Nat) : Bool :=
  match s.job with
  | some j => j.ticket == t && j.stage.holding
  | none => false

theorem preparations_eq_zero (h : Accepts rev fresh log s) {t : Nat}
    (ht : s.last < t ∨ ∃ c, s.job = some ⟨t, c, .fetching⟩) : preparations log t = 0 := by
  induction h with
  | nil => rfl
  | @started log last floor t' c h hlt hf ih =>
    have hle : last < t := by
      rcases ht with ht | ⟨_, ht⟩
      · exact Nat.lt_trans hlt ht
      · cases ht
        exact hlt
    simpa [preparations, Entry.prepares] using ih (Or.inl hle)
  | @prepared log last floor t' c h ih =>
    have hlast : t' = last := (h.job_last rfl).1
    rcases ht with ht | ⟨_, ht⟩
    · have hne : t' ≠ t := by
        show t' ≠ t
        have : last < t := ht
        omega
      simpa [preparations, Entry.prepares, hne] using ih (Or.inl ht)
    · cases ht
  | issued _ ih | returned _ _ ih | committed _ _ ih | aborted _ _ ih | closed _ _ ih =>
    rcases ht with ht | ⟨_, ht⟩
    · simpa [preparations, Entry.prepares] using ih (Or.inl ht)
    · cases ht
  | reported r _ ih => simpa [preparations, Entry.prepares] using ih ht

theorem preparations_le_one (h : Accepts rev fresh log s) (t : Nat) : preparations log t ≤ 1 := by
  induction h with
  | nil => exact Nat.zero_le _
  | @prepared log last floor t' c h ih =>
    by_cases hne : t' = t
    · subst hne
      have hzero := preparations_eq_zero h (Or.inr ⟨c, rfl⟩)
      simp only [preparations] at hzero
      simp [preparations, Entry.prepares, hzero]
    · simpa [preparations, Entry.prepares, hne] using ih
  | started _ _ _ ih | issued _ ih | returned _ _ ih | committed _ _ ih | aborted _ _ ih
  | reported _ _ ih | closed _ _ ih => simpa [preparations, Entry.prepares] using ih

theorem Accepts.settlements_eq (h : Accepts rev fresh log s) (t : Nat) :
    settlements log t + (s.holds t).toNat = preparations log t := by
  induction h with
  | nil => rfl
  | started _ _ _ ih | issued _ ih | returned _ _ ih | reported _ _ ih =>
    simpa [settlements, preparations, Entry.settles, Entry.prepares, State.holds] using ih
  | closed _ hst ih =>
    simpa [settlements, preparations, Entry.settles, Entry.prepares, State.holds, hst] using ih
  | @prepared log last floor t' c h ih | @committed log last floor t' c a h hfresh ih =>
    by_cases hne : t' = t
    · simp [settlements, preparations, Entry.settles, Entry.prepares, State.holds, hne] at ih ⊢
      omega
    · have hbeq : (t' == t) = false := beq_false_of_ne hne
      simpa [settlements, preparations, Entry.settles, Entry.prepares, State.holds, hbeq] using ih
  | @aborted log last floor t' c stage h hst ih =>
    by_cases hne : t' = t
    · simp [settlements, preparations, Entry.settles, Entry.prepares, State.holds, hne, hst] at ih ⊢
      omega
    · have hbeq : (t' == t) = false := beq_false_of_ne hne
      simpa [settlements, preparations, Entry.settles, Entry.prepares, State.holds, hbeq] using ih

theorem Accepts.settlements_of_prepared (h : Accepts rev fresh log s) {t : Nat}
    (ht : Entry.prepared t ∈ log) : settlements log t + (s.holds t).toNat = 1 := by
  have hpos : 0 < preparations log t :=
    List.countP_pos_iff.mpr ⟨_, ht, by simp [Entry.prepares]⟩
  have hle := preparations_le_one h t
  have heq := h.settlements_eq t
  omega

theorem Accepts.settlements_le_one (h : Accepts rev fresh log s) (t : Nat) :
    settlements log t ≤ 1 := by
  have hle := preparations_le_one h t
  have heq := h.settlements_eq t
  omega

theorem Accepts.settled_of_idle (h : Accepts rev fresh log s) (hidle : s.job = none) {t : Nat}
    (ht : Entry.prepared t ∈ log) : settlements log t = 1 := by
  have heq := h.settlements_of_prepared ht
  rw [State.holds, hidle] at heq
  exact heq

/-- 決着していないものは、進行中の手続きのものである。 -/
theorem Accepts.settled_or_job (h : Accepts rev fresh log s) {t : Nat}
    (ht : Entry.prepared t ∈ log) :
    settlements log t = 1 ∨ settlements log t = 0 ∧ ∃ j, s.job = some j ∧ j.ticket = t := by
  have heq := h.settlements_of_prepared ht
  cases hj : s.job with
  | none => exact Or.inl (h.settled_of_idle hj ht)
  | some j =>
    by_cases hticket : j.ticket = t
    · have hcount : settlements log t = 1 ∨ settlements log t = 0 := by omega
      rcases hcount with hone | hzero
      · exact Or.inl hone
      · exact Or.inr ⟨hzero, j, rfl, hticket⟩
    · have hbeq : (j.ticket == t) = false := beq_false_of_ne hticket
      exact Or.inl (by simpa [State.holds, hj, hbeq] using heq)

/-! ## 順位 -/

/-- 反映した候補。新しい順。 -/
def commits (log : List (Entry κ ρ)) : List κ :=
  log.filterMap fun
    | .committed _ c => some c
    | _ => none

theorem commits_suffix {log log' : List (Entry κ ρ)} (h : log <:+ log') :
    commits log <:+ commits log' := h.filterMap _

theorem Accepts.commits_ordered (h : Accepts rev fresh log s) :
    (commits log).Pairwise (fun newer older => rev older ≤ rev newer) ∧
      ∀ c ∈ commits log, rev c ≤ s.floor := by
  induction h with
  | nil => exact ⟨List.Pairwise.nil, fun _ hc => absurd hc List.not_mem_nil⟩
  | started _ _ hf ih => exact ⟨ih.1, fun c hc => Nat.le_trans (ih.2 c hc) hf⟩
  | prepared _ ih | issued _ ih | returned _ _ ih | aborted _ _ ih | reported _ _ ih
  | closed _ _ ih => exact ih
  | @committed log last floor t c a h hfresh ih =>
    have hfloor : rev c = floor := (h.job_last rfl).2
    refine ⟨List.pairwise_cons.mpr ⟨fun c' hc' => ?_, ih.1⟩, fun c' hc' => ?_⟩
    · rw [hfloor]
      exact ih.2 c' hc'
    · rcases List.mem_cons.mp hc' with rfl | hc'
      · exact Nat.le_of_eq hfloor
      · exact ih.2 c' hc'

end

end Kms.Infra.Lifecycle
