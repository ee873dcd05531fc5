import Mathlib.Data.List.Infix

/-!
# 文字列

区切り文字を挟んで繋いだ列を、一通りに読み戻すための補題。

* `append_cons_inj` — 最初の区切り文字までが頭である
* `mem_splitOn` — 分割で失われるのは区切り文字だけである
* `splitOn_joinLines` / `take_joinLines` — 行の列は分割で読み戻せ、切れても次の行の頭しか残らない
* `parseNat_repr` — 十進の表記は読み戻せる
-/

namespace Kms.Infra

variable {α : Type}

theorem append_cons_inj {sep : α} : ∀ {a b x y : List α}, sep ∉ a → sep ∉ b →
    a ++ sep :: x = b ++ sep :: y → a = b ∧ x = y
  | [], [], _, _, _, _, h => ⟨rfl, (List.cons.inj h).2⟩
  | [], _ :: _, _, _, _, hb, h => absurd (by rw [(List.cons.inj h).1]; exact List.mem_cons_self) hb
  | _ :: _, [], _, _, ha, _, h =>
    absurd (by rw [← (List.cons.inj h).1]; exact List.mem_cons_self) ha
  | _ :: _, _ :: _, _, _, ha, hb, h => by
    obtain ⟨hhead, htail⟩ := List.cons.inj h
    obtain ⟨rfl, rfl⟩ := append_cons_inj (fun hm => ha (List.mem_cons_of_mem _ hm))
      (fun hm => hb (List.mem_cons_of_mem _ hm)) htail
    exact ⟨by rw [hhead], rfl⟩

theorem mem_intercalate_singleton {sep c : α} : ∀ {segs : List (List α)},
    c ∈ [sep].intercalate segs → c = sep ∨ ∃ seg ∈ segs, c ∈ seg
  | [], h => by simp at h
  | [seg], h => .inr ⟨seg, List.mem_singleton.mpr rfl, by simpa using h⟩
  | seg :: next :: rest, h => by
    rw [List.intercalate_cons_cons, List.append_assoc, List.mem_append, List.singleton_append,
      List.mem_cons] at h
    rcases h with hseg | rfl | hrest
    · exact .inr ⟨seg, List.mem_cons_self, hseg⟩
    · exact .inl rfl
    · rcases mem_intercalate_singleton hrest with rfl | ⟨seg', hseg', hc⟩
      · exact .inl rfl
      · exact .inr ⟨seg', List.mem_cons_of_mem _ hseg', hc⟩

theorem mem_splitOn [DecidableEq α] {sep c : α} {l : List α} (hc : c ∈ l) :
    c = sep ∨ ∃ seg ∈ l.splitOn sep, c ∈ seg := by
  have h : [sep].intercalate (l.splitOn sep) = l := List.intercalate_splitOn sep
  rw [← h] at hc
  exact mem_intercalate_singleton hc

def expect (c : Char) : List Char → Option (List Char)
  | [] => none
  | d :: rest => if c = d then some rest else none

@[simp] theorem expect_cons (c : Char) (rest : List Char) : expect c (c :: rest) = some rest :=
  if_pos rfl

theorem expect_cons_ne {c d : Char} (h : c ≠ d) (rest : List Char) : expect c (d :: rest) = none :=
  if_neg h

/-! ## 十進の表記 -/

/-- 数字だけの空でない列を、十進の数として読む。 -/
def parseNat (l : List Char) : Option Nat :=
  if l ≠ [] ∧ l.all Char.isDigit then some (Nat.ofDigitChars 10 l 0) else none

theorem isDigit_of_mem_repr {n : Nat} {c : Char} (h : c ∈ n.repr.toList) : c.isDigit = true := by
  rw [Nat.toList_repr] at h
  exact Nat.isDigit_of_mem_toDigits (by decide) (by decide) h

theorem repr_toList_ne_nil (n : Nat) : n.repr.toList ≠ [] := by
  rw [Nat.toList_repr]
  exact Nat.toDigits_ne_nil

theorem parseNat_repr (n : Nat) : parseNat n.repr.toList = some n := by
  have hall : n.repr.toList.all Char.isDigit = true :=
    List.all_eq_true.mpr (fun _ hc => isDigit_of_mem_repr hc)
  rw [parseNat, if_pos ⟨repr_toList_ne_nil n, hall⟩, Nat.toList_repr,
    Nat.ofDigitChars_ten_toDigits]

/-! ## 行 -/

/-- 各行の後に区切りを置いて繋ぐ。 -/
def joinLines (sep : α) (ls : List (List α)) : List α := ls.flatMap (· ++ [sep])

theorem joinLines_append (sep : α) (ls ms : List (List α)) :
    joinLines sep (ls ++ ms) = joinLines sep ls ++ joinLines sep ms := List.flatMap_append

theorem splitOn_joinLines [DecidableEq α] {sep : α} {tail : List α} (ht : sep ∉ tail) :
    ∀ {ls : List (List α)}, (∀ l ∈ ls, sep ∉ l) →
      (joinLines sep ls ++ tail).splitOn sep = ls ++ [tail]
  | [], _ => List.splitOn_eq_singleton ht
  | l :: ls, h => by
    have hrest := splitOn_joinLines ht (fun m hm => h m (List.mem_cons_of_mem _ hm))
    have hsplit := List.splitOn_append_cons_self_of_not_mem (h l List.mem_cons_self)
      (joinLines sep ls ++ tail)
    rw [hrest] at hsplit
    simpa [joinLines] using hsplit

theorem take_joinLines (sep : α) : ∀ (ls : List (List α)) (n : Nat),
    ∃ k tail, (joinLines sep ls).take n = joinLines sep (ls.take k) ++ tail ∧
      (tail = [] ∨ ∃ l ∈ ls, tail <+: l)
  | [], n => ⟨0, [], by simp [joinLines], .inl rfl⟩
  | l :: ls, n => by
    by_cases hn : n ≤ l.length
    · refine ⟨0, l.take n, ?_, .inr ⟨l, List.mem_cons_self, List.take_prefix n l⟩⟩
      simp [joinLines, List.take_append_of_le_length hn]
    · obtain ⟨k, tail, hk, htail⟩ := take_joinLines sep ls (n - (l.length + 1))
      refine ⟨k + 1, tail, ?_,
        htail.imp_right fun ⟨m, hm, hp⟩ => ⟨m, List.mem_cons_of_mem _ hm, hp⟩⟩
      have hlen : (l ++ [sep]).length ≤ n := by
        simp only [List.length_append, List.length_singleton]
        omega
      calc (joinLines sep (l :: ls)).take n
          = (l ++ [sep]) ++ (joinLines sep ls).take (n - (l ++ [sep]).length) := by
            rw [joinLines, List.flatMap_cons, List.take_append, List.take_of_length_le hlen]
            rfl
        _ = joinLines sep ((l :: ls).take (k + 1)) ++ tail := by
            simp only [List.length_append, List.length_singleton] at hk ⊢
            rw [hk]
            simp [joinLines]

end Kms.Infra
