import Kms.Infra.Text
import Mathlib.Algebra.Ring.Nat
import Mathlib.Data.Nat.Find

/-!
# UTC の時刻の text

1970 年の初めから数えた ns と、暦の日時と、RFC 3339 の text。書く時の年は、四桁に満たなければ零を補い、超えればそのまま
続ける。読む時の年は、ちょうど四桁である。

* `DateTime.toNanos_ofNanos` — 時刻は、暦の日時から戻る
* `parseTimestamp_formatTimestamp` — 10000 年より前の時刻は、text から戻る
* `parseTimestamp_far` — 10000 年からの時刻の text は、読めない
-/

namespace Kms.Infra

/-! ## 暦 -/

def isLeap (y : Nat) : Bool := decide (y % 4 = 0 ∧ y % 100 ≠ 0 ∨ y % 400 = 0)

/-- `y` 年より前の閏年の数。 -/
def leapsBefore (y : Nat) : Nat := (y - 1) / 4 - (y - 1) / 100 + (y - 1) / 400

/-- 1970 年の初めから `y` 年の初めまでの日数。 -/
def daysBefore (y : Nat) : Nat := 365 * (y - 1970) + (leapsBefore y - leapsBefore 1970)

theorem leapsBefore_succ {y : Nat} (h : 1 ≤ y) :
    leapsBefore (y + 1) = leapsBefore y + (isLeap y).toNat := by
  obtain ⟨x, rfl⟩ := Nat.exists_eq_add_of_le' h
  simp only [leapsBefore, isLeap, Nat.add_sub_cancel, Nat.succ_div, Nat.dvd_iff_mod_eq_zero]
  have hle : x / 100 ≤ x / 4 := Nat.div_le_div_left (by decide) (by decide)
  have h100 : (x + 1) % 100 = 0 → (x + 1) % 4 = 0 := fun h => by omega
  have h400 : (x + 1) % 400 = 0 → (x + 1) % 100 = 0 := fun h => by omega
  by_cases hfour : (x + 1) % 4 = 0 <;> by_cases hcent : (x + 1) % 100 = 0 <;>
    by_cases hquad : (x + 1) % 400 = 0 <;> simp [hfour, hcent, hquad] at h100 h400 ⊢ <;> omega

theorem leapsBefore_mono {y : Nat} (h : 1970 ≤ y) : leapsBefore 1970 ≤ leapsBefore y := by
  induction y, h using Nat.le_induction with
  | base => exact le_rfl
  | succ y hy ih =>
    rw [leapsBefore_succ (Nat.le_trans (by decide) hy)]
    exact Nat.le_add_right_of_le ih

theorem daysBefore_succ {y : Nat} (h : 1970 ≤ y) :
    daysBefore (y + 1) = daysBefore y + 365 + (isLeap y).toNat := by
  have hmono := leapsBefore_mono h
  unfold daysBefore
  rw [leapsBefore_succ (by omega)]
  omega

theorem le_daysBefore (k : Nat) : 365 * k ≤ daysBefore (1970 + k) := by
  unfold daysBefore
  omega

/-- 年。一年は 365 日を下回らない。 -/
def yearOfDays (days : Nat) : Nat :=
  1970 + Nat.findGreatest (fun k => daysBefore (1970 + k) ≤ days) (days / 365)

theorem daysBefore_yearOfDays_le (days : Nat) : daysBefore (yearOfDays days) ≤ days := by
  have h0 : daysBefore (1970 + 0) ≤ days := Nat.zero_le days
  exact Nat.findGreatest_spec (P := fun k => daysBefore (1970 + k) ≤ days) (Nat.zero_le _) h0

theorem lt_daysBefore_succ (days : Nat) : days < daysBefore (yearOfDays days + 1) := by
  by_contra hlt
  have hle : daysBefore (1970 +
      (Nat.findGreatest (fun k => daysBefore (1970 + k) ≤ days) (days / 365) + 1)) ≤ days :=
    Nat.le_of_not_lt hlt
  have hbound := Nat.le_trans (le_daysBefore _) hle
  refine Nat.findGreatest_is_greatest (P := fun k => daysBefore (1970 + k) ≤ days)
    (Nat.lt_succ_self _) ?_ hle
  omega

def monthLengths (y : Nat) : List Nat :=
  [31, if isLeap y then 29 else 28, 31, 30, 31, 30, 31, 31, 30, 31, 30, 31]

theorem sum_monthLengths (y : Nat) : (monthLengths y).sum = 365 + (isLeap y).toNat := by
  unfold monthLengths
  cases isLeap y <;> rfl

/-- 通算の日を、月と、その月の中の日に分ける。どちらも 0 から数える。 -/
def locate : List Nat → Nat → Nat × Nat
  | [], n => (0, n)
  | m :: ms, n => if n < m then (0, n) else ((locate ms (n - m)).1 + 1, (locate ms (n - m)).2)

theorem locate_spec {ms : List Nat} {n : Nat} (h : n < ms.sum) :
    (∃ m, ms[(locate ms n).1]? = some m ∧ (locate ms n).2 < m) ∧
      (ms.take (locate ms n).1).sum + (locate ms n).2 = n := by
  induction ms generalizing n with
  | nil => exact absurd h (Nat.not_lt_zero n)
  | cons m ms ih =>
    unfold locate
    split
    · next hlt => exact ⟨⟨m, rfl, hlt⟩, by simp⟩
    · next hge =>
      have hrest : n - m < ms.sum := by
        rw [List.sum_cons] at h
        omega
      obtain ⟨hlen, hsum⟩ := ih hrest
      refine ⟨hlen, ?_⟩
      rw [List.take_succ_cons, List.sum_cons]
      omega

structure DateTime where
  year : Nat
  month : Nat
  day : Nat
  hour : Nat
  minute : Nat
  second : Nat
  nano : Nat
  deriving DecidableEq

namespace DateTime

/-- 暦にある日時。 -/
def Valid (d : DateTime) : Prop :=
  1970 ≤ d.year ∧ 1 ≤ d.month ∧ 1 ≤ d.day ∧
    (∃ m ∈ (monthLengths d.year)[d.month - 1]?, d.day ≤ m) ∧
    d.hour < 24 ∧ d.minute < 60 ∧ d.second < 60

instance (d : DateTime) : Decidable d.Valid :=
  inferInstanceAs (Decidable (_ ∧ _ ∧ _ ∧ (∃ m ∈ (monthLengths d.year)[d.month - 1]?, _) ∧ _))

def days (d : DateTime) : Nat :=
  daysBefore d.year + ((monthLengths d.year).take (d.month - 1)).sum + (d.day - 1)

def toNanos (d : DateTime) : Nat :=
  (((d.days * 24 + d.hour) * 60 + d.minute) * 60 + d.second) * 1000000000 + d.nano

def ofNanos (t : Nat) : DateTime :=
  let days := t / 86400000000000
  let year := yearOfDays days
  let date := locate (monthLengths year) (days - daysBefore year)
  { year
    month := date.1 + 1
    day := date.2 + 1
    hour := t / 3600000000000 % 24
    minute := t / 60000000000 % 60
    second := t / 1000000000 % 60
    nano := t % 1000000000 }

theorem locate_ofNanos (t : Nat) :
    (∃ m, (monthLengths (ofNanos t).year)[(ofNanos t).month - 1]? = some m ∧
        (ofNanos t).day ≤ m) ∧
      (ofNanos t).days = t / 86400000000000 := by
  have hlow := daysBefore_yearOfDays_le (t / 86400000000000)
  have hhigh := lt_daysBefore_succ (t / 86400000000000)
  rw [daysBefore_succ (y := yearOfDays _) (Nat.le_add_right _ _)] at hhigh
  have hinside : t / 86400000000000 - daysBefore (yearOfDays (t / 86400000000000)) <
      (monthLengths (yearOfDays (t / 86400000000000))).sum := by
    rw [sum_monthLengths]
    omega
  obtain ⟨⟨m, hm, hlt⟩, hsum⟩ := locate_spec hinside
  simp only [days, ofNanos, Nat.add_sub_cancel]
  exact ⟨⟨m, hm, Nat.succ_le_of_lt hlt⟩, by omega⟩

theorem valid_ofNanos (t : Nat) : (ofNanos t).Valid := by
  obtain ⟨⟨m, hm, hle⟩, -⟩ := locate_ofNanos t
  have hyear : 1970 ≤ (ofNanos t).year := by
    simp only [ofNanos, yearOfDays]
    exact Nat.le_add_right 1970 _
  have hdate : 1 ≤ (ofNanos t).month ∧ 1 ≤ (ofNanos t).day := by
    simp only [ofNanos]
    exact ⟨Nat.le_add_left 1 _, Nat.le_add_left 1 _⟩
  have hclock : (ofNanos t).hour < 24 ∧ (ofNanos t).minute < 60 ∧ (ofNanos t).second < 60 := by
    simp only [ofNanos]
    exact ⟨Nat.mod_lt _ (by decide), Nat.mod_lt _ (by decide), Nat.mod_lt _ (by decide)⟩
  exact ⟨hyear, hdate.1, hdate.2, ⟨m, hm, hle⟩, hclock⟩

theorem toNanos_ofNanos (t : Nat) : (ofNanos t).toNanos = t := by
  unfold toNanos
  rw [(locate_ofNanos t).2]
  simp only [ofNanos]
  omega

end DateTime

/-! ## text -/

def padded (width n : Nat) : List Char := n.repr.toList.leftpad width '0'

def takeDigits (width : Nat) (text : List Char) : Option (Nat × List Char) :=
  if width ≤ text.length then (parseNat (text.take width)).map (·, text.drop width) else none

theorem isDigit_of_mem_padded {width n : Nat} {c : Char} (h : c ∈ padded width n) :
    c.isDigit = true := by
  rcases List.mem_append.mp h with hc | hc
  · rw [List.eq_of_mem_replicate hc]
    rfl
  · exact isDigit_of_mem_repr hc

theorem parseNat_padded (width n : Nat) : parseNat (padded width n) = some n := by
  have hne : padded width n ≠ [] := fun h => repr_toList_ne_nil n (List.append_eq_nil_iff.mp h).2
  have hall : (padded width n).all Char.isDigit = true :=
    List.all_eq_true.mpr (fun _ hc => isDigit_of_mem_padded hc)
  have hzeros : ∀ k, Nat.ofDigitChars 10 (List.replicate k '0' ++ n.repr.toList) 0 = n := by
    intro k
    induction k with
    | zero =>
      rw [List.replicate_zero, List.nil_append, Nat.toList_repr, Nat.ofDigitChars_ten_toDigits]
    | succ k ih =>
      rw [List.replicate_succ, List.cons_append, Nat.ofDigitChars_cons]
      exact ih
  rw [parseNat, if_pos ⟨hne, hall⟩]
  exact congrArg some (hzeros _)

theorem length_padded {width n : Nat} (h : n < 10 ^ width) (hw : 0 < width) :
    (padded width n).length = width := by
  have hlen : n.repr.toList.length ≤ width := by
    rw [Nat.toList_repr]
    exact (Nat.length_toDigits_le_iff (by decide) hw).mpr h
  rw [padded, List.length_leftpad]
  exact Nat.max_eq_left hlen

theorem takeDigits_padded {width n : Nat} (h : n < 10 ^ width) (hw : 0 < width)
    (rest : List Char) : takeDigits width (padded width n ++ rest) = some (n, rest) := by
  have hlen := length_padded h hw
  rw [takeDigits, if_pos (by rw [List.length_append, hlen]; exact Nat.le_add_right ..),
    List.take_left' hlen, List.drop_left' hlen, parseNat_padded, Option.map_some]

/-- 秒までの text に、`rest` を続ける。 -/
def DateTime.formatThen (d : DateTime) (rest : List Char) : List Char :=
  padded 4 d.year ++ '-' :: (padded 2 d.month ++ '-' :: (padded 2 d.day ++ 'T' ::
    (padded 2 d.hour ++ ':' :: (padded 2 d.minute ++ ':' :: (padded 2 d.second ++ rest)))))

/-- `2006-01-02T15:04:05.000000000Z`。 -/
def DateTime.format (d : DateTime) : List Char :=
  d.formatThen ('.' :: (padded 9 d.nano ++ ['Z']))

/-- 秒の小数。無くてもよく、九桁より後は捨てる。 -/
def takeFraction : List Char → Option (Nat × List Char)
  | '.' :: rest =>
    let digits := rest.takeWhile Char.isDigit
    (parseNat (digits.take 9)).map
      (fun n => (n * 10 ^ (9 - digits.length), rest.dropWhile Char.isDigit))
  | text => some (0, text)

/-- RFC 3339 の、UTC の text を読む。 -/
def DateTime.parse (text : List Char) : Option DateTime := do
  let (year, text) ← takeDigits 4 text
  let (month, text) ← takeDigits 2 (← expect '-' text)
  let (day, text) ← takeDigits 2 (← expect '-' text)
  let (hour, text) ← takeDigits 2 (← expect 'T' text)
  let (minute, text) ← takeDigits 2 (← expect ':' text)
  let (second, text) ← takeDigits 2 (← expect ':' text)
  let (nano, text) ← takeFraction text
  let text ← expect 'Z' text
  if text = [] then some { year, month, day, hour, minute, second, nano } else none

def formatTimestamp (t : Nat) : List Char := (DateTime.ofNanos t).format

/-- 暦に無い日時は、読めない。 -/
def parseTimestamp (text : List Char) : Option Nat := do
  let d ← DateTime.parse text
  if d.Valid then some d.toNanos else none

theorem takeFraction_padded {n : Nat} (h : n < 10 ^ 9) :
    takeFraction ('.' :: (padded 9 n ++ ['Z'])) = some (n, ['Z']) := by
  have hlen := length_padded h (by decide)
  have hdigits : ∀ c ∈ padded 9 n, c.isDigit = true := fun _ hc => isDigit_of_mem_padded hc
  simp only [takeFraction]
  rw [List.takeWhile_append_of_pos hdigits, List.dropWhile_append_of_pos hdigits]
  simp only [List.takeWhile_cons_of_neg (show ¬ ('Z').isDigit = true by decide), List.append_nil,
    List.dropWhile_cons_of_neg (show ¬ ('Z').isDigit = true by decide)]
  rw [List.take_of_length_le hlen.le, parseNat_padded, hlen]
  simp

theorem DateTime.parse_format {d : DateTime} (hd : d.Valid) (hyear : d.year < 10000)
    (hnano : d.nano < 10 ^ 9) : DateTime.parse d.format = some d := by
  obtain ⟨-, -, -, ⟨m, hm, hday⟩, hhour, hminute, hsecond⟩ := hd
  obtain ⟨hmonth, rfl⟩ := List.getElem?_eq_some_iff.mp hm
  have hlength : (monthLengths d.year)[d.month - 1] ≤ 31 := by
    have hall : ∀ m ∈ monthLengths d.year, m ≤ 31 := by
      unfold monthLengths
      cases isLeap d.year <;> decide
    exact hall _ (List.getElem_mem hmonth)
  have hmonth : d.month - 1 < 12 := hmonth
  simp only [DateTime.parse, DateTime.format, DateTime.formatThen, Option.bind_eq_bind]
  -- 年・月・日・時・分の後には区切りが、秒の後には小数が続く
  iterate 5
    rw [takeDigits_padded (by omega) (by decide)]
    simp only [Option.bind_some, expect_cons]
  rw [takeDigits_padded (by omega) (by decide)]
  simp only [Option.bind_some, takeFraction_padded hnano, expect_cons, if_true]

theorem parseTimestamp_formatTimestamp {t : Nat} (h : (DateTime.ofNanos t).year < 10000) :
    parseTimestamp (formatTimestamp t) = some t := by
  have hvalid := DateTime.valid_ofNanos t
  have hnano : (DateTime.ofNanos t).nano < 10 ^ 9 := Nat.mod_lt _ (by decide)
  rw [parseTimestamp, formatTimestamp, DateTime.parse_format hvalid h hnano]
  simp only [Option.bind_eq_bind, Option.bind_some, if_pos hvalid, DateTime.toNanos_ofNanos]

theorem eq_drop_of_takeDigits {width n : Nat} {text rest : List Char}
    (h : takeDigits width text = some (n, rest)) : rest = text.drop width := by
  rw [takeDigits, Option.ite_none_right_eq_some] at h
  obtain ⟨_, -, heq⟩ := Option.map_eq_some_iff.mp h.2
  exact (Prod.mk.inj heq).2.symm

theorem DateTime.parse_eq_none {text : List Char} (h : expect '-' (text.drop 4) = none) :
    DateTime.parse text = none := by
  rw [DateTime.parse]
  cases htake : takeDigits 4 text with
  | none => rfl
  | some out =>
    obtain ⟨year, rest⟩ := out
    rw [← eq_drop_of_takeDigits htake] at h
    simp only [Option.bind_eq_bind, Option.bind_some, h, Option.bind_none]

theorem parseTimestamp_far {t : Nat} (h : 10000 ≤ (DateTime.ofNanos t).year) :
    parseTimestamp (formatTimestamp t) = none := by
  have hlen : 4 < (padded 4 (DateTime.ofNanos t).year).length := by
    by_contra hle
    have hle : (DateTime.ofNanos t).year.repr.toList.length ≤ 4 := by
      rw [padded, List.length_leftpad] at hle
      omega
    rw [Nat.toList_repr] at hle
    have hlt := (Nat.length_toDigits_le_iff (by decide) (by decide)).mp hle
    omega
  -- 四桁の後には、まだ年の桁が続く
  have hstop : ∀ rest, expect '-' ((padded 4 (DateTime.ofNanos t).year ++ rest).drop 4) = none := by
    intro rest
    rw [List.drop_append_of_le_length hlen.le, List.drop_eq_getElem_cons hlen,
      List.cons_append]
    refine expect_cons_ne (fun heq => ?_) _
    have hdigit := isDigit_of_mem_padded (List.getElem_mem hlen)
    rw [← heq] at hdigit
    exact absurd hdigit (by decide)
  have hparse : DateTime.parse (formatTimestamp t) = none := DateTime.parse_eq_none (hstop _)
  rw [parseTimestamp, hparse]
  rfl

end Kms.Infra
