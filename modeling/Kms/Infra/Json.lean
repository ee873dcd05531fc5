import Kms.Infra.Text
import Mathlib.Data.List.TakeWhile

/-!
# JSON

JSON の値と、空白の無い text への書き出しと、厳密な読み取り。書き出しは、引用符と backslash と制御文字だけを escape する。
読み取りは、値の前後の空白を許し、重なった名前、対にならない surrogate、生の制御文字、深すぎる入れ子を断る。

* `Json.parse_render` — 書いた値は、読み戻せる
* `Json.wf_of_parse` — 読めた値は、書ける値である
* `Json.le_of_mem_render` — 書いた text に、改行などの制御文字は無い
* `decodeUTF8_encodeUTF8` — UTF-8 の列は、読み戻せる
-/

namespace Kms.Infra

/-! ## 値 -/

/-- 数は、書かれた綴りで持つ。 -/
inductive Json where
  | null
  | bool (b : Bool)
  | number (lexeme : List Char)
  | string (s : List Char)
  | array (items : List Json)
  | object (fields : List (List Char × Json))

/-- 指数部。 -/
def isExponent : List Char → Bool
  | [] => true
  | e :: rest =>
    (e = 'e' || e = 'E') &&
      match rest with
      | '+' :: digits | '-' :: digits | digits => (parseNat digits).isSome

/-- 小数部と指数部。 -/
def isFraction : List Char → Bool
  | '.' :: rest => !(rest.takeWhile Char.isDigit).isEmpty &&
    isExponent (rest.dropWhile Char.isDigit)
  | rest => isExponent rest

/-- 数の綴り。整数部は、余分な零で始まらない。 -/
def isNumber (l : List Char) : Bool :=
  let l := if l.head? = some '-' then l.tail else l
  let int := l.takeWhile Char.isDigit
  (int = ['0'] || (!int.isEmpty && int.head? ≠ some '0')) && isFraction (l.dropWhile Char.isDigit)

/-- 数の綴りに現れる文字。 -/
def isNumberChar (c : Char) : Bool := c.isDigit || c ∈ ['-', '+', '.', 'e', 'E']

namespace Json

mutual
/-- 書ける値。数の綴りは正しく、object の名前は重ならない。 -/
def WF : Json → Prop
  | .number lexeme => isNumber lexeme = true ∧ lexeme.all isNumberChar = true
  | .array items => ItemsWF items
  | .object fields => (fields.map Prod.fst).Nodup ∧ FieldsWF fields
  | _ => True

def ItemsWF : List Json → Prop
  | [] => True
  | v :: items => v.WF ∧ ItemsWF items

def FieldsWF : List (List Char × Json) → Prop
  | [] => True
  | (_, v) :: fields => v.WF ∧ FieldsWF fields
end

mutual
/-- 入れ子の深さ。 -/
def depth : Json → Nat
  | .array items => itemsDepth items + 1
  | .object fields => fieldsDepth fields + 1
  | _ => 0

def itemsDepth : List Json → Nat
  | [] => 0
  | v :: items => max v.depth (itemsDepth items)

def fieldsDepth : List (List Char × Json) → Nat
  | [] => 0
  | (_, v) :: fields => max v.depth (fieldsDepth fields)
end

/-! ## 書き出し -/

def hexDigit (n : Nat) : Char := if n < 10 then Char.ofNat (48 + n) else Char.ofNat (87 + n)

def escapeChar (c : Char) : List Char :=
  if c = '"' ∨ c = '\\' then ['\\', c]
  else if c = '\x08' then ['\\', 'b']
  else if c = '\x0c' then ['\\', 'f']
  else if c = '\n' then ['\\', 'n']
  else if c = '\r' then ['\\', 'r']
  else if c = '\t' then ['\\', 't']
  else if c.toNat < 32 then ['\\', 'u', '0', '0', hexDigit (c.toNat / 16), hexDigit (c.toNat % 16)]
  else [c]

def quote (s : List Char) : List Char := '"' :: (s.flatMap escapeChar ++ ['"'])

mutual
/-- 空白の無い text。 -/
def render : Json → List Char
  | .null => ['n', 'u', 'l', 'l']
  | .bool true => ['t', 'r', 'u', 'e']
  | .bool false => ['f', 'a', 'l', 's', 'e']
  | .number lexeme => lexeme
  | .string s => quote s
  | .array [] => ['[', ']']
  | .array (v :: items) => '[' :: (v.render ++ renderItems items)
  | .object [] => ['{', '}']
  | .object ((name, v) :: fields) => '{' :: (quote name ++ ':' :: (v.render ++ renderFields fields))

def renderItems : List Json → List Char
  | [] => [']']
  | v :: items => ',' :: (v.render ++ renderItems items)

def renderFields : List (List Char × Json) → List Char
  | [] => ['}']
  | (name, v) :: fields => ',' :: (quote name ++ ':' :: (v.render ++ renderFields fields))
end

/-! ## 読み取り -/

def skipSpace (text : List Char) : List Char := text.dropWhile (· ∈ [' ', '\t', '\n', '\r'])

def hexValue (c : Char) : Option Nat :=
  if c.isDigit then some (c.toNat - 48)
  else if 'a' ≤ c ∧ c ≤ 'f' then some (c.toNat - 87)
  else if 'A' ≤ c ∧ c ≤ 'F' then some (c.toNat - 55)
  else none

def takeHex : List Char → Option (Nat × List Char)
  | a :: b :: c :: d :: rest => do
    let high := (← hexValue a) * 16 + (← hexValue b)
    pure ((high * 16 + (← hexValue c)) * 16 + (← hexValue d), rest)
  | _ => none

/-- `\u` の後。surrogate は、対でなければならない。 -/
def takeUnicode (text : List Char) : Option (Char × List Char) := do
  let (n, text) ← takeHex text
  if 0xD800 ≤ n ∧ n < 0xDC00 then
    let (m, text) ← takeHex (← expect 'u' (← expect '\\' text))
    if 0xDC00 ≤ m ∧ m < 0xE000 then
      some (Char.ofNat (0x10000 + (n - 0xD800) * 0x400 + (m - 0xDC00)), text)
    else none
  else if 0xDC00 ≤ n ∧ n < 0xE000 then none
  else some (Char.ofNat n, text)

/-- backslash の後。 -/
def takeEscape : List Char → Option (Char × List Char)
  | [] => none
  | c :: text =>
    if c ∈ ['"', '\\', '/'] then some (c, text)
    else if c = 'b' then some ('\x08', text)
    else if c = 'f' then some ('\x0c', text)
    else if c = 'n' then some ('\n', text)
    else if c = 'r' then some ('\r', text)
    else if c = 't' then some ('\t', text)
    else if c = 'u' then takeUnicode text
    else none

/-- 開く引用符の後。 -/
def parseString : Nat → List Char → Option (List Char × List Char)
  | _, [] | 0, _ => none
  | fuel + 1, c :: text =>
    if c = '"' then some ([], text)
    else if c = '\\' then do
      let (c, text) ← takeEscape text
      let (s, text) ← parseString fuel text
      pure (c :: s, text)
    else if c.toNat < 32 then none
    else do
      let (s, text) ← parseString fuel text
      pure (c :: s, text)

def parseNumber (text : List Char) : Option (Json × List Char) :=
  let lexeme := text.takeWhile isNumberChar
  if isNumber lexeme then some (.number lexeme, text.dropWhile isNumberChar) else none

def literals : List (List Char × Json) :=
  [(['n', 'u', 'l', 'l'], .null), (['t', 'r', 'u', 'e'], .bool true),
    (['f', 'a', 'l', 's', 'e'], .bool false)]

mutual
def parseValue : Nat → List Char → Option (Json × List Char)
  | 0, _ => none
  | fuel + 1, text =>
    match skipSpace text with
    | [] => none
    | c :: text =>
      if c = '"' then (parseString fuel text).map (fun r => (.string r.1, r.2))
      else if c = '[' then
        match skipSpace text with
        | ']' :: text => some (.array [], text)
        | text => (parseItems fuel text).map (fun r => (.array r.1, r.2))
      else if c = '{' then
        match skipSpace text with
        | '}' :: text => some (.object [], text)
        | text => do
          let (fields, text) ← parseFields fuel text
          if (fields.map Prod.fst).Nodup then some (.object fields, text) else none
      else if isNumberChar c then parseNumber (c :: text)
      else
        (literals.find? (fun l => l.1.isPrefixOf (c :: text))).map
          (fun l => (l.2, (c :: text).drop l.1.length))

def parseItems : Nat → List Char → Option (List Json × List Char)
  | 0, _ => none
  | fuel + 1, text => do
    let (v, text) ← parseValue fuel text
    match skipSpace text with
    | ',' :: text => (parseItems fuel text).map (fun r => (v :: r.1, r.2))
    | ']' :: text => some ([v], text)
    | _ => none

def parseFields : Nat → List Char → Option (List (List Char × Json) × List Char)
  | 0, _ => none
  | fuel + 1, text => do
    let (name, text) ← parseString fuel (← expect '"' (skipSpace text))
    let (v, text) ← parseValue fuel (← expect ':' (skipSpace text))
    match skipSpace text with
    | ',' :: text => (parseFields fuel text).map (fun r => ((name, v) :: r.1, r.2))
    | '}' :: text => some ([(name, v)], text)
    | _ => none
end

def maxNestingDepth : Nat := 10000

def parse (text : List Char) : Option Json := do
  let (v, rest) ← parseValue (text.length + 1) text
  if skipSpace rest = [] ∧ v.depth ≤ maxNestingDepth then some v else none

/-! ## 帰納法 -/

/-- 要素について成り立てば全体で成り立つ性質は、どの値でも成り立つ。 -/
theorem induction {P : Json → Prop} (null : P .null) (bool : ∀ b, P (.bool b))
    (number : ∀ l, P (.number l)) (string : ∀ s, P (.string s))
    (array : ∀ items, (∀ v ∈ items, P v) → P (.array items))
    (object : ∀ fields, (∀ f ∈ fields, P f.2) → P (.object fields)) : ∀ v, P v
  | .null => null
  | .bool b => bool b
  | .number l => number l
  | .string s => string s
  | .array items => array items (fun v _ => induction null bool number string array object v)
  | .object fields =>
    object fields (fun f _ => induction null bool number string array object f.2)
termination_by v => sizeOf v
decreasing_by
  · next hv =>
    have := List.sizeOf_lt_of_mem hv
    simp only [Json.array.sizeOf_spec]
    omega
  · next hf =>
    have := List.sizeOf_lt_of_mem hf
    cases f
    simp only [Json.object.sizeOf_spec, Prod.mk.sizeOf_spec] at this ⊢
    omega

theorem itemsWF_iff {items : List Json} : ItemsWF items ↔ ∀ v ∈ items, v.WF := by
  induction items with
  | nil => simp [ItemsWF]
  | cons v items ih => simp [ItemsWF, ih]

theorem fieldsWF_iff {fields : List (List Char × Json)} :
    FieldsWF fields ↔ ∀ f ∈ fields, f.2.WF := by
  induction fields with
  | nil => simp [FieldsWF]
  | cons f fields ih =>
    obtain ⟨name, v⟩ := f
    simp [FieldsWF, ih]

/-! ## 書いた値を読む -/

theorem skipSpace_cons {c : Char} (h : c ∉ [' ', '\t', '\n', '\r']) (text : List Char) :
    skipSpace (c :: text) = c :: text :=
  List.dropWhile_cons_of_neg (by simpa using h)

theorem hexValue_hexDigit {n : Nat} (h : n < 16) : hexValue (hexDigit n) = some n := by
  have hall : ∀ m ∈ List.range 16, hexValue (hexDigit m) = some m := by decide
  exact hall n (List.mem_range.mpr h)

theorem takeEscape_escapeChar {c : Char} {tail : List Char} (text : List Char)
    (h : escapeChar c = '\\' :: tail) : takeEscape (tail ++ text) = some (c, text) := by
  unfold escapeChar at h
  split_ifs at h with h1 h2 h3 h4 h5 h6 h7
  · rcases h1 with rfl | rfl <;> (cases h; rfl)
  · cases h; subst h2; rfl
  · cases h; subst h3; rfl
  · cases h; subst h4; rfl
  · cases h; subst h5; rfl
  · cases h; subst h6; rfl
  · cases h
    have hhigh : hexValue (hexDigit (c.toNat / 16)) = some (c.toNat / 16) :=
      hexValue_hexDigit (by omega)
    have hlow : hexValue (hexDigit (c.toNat % 16)) = some (c.toNat % 16) :=
      hexValue_hexDigit (by omega)
    have hzero : hexValue '0' = some 0 := rfl
    have hcode : c.toNat / 16 * 16 + c.toNat % 16 = c.toNat := by omega
    show takeUnicode ('0' :: '0' :: hexDigit (c.toNat / 16) :: hexDigit (c.toNat % 16) :: text) = _
    simp only [takeUnicode, takeHex, hzero, hhigh, hlow, Option.bind_eq_bind, Option.bind_some,
      Nat.zero_mul, Nat.zero_add, Option.pure_def, hcode]
    rw [if_neg (by omega), if_neg (by omega), Char.ofNat_toNat]
  · simp only [List.cons.injEq] at h
    exact absurd (.inr h.1) h1

theorem parseString_escapeChar (c : Char) (fuel : Nat) (text : List Char) :
    parseString (fuel + 1) (escapeChar c ++ text) =
      (parseString fuel text).map (fun r => (c :: r.1, r.2)) := by
  by_cases hesc : ∃ tail, escapeChar c = '\\' :: tail
  · obtain ⟨tail, htail⟩ := hesc
    rw [htail, List.cons_append, parseString, if_neg (by decide), if_pos rfl,
      takeEscape_escapeChar text htail]
    simp only [Option.bind_eq_bind, Option.bind_some]
    cases parseString fuel text <;> rfl
  · have hplain : escapeChar c = [c] ∧ c ≠ '"' ∧ c ≠ '\\' ∧ ¬ c.toNat < 32 := by
      unfold escapeChar at hesc ⊢
      split_ifs at hesc ⊢ with h1 h2 h3 h4 h5 h6 h7
      all_goals first
        | exact absurd ⟨_, rfl⟩ hesc
        | exact ⟨rfl, fun h => h1 (.inl h), fun h => h1 (.inr h), h7⟩
    obtain ⟨heq, hq, hb, hc⟩ := hplain
    rw [heq, List.singleton_append, parseString, if_neg hq, if_neg hb, if_neg hc]
    cases parseString fuel text <;> rfl

theorem exists_succ {n fuel : Nat} (h : n < fuel) : ∃ fuel', fuel = fuel' + 1 :=
  Nat.exists_eq_succ_of_ne_zero (Nat.ne_zero_of_lt h)

theorem parseString_quoted (s : List Char) {fuel : Nat} (text : List Char)
    (h : (s.flatMap escapeChar).length < fuel) :
    parseString fuel (s.flatMap escapeChar ++ '"' :: text) = some (s, text) := by
  induction s generalizing fuel with
  | nil =>
    obtain ⟨fuel, rfl⟩ := exists_succ h
    rfl
  | cons c s ih =>
    obtain ⟨fuel, rfl⟩ := exists_succ h
    have hpos : 0 < (escapeChar c).length := by
      unfold escapeChar
      split_ifs <;> exact Nat.succ_pos _
    rw [List.flatMap_cons, List.length_append] at h
    rw [List.flatMap_cons, List.append_assoc, parseString_escapeChar, ih (by omega)]
    rfl

/-- 書いた値の後に続けてよい text。数の綴りは、続く文字で延びない。 -/
def Stops (rest : List Char) : Prop := ∀ c ∈ rest.head?, isNumberChar c = false

theorem parseNumber_lexeme {l rest : List Char} (h : isNumber l = true)
    (hall : l.all isNumberChar = true) (hrest : Stops rest) :
    parseNumber (l ++ rest) = some (.number l, rest) := by
  have hdigits : ∀ c ∈ l, isNumberChar c = true := List.all_eq_true.mp hall
  have htail : rest.takeWhile isNumberChar = [] ∧ rest.dropWhile isNumberChar = rest := by
    cases rest with
    | nil => exact ⟨rfl, rfl⟩
    | cons c rest =>
      have hc : ¬ isNumberChar c = true := by simpa using hrest c rfl
      exact ⟨List.takeWhile_cons_of_neg hc, List.dropWhile_cons_of_neg hc⟩
  simp only [parseNumber]
  rw [List.takeWhile_append_of_pos hdigits, List.dropWhile_append_of_pos hdigits, htail.1, htail.2,
    List.append_nil, if_pos h]

theorem ne_nil_of_isNumber {l : List Char} (h : isNumber l = true) : l ≠ [] := by
  rintro rfl
  exact absurd h (by decide)

theorem render_head {v : Json} (h : v.WF) : ∃ c text, v.render = c :: text ∧
    c ∉ [' ', '\t', '\n', '\r'] ∧ c ∉ [']', '}'] := by
  cases v with
  | number l =>
    cases l with
    | nil => exact absurd h.1 (by decide)
    | cons c l =>
      have hc : isNumberChar c = true := (List.all_eq_true.mp h.2) c List.mem_cons_self
      refine ⟨c, l, rfl, fun hmem => ?_, fun hmem => ?_⟩
      all_goals
        simp only [List.mem_cons, List.not_mem_nil, or_false] at hmem
        rcases hmem with rfl | rfl | rfl | rfl <;> revert hc <;> decide
  | bool b => cases b <;> exact ⟨_, _, rfl, by decide, by decide⟩
  | array items => cases items <;> exact ⟨_, _, by rw [render], by decide, by decide⟩
  | object fields =>
    rcases fields with _ | ⟨⟨name, v⟩, fields⟩ <;>
      exact ⟨_, _, by rw [render], by decide, by decide⟩
  | _ => exact ⟨_, _, by rw [render]; try rw [quote], by decide, by decide⟩

/-- 書いた値が、後に何が続いても読める。 -/
def Reads (v : Json) : Prop := ∀ {fuel : Nat} {rest : List Char}, Stops rest →
  v.render.length < fuel → parseValue fuel (v.render ++ rest) = some (v, rest)

theorem stops_cons {c : Char} (h : isNumberChar c = false) (rest : List Char) :
    Stops (c :: rest) := by
  rintro _ ⟨⟩
  exact h

theorem parseItems_render {v : Json} {items : List Json} (hv : v.Reads)
    (hitems : ∀ w ∈ items, w.Reads) {fuel : Nat} (rest : List Char)
    (h : (v.render ++ renderItems items).length < fuel) :
    parseItems fuel (v.render ++ (renderItems items ++ rest)) = some (v :: items, rest) := by
  induction items generalizing v fuel with
  | nil =>
    obtain ⟨fuel, rfl⟩ := exists_succ h
    rw [List.length_append, renderItems, List.length_singleton] at h
    rw [parseItems, renderItems, List.singleton_append, hv (stops_cons rfl _) (by omega)]
    rfl
  | cons w items ih =>
    obtain ⟨fuel, rfl⟩ := exists_succ h
    simp only [List.length_append, renderItems, List.length_cons] at h
    have hlen : (w.render ++ renderItems items).length < fuel := by
      rw [List.length_append]
      omega
    have hrest := ih (hitems w List.mem_cons_self)
      (fun x hx => hitems x (List.mem_cons_of_mem _ hx)) hlen
    rw [parseItems, renderItems, List.cons_append, List.append_assoc,
      hv (stops_cons rfl _) (by omega)]
    simp only [Option.bind_eq_bind, Option.bind_some]
    rw [skipSpace_cons (by decide)]
    simp only [hrest, Option.map_some]

/-- 一つの field を読んだ後。 -/
theorem parseFields_succ {name : List Char} {v : Json} (hv : v.Reads) {fuel : Nat} {c : Char}
    (hc : isNumberChar c = false) (tail : List Char)
    (hname : (name.flatMap escapeChar).length < fuel) (hlen : v.render.length < fuel) :
    parseFields (fuel + 1) (quote name ++ ':' :: (v.render ++ c :: tail)) =
      match skipSpace (c :: tail) with
      | ',' :: text => (parseFields fuel text).map (fun r => ((name, v) :: r.1, r.2))
      | '}' :: text => some ([(name, v)], text)
      | _ => none := by
  rw [parseFields, quote, List.cons_append, skipSpace_cons (by decide), List.append_assoc,
    List.singleton_append]
  simp only [expect_cons, Option.bind_eq_bind, Option.bind_some]
  rw [parseString_quoted name _ hname]
  simp only [Option.bind_some]
  rw [skipSpace_cons (by decide)]
  simp only [expect_cons, Option.bind_some]
  rw [hv (stops_cons hc _) hlen]
  rfl

theorem parseFields_render {name : List Char} {v : Json} {fields : List (List Char × Json)}
    (hv : v.Reads) (hfields : ∀ f ∈ fields, f.2.Reads) {fuel : Nat} (rest : List Char)
    (h : (quote name ++ ':' :: (v.render ++ renderFields fields)).length < fuel) :
    parseFields fuel (quote name ++ ':' :: (v.render ++ (renderFields fields ++ rest))) =
      some ((name, v) :: fields, rest) := by
  induction fields generalizing name v fuel with
  | nil =>
    obtain ⟨fuel, rfl⟩ := exists_succ h
    simp only [quote, List.length_append, List.length_cons] at h
    rw [renderFields, List.singleton_append, parseFields_succ hv rfl _ (by omega) (by omega),
      skipSpace_cons (by decide)]
    rfl
  | cons f fields ih =>
    obtain ⟨fuel, rfl⟩ := exists_succ h
    obtain ⟨name', w⟩ := f
    simp only [quote, List.length_append, renderFields, List.length_cons] at h
    have hlen : (quote name' ++ ':' :: (w.render ++ renderFields fields)).length < fuel := by
      simp only [quote, List.length_append, List.length_cons]
      omega
    have hrest := ih (hfields (name', w) List.mem_cons_self)
      (fun x hx => hfields x (List.mem_cons_of_mem _ hx)) hlen
    rw [renderFields, List.cons_append, parseFields_succ hv rfl _ (by omega) (by omega),
      skipSpace_cons (by decide)]
    simp only [List.append_assoc, List.cons_append, hrest, Option.map_some]

theorem reads_number {l : List Char} (h : isNumber l = true) (hall : l.all isNumberChar = true) :
    (number l).Reads := by
  intro fuel rest hrest hlen
  obtain ⟨fuel, rfl⟩ := exists_succ hlen
  have hread := parseNumber_lexeme h hall hrest
  cases l with
  | nil => exact absurd rfl (ne_nil_of_isNumber h)
  | cons c l =>
    have hc : isNumberChar c = true := List.all_eq_true.mp hall c List.mem_cons_self
    have hne : ∀ d, isNumberChar d = false → c ≠ d := by
      rintro d hd rfl
      exact Bool.false_ne_true (hd.symm.trans hc)
    have hspace : c ∉ [' ', '\t', '\n', '\r'] := by
      simp only [List.mem_cons, List.not_mem_nil, or_false, not_or]
      exact ⟨hne _ (by decide), hne _ (by decide), hne _ (by decide), hne _ (by decide)⟩
    rw [render, parseValue, List.cons_append, skipSpace_cons hspace]
    simp only [if_neg (hne '"' (by decide)), if_neg (hne '[' (by decide)),
      if_neg (hne '{' (by decide)), if_pos hc]
    exact hread

theorem reads_array {items : List Json} (h : ∀ v ∈ items, v.WF) (hreads : ∀ v ∈ items, v.Reads) :
    (array items).Reads := by
  intro fuel rest _ hlen
  obtain ⟨fuel, rfl⟩ := exists_succ hlen
  cases items with
  | nil =>
    rw [render, parseValue]
    rfl
  | cons v items =>
    rw [render, List.length_cons] at hlen
    have hitems := parseItems_render (hreads v List.mem_cons_self)
      (fun w hw => hreads w (List.mem_cons_of_mem _ hw)) rest (Nat.lt_of_succ_lt_succ hlen)
    obtain ⟨c, text, htext, hspace, hclose⟩ := render_head (h v List.mem_cons_self)
    rw [render, parseValue, List.cons_append, skipSpace_cons (by decide), List.append_assoc]
    simp only [if_neg (show ¬ '[' = '"' by decide), if_true]
    rw [htext, List.cons_append, skipSpace_cons hspace, ← List.cons_append, ← htext]
    split
    · next heq =>
      rw [htext, List.cons_append] at heq
      cases heq
      exact absurd (by decide) hclose
    · rw [hitems]
      rfl

theorem reads_object {fields : List (List Char × Json)} (hnodup : (fields.map Prod.fst).Nodup)
    (hreads : ∀ f ∈ fields, f.2.Reads) : (object fields).Reads := by
  intro fuel rest _ hlen
  obtain ⟨fuel, rfl⟩ := exists_succ hlen
  rcases fields with _ | ⟨⟨name, v⟩, fields⟩
  · rw [render, parseValue]
    rfl
  · rw [render, List.length_cons] at hlen
    have hlen : (quote name ++ ':' :: (v.render ++ renderFields fields)).length < fuel :=
      Nat.lt_of_succ_lt_succ hlen
    have hfields := parseFields_render (hreads (name, v) List.mem_cons_self)
      (fun f hf => hreads f (List.mem_cons_of_mem _ hf)) rest hlen
    rw [render, parseValue, List.cons_append, skipSpace_cons (by decide), List.append_assoc,
      List.cons_append, List.append_assoc]
    simp only [if_neg (show ¬ '{' = '"' by decide), if_neg (show ¬ '{' = '[' by decide), if_true]
    rw [quote, List.cons_append, skipSpace_cons (by decide), ← List.cons_append, ← quote]
    split
    · next heq => cases heq
    · rw [hfields]
      simp only [Option.bind_eq_bind, Option.bind_some, if_pos hnodup]

theorem reads {v : Json} (h : v.WF) : v.Reads := by
  induction v using Json.induction with
  | null =>
    intro fuel rest _ hlen
    obtain ⟨fuel, rfl⟩ := exists_succ hlen
    rw [render, parseValue]
    rfl
  | bool b =>
    intro fuel rest _ hlen
    obtain ⟨fuel, rfl⟩ := exists_succ hlen
    cases b <;> (rw [render, parseValue]; rfl)
  | number l => exact reads_number h.1 h.2
  | string s =>
    intro fuel rest _ hlen
    obtain ⟨fuel, rfl⟩ := exists_succ hlen
    simp only [render, quote, List.length_cons, List.length_append] at hlen
    rw [render, quote, parseValue, List.cons_append, skipSpace_cons (by decide), List.append_assoc,
      List.singleton_append]
    simp only [if_true]
    rw [parseString_quoted s _ (by omega)]
    rfl
  | array items ih =>
    rw [WF, itemsWF_iff] at h
    exact reads_array h (fun v hv => ih v hv (h v hv))
  | object fields ih =>
    rw [WF, fieldsWF_iff] at h
    exact reads_object h.1 (fun f hf => ih f hf (h.2 f hf))

theorem parse_render {v : Json} (h : v.WF) (hdepth : v.depth ≤ maxNestingDepth) :
    parse v.render = some v := by
  have hstops : Stops [] := fun _ hc => by cases hc
  have hread := reads h hstops (Nat.lt_succ_self v.render.length)
  rw [List.append_nil] at hread
  rw [parse, hread]
  exact if_pos ⟨rfl, hdepth⟩

/-! ## 読めた値を書く -/

theorem wf_of_parseNumber {text rest : List Char} {v : Json}
    (h : parseNumber text = some (v, rest)) : v.WF := by
  simp only [parseNumber] at h
  split at h
  · next hnum =>
    cases h
    exact ⟨hnum, List.all_takeWhile⟩
  · cases h

/-- 読めた値は、書ける値である。fuel の帰納法で、値と、要素と、field を一度に示す。 -/
theorem wf_of_parseValue (fuel : Nat) :
    (∀ text rest v, parseValue fuel text = some (v, rest) → v.WF) ∧
    (∀ text rest items, parseItems fuel text = some (items, rest) → ∀ v ∈ items, v.WF) ∧
    (∀ text rest fields, parseFields fuel text = some (fields, rest) → ∀ f ∈ fields, f.2.WF) := by
  induction fuel with
  | zero =>
    refine ⟨fun _ _ _ h => ?_, fun _ _ _ h => ?_, fun _ _ _ h => ?_⟩
    all_goals cases h
  | succ fuel ih =>
    obtain ⟨hvalue, hitems, hfields⟩ := ih
    refine ⟨fun text rest v h => ?_, fun text rest items h => ?_, fun text rest fields h => ?_⟩
    · rw [parseValue] at h
      split at h
      · cases h
      · split_ifs at h
        · obtain ⟨r, -, hr⟩ := Option.map_eq_some_iff.mp h
          cases hr
          trivial
        · split at h
          · cases h
            trivial
          · obtain ⟨r, hparse, hr⟩ := Option.map_eq_some_iff.mp h
            cases hr
            exact itemsWF_iff.mpr (hitems _ _ _ hparse)
        · split at h
          · cases h
            exact ⟨List.nodup_nil, trivial⟩
          · obtain ⟨⟨fields, text'⟩, hparse, hr⟩ := Option.bind_eq_some_iff.mp h
            rw [Option.ite_none_right_eq_some] at hr
            obtain ⟨hnodup, hr⟩ := hr
            cases hr
            exact ⟨hnodup, fieldsWF_iff.mpr (hfields _ _ _ hparse)⟩
        · exact wf_of_parseNumber h
        · obtain ⟨l, hfind, hr⟩ := Option.map_eq_some_iff.mp h
          cases hr
          have hmem := List.mem_of_find?_eq_some hfind
          simp only [literals, List.mem_cons, List.not_mem_nil, or_false] at hmem
          rcases hmem with rfl | rfl | rfl <;> trivial
    · rw [parseItems] at h
      obtain ⟨⟨v, text'⟩, hparse, hr⟩ := Option.bind_eq_some_iff.mp h
      dsimp only at hr
      split at hr
      · obtain ⟨r, hrest, hr⟩ := Option.map_eq_some_iff.mp hr
        cases hr
        exact List.forall_mem_cons.mpr ⟨hvalue _ _ _ hparse, hitems _ _ _ hrest⟩
      · cases hr
        exact List.forall_mem_singleton.mpr (hvalue _ _ _ hparse)
      · cases hr
    · rw [parseFields] at h
      obtain ⟨_, -, h⟩ := Option.bind_eq_some_iff.mp h
      obtain ⟨_, -, h⟩ := Option.bind_eq_some_iff.mp h
      obtain ⟨_, -, h⟩ := Option.bind_eq_some_iff.mp h
      obtain ⟨⟨v, text'⟩, hparse, hr⟩ := Option.bind_eq_some_iff.mp h
      dsimp only at hr
      split at hr
      · obtain ⟨r, hrest, hr⟩ := Option.map_eq_some_iff.mp hr
        cases hr
        exact List.forall_mem_cons.mpr ⟨hvalue _ _ _ hparse, hfields _ _ _ hrest⟩
      · cases hr
        exact List.forall_mem_singleton.mpr (hvalue _ _ _ hparse)
      · cases hr

theorem wf_of_parse {text : List Char} {v : Json} (h : parse text = some v) :
    v.WF ∧ v.depth ≤ maxNestingDepth := by
  obtain ⟨⟨w, rest⟩, hparse, hr⟩ := Option.bind_eq_some_iff.mp h
  rw [Option.ite_none_right_eq_some] at hr
  obtain ⟨hend, hr⟩ := hr
  cases hr
  exact ⟨(wf_of_parseValue _).1 _ _ _ hparse, hend.2⟩

/-! ## 整数 -/

def nat (n : Nat) : Json := .number n.repr.toList

theorem head_toDigits {n : Nat} (h : n ≠ 0) : (Nat.toDigits 10 n).head? ≠ some '0' := by
  induction n using Nat.strong_induction_on with
  | h n ih =>
    rcases Nat.lt_or_ge n 10 with hlt | hge
    · have hsmall : ∀ m < 10, m ≠ 0 → [m.digitChar].head? ≠ some '0' := by decide
      rw [Nat.toDigits_of_lt_base hlt]
      exact hsmall n hlt h
    · rw [Nat.toDigits_of_base_le (by decide) hge,
        List.head?_append_of_ne_nil _ Nat.toDigits_ne_nil]
      exact ih (n / 10) (by omega) (by omega)

theorem wf_nat (n : Nat) : (nat n).WF := by
  have hdigit : ∀ c ∈ n.repr.toList, c.isDigit = true := fun _ hc => isDigit_of_mem_repr hc
  have hsign : n.repr.toList.head? ≠ some '-' := by
    intro h
    exact absurd (hdigit _ (List.mem_of_mem_head? h)) (by decide)
  have hlead : n.repr.toList = ['0'] ∨ n.repr.toList.head? ≠ some '0' := by
    by_cases hn : n = 0
    · exact .inl (hn ▸ by decide)
    · exact .inr (by rw [Nat.toList_repr]; exact head_toDigits hn)
  refine ⟨?_, List.all_eq_true.mpr fun c hc => ?_⟩
  · have hint : n.repr.toList.takeWhile Char.isDigit = n.repr.toList :=
      List.takeWhile_eq_self_iff.mpr hdigit
    have hrest : n.repr.toList.dropWhile Char.isDigit = [] :=
      List.dropWhile_eq_nil_iff.mpr hdigit
    have hne : n.repr.toList.isEmpty = false := List.isEmpty_eq_false_iff.mpr (repr_toList_ne_nil n)
    simp only [isNumber, if_neg hsign, hint, hrest, hne]
    rcases hlead with h | h
    · rw [h]
      rfl
    · rw [decide_eq_true h]
      simp [isFraction, isExponent]
  · rw [isNumberChar, hdigit c hc, Bool.true_or]

/-! ## 一行 -/

theorem le_of_isNumberChar {c : Char} (h : isNumberChar c = true) : 32 ≤ c.toNat := by
  simp only [isNumberChar, Bool.or_eq_true, decide_eq_true_eq, List.mem_cons, List.not_mem_nil,
    or_false] at h
  rcases h with hd | rfl | rfl | rfl | rfl | rfl
  · have hle : '0'.toNat ≤ c.toNat := (Char.isDigit_iff_toNat.mp hd).1
    exact Nat.le_trans (by decide) hle
  all_goals decide

theorem le_of_mem_escapeChar {c d : Char} (h : d ∈ escapeChar c) : 32 ≤ d.toNat := by
  have hhex : ∀ n < 16, 32 ≤ (hexDigit n).toNat := by decide
  unfold escapeChar at h
  split_ifs at h with h1 h2 h3 h4 h5 h6 h7
  all_goals simp only [List.mem_cons, List.not_mem_nil, or_false] at h
  · rcases h with rfl | rfl
    · decide
    · rcases h1 with rfl | rfl <;> decide
  iterate 5 exact h.elim (fun h => h ▸ by decide) (fun h => h ▸ by decide)
  · rcases h with rfl | rfl | rfl | rfl | rfl | rfl
    all_goals first | decide | exact hhex _ (by omega)
  · subst h
    omega

theorem le_of_mem_quote {s : List Char} {c : Char} (h : c ∈ quote s) : 32 ≤ c.toNat := by
  rw [quote, List.mem_cons, List.mem_append, List.mem_singleton] at h
  rcases h with rfl | h | rfl
  · decide
  · obtain ⟨d, -, hc⟩ := List.mem_flatMap.mp h
    exact le_of_mem_escapeChar hc
  · decide

theorem le_of_all {l : List Char} (h : l.all (fun c => decide (32 ≤ c.toNat)) = true) :
    ∀ c ∈ l, 32 ≤ c.toNat :=
  fun c hc => of_decide_eq_true (List.all_eq_true.mp h c hc)

theorem mem_renderItems {items : List Json} {c : Char} (h : c ∈ renderItems items) :
    c ∈ [',', ']'] ∨ ∃ v ∈ items, c ∈ v.render := by
  induction items with
  | nil =>
    rw [renderItems] at h
    exact .inl (List.mem_cons_of_mem _ h)
  | cons v items ih =>
    rw [renderItems, List.mem_cons, List.mem_append] at h
    rcases h with rfl | h | h
    · exact .inl List.mem_cons_self
    · exact .inr ⟨v, List.mem_cons_self, h⟩
    · exact (ih h).imp_right (fun ⟨w, hw, hc⟩ => ⟨w, List.mem_cons_of_mem _ hw, hc⟩)

theorem mem_renderFields {fields : List (List Char × Json)} {c : Char}
    (h : c ∈ renderFields fields) :
    c ∈ [',', '}'] ∨ ∃ f ∈ fields, c ∈ quote f.1 ++ ':' :: f.2.render := by
  induction fields with
  | nil =>
    rw [renderFields] at h
    exact .inl (List.mem_cons_of_mem _ h)
  | cons f fields ih =>
    rw [renderFields, List.mem_cons, ← List.cons_append, ← List.append_assoc,
      List.mem_append] at h
    rcases h with rfl | h | h
    · exact .inl List.mem_cons_self
    · exact .inr ⟨f, List.mem_cons_self, h⟩
    · exact (ih h).imp_right (fun ⟨g, hg, hc⟩ => ⟨g, List.mem_cons_of_mem _ hg, hc⟩)

theorem le_of_mem_render {v : Json} (h : v.WF) : ∀ c ∈ v.render, 32 ≤ c.toNat := by
  induction v using Json.induction with
  | null =>
    rw [render]
    exact le_of_all (by decide)
  | bool b =>
    cases b <;> (rw [render]; exact le_of_all (by decide))
  | number l =>
    rw [render]
    exact fun c hc => le_of_isNumberChar (List.all_eq_true.mp h.2 c hc)
  | string s =>
    rw [render]
    exact fun c hc => le_of_mem_quote hc
  | array items ih =>
    rw [WF, itemsWF_iff] at h
    cases items with
    | nil =>
      rw [render]
      exact le_of_all (by decide)
    | cons v items =>
      intro c hc
      rw [render, List.mem_cons, List.mem_append] at hc
      rcases hc with rfl | hc | hc
      · decide
      · exact ih v List.mem_cons_self (h v List.mem_cons_self) c hc
      · rcases mem_renderItems hc with hc | ⟨w, hw, hc⟩
        · exact le_of_all (by decide) c hc
        · have hw := List.mem_cons_of_mem v hw
          exact ih w hw (h w hw) c hc
  | object fields ih =>
    rw [WF, fieldsWF_iff] at h
    have hfield : ∀ f ∈ fields, ∀ c ∈ quote f.1 ++ ':' :: f.2.render, 32 ≤ c.toNat := by
      intro f hf c hc
      rw [List.mem_append, List.mem_cons] at hc
      rcases hc with hc | rfl | hc
      · exact le_of_mem_quote hc
      · decide
      · exact ih f hf (h.2 f hf) c hc
    rcases fields with _ | ⟨⟨name, v⟩, fields⟩
    · rw [render]
      exact le_of_all (by decide)
    · intro c hc
      rw [render, List.mem_cons, ← List.cons_append, ← List.append_assoc, List.mem_append] at hc
      rcases hc with rfl | hc | hc
      · decide
      · exact hfield _ List.mem_cons_self c hc
      · rcases mem_renderFields hc with hc | ⟨f, hf, hc⟩
        · exact le_of_all (by decide) c hc
        · exact hfield f (List.mem_cons_of_mem _ hf) c hc

end Json

/-! ## UTF-8 -/

def encodeUTF8 (chars : List Char) : List UInt8 := chars.flatMap String.utf8EncodeChar

/-- UTF-8 の列を読む。読めない byte は、`fallback` があれば、その文字に置き換える。 -/
def decodeUTF8 (fallback : Option Char) : Nat → List UInt8 → Option (List Char)
  | _, [] => some []
  | 0, _ => none
  | fuel + 1, b :: bytes =>
    match (b :: bytes).toByteArray.utf8DecodeChar? 0 with
    | some c => (decodeUTF8 fallback fuel ((b :: bytes).drop c.utf8Size)).map (c :: ·)
    | none => fallback.bind (fun c => (decodeUTF8 fallback fuel bytes).map (c :: ·))

theorem decodeUTF8_utf8EncodeChar (fallback : Option Char) (c : Char) (bytes : List UInt8)
    (fuel : Nat) : decodeUTF8 fallback (fuel + 1) (String.utf8EncodeChar c ++ bytes) =
      (decodeUTF8 fallback fuel bytes).map (c :: ·) := by
  have hread : (String.utf8EncodeChar c ++ bytes).toByteArray.utf8DecodeChar? 0 = some c := by
    rw [List.toByteArray_append]
    exact ByteArray.utf8DecodeChar?_utf8EncodeChar_append
  have hdrop : (String.utf8EncodeChar c ++ bytes).drop c.utf8Size = bytes :=
    List.drop_left' (String.length_utf8EncodeChar c)
  cases hcode : String.utf8EncodeChar c ++ bytes with
  | nil =>
    have hlen := String.length_utf8EncodeChar c
    rw [(List.append_eq_nil_iff.mp hcode).1] at hlen
    exact absurd hlen.symm (Nat.ne_of_gt (Char.utf8Size_pos c))
  | cons b rest =>
    rw [hcode] at hread hdrop
    simp only [decodeUTF8, hread, hdrop]

theorem decodeUTF8_encodeUTF8 (fallback : Option Char) {chars : List Char} {fuel : Nat}
    (h : (encodeUTF8 chars).length ≤ fuel) :
    decodeUTF8 fallback fuel (encodeUTF8 chars) = some chars := by
  induction chars generalizing fuel with
  | nil => cases fuel <;> rfl
  | cons c chars ih =>
    rw [encodeUTF8, List.flatMap_cons, List.length_append, String.length_utf8EncodeChar] at h
    have hpos : 0 < c.utf8Size := Char.utf8Size_pos c
    obtain ⟨fuel, rfl⟩ : ∃ n, fuel = n + 1 := ⟨fuel - 1, by omega⟩
    rw [encodeUTF8, List.flatMap_cons, decodeUTF8_utf8EncodeChar]
    rw [← encodeUTF8] at h ⊢
    rw [ih (by omega), Option.map_some]

theorem mem_of_mem_encodeUTF8 {chars : List Char} {b : UInt8} (hb : b.toNat < 128)
    (h : b ∈ encodeUTF8 chars) : ∃ c ∈ chars, c.toNat = b.toNat := by
  obtain ⟨c, hc, hmem⟩ := List.mem_flatMap.mp h
  refine ⟨c, hc, ?_⟩
  have hhigh : ∀ n, 128 ≤ n → n < 256 → b ≠ UInt8.ofNat n := by
    rintro n hlow hlt rfl
    rw [UInt8.toNat_ofNat'] at hb
    omega
  simp only [String.utf8EncodeChar] at hmem
  split_ifs at hmem with h1 h2 h3
  all_goals simp only [List.mem_cons, List.not_mem_nil, or_false] at hmem
  · subst hmem
    rw [UInt8.toNat_ofNat', Nat.mod_eq_of_lt (h1.trans_lt (by decide))]
    rfl
  · rcases hmem with h | h
    all_goals exact absurd h (hhigh _ (by omega) (by omega))
  · rcases hmem with h | h | h
    all_goals exact absurd h (hhigh _ (by omega) (by omega))
  · rcases hmem with h | h | h | h
    all_goals exact absurd h (hhigh _ (by omega) (by omega))

end Kms.Infra
