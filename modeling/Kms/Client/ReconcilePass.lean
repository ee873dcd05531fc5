import Kms.Client.Feed

/-!
# reconcile の一巡

reconcile の goroutine (thread) は、購読している namespace を `ListParameters` で順に一覧し、あった parameter の値を
書き、一覧し終えた namespace に無い parameter を消えたものとして書く。三つの SDK で違うのは、消えた parameter を
書く時期 (`SweepTime`) と、一つの namespace に許す頁の数 (`maxPages`) である。

書く操作そのものは manager の側にあり、ここでは書く順の列 `queue` を作る所までを扱う。

* `Pass.advance` — 書くものが無い時の一歩
* `PassInv` — 一巡の間 store が変わらない時の、一つの parameter についての不変条件
* `PassInv.settled` — 全ての namespace を一覧し終えた一巡は、どの parameter も今の値にする
-/

namespace Kms.Client

open Kms.Infra

/-- 消えた parameter を書く時期。 -/
inductive SweepTime where
  /-- namespace を一覧し終えるごと (Python)。 -/
  | eachNamespace
  /-- 全ての namespace の一覧の後 (Go / TypeScript)。 -/
  | afterAll
  deriving DecidableEq

/-- 一覧している namespace。 -/
structure Listing where
  ns : NamespaceRef
  after : Option String
  pages : Nat
  deriving DecidableEq

structure Pass where
  /-- 読む前に控えた revision。 -/
  snapRev : Nat
  /-- 始めに控えた namespace。 -/
  namespaces : List NamespaceRef
  /-- 消えていないか調べる parameter。始めに控える。 -/
  paths : List Ref
  waiting : List NamespaceRef
  listing : Option Listing
  /-- これから書く値。 -/
  queue : List (Ref × Option String)
  present : List Ref
  /-- 最後の頁まで読めた namespace。 -/
  listed : List NamespaceRef
  swept : Bool
  deriving DecidableEq

namespace Pass

def start (snapRev : Nat) (namespaces : List NamespaceRef) (paths : List Ref) : Pass where
  snapRev := snapRev
  namespaces := namespaces
  paths := paths
  waiting := namespaces
  listing := none
  queue := []
  present := []
  listed := []
  swept := false

/-- 一覧し終えた namespace にあるはずなのに無かった parameter。 -/
def missing (pass : Pass) (listed : List NamespaceRef) : List (Ref × Option String) :=
  (pass.paths.filter (fun r => decide (r ∉ pass.present) && decide (r.ns ∈ listed))).map
    (fun r => (r, none))

/-- 読めた一頁。頁の上限に達した一覧は、読み終えたことにならない。 -/
def readPage (time : SweepTime) (maxPages : Nat) (log : List Entry) (l : Listing) (pass : Pass) :
    Pass :=
  let read := listParameters log l.ns l.after
  let pass' : Pass :=
    { pass with
      queue := read.1.map (fun kv => (⟨l.ns, kv.1⟩, some kv.2))
      present := pass.present ++ read.1.map (fun kv => ⟨l.ns, kv.1⟩) }
  match read.2 with
  | some c =>
    if l.pages + 1 < maxPages then
      { pass' with listing := some ⟨l.ns, some c, l.pages + 1⟩ }
    else { pass' with listing := none }
  | none =>
    { pass' with
      listing := none
      listed := l.ns :: pass.listed
      queue := match time with
        | .eachNamespace => pass'.queue ++ pass'.missing [l.ns]
        | .afterAll => pass'.queue }

def advance (time : SweepTime) (maxPages : Nat) (log : List Entry) (ok : Bool) (pass : Pass) :
    Pass :=
  match pass.listing, pass.waiting with
  | some l, _ => if ok then pass.readPage time maxPages log l else { pass with listing := none }
  | none, ns :: rest => { pass with waiting := rest, listing := some ⟨ns, none, 0⟩ }
  | none, [] =>
    if pass.swept then pass
    else
      { pass with
        swept := true
        queue := match time with
          | .eachNamespace => []
          | .afterAll => pass.missing pass.listed }

def finished (pass : Pass) : Bool :=
  pass.swept && decide (pass.listing = none) && decide (pass.waiting = []) &&
    decide (pass.queue = [])

/-- 全ての namespace を最後の頁まで読んで終わった。 -/
def complete (pass : Pass) : Bool :=
  pass.finished && pass.namespaces.all (fun ns => decide (ns ∈ pass.listed))

theorem captured_advance (time : SweepTime) (maxPages : Nat) (log : List Entry) (ok : Bool)
    (pass : Pass) :
    (pass.advance time maxPages log ok).snapRev = pass.snapRev ∧
      (pass.advance time maxPages log ok).namespaces = pass.namespaces := by
  have hpage : ∀ l, (pass.readPage time maxPages log l).snapRev = pass.snapRev ∧
      (pass.readPage time maxPages log l).namespaces = pass.namespaces := by
    intro l
    simp only [readPage]
    split
    · split <;> exact ⟨rfl, rfl⟩
    · exact ⟨rfl, rfl⟩
  unfold advance
  split
  · split
    · exact hpage _
    · exact ⟨rfl, rfl⟩
  · exact ⟨rfl, rfl⟩
  · split <;> exact ⟨rfl, rfl⟩

theorem mem_missing {pass : Pass} {listed : List NamespaceRef} {p : Ref} {v : Option String} :
    (p, v) ∈ pass.missing listed ↔
      p ∈ pass.paths ∧ p ∉ pass.present ∧ p.ns ∈ listed ∧ v = none := by
  unfold missing
  rw [List.mem_map]
  constructor
  · rintro ⟨r, hr, heq⟩
    cases heq
    have h := List.mem_filter.mp hr
    simp only [Bool.and_eq_true, decide_eq_true_eq] at h
    exact ⟨h.1, h.2.1, h.2.2, rfl⟩
  · rintro ⟨hpath, hpres, hns, rfl⟩
    exact ⟨p, List.mem_filter.mpr ⟨hpath, by simp [hpres, hns]⟩, rfl⟩

end Pass

/-! ## 変わらない store の一巡 -/

/-- 消えた parameter `p` を書く時期が過ぎた。 -/
def Pass.sweptFor (time : SweepTime) (pass : Pass) (p : Ref) : Prop :=
  match time with
  | .eachNamespace => p.ns ∈ pass.listed
  | .afterAll => pass.swept = true ∧ p.ns ∈ pass.listed

structure PassInv (time : SweepTime) (log : List Entry) (p : Ref) (settled : Prop) (pass : Pass) :
    Prop where
  path : current log p = none → settled ∨ p ∈ pass.paths
  queue : ∀ v, (p, v) ∈ pass.queue → v = current log p
  present : p ∈ pass.present → current log p ≠ none
  found : ∀ v, current log p = some v → p ∈ pass.present → settled ∨ (p, some v) ∈ pass.queue
  scanned : current log p ≠ none → ∀ l c, pass.listing = some l → l.ns = p.ns →
    l.after = some c → p.key ≤ c → p ∈ pass.present
  listed : current log p ≠ none → p.ns ∈ pass.listed → p ∈ pass.present
  missed : current log p = none → pass.sweptFor time p → settled ∨ (p, none) ∈ pass.queue
  ended : pass.swept = true → pass.waiting = [] ∧ pass.listing = none

namespace PassInv

variable {time : SweepTime} {maxPages : Nat} {log : List Entry} {p : Ref} {settled : Prop}
  {pass : Pass}

theorem start {snapRev : Nat} {namespaces : List NamespaceRef} {paths : List Ref}
    (hp : current log p = none → settled ∨ p ∈ paths) :
    PassInv time log p settled (Pass.start snapRev namespaces paths) where
  path := hp
  queue := fun _ h => absurd h List.not_mem_nil
  present := fun h => absurd h List.not_mem_nil
  found := fun _ _ h => absurd h List.not_mem_nil
  scanned := fun _ _ _ h => by cases h
  listed := fun _ h => absurd h List.not_mem_nil
  missed := fun _ h => by
    cases time with
    | eachNamespace => exact absurd h List.not_mem_nil
    | afterAll => cases h.1
  ended := fun h => by cases h

theorem mono {settled' : Prop} (h : PassInv time log p settled pass) (hs : settled → settled') :
    PassInv time log p settled' pass :=
  { h with
    path := fun hn => (h.path hn).imp hs id
    found := fun v hv hp => (h.found v hv hp).imp hs id
    missed := fun hn hs' => (h.missed hn hs').imp hs id }

theorem pop {settled' : Prop} (h : PassInv time log p settled pass) {r : Ref} {v : Option String}
    {rest : List (Ref × Option String)} (hq : pass.queue = (r, v) :: rest)
    (hs : settled → settled') (hwrite : r = p → settled') :
    PassInv time log p settled' { pass with queue := rest } := by
  have hleft : ∀ w, settled ∨ (p, w) ∈ pass.queue → settled' ∨ (p, w) ∈ rest := by
    rintro w (hold | hmem)
    · exact .inl (hs hold)
    · rw [hq] at hmem
      rcases List.mem_cons.mp hmem with heq | hmem
      · exact .inl (hwrite (Prod.mk.inj heq).1.symm)
      · exact .inr hmem
  exact
    { h with
      path := fun hn => (h.path hn).imp hs id
      queue := fun w hw => h.queue w (by rw [hq]; exact List.mem_cons_of_mem _ hw)
      found := fun w hw hp => hleft _ (h.found w hw hp)
      missed := fun hn hs' => hleft _ (h.missed hn hs') }

theorem reorder (h : PassInv time log p settled pass) {queue : List (Ref × Option String)}
    {waiting : List NamespaceRef} (hq : queue.Perm pass.queue)
    (hw : waiting.Perm pass.waiting) :
    PassInv time log p settled { pass with queue, waiting } :=
  { h with
    queue := fun v hv => h.queue v (hq.mem_iff.mp hv)
    found := fun v hv hp => (h.found v hv hp).imp id hq.mem_iff.mpr
    missed := fun hn hs => (h.missed hn hs).imp id hq.mem_iff.mpr
    ended := fun hs => ⟨by rw [(h.ended hs).1] at hw; exact hw.eq_nil, (h.ended hs).2⟩ }

theorem not_swept (h : PassInv time log p settled pass) {l : Listing}
    (hl : pass.listing = some l) : ¬ pass.swept = true := by
  intro hs
  have hnone := (h.ended hs).2
  simp [hl] at hnone

theorem mem_page {l : Listing}
    (h : p ∈ (listParameters log l.ns l.after).1.map (fun kv => (⟨l.ns, kv.1⟩ : Ref))) :
    ∃ v, current log p = some v ∧
      (p, some v) ∈ (listParameters log l.ns l.after).1.map
        (fun kv => ((⟨l.ns, kv.1⟩ : Ref), some kv.2)) := by
  obtain ⟨⟨k, v⟩, hkv, rfl⟩ := List.mem_map.mp h
  exact ⟨v, current_of_mem_listParameters hkv, List.mem_map.mpr ⟨(k, v), hkv, rfl⟩⟩

theorem covered (h : PassInv time log p settled pass) {l : Listing}
    (hl : pass.listing = some l) (hns : l.ns = p.ns) (hcur : current log p ≠ none)
    (hnext : ∀ c, (listParameters log l.ns l.after).2 = some c → p.key ≤ c) :
    p ∈ pass.present ++
      (listParameters log l.ns l.after).1.map (fun kv => (⟨l.ns, kv.1⟩ : Ref)) := by
  obtain ⟨v, hv⟩ := Option.ne_none_iff_exists'.mp hcur
  by_cases hbefore : ∃ c, l.after = some c ∧ p.key ≤ c
  · obtain ⟨c, hc, hle⟩ := hbefore
    exact List.mem_append_left _ (h.scanned hcur l c hl hns hc hle)
  · have hp : p = ⟨l.ns, p.key⟩ := by rw [hns]
    refine List.mem_append_right _ (List.mem_map.mpr ⟨(p.key, v), ?_, hp.symm⟩)
    refine mem_listParameters (by rw [← hp]; exact hv) (fun c hc => ?_) hnext
    exact lt_of_not_ge (fun hle => hbefore ⟨c, hc, hle⟩)

theorem readPage (h : PassInv time log p settled pass) {l : Listing}
    (hl : pass.listing = some l) (hq : pass.queue = []) :
    PassInv time log p settled (pass.readPage time maxPages log l) := by
  have hsettled : ∀ w, settled ∨ (p, w) ∈ pass.queue → settled := by
    intro w hw
    exact hw.resolve_right (by simp [hq])
  have hqueue : ∀ v, (p, v) ∈ (listParameters log l.ns l.after).1.map
      (fun kv => ((⟨l.ns, kv.1⟩ : Ref), some kv.2)) → v = current log p := by
    intro v hv
    obtain ⟨⟨k, x⟩, hkx, heq⟩ := List.mem_map.mp hv
    cases heq
    exact (current_of_mem_listParameters hkx).symm
  have hpresent : p ∈ pass.present ++ (listParameters log l.ns l.after).1.map
      (fun kv => (⟨l.ns, kv.1⟩ : Ref)) → current log p ≠ none := by
    intro hp
    rcases List.mem_append.mp hp with hold | hnew
    · exact h.present hold
    · obtain ⟨v, hv, -⟩ := mem_page hnew
      rw [hv]
      exact Option.some_ne_none v
  have hfound : ∀ v, current log p = some v → p ∈ pass.present ++
      (listParameters log l.ns l.after).1.map (fun kv => (⟨l.ns, kv.1⟩ : Ref)) →
      settled ∨ (p, some v) ∈ (listParameters log l.ns l.after).1.map
        (fun kv => ((⟨l.ns, kv.1⟩ : Ref), some kv.2)) := by
    intro v hv hp
    rcases List.mem_append.mp hp with hold | hnew
    · exact .inl (hsettled _ (h.found v hv hold))
    · obtain ⟨w, hw, hmem⟩ := mem_page hnew
      rw [hv] at hw
      cases hw
      exact .inr hmem
  have hlisted : current log p ≠ none → p.ns ∈ pass.listed → p ∈ pass.present ++
      (listParameters log l.ns l.after).1.map (fun kv => (⟨l.ns, kv.1⟩ : Ref)) :=
    fun hcur hns => List.mem_append_left _ (h.listed hcur hns)
  unfold Pass.readPage
  cases hnext : (listParameters log l.ns l.after).2 with
  | some c =>
    have hmissed : current log p = none → pass.sweptFor time p → settled :=
      fun hcur hs => hsettled _ (h.missed hcur hs)
    simp only [hnext]
    split
    · refine ⟨h.path, hqueue, hpresent, hfound, fun hcur l' c' hl' hns' hc' hle => ?_, hlisted,
        fun hcur hs => .inl (hmissed hcur hs), fun hs => absurd hs (h.not_swept hl)⟩
      cases hl'
      cases hc'
      refine h.covered hl hns' hcur (fun c' hc' => ?_)
      rw [hnext] at hc'
      cases hc'
      exact hle
    · exact ⟨h.path, hqueue, hpresent, hfound, fun _ _ _ hl' => (by cases hl'), hlisted,
        fun hcur hs => .inl (hmissed hcur hs), fun hs => absurd hs (h.not_swept hl)⟩
  | none =>
    have hend : current log p ≠ none → p.ns ∈ l.ns :: pass.listed → p ∈ pass.present ++
        (listParameters log l.ns l.after).1.map (fun kv => (⟨l.ns, kv.1⟩ : Ref)) := by
      intro hcur hns
      rcases List.mem_cons.mp hns with hns | hns
      · refine h.covered hl hns.symm hcur (fun c hc => ?_)
        simp [hnext] at hc
      · exact hlisted hcur hns
    simp only [hnext]
    cases time with
    | afterAll =>
      exact ⟨h.path, hqueue, hpresent, hfound, fun _ _ _ hl' => (by cases hl'), hend,
        fun _ hs => absurd hs.1 (h.not_swept hl), fun hs => absurd hs (h.not_swept hl)⟩
    | eachNamespace =>
      refine ⟨h.path, fun v hv => ?_, hpresent, fun v hv hp => ?_, fun _ _ _ hl' => (by cases hl'),
        hend, fun hcur hs => ?_, fun hs => absurd hs (h.not_swept hl)⟩
      · rcases List.mem_append.mp hv with hv | hv
        · exact hqueue v hv
        · -- 頁に無かった parameter は、今は無い
          obtain ⟨-, hnot, hns, rfl⟩ := Pass.mem_missing.mp hv
          by_contra hcur
          exact hnot (hend (Ne.symm hcur) (List.mem_cons.mpr (.inl (List.mem_singleton.mp hns))))
      · exact (hfound v hv hp).imp id (List.mem_append_left _)
      · rcases List.mem_cons.mp hs with hns | hns
        · refine (h.path hcur).imp id
            (fun hpath => List.mem_append_right _ (Pass.mem_missing.mpr ?_))
          exact ⟨hpath, fun hp => hpresent hp hcur, List.mem_singleton.mpr hns, rfl⟩
        · exact .inl (hsettled _ (h.missed hcur hns))

theorem advance (h : PassInv time log p settled pass) (hq : pass.queue = []) (ok : Bool) :
    PassInv time log p settled (pass.advance time maxPages log ok) := by
  unfold Pass.advance
  split
  · next l _ hl =>
    split
    · exact h.readPage hl hq
    · exact
        { h with
          scanned := fun _ _ _ hl' => by cases hl'
          ended := fun hs => absurd hs (h.not_swept hl) }
  · next ns rest hl hw =>
    have hnot : ¬ pass.swept = true := by
      intro hs
      simp [(h.ended hs).1] at hw
    exact
      { h with
        scanned := fun _ l c hl' _ hc => by
          cases hl'
          cases hc
        ended := fun hs => absurd hs hnot }
  · next hl hw =>
    split
    · exact h
    · next hnot =>
      cases time with
      | eachNamespace =>
        exact
          { h with
            queue := fun _ hv => absurd hv List.not_mem_nil
            found := fun v hv hp => (h.found v hv hp).imp id (fun hm => by rwa [hq] at hm)
            missed := fun hcur hs => (h.missed hcur hs).imp id (fun hm => by rwa [hq] at hm)
            ended := fun _ => ⟨hw, hl⟩ }
      | afterAll =>
        refine
          { h with
            queue := fun v hv => ?_
            found := fun v hv hp => .inl ((h.found v hv hp).resolve_right (by simp [hq]))
            missed := fun hcur hs => (h.path hcur).imp id (fun hpath => ?_)
            ended := fun _ => ⟨hw, hl⟩ }
        · obtain ⟨-, hnot, hns, rfl⟩ := Pass.mem_missing.mp hv
          by_contra hcur
          exact hnot (h.listed (Ne.symm hcur) hns)
        · exact Pass.mem_missing.mpr ⟨hpath, fun hp => h.present hp hcur, hs.2, rfl⟩

theorem settled_of_complete (h : PassInv time log p settled pass) (hns : p.ns ∈ pass.namespaces)
    (hc : pass.complete = true) : settled := by
  simp only [Pass.complete, Pass.finished, Bool.and_eq_true, decide_eq_true_eq, List.all_eq_true]
    at hc
  obtain ⟨⟨⟨⟨hswept, -⟩, -⟩, hq⟩, hall⟩ := hc
  have hlisted := hall p.ns hns
  have hempty : ∀ w, ¬ (p, w) ∈ pass.queue := fun w => by simp [hq]
  cases hcur : current log p with
  | none =>
    have hs : pass.sweptFor time p := by
      cases time with
      | eachNamespace => exact hlisted
      | afterAll => exact ⟨hswept, hlisted⟩
    exact (h.missed hcur hs).resolve_right (hempty _)
  | some v =>
    have hpresent := h.listed (by rw [hcur]; exact Option.some_ne_none v) hlisted
    exact (h.found v hcur hpresent).resolve_right (hempty _)

end PassInv

end Kms.Client
