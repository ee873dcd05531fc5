import Kms.Client.GoWatch
import Kms.Client.PyWatch

/-!
# 知らされる値の出所

登録・stream・reconcile がどの順に割り込んでも、Go と Python の handle に知らされる値は、その path が store のある
revision で実際に持っていた値である。登録で渡される値は、そのような値か、登録の既定値である。

* `Pass.stored_advance` — 一巡が書く値は、読んだ時の値か、無くなったことである
* `Sourced` — 知らせている途中の値も、知らせた値も、持っていた値である。登録で渡した値は既定値でもよい
* `received_values_were_stored` — どの run でも、知らされた値は store にあった
-/

namespace Kms.Client

open Kms.Infra

theorem Pass.stored_missing {log : List Entry} {pass : Pass} {listed : List NamespaceRef} :
    ∀ rv ∈ pass.missing listed, Stored log rv.1 rv.2 := by
  rintro ⟨p, v⟩ hrv
  rw [(mem_missing.mp hrv).2.2.2]
  exact ⟨0, Nat.zero_le _, rfl⟩

theorem Pass.stored_advance {log : List Entry} {pass : Pass} (time : SweepTime)
    (maxPages : Nat) (ok : Bool) (h : ∀ rv ∈ pass.queue, Stored log rv.1 rv.2) :
    ∀ rv ∈ (pass.advance time maxPages log ok).queue, Stored log rv.1 rv.2 := by
  have hread : ∀ ns after, ∀ rv ∈ (listParameters log ns after).1.map
      (fun kv => ((⟨ns, kv.1⟩ : Ref), some kv.2)), Stored log rv.1 rv.2 := by
    intro ns after rv hrv
    obtain ⟨kv, hkv, rfl⟩ := List.mem_map.mp hrv
    exact ⟨log.length, le_rfl, current_of_mem_listParameters hkv⟩
  unfold advance readPage
  intro rv hrv
  split at hrv
  · split at hrv
    · dsimp only at hrv
      split at hrv
      · split at hrv <;> exact hread _ _ rv hrv
      · cases time with
        | eachNamespace => exact (List.mem_append.mp hrv).elim (hread _ _ rv) (stored_missing rv)
        | afterAll => exact hread _ _ rv hrv
    · exact h rv hrv
  · exact h rv hrv
  · split at hrv
    · exact h rv hrv
    · cases time with
      | eachNamespace => exact absurd hrv List.not_mem_nil
      | afterAll => exact stored_missing rv hrv

/-! ## Go と Python -/

def WatchEvent.fallback : WatchEvent → Option String
  | .fetch _ fallback => fallback
  | _ => none

/-- `p` が持っていた値か、既定値である。 -/
def Offered (defaults : List String) (log : List Entry) (p : Ref) (v : Option String) : Prop :=
  Stored log p v ∨ ∃ d ∈ defaults, v = some d

theorem Offered.commit {defaults : List String} {log : List Entry} {p : Ref} {v : Option String}
    (h : Offered defaults log p v) (e : Entry) : Offered defaults (log ++ [e]) p v :=
  h.imp (·.commit e) id

structure Sourced {sdk : Sdk} (defaults : List String) (m : Manager sdk) : Prop where
  pass : ∀ pass, m.pass = .running pass → ∀ rv ∈ pass.queue, Stored m.log rv.1 rv.2
  delivering : ∀ t d, m.delivering t = some d → ∀ i ∈ d.handles,
    ∃ h, m.handles[i]? = some h ∧ Stored m.log h.ref d.value
  received : ∀ h ∈ m.handles, ∀ v ∈ h.received, Stored m.log h.ref v
  reads : ∀ i r v, m.reads i = some r → r.initial = some v → Offered defaults m.log r.ref (some v)
  known : ∀ p k, m.known? p = some k → Offered defaults m.log p (sdk.value k)
  seeded : ∀ h ∈ m.handles, Offered defaults m.log h.ref h.seed

namespace Sourced

variable {sdk : Sdk} {defaults : List String} {m : Manager sdk}

theorem write (h : Sourced defaults m) (t : Thread) {r : Ref} {v : Option String} (rev : Nat)
    (reconcile : Bool) (hv : Stored m.log r v) :
    Sourced defaults (m.write t r v rev reconcile) := by
  refine { h with delivering := fun t' d hd => ?_, known := fun q k hk => ?_ }
  rotate_left
  · rcases Manager.known?_write hk with hold | ⟨rfl, hval, -⟩
    · exact h.known q k hold
    · exact .inl (hval ▸ hv)
  rcases m.write_cases t r v rev reconcile with ⟨-, -, -, hout⟩ | ⟨-, hout⟩
  · rw [hout] at hd
    exact h.delivering t' d (Manager.delivering_of_setDelivering_none hd)
  · rw [hout] at hd
    rcases Manager.delivering_setDelivering hd with ⟨-, hold⟩ | ⟨-, hnew⟩
    · exact h.delivering t' d hold
    · split at hnew <;> cases hnew
      intro i hi
      obtain ⟨x, hx, rfl⟩ := Manager.mem_handlersOf.mp hi
      exact ⟨x, hx, hv⟩

theorem notify (h : Sourced defaults m) {t : Thread} {d : Delivery}
    (hd : m.delivering t = some d) : Sourced defaults (m.notify t d) := by
  unfold Manager.notify
  split
  · exact { h with
      delivering := fun t' d' hd' =>
        h.delivering t' d' (Manager.delivering_of_setDelivering_none hd') }
  · next i rest hcons =>
    obtain ⟨z, hz, hstored⟩ := h.delivering t d hd i (by rw [hcons]; exact List.mem_cons_self)
    have hset : m.handles.modify i (Handle.receive d.value) =
        m.handles.set i (z.receive d.value) := by
      rw [List.modify_eq_set_getElem?, hz]
      rfl
    rw [hset]
    refine { h with
      delivering := fun t' d' hd' j hj => ?_
      received := fun x hx v hv => ?_
      seeded := fun x hx => ?_ }
    · obtain ⟨x, hx, hv⟩ : ∃ x, m.handles[j]? = some x ∧ Stored m.log x.ref d'.value := by
        rcases Manager.delivering_setDelivering hd' with ⟨-, hold⟩ | ⟨-, ⟨⟩⟩
        · exact h.delivering t' d' hold j hj
        · exact h.delivering t d hd j (by rw [hcons]; exact List.mem_cons_of_mem _ hj)
      by_cases hij : i = j
      · subst hij
        cases hz.symm.trans hx
        exact ⟨_, List.getElem?_set_self (List.getElem?_eq_some_iff.mp hz).1, hv⟩
      · exact ⟨x, (List.getElem?_set_ne hij).trans hx, hv⟩
    · rcases List.mem_or_eq_of_mem_set hx with hx | rfl
      · exact h.received x hx v hv
      · rcases List.mem_append.mp hv with hv | hv
        · exact h.received z (List.mem_of_getElem? hz) v hv
        · exact List.mem_singleton.mp hv ▸ hstored
    · rcases List.mem_or_eq_of_mem_set hx with hx | rfl
      · exact h.seeded x hx
      · exact h.seeded z (List.mem_of_getElem? hz)

theorem offered_register (h : Sourced defaults m) {p : Ref} {t : sdk.Ticket} {v : String}
    (hv : Offered defaults m.log p (some v)) :
    Offered defaults m.log p (sdk.value (sdk.register (m.known? p) t v).1) ∧
      Offered defaults m.log p (sdk.register (m.known? p) t v).2 := by
  cases hk : m.known? p with
  | none =>
    obtain ⟨hvalue, -, hseed⟩ := sdk.register_none t v
    exact ⟨hvalue ▸ hv, hseed ▸ hv⟩
  | some k =>
    obtain ⟨hvalue, hseed⟩ := sdk.register_source k t v
    refine ⟨?_, ?_⟩
    · rcases hvalue with heq | heq <;> rw [heq]
      exacts [h.known p k hk, hv]
    · rcases hseed with heq | heq <;> rw [heq]
      exacts [h.known p k hk, hv]

theorem step (h : Sourced defaults m) (hm : ManagerInv m) {ev : WatchEvent}
    (hdef : ∀ d ∈ ev.fallback, d ∈ defaults) : Sourced defaults (watchStep m ev) := by
  generalize hs : watchStep m ev = m'
  cases watchStep_effect hs with
  | booked hreads =>
    refine { h with reads := fun i r v hi hv => ?_ }
    rcases hreads i r v hi hv with hold | hcur | rfl
    · exact h.reads i r v hold hv
    · exact .inl ⟨_, le_rfl, hcur⟩
    · exact .inr ⟨v, hdef v rfl, rfl⟩
  | committed e =>
    exact ⟨fun pass hp rv hrv => (h.pass pass hp rv hrv).commit e,
      fun t d hd i hi => (h.delivering t d hd i hi).imp (fun x hx => ⟨hx.1, hx.2.commit e⟩),
      fun x hx v hv => (h.received x hx v hv).commit e,
      fun i r v hi hv => (h.reads i r v hi hv).commit e,
      fun p k hk => (h.known p k hk).commit e, fun x hx => (h.seeded x hx).commit e⟩
  | @registered i p t v hr =>
    have hoffered := h.offered_register (t := t) (h.reads i _ v hr rfl)
    have hknown := m.known?_registerRead p t v
    rw [m.registerRead_eq] at hknown ⊢
    refine ⟨h.pass, fun t d hd i hi => ?_, fun x hx v hv => ?_, fun j r v hj hv => ?_,
      fun q k hk => ?_, fun x hx => ?_⟩
    · obtain ⟨x, hx, hv⟩ := h.delivering t d hd i hi
      exact ⟨x, (List.getElem?_append_left (List.getElem?_eq_some_iff.mp hx).1).trans hx, hv⟩
    · rcases List.mem_append.mp hx with hx | hx
      · exact h.received x hx v hv
      · rw [List.mem_singleton.mp hx] at hv
        exact absurd hv List.not_mem_nil
    · simp only [Manager.setRead] at hj
      split at hj
      · cases hj
      · exact h.reads j r v hj hv
    · have hk' := (hknown q).symm.trans hk
      split at hk'
      · next heq =>
        subst heq
        cases hk'
        exact hoffered.1
      · exact h.known q k hk'
    · rcases List.mem_append.mp hx with hx | hx
      · exact h.seeded x hx
      · rw [List.mem_singleton.mp hx]
        exact hoffered.2
  | streamed =>
    unfold Manager.streamStep
    split
    · next hd => exact h.notify hd
    · exact h
    · next rev r v rest snap _ hh =>
      refine Sourced.write (m := { m with handling := .applying rev rest snap }) { h with } _ _ _ ?_
      have hhand := hm.handling
      have hle := hm.handling_le
      rw [hh] at hhand hle
      exact ⟨rev, hle, (hhand.1 _ List.mem_cons_self).2⟩
    · exact { h with }
    · exact { h with }
  | begun => exact { h with pass := fun _ hp => by cases hp }
  | passed ok =>
    unfold Manager.passStep
    split
    · next hd => exact h.notify hd
    · exact h
    · refine { h with pass := fun _ hp => ?_ }
      cases hp
      exact fun _ hrv => absurd hrv List.not_mem_nil
    · next pass _ hp =>
      have hqueue := h.pass pass hp
      split
      · next r v rest hq =>
        rw [hq] at hqueue
        refine Sourced.write (m := { m with pass := .running { pass with queue := rest } })
          { h with pass := fun _ hp' => ?_ } _ _ _ (hqueue _ List.mem_cons_self)
        cases hp'
        exact fun rv hrv => hqueue rv (List.mem_cons_of_mem _ hrv)
      · refine { h with pass := fun _ hp' => ?_ }
        cases hp'
        exact Pass.stored_advance _ _ ok hqueue
  | passReordered hp hperm =>
    have hqueue := h.pass _ hp
    refine { h with pass := fun _ hp' => ?_ }
    cases hp'
    exact fun rv hrv => hqueue rv (hperm.mem_iff.mp hrv)
  | _ => exact { h with }

end Sourced

/-- **どの run でも、reconcile が書く値、知らせている途中の値、知らせた値は、その path がある revision で持っていた。登録で
渡した値は、そのような値か、その run で使われた既定値である。** -/
theorem received_values_were_stored (sdk : Sdk) (evs : List WatchEvent) :
    Sourced (evs.filterMap WatchEvent.fallback) (run watchStep (Manager.empty sdk) evs) := by
  have hempty : Sourced (evs.filterMap WatchEvent.fallback) (Manager.empty sdk) :=
    ⟨nofun, nofun, nofun, nofun, nofun, nofun⟩
  have hdefault : ∀ ev ∈ evs, ∀ d ∈ ev.fallback, d ∈ evs.filterMap WatchEvent.fallback :=
    fun ev hev d hd => List.mem_filterMap.mpr ⟨ev, hev, hd⟩
  exact (run_steps_invariant (I := fun m : Manager sdk => ManagerInv m ∧ Sourced _ m)
    (fun m ev hd h => ⟨managerInv_step h.1 ev, h.2.step h.1 hd⟩) ⟨.empty, hempty⟩
    (AlongSteps.of_forall hdefault)).2

end Kms.Client
